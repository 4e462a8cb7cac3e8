import FixWire.Cursor
import Mathlib.Tactic.Common

/-!
# Decimal digits read back

The digits of a number are digits, as many as `digitCount` tells, and denote the number (`parse_digits`). The
digits of a number from ten on are those of its tenth, and one more : all that is said here about digits is by
induction along that equation.
-/

namespace FixWire

namespace Natural

/-! ## One digit -/

theorem toNat_digit {n : Nat} (h : n < 10) : (digit n).toNat = 0x30 + n := by
  have hn : n.digitChar.toNat = 48 + n := Nat.toNat_digitChar_of_lt_ten h
  change n.digitChar.toNat % 256 = _
  omega

theorem isDigit_digit {n : Nat} (h : n < 10) : isDigit (digit n) = true := by
  have := toNat_digit h
  simp only [isDigit, Bool.and_eq_true, decide_eq_true_eq, UInt8.le_iff_toNat_le, this]
  change 48 ≤ 48 + n ∧ 48 + n ≤ 57
  omega

/-! ## All digits -/

theorem digits_of_lt {n : Nat} (h : n < 10) : digits n = [digit n] := by
  rw [digits, Nat.toDigits_of_lt_base h]
  rfl

/-- The last digit of a number is its remainder, the others are those of its quotient. -/
theorem digits_of_le {n : Nat} (h : 10 ≤ n) : digits n = digits (n / 10) ++ [digit (n % 10)] := by
  rw [digits, Nat.toDigits_of_base_le (by omega) h, List.map_append]
  rfl

/-- A number has as many digits as are reserved for it. -/
theorem length_digits (n : Nat) : (digits n).length = digitCount n := by
  induction n using Nat.strongRecOn with
  | _ n ih =>
    rw [digitCount]
    by_cases h : n < 10
    · rw [if_pos h, digits_of_lt h, List.length_singleton]
    · rw [if_neg h, digits_of_le (by omega), List.length_append, ih (n / 10) (by omega), List.length_singleton]

theorem digits_ne_nil (n : Nat) : digits n ≠ [] := by
  by_cases h : n < 10
  · simp [digits_of_lt h]
  · simp [digits_of_le (Nat.le_of_not_lt h)]

theorem isDigit_of_mem_digits {n : Nat} {b : UInt8} (h : b ∈ digits n) : isDigit b = true := by
  induction n using Nat.strongRecOn with
  | _ n ih =>
    by_cases hn : n < 10
    · rw [digits_of_lt hn, List.mem_singleton] at h
      exact h ▸ isDigit_digit hn
    · rw [digits_of_le (by omega), List.mem_append, List.mem_singleton] at h
      rcases h with h | rfl
      · exact ih (n / 10) (by omega) h
      · exact isDigit_digit (Nat.mod_lt n (by omega))

/-- One more digit makes ten times the number and the digit. -/
theorem ofDigits_append_digit (text : Bytes) {n : Nat} (h : n < 10) :
    ofDigits (text ++ [digit n]) = ofDigits text * 10 + n := by
  rw [ofDigits, List.foldl_append, List.foldl_cons, List.foldl_nil, toNat_digit h, Nat.add_sub_cancel_left]
  rfl

/-- Reading the digits of a number gives the number. -/
theorem ofDigits_digits (n : Nat) : ofDigits (digits n) = n := by
  induction n using Nat.strongRecOn with
  | _ n ih =>
    by_cases h : n < 10
    · rw [digits_of_lt h]
      simpa [ofDigits] using ofDigits_append_digit [] h
    · rw [digits_of_le (by omega), ofDigits_append_digit _ (Nat.mod_lt n (by omega)), ih (n / 10) (by omega)]
      omega

/-- The digits of a number that fits into 64 bits denote that number. -/
theorem parse_digits {n : Nat} (h : n < limit) : parse (digits n) = some n := by
  have hall : (digits n).all isDigit = true := List.all_eq_true.2 fun b hb => isDigit_of_mem_digits hb
  rw [parse, if_pos ⟨digits_ne_nil n, hall, by rwa [ofDigits_digits]⟩, ofDigits_digits]

/-! ## A fixed number of digits -/

/-- A padded number has exactly the digits it is padded to. -/
theorem length_padded : ∀ width n : Nat, (padded width n).length = width
  | 0, _ => rfl
  | width + 1, n => by
    rw [padded, List.length_append, length_padded width, List.length_singleton]

theorem isDigit_of_mem_padded : ∀ {width n : Nat} {b : UInt8}, b ∈ padded width n → isDigit b = true
  | 0, _, _, h => by simp [padded] at h
  | width + 1, n, b, h => by
    rw [padded, List.mem_append, List.mem_singleton] at h
    rcases h with h | rfl
    · exact isDigit_of_mem_padded h
    · exact isDigit_digit (Nat.mod_lt n (by omega))

end Natural

/-! ## Digits and the bytes around them -/

theorem equalsSign_notMem_digits (n : Nat) : equalsSign ∉ Natural.digits n := fun h =>
  absurd (Natural.isDigit_of_mem_digits h) (by decide)

theorem soh_notMem_digits (n : Nat) : soh ∉ Natural.digits n := fun h =>
  absurd (Natural.isDigit_of_mem_digits h) (by decide)

theorem soh_notMem_checksumText (sum : UInt8) : soh ∉ checksumText sum := fun h =>
  absurd (Natural.isDigit_of_mem_padded h) (by decide)

theorem Integer.text_natCast (n : Nat) : Integer.text n = Natural.digits n := by
  rw [Integer.text, Integer.sign, if_neg (by omega), List.nil_append, Int.natAbs_natCast]

/-- An integer has as many bytes as are reserved for it. -/
theorem Integer.length_text (n : Int) : (Integer.text n).length = Integer.textLength n := by
  rw [Integer.text, Integer.textLength, Integer.sign, List.length_append, Natural.length_digits]
  split_ifs <;> rfl

/-- A field has as many bytes as are reserved for it. -/
theorem length_fieldBytes (tag : Tag) (value : Bytes) :
    (fieldBytes tag value).length = fieldLength tag value.length := by
  simp [fieldBytes, fieldLength, Natural.length_digits, Nat.add_assoc, Nat.add_comm 1]

end FixWire
