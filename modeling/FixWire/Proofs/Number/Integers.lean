import FixWire.Number.Stepwise
import FixWire.Proofs.Encoder.Writing
import FixWire.Proofs.Time.Columns
import Mathlib.Data.Nat.Digits.Defs

/-!
# Integers read and written exactly

A number is read from one or more ASCII digits that denote it, if it fits into 64 bits; an integer from a text of this
kind or one behind a minus sign, if it fits into 64 bits with its sign. The checks at every digit come to one at the
end, since the number that has been read never becomes smaller, and the magnitude of the least integer is no exception
to this (`Natural.parseByDigit_eq`, `Integer.parseByDigit_eq`).

The digits of a number are the shortest text that denotes it. A writer puts them over as many bytes as have been
counted, and changes no other byte (`Bytes.Puts`, `Integer.reads_writes`).
-/

namespace FixWire

/-! ## What texts denote -/

/-- The text is one or more ASCII digits, and the number is what they denote, the highest digit first. -/
structure Natural.Denotes (text : Bytes) (n : Nat) : Prop where
  ne_nil : text ≠ []
  all_digits : ∀ b ∈ text, 0x30 ≤ b ∧ b ≤ 0x39
  value : Nat.ofDigits 10 (text.reverse.map fun b => b.toNat - 0x30) = n

/-- The text denotes a natural number, or there is a minus sign in front of one that does. -/
inductive Integer.Denotes : Bytes → Int → Prop
  | unsigned {text : Bytes} {n : Nat} (h : Natural.Denotes text n) : Denotes text n
  | negated {text : Bytes} {n : Nat} (h : Natural.Denotes text n) : Denotes (minus :: text) (-n)

namespace Natural

/-- The number that digits denote, by the powers of ten. -/
theorem ofDigits_eq (text : Bytes) : ofDigits text = Nat.ofDigits 10 (text.reverse.map fun b => b.toNat - 0x30) := by
  induction text using List.reverseRecOn with
  | nil => rfl
  | append_singleton text b ih =>
    rw [ofDigits_append, ih, List.reverse_append, List.reverse_singleton, List.singleton_append, List.map_cons,
      Nat.ofDigits_cons]
    simp only [ofDigits, List.foldl_cons, List.foldl_nil, List.length_singleton, pow_one]
    ring

/-- What it takes for a text to denote a number. -/
theorem denotes_iff {text : Bytes} {n : Nat} :
    Denotes text n ↔ text ≠ [] ∧ text.all isDigit = true ∧ ofDigits text = n := by
  have hall : text.all isDigit = true ↔ ∀ b ∈ text, 0x30 ≤ b ∧ b ≤ 0x39 := by
    simp only [List.all_eq_true, isDigit, Bool.and_eq_true, decide_eq_true_eq]
  rw [hall, ofDigits_eq]
  constructor
  · intro h
    exact ⟨h.ne_nil, h.all_digits, h.value⟩
  · rintro ⟨hne, hdigits, hvalue⟩
    exact ⟨hne, hdigits, hvalue⟩

theorem denotes_digits (n : Nat) : Denotes (digits n) n :=
  denotes_iff.2 ⟨digits_ne_nil n, List.all_eq_true.2 fun _ => isDigit_of_mem_digits, ofDigits_digits n⟩

/-! ## Reading -/

/-- A number is read from the texts that denote it, as far as it fits. -/
theorem parse_eq_some_iff {text : Bytes} {n : Nat} : parse text = some n ↔ Denotes text n ∧ n < limit := by
  rw [denotes_iff, parse]
  constructor
  · intro h
    obtain ⟨⟨hne, hall, hlt⟩, ⟨⟩⟩ := Option.ite_none_right_eq_some.1 h
    exact ⟨⟨hne, hall, rfl⟩, hlt⟩
  · rintro ⟨⟨hne, hall, rfl⟩, hlt⟩
    exact if_pos ⟨hne, hall, hlt⟩

/-- Reading digit by digit, with a check at each, comes to the same as reading the number as a whole. -/
theorem parseByDigit_eq (text : Bytes) : parseByDigit text = parse text := by
  rw [parseByDigit, parse]
  by_cases hne : text = []
  · simp [hne]
  · rw [if_neg (by simpa using hne), foldlM_push? 0 text (by decide), Nat.zero_mul, Nat.zero_add]
    simp [hne]

end Natural

namespace Integer

/-- Behind a minus sign comes the magnitude of a negative number, which may be the limit itself. -/
theorem parse_minus (text : Bytes) :
    parse (minus :: text) = (Natural.parse text).bind fun m => if m ≤ limit then some (-(m : Int)) else none := by
  rw [parse, if_pos rfl]
  cases Natural.parse text <;> rfl

/-- Without a minus sign a number is below the limit. -/
theorem parse_of_head? {text : Bytes} (h : text.head? ≠ some minus) :
    parse text = (Natural.parse text).bind fun m => if m < limit then some (m : Int) else none := by
  cases text with
  | nil => rfl
  | cons b rest =>
    rw [parse, if_neg (by simpa using h)]
    cases Natural.parse (b :: rest) <;> rfl

/-- The text of a natural number does not begin with a minus sign. -/
theorem head?_ne_minus {text : Bytes} {n : Nat} (h : Natural.Denotes text n) : text.head? ≠ some minus := by
  intro hhead
  exact absurd (h.all_digits minus (List.mem_of_head? hhead)).1 (by decide)

/-- An integer is read from the texts that denote it, as far as it fits. -/
theorem parse_eq_some_iff {text : Bytes} {n : Int} :
    parse text = some n ↔ Denotes text n ∧ -(limit : Int) ≤ n ∧ n < limit := by
  have hpos : 0 < limit := by decide
  have hlimit : limit < Natural.limit := by decide
  constructor
  · intro h
    by_cases hhead : text.head? = some minus
    · obtain ⟨rest, rfl⟩ := List.head?_eq_some_iff.1 hhead
      rw [parse_minus] at h
      obtain ⟨m, hm, hsign⟩ := Option.bind_eq_some_iff.1 h
      obtain ⟨hle, ⟨⟩⟩ := Option.ite_none_right_eq_some.1 hsign
      exact ⟨.negated (Natural.parse_eq_some_iff.1 hm).1, by omega, by omega⟩
    · rw [parse_of_head? hhead] at h
      obtain ⟨m, hm, hsign⟩ := Option.bind_eq_some_iff.1 h
      obtain ⟨hlt, ⟨⟩⟩ := Option.ite_none_right_eq_some.1 hsign
      exact ⟨.unsigned (Natural.parse_eq_some_iff.1 hm).1, by omega, by omega⟩
  · rintro ⟨hdenotes, hle, hlt⟩
    cases hdenotes with
    | unsigned hm =>
      rw [parse_of_head? (head?_ne_minus hm), Natural.parse_eq_some_iff.2 ⟨hm, by omega⟩]
      exact if_pos (by omega)
    | negated hm =>
      rw [parse_minus, Natural.parse_eq_some_iff.2 ⟨hm, by omega⟩]
      exact if_pos (by omega)

/-- Reading an integer digit by digit comes to the same as reading it as a whole. -/
theorem parseByDigit_eq (text : Bytes) : parseByDigit text = parse text := by
  rw [parseByDigit]
  simp only [Natural.parseByDigit_eq, Option.bind_eq_bind]
  by_cases hhead : text.head? = some minus
  · obtain ⟨rest, rfl⟩ := List.head?_eq_some_iff.1 hhead
    rw [if_pos hhead, List.tail_cons, parse_minus]
    refine congrArg _ (funext fun m => ?_)
    -- The magnitude of the least integer is allowed behind a minus sign only.
    by_cases hm : m = limit
    · rw [if_pos hm, if_pos hm.le, hm, missing]
    · rw [if_neg hm]
      simp only [Nat.lt_iff_le_and_ne, hm, ne_eq, not_false_eq_true, and_true]
  · rw [if_neg hhead, parse_of_head? hhead]

end Integer

/-! ## The shortest texts -/

namespace Natural

/-- A run of digits is its number in that many digits. -/
theorem padded_ofDigits {text : Bytes} (h : text.all isDigit = true) : padded text.length (ofDigits text) = text := by
  induction text using List.reverseRecOn with
  | nil => rfl
  | append_singleton text b ih =>
    obtain ⟨htext, hb⟩ : text.all isDigit = true ∧ isDigit b = true := by simpa using h
    obtain ⟨d, hd, rfl⟩ : ∃ d, d < 10 ∧ digit d = b := by
      obtain ⟨hle, hge⟩ : 0x30 ≤ b.toNat ∧ b.toNat ≤ 0x39 := by simpa [isDigit, UInt8.le_iff_toNat_le] using hb
      exact ⟨b.toNat - 0x30, by omega, UInt8.toNat_inj.1 (by rw [toNat_digit (by omega)]; omega)⟩
    rw [List.length_append, List.length_singleton, padded, ofDigits_append_digit text hd]
    rw [show (ofDigits text * 10 + d) / 10 = ofDigits text by omega,
      show (ofDigits text * 10 + d) % 10 = d by omega, ih htext]

/-- A number is not padded to as many digits as it has. -/
theorem padded_digitCount (n : Nat) : padded (digitCount n) n = digits n := by
  have hdigits := padded_ofDigits (List.all_eq_true.2 fun b => isDigit_of_mem_digits (n := n) (b := b))
  rwa [length_digits, ofDigits_digits] at hdigits

/-- A number is smaller than ten to as many digits as denote it. -/
theorem Denotes.lt {text : Bytes} {n : Nat} (h : Denotes text n) : n < 10 ^ text.length := by
  obtain ⟨-, hall, rfl⟩ := denotes_iff.1 h
  rw [← padded_ofDigits hall, ofDigits_padded, padded_ofDigits hall]
  exact Nat.mod_lt _ (by positivity)

/-- The digits of a number are the shortest text that denotes it, and the only one of their length. -/
theorem Denotes.shortest {text : Bytes} {n : Nat} (h : Denotes text n) :
    (digits n).length ≤ text.length ∧ (text.length = (digits n).length → text = digits n) := by
  rw [length_digits]
  refine ⟨digitCount_le (List.length_pos_iff.2 h.ne_nil) h.lt, fun hlength => ?_⟩
  obtain ⟨-, hall, rfl⟩ := denotes_iff.1 h
  rw [← padded_digitCount, ← hlength, padded_ofDigits hall]

end Natural

namespace Integer

/-- The text of an integer denotes it. -/
theorem denotes_text (n : Int) : Denotes (text n) n := by
  rw [text, sign]
  by_cases hn : n < 0
  · have hdenotes := Denotes.negated (Natural.denotes_digits n.natAbs)
    rw [if_pos hn]
    rwa [show -(n.natAbs : Int) = n by omega] at hdenotes
  · have hdenotes := Denotes.unsigned (Natural.denotes_digits n.natAbs)
    rw [if_neg hn]
    rwa [show (n.natAbs : Int) = n by omega] at hdenotes

/-- No text that denotes an integer is shorter than its text, and no other one is as short. -/
theorem Denotes.shortest {other : Bytes} {n : Int} (h : Denotes other n) :
    (text n).length ≤ other.length ∧ (other.length = (text n).length → other = text n) := by
  cases h with
  | unsigned h =>
    rw [text_natCast]
    exact h.shortest
  | @negated rest m h =>
    rcases Nat.eq_zero_or_pos m with rfl | hm
    · -- Zero has a text without a sign, which is one byte long.
      have hpos := List.length_pos_iff.2 h.ne_nil
      have hzero : (text (-((0 : Nat) : Int))).length = 1 := by decide +kernel
      rw [hzero, List.length_cons]
      exact ⟨by omega, fun hlength => by omega⟩
    · have htext : text (-(m : Int)) = minus :: Natural.digits m := by
        rw [text, sign, if_pos (by omega), Int.natAbs_neg, Int.natAbs_natCast]
        rfl
      rw [htext, List.length_cons, List.length_cons]
      exact ⟨Nat.succ_le_succ h.shortest.1, fun hlength => congrArg _ (h.shortest.2 (Nat.succ.inj hlength))⟩

end Integer

/-! ## Counting -/

namespace Natural

/-- The number of digits goes down by one when the last digit is dropped. -/
theorem digitCount_eq (n : Nat) : digitCount n = if n < 10 then 1 else digitCount (n / 10) + 1 := by
  rw [digitCount]

/-- Counting by division counts the digits of what is left. -/
theorem countFrom_eq (length remaining : Nat) :
    countFrom length remaining = if remaining = 0 then length else length + digitCount remaining := by
  induction remaining using Nat.strongRecOn generalizing length with
  | _ remaining ih =>
    rw [countFrom]
    by_cases hzero : remaining = 0
    · rw [if_pos hzero, if_pos hzero]
    · rw [if_neg hzero, if_neg hzero, ih (remaining / 10) (by omega), digitCount_eq remaining]
      split_ifs <;> omega

theorem countDigits_eq (n : Nat) : countDigits n = digitCount n := by
  rw [countDigits, countFrom_eq, digitCount_eq n]
  split_ifs <;> omega

end Natural

/-- The number of bytes of an integer, counted before it is written, is that of its text. -/
theorem Integer.countBytes_eq (n : Int) : countBytes n = textLength n := by
  rw [countBytes, textLength, Natural.countDigits_eq]

/-! ## Writing -/

namespace Bytes

variable {a b : Bytes} {put put' : Bytes → Nat → Option (Bytes × Nat)}

/-- The text is written over the bytes from an offset on, and its length is told, wherever it ends inside the buffer. -/
def Puts (put : Bytes → Nat → Option (Bytes × Nat)) (text : Bytes) : Prop :=
  ∀ bytes offset, put bytes offset =
    if offset + text.length ≤ bytes.length then some (bytes.overwrite offset text, text.length) else none

/-- Two texts one after the other. -/
theorem Puts.seq (h : Puts put a) (h' : Puts put' b) :
    Puts (fun bytes offset => do
      let (bytes, n) ← put bytes offset
      let (bytes, m) ← put' bytes (offset + n)
      pure (bytes, n + m)) (a ++ b) := by
  intro bytes offset
  simp only [h bytes offset, Option.bind_eq_bind, List.length_append]
  by_cases ha : offset + a.length ≤ bytes.length
  · have hlength : (bytes.overwrite offset a).length = bytes.length := length_overwrite (by omega)
    rw [if_pos ha, Option.bind_some]
    simp only [h' _ _, hlength, overwrite_append (show offset ≤ bytes.length by omega), Nat.add_assoc]
    split <;> rfl
  · rw [if_neg ha, if_neg (by omega)]
    rfl

theorem filled_take (bytes : Bytes) (offset : Nat) : bytes.filled (bytes.take offset) = bytes := by
  rw [filled, List.length_take]
  rcases Nat.le_total offset bytes.length with h | h
  · rw [Nat.min_eq_left h, List.take_append_drop]
  · rw [Nat.min_eq_right h, List.take_of_length_le h, List.drop_length, List.append_nil]

/-- A byte is put if there is room for it. -/
theorem puts_byte (x : UInt8) : Puts (putByte? · · x) [x] := by
  intro bytes offset
  change (bytes.put? offset x).map (·, 1) = if offset + 1 ≤ bytes.length then _ else none
  by_cases h : offset < bytes.length
  · have htake : (bytes.take offset).length = offset := by rw [List.length_take, Nat.min_eq_left h.le]
    have hput := put?_filled htake h x
    rw [← overwrite_filled htake, filled_take] at hput
    rw [hput]
    exact (if_pos h).symm
  · rw [put?, if_neg h]
    exact (if_neg h).symm

theorem puts_slice (source : Bytes) : Puts (putSlice? · · source) source :=
  fun _ _ => rfl

/-- A padded number is put as wide as it has to be. -/
theorem puts_padded (width n : Nat) :
    Puts (fun bytes offset => (bytes.putPadded? offset (offset + width) n).map (·, width))
      (Natural.padded width n) := by
  intro bytes offset
  rw [Natural.length_padded]
  dsimp only
  by_cases h : offset + width ≤ bytes.length
  · have htake : (bytes.take offset).length = offset := by rw [List.length_take, Nat.min_eq_left (by omega)]
    have hput := putPadded?_filled htake (Nat.le_add_right offset width) h n
    rw [← overwrite_filled htake, filled_take, Nat.add_sub_cancel_left] at hput
    rw [hput, if_pos h]
    rfl
  · rw [putPadded?, if_neg (by omega), if_neg h]
    rfl

/-- A natural number is put digit by digit. -/
theorem puts_natural (n : Nat) : Puts (putNatural? · · n) (Natural.digits n) := by
  have h := puts_padded (Natural.countDigits n) n
  rw [Natural.countDigits_eq, Natural.padded_digitCount] at h
  intro bytes offset
  unfold putNatural?
  rw [Natural.countDigits_eq]
  exact h bytes offset

/-- An integer is put with its sign. -/
theorem puts_int (n : Int) : Puts (putInt? · · n) (Integer.text n) := by
  intro bytes offset
  change bytes.putInt? offset n = _
  rw [putInt?, Integer.text, Integer.sign]
  by_cases hn : n < 0
  · rw [if_pos hn, if_pos hn, ← (puts_byte Integer.minus).seq (puts_natural n.natAbs) bytes offset]
    simp only [puts_byte Integer.minus bytes offset, List.length_singleton]
    split <;> rfl
  · rw [if_neg hn, if_neg hn]
    exact puts_natural n.natAbs bytes offset

/-- All three digits are written, the zeros in front included. -/
theorem puts_checksum (sum : UInt8) : Puts (putChecksum? · · sum) (checksumText sum) := by
  have htext : checksumText sum =
      [Natural.digit (sum.toNat / 100)] ++
        ([Natural.digit (sum.toNat / 10 % 10)] ++ [Natural.digit (sum.toNat % 10)]) := by
    have hsum := sum.toNat_lt
    simp only [checksumText, Natural.padded, List.nil_append, List.cons_append, Nat.div_div_eq_div_mul]
    rw [Nat.mod_eq_of_lt (show sum.toNat / (10 * 10) < 10 by omega)]
  intro bytes offset
  rw [htext, ← (puts_byte _).seq ((puts_byte _).seq (puts_byte _)) bytes offset]
  simp only [putChecksum?, putByte?]
  cases bytes.put? offset _ with
  | none => rfl
  | some bytes =>
    simp only [Option.bind_eq_bind, Option.bind_some, Option.map_some]
    cases bytes.put? (offset + 1) _ with
    | none => rfl
    | some bytes =>
      simp only [Option.bind_some, Option.map_some, Nat.add_assoc]
      cases bytes.put? (offset + 2) _ <;> rfl

end Bytes

/-! ## Numbers of 64 bits -/

/-- A number is written as its shortest text, which has the announced length and is read as the number. Nothing but the
bytes that it takes up changes, and it is refused only where it would end outside the buffer. -/
structure WritesShortest {α : Type} (Denotes : Bytes → α → Prop) (parse : Bytes → Option α)
    (put : Bytes → Nat → α → Option (Bytes × Nat)) (n : α) (length : Nat) (text : Bytes) : Prop where
  denotes : Denotes text n
  shortest : ∀ other, Denotes other n → text.length ≤ other.length ∧ (other.length = text.length → other = text)
  length_eq : text.length = length
  length_le : length ≤ 20
  parse_eq : parse text = some n
  put_eq : ∀ bytes offset, put bytes offset n =
    if offset + length ≤ bytes.length then
      some (bytes.take offset ++ text ++ bytes.drop (offset + length), length)
    else none

/-- Natural numbers of 64 bits are written as their shortest texts. -/
theorem Natural.writesShortest {n : Nat} (h : n < limit) :
    WritesShortest Denotes parse Bytes.putNatural? n (countDigits n) (digits n) where
  denotes := denotes_digits n
  shortest _ h := h.shortest
  length_eq := by rw [length_digits, countDigits_eq]
  length_le := by
    rw [countDigits_eq]
    exact digitCount_le (by decide) (h.trans (by decide))
  parse_eq := parse_eq_some_iff.2 ⟨denotes_digits n, h⟩
  put_eq bytes offset := by
    rw [countDigits_eq, ← length_digits]
    exact Bytes.puts_natural n bytes offset

/-- So are integers of 64 bits. -/
theorem Integer.writesShortest {n : Int} (hle : -(limit : Int) ≤ n) (hlt : n < limit) :
    WritesShortest Denotes parse Bytes.putInt? n (countBytes n) (text n) where
  denotes := denotes_text n
  shortest _ h := h.shortest
  length_eq := by rw [length_text, countBytes_eq]
  length_le := by
    have hlimit : limit < 10 ^ 19 := by decide
    have hcount : Natural.digitCount n.natAbs ≤ 19 := Natural.digitCount_le (by decide) (by omega)
    rw [countBytes_eq, textLength]
    split_ifs <;> omega
  parse_eq := parse_eq_some_iff.2 ⟨denotes_text n, hle, hlt⟩
  put_eq bytes offset := by
    rw [countBytes_eq, ← length_text]
    exact Bytes.puts_int n bytes offset

/-- Exactly the texts that denote a number of 64 bits are read, as that number, and every number of 64 bits is written
as the shortest of its texts. -/
theorem Integer.reads_writes :
    (∀ text, Natural.parseByDigit text = Natural.parse text ∧
      ∀ n, Natural.parse text = some n ↔ Natural.Denotes text n ∧ n < 2 ^ 64) ∧
    (∀ text, parseByDigit text = parse text ∧
      ∀ n, parse text = some n ↔ Denotes text n ∧ -2 ^ 63 ≤ n ∧ n < 2 ^ 63) ∧
    (∀ n : UInt64, WritesShortest Natural.Denotes Natural.parse Bytes.putNatural? n.toNat
      (Natural.countDigits n.toNat) (Natural.digits n.toNat)) ∧
    ∀ n : Int64, WritesShortest Denotes parse Bytes.putInt? n.toInt (countBytes n.toInt) (text n.toInt) := by
  have hlimit : (limit : Int) = 2 ^ 63 := by decide
  refine ⟨fun text => ⟨Natural.parseByDigit_eq text, fun n => Natural.parse_eq_some_iff⟩,
    fun text => ⟨parseByDigit_eq text, fun n => ?_⟩, fun n => Natural.writesShortest n.toNat_lt, fun n => ?_⟩
  · rw [parse_eq_some_iff, hlimit]
  · exact writesShortest (hlimit ▸ n.le_toInt) (hlimit ▸ n.toInt_lt)

/-- The least integer is read although its magnitude is that of no positive one. -/
example : Integer.parse (Bytes.ofString "-9223372036854775808") = some Integer.missing ∧
    Integer.parse (Bytes.ofString "9223372036854775808") = none := by
  decide +kernel

end FixWire
