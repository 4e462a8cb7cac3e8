import FixWire.Number.Digitwise
import FixWire.Proofs.Number.Digits
import Mathlib.Data.List.DropRight
import Mathlib.Tactic.FieldSimp
import Mathlib.Tactic.Linarith
import Mathlib.Tactic.Ring

/-!
# Decimal literals

A literal is an optional minus sign and digits around at most one point, with at least one digit. It is read if what is
left of its fraction without the zeros at its end has at most eighteen digits and its magnitude, all digits but those
zeros, fits into 64 bits with a sign (`Decimal.isSome_parse_iff`). What is read denotes the number that is written, and
has no zero to spare at the end of its fraction : of the decimals of one number there is only one like that
(`Decimal.Canonical.unique`).
-/

namespace FixWire

/-! ## Digits behind digits -/

namespace Natural

/-- Reading digits behind a number moves the number to the left. -/
theorem foldl_digits (n : Nat) (text : Bytes) :
    text.foldl (fun n b => n * 10 + (b.toNat - 0x30)) n = n * 10 ^ text.length + ofDigits text := by
  induction text using List.reverseRecOn with
  | nil => simp [ofDigits]
  | append_singleton text b ih =>
    rw [ofDigits, List.foldl_append, List.foldl_append, ih, ofDigits]
    simp only [List.foldl_cons, List.foldl_nil, List.length_append, List.length_singleton, Nat.pow_succ]
    ring

/-- Digits behind digits move these to the left. -/
theorem ofDigits_append (front back : Bytes) :
    ofDigits (front ++ back) = ofDigits front * 10 ^ back.length + ofDigits back := by
  rw [ofDigits, List.foldl_append, foldl_digits]
  rfl

@[simp] theorem ofDigits_replicate_zero (n : Nat) : ofDigits (List.replicate n 0x30) = 0 := by
  induction n with
  | zero => rfl
  | succ n ih => rw [List.replicate_succ', ofDigits_append, ih]; rfl

/-! ## Digit by digit -/

/-- A digit is taken if it is one and the number still fits. -/
theorem push?_eq (n : Nat) (b : UInt8) :
    push? n b =
      if isDigit b ∧ n * 10 + (b.toNat - 0x30) < limit then some (n * 10 + (b.toNat - 0x30)) else none := by
  unfold push? fit?
  by_cases hb : isDigit b = true
  · by_cases hn : n * 10 < limit
    · simp [hb, hn]
    · have : ¬ n * 10 + (b.toNat - 0x30) < limit := by omega
      simp [hb, hn, this]
  · simp [hb]

/-- The number read so far never becomes smaller, so checking it after each digit is checking it at the end. -/
theorem foldlM_push? (n : Nat) (text : Bytes) (h : n < limit) :
    text.foldlM push? n =
      if text.all isDigit ∧ n * 10 ^ text.length + ofDigits text < limit then
        some (n * 10 ^ text.length + ofDigits text)
      else none := by
  induction text generalizing n with
  | nil => simp [ofDigits, h]
  | cons b rest ih =>
    have hcons : n * 10 ^ (b :: rest).length + ofDigits (b :: rest) =
        (n * 10 + (b.toNat - 0x30)) * 10 ^ rest.length + ofDigits rest := by
      rw [← foldl_digits, ← foldl_digits, List.foldl_cons]
    rw [List.foldlM_cons, push?_eq, hcons]
    have hle : n * 10 + (b.toNat - 0x30) ≤ (n * 10 + (b.toNat - 0x30)) * 10 ^ rest.length :=
      Nat.le_mul_of_pos_right _ (by positivity)
    by_cases hb : isDigit b = true
    · by_cases hn : n * 10 + (b.toNat - 0x30) < limit
      · rw [if_pos ⟨hb, hn⟩, Option.bind_eq_bind, Option.bind_some, ih _ hn]
        simp [hb]
      · rw [if_neg (fun h => hn h.2), if_neg (fun h => hn (by omega))]
        rfl
    · simp [hb]

end Natural

namespace Decimal

/-! ## The number of a decimal -/

/-- The number that a decimal denotes. -/
def number (d : Decimal) : ℚ :=
  d.value / 10 ^ d.scale

/-- No zero at the end of the fraction could be left out. -/
def Canonical (d : Decimal) : Prop :=
  d.scale = 0 ∨ ¬ 10 ∣ d.value

/-- Of two decimals with the same number the canonical one has the fewer places. -/
theorem scale_le_of_number_eq {d e : Decimal} (hd : d.Canonical) (h : d.number = e.number) : d.scale ≤ e.scale := by
  by_contra hlt
  obtain ⟨k, hk⟩ : ∃ k, d.scale = e.scale + (k + 1) := ⟨d.scale - e.scale - 1, by omega⟩
  have hvalue : d.value = 10 ^ (k + 1) * e.value := by
    unfold number at h
    rw [hk, pow_add] at h
    field_simp at h
    exact_mod_cast h
  -- With a larger scale its value would end with a zero.
  rcases hd with hd | hd
  · omega
  · exact hd ⟨10 ^ k * e.value, by rw [hvalue]; ring⟩

/-- Of the decimals that denote a number, one at most is canonical. -/
theorem Canonical.unique {d e : Decimal} (hd : d.Canonical) (he : e.Canonical) (h : d.number = e.number) : d = e := by
  have hscale : d.scale = e.scale := le_antisymm (scale_le_of_number_eq hd h) (scale_le_of_number_eq he h.symm)
  have hvalue : d.value = e.value := by
    unfold number at h
    rw [hscale] at h
    field_simp at h
    exact_mod_cast h
  cases d
  cases e
  simp_all

/-! ## Zeros at the end -/

/-- A fraction ends with some zeros, which may be none. -/
theorem exists_zeros (fraction : Bytes) :
    ∃ n, fraction = fraction.rdropWhile (· == 0x30) ++ List.replicate n 0x30 := by
  induction fraction using List.reverseRecOn with
  | nil => exact ⟨0, rfl⟩
  | append_singleton front b ih =>
    by_cases hb : b = 0x30
    · obtain ⟨n, hn⟩ := ih
      refine ⟨n + 1, ?_⟩
      rw [List.rdropWhile_concat_pos _ _ _ (by simp [hb]), List.replicate_succ', ← List.append_assoc, ← hn, hb]
    · exact ⟨0, by rw [List.rdropWhile_concat_neg _ _ _ (by simp [hb])]; simp⟩

/-- What is kept of a fraction goes up to its last digit that is not zero. -/
theorem upToLast_eq (fraction : Bytes) : upToLast fraction = fraction.rdropWhile (· == 0x30) := by
  induction fraction using List.reverseRecOn with
  | nil => rfl
  | append_singleton front b ih =>
    rw [upToLast, List.reverse_append, List.reverse_singleton, List.singleton_append, List.findIdx?_cons]
    by_cases hb : b = 0x30
    · rw [List.rdropWhile_concat_pos _ _ _ (by simp [hb]), ← ih, upToLast]
      cases front.reverse.findIdx? (· != 0x30) with
      | none => simp [hb]
      | some zeros => simp [hb]
    · rw [List.rdropWhile_concat_neg _ _ _ (by simp [hb])]
      simp [hb]

/-! ## Literals -/

/-- A point and the digits after it, if there are any. -/
def dotted : Option Bytes → Bytes
  | none => []
  | some fraction => point :: fraction

/-- A decimal as it is written : perhaps a minus sign, digits, and perhaps a point with further digits. There is a digit
in front of the point or after it. -/
structure Literal where
  negative : Bool
  integer : Bytes
  fraction : Option Bytes
  all_digits : (integer ++ fraction.getD []).all Natural.isDigit
  ne_nil : integer ++ fraction.getD [] ≠ []

namespace Literal

variable (t : Literal)

/-- The bytes that are written. -/
def text : Bytes :=
  (if t.negative then [Integer.minus] else []) ++ (t.integer ++ dotted t.fraction)

/-- The digits after the point. -/
def decimals : Bytes :=
  t.fraction.getD []

/-- The digits after the point without the zeros at the end. -/
def significant : Bytes :=
  t.decimals.rdropWhile (· == 0x30)

/-- The digits in front of the point and the significant ones after it, read as a natural number. -/
def magnitude : Nat :=
  Natural.ofDigits (t.integer ++ t.significant)

/-- The number that is written. -/
def number : ℚ :=
  (if t.negative then -1 else 1) *
    (Natural.ofDigits t.integer + Natural.ofDigits t.decimals / 10 ^ t.decimals.length)

/-- There are not too many digits. -/
structure Fits : Prop where
  length_le : t.significant.length ≤ 18
  magnitude_le : t.magnitude ≤ 2 ^ 63 - 1

/-- The decimal with the digits of the literal that matter. -/
def decimal : Decimal :=
  ⟨if t.negative then -(t.magnitude : Int) else t.magnitude, t.significant.length⟩

variable {t}

theorem isDigit_of_mem_integer {b : UInt8} (h : b ∈ t.integer) : Natural.isDigit b = true :=
  List.all_eq_true.1 t.all_digits b (List.mem_append_left _ h)

theorem isDigit_of_mem_decimals {b : UInt8} (h : b ∈ t.decimals) : Natural.isDigit b = true :=
  List.all_eq_true.1 t.all_digits b (List.mem_append_right _ h)

variable (t)

/-- The digits behind the point are the significant ones and some zeros. -/
theorem decimals_eq : ∃ n, t.decimals = t.significant ++ List.replicate n 0x30 :=
  exists_zeros t.decimals

/-- Zeros at the end make the digits larger by as many powers of ten. -/
theorem magnitude_mul_pow :
    ∃ n, t.decimals.length = t.significant.length + n ∧
      Natural.ofDigits (t.integer ++ t.decimals) = t.magnitude * 10 ^ n := by
  obtain ⟨n, hn⟩ := t.decimals_eq
  refine ⟨n, by rw [hn]; simp, ?_⟩
  rw [hn, ← List.append_assoc, Natural.ofDigits_append _ (List.replicate n 0x30), List.length_replicate,
    Natural.ofDigits_replicate_zero]
  rfl

/-- The number of a literal is that of all its digits, moved to the right by as many places as it has decimals. -/
theorem number_eq :
    t.number =
      (if t.negative then -1 else 1) * (Natural.ofDigits (t.integer ++ t.decimals) / 10 ^ t.decimals.length : ℚ) := by
  rw [number, Natural.ofDigits_append]
  push_cast
  field_simp

/-- The decimal of a literal has the number of the literal. -/
theorem number_decimal : t.decimal.number = t.number := by
  obtain ⟨n, hlength, hdigits⟩ := t.magnitude_mul_pow
  rw [number_eq, hdigits, hlength, Decimal.number, decimal, pow_add]
  split <;> (push_cast; field_simp)

/-- The significant decimals end with a digit that is no zero, if there are any. -/
theorem significant_cases :
    t.significant = [] ∨ ∃ front b, t.significant = front ++ [b] ∧ b ≠ 0x30 ∧ Natural.isDigit b = true := by
  rcases List.eq_nil_or_concat t.significant with hnil | ⟨front, b, hb⟩
  · exact .inl hnil
  · rw [List.concat_eq_append] at hb
    have hne : t.significant ≠ [] := by simp [hb]
    have hlast : ¬ (t.significant.getLast hne == 0x30) = true := List.rdropWhile_last_not _ t.decimals hne
    have hmem : b ∈ t.decimals := (List.rdropWhile_prefix _ _).subset (show b ∈ t.significant by simp [hb])
    exact .inr ⟨front, b, hb, by simpa [hb] using hlast, isDigit_of_mem_decimals hmem⟩

/-- The decimal of a literal is canonical. -/
theorem canonical_decimal : t.decimal.Canonical := by
  rcases t.significant_cases with hnil | ⟨front, b, hb, hzero, hdigit⟩
  · exact .inl (by rw [decimal, hnil]; rfl)
  · have hmagnitude : t.magnitude = Natural.ofDigits (t.integer ++ front) * 10 + (b.toNat - 0x30) := by
      rw [magnitude, hb, ← List.append_assoc, Natural.ofDigits_append]
      simp [Natural.ofDigits]
    have hvalue : t.decimal.value.natAbs = t.magnitude := by
      rw [decimal]
      split <;> simp
    have hdigit : 48 < b.toNat ∧ b.toNat ≤ 57 := by
      have hne : b.toNat ≠ 48 := fun h => hzero (UInt8.toNat_inj.1 h)
      have hrange : 48 ≤ b.toNat ∧ b.toNat ≤ 57 := by
        simpa [Natural.isDigit, UInt8.le_iff_toNat_le] using hdigit
      omega
    right
    rw [← Int.natAbs_dvd_natAbs, hvalue, hmagnitude]
    change ¬ 10 ∣ _
    omega

instance : Decidable t.Fits :=
  decidable_of_iff (t.significant.length ≤ 18 ∧ t.magnitude ≤ 2 ^ 63 - 1) ⟨fun h => ⟨h.1, h.2⟩, fun h => ⟨h.1, h.2⟩⟩

end Literal

/-! ## Reading literals -/

/-- Every text is split at its first point. -/
theorem exists_dotted (body : Bytes) : ∃ integer fraction, body = integer ++ dotted fraction ∧ point ∉ integer := by
  induction body with
  | nil => exact ⟨[], none, rfl, by simp⟩
  | cons b rest ih =>
    by_cases hb : b = point
    · exact ⟨[], some rest, by rw [hb]; rfl, by simp⟩
    · obtain ⟨integer, fraction, hrest, hnot⟩ := ih
      exact ⟨b :: integer, fraction, by rw [hrest]; rfl, by simp [hnot, Ne.symm hb]⟩

/-- A text is read in two halves, before and behind its point. -/
theorem parseUnsigned_dotted (negative : Bool) {integer : Bytes} (h : point ∉ integer) (fraction : Option Bytes) :
    parseUnsigned negative (integer ++ dotted fraction) = ofParts negative integer (fraction.getD []) := by
  have hall : ∀ b ∈ integer, (b != point) = true := fun b hb => by
    rw [bne_iff_ne]
    rintro rfl
    exact h hb
  have htake : (integer ++ dotted fraction).takeWhile (· != point) = integer := by
    rw [List.takeWhile_append_of_pos hall]
    cases fraction <;> simp [dotted]
  rw [parseUnsigned, htake]
  cases fraction with
  | none => rw [dotted, List.append_nil, List.drop_eq_nil_of_le (Nat.le_succ _)]; rfl
  | some fraction => simp [dotted]

/-- The halves of a text are what stands before and behind its first point. -/
theorem halves_dotted {integer : Bytes} (h : point ∉ integer) (fraction : Option Bytes) :
    halves (integer ++ dotted fraction) = (integer, fraction.getD []) := by
  have hnone : integer.findIdx? (· == point) = none := by
    rw [List.findIdx?_eq_none_iff]
    intro b hb
    rw [beq_eq_false_iff_ne]
    rintro rfl
    exact h hb
  cases fraction with
  | none => simp [halves, dotted, hnone]
  | some fraction => simp [halves, dotted, List.findIdx?_append, hnone, List.findIdx?_cons]

/-- A text is read without its sign. -/
theorem parse_eq_parseUnsigned (text : Bytes) :
    parse text =
      if text.head? = some Integer.minus then parseUnsigned true text.tail else parseUnsigned false text := by
  cases text with
  | nil => rfl
  | cons b rest => simp [parse]

/-- Reading both halves digit by digit comes to the same as reading them as numbers. -/
theorem ofPartsByDigit_eq (negative : Bool) (integer fraction : Bytes) :
    ofPartsByDigit negative integer fraction = ofParts negative integer fraction := by
  have hlimit : Integer.limit ≤ Natural.limit := by decide
  have htrim : trimZeros fraction = upToLast fraction := (upToLast_eq fraction).symm
  simp only [ofPartsByDigit, ofParts, htrim, Bool.and_eq_true, List.isEmpty_iff,
    Natural.foldlM_push? 0 _ (by decide : 0 < Natural.limit), Nat.zero_mul, Nat.zero_add]
  split
  · rfl
  · by_cases hscale : (upToLast fraction).length ≤ maxScale
    · by_cases hall : (integer ++ upToLast fraction).all Natural.isDigit = true
      · by_cases hfits : Natural.ofDigits (integer ++ upToLast fraction) < Integer.limit
        · have := Nat.lt_of_lt_of_le hfits hlimit
          simp [hscale, hall, hfits, this]
        · by_cases hlong : Natural.ofDigits (integer ++ upToLast fraction) < Natural.limit <;>
            simp [hscale, hall, hfits, hlong]
      · simp [hscale, hall]
    · simp [hscale]

/-- Reading digit by digit gives what all the digits give. -/
theorem parseByDigit_eq (text : Bytes) : parseByDigit text = parse text := by
  have hhalves : ∀ negative body,
      ofPartsByDigit negative (halves body).1 (halves body).2 = parseUnsigned negative body := by
    intro negative body
    obtain ⟨integer, fraction, rfl, hpoint⟩ := exists_dotted body
    rw [halves_dotted hpoint, parseUnsigned_dotted _ hpoint, ofPartsByDigit_eq]
  rw [parse_eq_parseUnsigned, parseByDigit]
  by_cases h : text.head? = some Integer.minus
  · rw [if_pos h, h]
    exact hhalves true text.tail
  · rw [if_neg h, beq_false_of_ne h]
    exact hhalves false text

namespace Literal

variable (t : Literal)

/-- The digits of a literal do not begin with a minus sign. -/
theorem head?_unsigned_ne : (t.integer ++ dotted t.fraction).head? ≠ some Integer.minus := by
  rcases hinteger : t.integer with _ | ⟨b, rest⟩
  · rcases hfraction : t.fraction with _ | fraction
    · exact absurd (by rw [hinteger, hfraction]; rfl) t.ne_nil
    · simp [dotted, point, Integer.minus]
  · have hb : Natural.isDigit b = true := isDigit_of_mem_integer (by rw [hinteger]; exact List.mem_cons_self)
    rw [List.cons_append, List.head?_cons, ne_eq, Option.some.injEq]
    rintro rfl
    exact absurd hb (by decide)

/-- What it takes for the decimal of a literal to fit. -/
theorem fits_iff : t.Fits ↔ t.significant.length ≤ maxScale ∧ t.magnitude < Integer.limit :=
  ⟨fun h => ⟨h.length_le, Nat.lt_of_le_pred (by decide) h.magnitude_le⟩, fun h => ⟨h.1, Nat.le_pred_of_lt h.2⟩⟩

/-- A literal that fits is read as the decimal with its digits, and others are not read. -/
theorem parse_text : parse t.text = if t.Fits then some t.decimal else none := by
  have hpoint : point ∉ t.integer := fun h => absurd (isDigit_of_mem_integer h) (by decide)
  have hunsigned : parse t.text = ofParts t.negative t.integer t.decimals := by
    rw [parse_eq_parseUnsigned, text]
    cases t.negative with
    | true => exact parseUnsigned_dotted true hpoint t.fraction
    | false => exact (if_neg t.head?_unsigned_ne).trans (parseUnsigned_dotted false hpoint t.fraction)
  have hne : ¬ (t.integer = [] ∧ t.decimals = []) := fun h => t.ne_nil (by rw [h.1]; exact h.2)
  have hall : (t.integer ++ t.significant).all Natural.isDigit = true := by
    rw [List.all_append, Bool.and_eq_true, List.all_eq_true, List.all_eq_true]
    exact ⟨fun b => isDigit_of_mem_integer, fun b hb =>
      isDigit_of_mem_decimals ((List.rdropWhile_prefix _ _).subset hb)⟩
  rw [hunsigned, ofParts, if_neg hne]
  by_cases h : t.Fits
  · rw [if_pos h]
    exact if_pos ⟨(t.fits_iff.1 h).1, hall, (t.fits_iff.1 h).2⟩
  · rw [if_neg h]
    exact if_neg fun hparts => h (t.fits_iff.2 ⟨hparts.1, hparts.2.2⟩)

end Literal

/-- The zeros at the end of a fraction are digits as well, though they are left out before digits are looked for. -/
theorem digits_of_ofParts {negative : Bool} {integer fraction : Bytes} {d : Decimal}
    (h : ofParts negative integer fraction = some d) :
    (integer ++ fraction).all Natural.isDigit = true ∧ integer ++ fraction ≠ [] := by
  unfold ofParts at h
  simp only [Option.ite_none_left_eq_some, Option.ite_none_right_eq_some] at h
  obtain ⟨hne, ⟨-, hall, -⟩, -⟩ := h
  obtain ⟨n, hn⟩ := exists_zeros fraction
  refine ⟨?_, by simpa using hne⟩
  rw [hn, ← List.append_assoc, List.all_append]
  exact Bool.and_eq_true_iff.2 ⟨hall, by simp [Natural.isDigit]⟩

/-- Whatever is read is a literal. -/
theorem exists_literal {text : Bytes} {d : Decimal} (h : parse text = some d) : ∃ t : Literal, t.text = text := by
  have hbody : ∀ {negative : Bool} {body : Bytes}, parseUnsigned negative body = some d →
      ∃ t : Literal, t.negative = negative ∧ t.integer ++ dotted t.fraction = body := by
    intro negative body h
    obtain ⟨integer, fraction, rfl, hpoint⟩ := exists_dotted body
    rw [parseUnsigned_dotted _ hpoint] at h
    exact ⟨⟨negative, integer, fraction, (digits_of_ofParts h).1, (digits_of_ofParts h).2⟩, rfl, rfl⟩
  rw [parse_eq_parseUnsigned] at h
  split at h
  next hhead =>
    obtain ⟨t, hnegative, ht⟩ := hbody h
    refine ⟨t, ?_⟩
    rw [Literal.text, hnegative, ht]
    exact List.cons_head?_tail hhead
  next =>
    obtain ⟨t, hnegative, ht⟩ := hbody h
    exact ⟨t, by rw [Literal.text, hnegative, ht]; rfl⟩

/-- What is read : the literals that fit, each as the one canonical decimal of the number that it writes. -/
theorem parse_exact :
    (∀ text, parseByDigit text = parse text) ∧
    (∀ text, (parse text).isSome ↔ ∃ t : Literal, t.text = text ∧ t.Fits) ∧
    (∀ (t : Literal) (d : Decimal), parse t.text = some d →
      d.number = t.number ∧ (d.scale = 0 ∨ ¬ 10 ∣ d.value)) ∧
    ∀ (t u : Literal) (d e : Decimal), parse t.text = some d → parse u.text = some e →
      (d = e ↔ t.number = u.number) := by
  have hread : ∀ {t : Literal} {d : Decimal}, parse t.text = some d → d.number = t.number ∧ d.Canonical := by
    intro t d h
    rw [t.parse_text, Option.ite_none_right_eq_some, Option.some.injEq] at h
    rw [← h.2]
    exact ⟨t.number_decimal, t.canonical_decimal⟩
  refine ⟨parseByDigit_eq, fun text => ⟨fun h => ?_, ?_⟩, fun t d => hread, fun t u d e hd he => ?_⟩
  · obtain ⟨d, hd⟩ := Option.isSome_iff_exists.1 h
    obtain ⟨t, rfl⟩ := exists_literal hd
    rw [t.parse_text, Option.ite_none_right_eq_some] at hd
    exact ⟨t, rfl, hd.1⟩
  · rintro ⟨t, rfl, hfits⟩
    rw [t.parse_text, if_pos hfits]
    rfl
  · obtain ⟨hdn, hdc⟩ := hread hd
    obtain ⟨hen, hec⟩ := hread he
    rw [← hdn, ← hen]
    exact ⟨fun h => by rw [h], hdc.unique hec⟩

/-- The literals `1.10` and `01.1` write one number, and are read as one decimal. -/
theorem parse_exact_trailing_zero :
    ∃ t u : Literal, t.text = [0x31, 0x2e, 0x31, 0x30] ∧ u.text = [0x30, 0x31, 0x2e, 0x31] ∧
      parse t.text = some ⟨11, 1⟩ ∧ parse u.text = some ⟨11, 1⟩ ∧ t.number = u.number :=
  let t : Literal := ⟨false, [0x31], some [0x31, 0x30], by decide, by decide⟩
  let u : Literal := ⟨false, [0x30, 0x31], some [0x31], by decide, by decide⟩
  have ht : parse t.text = some ⟨11, 1⟩ := by decide
  have hu : parse u.text = some ⟨11, 1⟩ := by decide
  ⟨t, u, by decide, by decide, ht, hu, (parse_exact.2.2.2 t u _ _ ht hu).1 rfl⟩

end Decimal

end FixWire
