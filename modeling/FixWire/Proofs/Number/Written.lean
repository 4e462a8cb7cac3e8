import FixWire.Proofs.Number.Literals

/-!
# Decimals written and read back

The text of a decimal is written from the right into exactly the bytes that it is measured to have (`encodeAt_eq`). It
is a literal of the number, and is read as the decimal without the zeros at the end of its fraction, unless the unscaled
value is the least of 64 bits : its magnitude has no place among the values that are read (`parse_encodeAt`).
-/

namespace FixWire

namespace Natural

/-! ## The last digits of a number -/

/-- A padded number denotes what is left of it. -/
theorem ofDigits_padded (width n : Nat) : ofDigits (padded width n) = n % 10 ^ width := by
  induction width generalizing n with
  | zero => rw [padded, pow_zero, Nat.mod_one]; rfl
  | succ width ih =>
    rw [padded, ofDigits_append_digit _ (Nat.mod_lt n (by omega)), ih, pow_succ', Nat.mod_mul]
    ring

/-- The digits of a number are those of what is left without its last digits, and these. -/
theorem digits_padded (width n : Nat) :
    List.replicate (width + 1 - (digits n).length) 0x30 ++ digits n = digits (n / 10 ^ width) ++ padded width n := by
  induction width generalizing n with
  | zero =>
    have := List.length_pos_iff.2 (digits_ne_nil n)
    rw [show 0 + 1 - (digits n).length = 0 by omega, pow_zero, Nat.div_one, padded, List.append_nil]
    rfl
  | succ width ih =>
    rw [padded, ← List.append_assoc, pow_succ', ← Nat.div_div_eq_div_mul, ← ih]
    by_cases h : n < 10
    · rw [Nat.div_eq_of_lt h, Nat.mod_eq_of_lt h, digits_of_lt h, digits_of_lt (by omega : 0 < 10)]
      simp only [List.length_singleton, Nat.add_sub_cancel]
      rw [List.replicate_succ']
      rfl
    · rw [digits_of_le (by omega), List.length_append, List.length_singleton, Nat.add_sub_add_right, List.append_assoc]

/-- A number below a power of ten has at most as many digits. -/
theorem digitCount_le {n width : Nat} (hwidth : 0 < width) (h : n < 10 ^ width) : digitCount n ≤ width := by
  induction width generalizing n with
  | zero => omega
  | succ width ih =>
    rw [digitCount]
    split
    · omega
    next hn =>
      have hlt : n / 10 < 10 ^ width := by
        rw [pow_succ'] at h
        omega
      have hpos : 0 < width := by
        by_contra hzero
        rw [show width = 0 by omega, pow_zero] at hlt
        omega
      exact Nat.succ_le_succ (ih hpos hlt)

end Natural

namespace Decimal

/-! ## The text of a decimal -/

/-- The digits of a decimal are those of its whole part and as many as it has places. -/
theorem paddedDigits_eq (d : Decimal) :
    d.paddedDigits = Natural.digits (d.value.natAbs / 10 ^ d.scale) ++ Natural.padded d.scale d.value.natAbs :=
  Natural.digits_padded d.scale d.value.natAbs

/-- The text of a decimal : sign, whole part, and behind a point as many digits as it has places. -/
theorem text_eq (d : Decimal) :
    d.text = Integer.sign d.value ++ Natural.digits (d.value.natAbs / 10 ^ d.scale) ++
      if d.scale = 0 then [] else point :: Natural.padded d.scale d.value.natAbs := by
  have hlength : d.paddedDigits.length - d.scale = (Natural.digits (d.value.natAbs / 10 ^ d.scale)).length := by
    rw [paddedDigits_eq, List.length_append, Natural.length_padded, Nat.add_sub_cancel]
  unfold text
  simp only [hlength]
  rw [paddedDigits_eq, List.take_left, List.drop_left]

/-- The announced length of a decimal is that of its text. -/
theorem length_text (d : Decimal) : d.text.length = d.textLength := by
  have hdigits := congrArg List.length (Natural.digits_padded d.scale d.value.natAbs)
  simp only [List.length_append, List.length_replicate, Natural.length_digits, Natural.length_padded] at hdigits
  have hsign : (Integer.sign d.value).length = if d.value < 0 then 1 else 0 := by
    rw [Integer.sign]
    split <;> rfl
  rw [text_eq, textLength, List.length_append, List.length_append, hsign, Natural.length_digits]
  by_cases hscale : d.scale = 0
  · simp only [hscale, if_true, List.length_nil, pow_zero, Nat.div_one, Nat.add_zero]
  · simp only [hscale, if_false, List.length_cons, Natural.length_padded]
    split_ifs <;> omega

/-- No decimal of 64 bits and at most as many places as allowed is longer than the longest text. -/
theorem textLength_le {d : Decimal} (hvalue : d.value.natAbs ≤ 2 ^ 63) (hscale : d.scale ≤ maxScale) :
    d.textLength ≤ maxLength := by
  have hcount : Natural.digitCount d.value.natAbs ≤ 19 := Natural.digitCount_le (by decide) (by omega)
  have hscale' : d.scale ≤ 18 := hscale
  change d.textLength ≤ 21
  rw [textLength]
  split_ifs <;> omega

/-! ## Its literal -/

/-- The literal that is the text of a decimal. -/
def literal (d : Decimal) : Literal where
  negative := d.value < 0
  integer := Natural.digits (d.value.natAbs / 10 ^ d.scale)
  fraction := if d.scale = 0 then none else some (Natural.padded d.scale d.value.natAbs)
  all_digits := by
    rw [List.all_append, Bool.and_eq_true, List.all_eq_true, List.all_eq_true]
    refine ⟨fun b => Natural.isDigit_of_mem_digits, fun b hb => ?_⟩
    split at hb
    · exact absurd hb List.not_mem_nil
    · exact Natural.isDigit_of_mem_padded hb
  ne_nil := fun h => Natural.digits_ne_nil _ (List.append_eq_nil_iff.1 h).1

variable (d : Decimal)

/-- The text of the literal of a decimal is that of the decimal. -/
theorem text_literal : d.literal.text = d.text := by
  rw [text_eq, Literal.text, literal, Integer.sign, List.append_assoc]
  split <;> simp_all [dotted]

/-- The digits behind the point are as many as the decimal has places. -/
theorem decimals_literal : d.literal.decimals = Natural.padded d.scale d.value.natAbs := by
  change (if d.scale = 0 then none else some _).getD [] = _
  split
  next h => rw [h]; rfl
  next => rfl

/-- The digits of the literal denote the unscaled value. -/
theorem ofDigits_literal : Natural.ofDigits (d.literal.integer ++ d.literal.decimals) = d.value.natAbs := by
  rw [Natural.ofDigits_append, decimals_literal, Natural.length_padded, Natural.ofDigits_padded, literal,
    Natural.ofDigits_digits]
  exact Nat.div_add_mod' _ _

/-- The literal denotes the number of the decimal. -/
theorem number_literal : d.literal.number = d.number := by
  have hvalue : (d.value : ℚ) = (if d.literal.negative then -1 else 1) * (d.value.natAbs : ℚ) := by
    change _ = (if decide (d.value < 0) = true then _ else _) * _
    rw [Nat.cast_natAbs]
    by_cases h : d.value < 0
    · simp [h, abs_of_neg h]
    · simp [h, abs_of_nonneg (not_lt.1 h)]
  rw [Literal.number_eq, ofDigits_literal, decimals_literal, Natural.length_padded, number, hvalue, mul_div_assoc]

/-- All texts fit but those of the least value, whose magnitude is one too large. -/
theorem fits_literal_iff (hvalue : d.value.natAbs ≤ 2 ^ 63) (hscale : d.scale ≤ maxScale) :
    d.literal.Fits ↔ d.value.natAbs ≠ 2 ^ 63 := by
  obtain ⟨n, hlength, hdigits⟩ := d.literal.magnitude_mul_pow
  rw [ofDigits_literal] at hdigits
  rw [decimals_literal, Natural.length_padded] at hlength
  have hsignificant : d.literal.significant.length ≤ 18 := by
    change d.scale ≤ 18 at hscale
    omega
  refine ⟨fun h heq => ?_, fun h => ⟨hsignificant, ?_⟩⟩
  · -- The value 2 ^ 63 does not end with a zero, so no digit of it is left out.
    rw [heq] at hdigits
    rcases n with _ | n
    · have := h.magnitude_le
      omega
    · have hdvd : 10 ∣ 2 ^ 63 := ⟨d.literal.magnitude * 10 ^ n, by rw [hdigits]; ring⟩
      exact absurd hdvd (by decide)
  · have := Nat.le_mul_of_pos_right d.literal.magnitude (show 0 < 10 ^ n by positivity)
    omega

/-! ## Zeros that can be left out -/

/-- The decimal `value / 10 ^ scale` without the zeros at the end of its fraction. -/
def stripped : Int → Nat → Decimal
  | value, 0 => ⟨value, 0⟩
  | value, scale + 1 => if value % 10 = 0 then stripped (value / 10) scale else ⟨value, scale + 1⟩

/-- The decimal without the zeros at the end of its fraction. -/
def reduced (d : Decimal) : Decimal :=
  stripped d.value d.scale

/-- Without zeros at its end a decimal is canonical. -/
theorem canonical_stripped (value : Int) (scale : Nat) : (stripped value scale).Canonical := by
  induction scale generalizing value with
  | zero => exact .inl rfl
  | succ scale ih =>
    rw [stripped]
    by_cases h : value % 10 = 0
    · rw [if_pos h]
      exact ih _
    · rw [if_neg h]
      exact .inr fun hdvd => h (Int.emod_eq_zero_of_dvd hdvd)

/-- Leaving out zeros at the end keeps the number. -/
theorem number_stripped (value : Int) (scale : Nat) : (stripped value scale).number = value / 10 ^ scale := by
  induction scale generalizing value with
  | zero => rfl
  | succ scale ih =>
    rw [stripped]
    by_cases h : value % 10 = 0
    · obtain ⟨tenth, rfl⟩ : 10 ∣ value := Int.dvd_of_emod_eq_zero h
      rw [if_pos h, ih, Int.mul_ediv_cancel_left _ (by decide), pow_succ]
      push_cast
      field_simp
    · rw [if_neg h]
      rfl

/-! ## Writing from the right -/

namespace Leftward

/-- What has been written, behind the bytes that have not been. -/
def behind (front written : Bytes) : Leftward :=
  ⟨front ++ written, front.length⟩

/-- A byte is put just before what has been written. -/
theorem put?_behind (front : Bytes) (x b : UInt8) (written : Bytes) :
    (behind (front ++ [x]) written).put? b = some (behind front (b :: written)) := by
  simp [put?, behind]

/-- Room for one more byte has a last byte. -/
theorem exists_last {room : Bytes} {n : Nat} (h : room.length = n + 1) :
    ∃ front x, room = front ++ [x] ∧ front.length = n := by
  rcases List.eq_nil_or_concat room with rfl | ⟨front, x, rfl⟩
  · cases h
  · exact ⟨front, x, List.concat_eq_append, by simpa using h⟩

/-- The last digits are put from the right. -/
theorem putLow?_behind {width : Nat} {room : Bytes} (hroom : room.length = width) (n : Nat) (front written : Bytes) :
    (behind (front ++ room) written).putLow? width n =
      some (behind front (Natural.padded width n ++ written), n / 10 ^ width) := by
  induction width generalizing room n written with
  | zero =>
    rw [List.eq_nil_of_length_eq_zero hroom, List.append_nil, pow_zero, Nat.div_one]
    rfl
  | succ width ih =>
    obtain ⟨room, x, rfl, hlength⟩ := exists_last hroom
    rw [putLow?, ← List.append_assoc, put?_behind, Option.bind_eq_bind, Option.bind_some, ih hlength, Natural.padded,
      pow_succ', Nat.div_div_eq_div_mul, List.append_assoc]
    rfl

/-- All digits are put from the right. -/
theorem putAll?_behind {n : Nat} {room : Bytes} (hroom : room.length = Natural.digitCount n) (front written : Bytes) :
    (behind (front ++ room) written).putAll? n = some (behind front (Natural.digits n ++ written)) := by
  induction n using Nat.strongRecOn generalizing room written with
  | _ n ih =>
    rw [Natural.digitCount] at hroom
    rw [putAll?]
    by_cases h : n < 10
    · rw [if_pos h] at hroom
      obtain ⟨x, rfl⟩ := List.length_eq_one_iff.1 hroom
      rw [put?_behind, Option.bind_eq_bind, Option.bind_some, if_pos (Nat.div_eq_of_lt h), Nat.mod_eq_of_lt h,
        Natural.digits_of_lt h]
      rfl
    · rw [if_neg h] at hroom
      obtain ⟨room, x, rfl, hlength⟩ := exists_last hroom
      rw [← List.append_assoc, put?_behind, Option.bind_eq_bind, Option.bind_some, if_neg (by omega),
        ih _ (by omega) hlength, Natural.digits_of_le (show 10 ≤ n by omega), List.append_assoc]
      rfl

/-- The sign is put in front, where there is room for it. -/
theorem putSign?_behind {n : Int} {room : Bytes} (hroom : room.length = (Integer.sign n).length) (written : Bytes) :
    (behind room written).putSign? n = some (behind [] (Integer.sign n ++ written)) := by
  unfold putSign? Integer.sign at *
  by_cases h : n < 0
  · rw [if_pos h] at hroom
    obtain ⟨x, rfl⟩ := List.length_eq_one_iff.1 hroom
    rw [if_pos h, if_pos h]
    exact put?_behind [] x Integer.minus written
  · rw [if_neg h] at hroom
    rw [if_neg h, if_neg h, List.eq_nil_of_length_eq_zero hroom]
    rfl

/-- Room for two numbers can be cut into rooms for each. -/
theorem exists_parts {room : Bytes} {m n : Nat} (h : room.length = m + n) :
    ∃ front back, room = front ++ back ∧ front.length = m ∧ back.length = n :=
  ⟨room.take m, room.drop m, (List.take_append_drop m room).symm, by simp; omega, by simp; omega⟩

/-- All that is written is the text. -/
theorem putDecimal?_behind {d : Decimal} {room : Bytes} (hroom : room.length = d.textLength) :
    (behind room []).putDecimal? d = some (behind [] d.text) := by
  rw [← length_text, text_eq, List.length_append] at hroom
  obtain ⟨room, tail, rfl, hroom, htail⟩ := exists_parts hroom
  rw [List.length_append] at hroom
  obtain ⟨front, middle, rfl, hfront, hmiddle⟩ := exists_parts hroom
  rw [Natural.length_digits] at hmiddle
  rw [putDecimal?, text_eq]
  by_cases hscale : d.scale = 0
  · rw [if_pos hscale, List.length_nil] at htail
    rw [hscale, pow_zero, Nat.div_one] at hmiddle
    rw [List.eq_nil_of_length_eq_zero htail, hscale, if_neg (lt_irrefl 0)]
    simp [putAll?_behind hmiddle, putSign?_behind hfront]
  · -- The room is that of the sign, of the digits, of the point and of the fraction.
    rw [if_neg hscale, List.length_cons, Natural.length_padded] at htail
    obtain ⟨x, tail, rfl⟩ := List.exists_cons_of_length_eq_add_one htail
    have hlow := putLow?_behind (by simpa using htail) d.value.natAbs (front ++ middle ++ [x]) []
    rw [if_pos (by omega), show front ++ middle ++ x :: tail = front ++ middle ++ [x] ++ tail by simp, hlow]
    simp only [Option.bind_eq_bind, Option.bind_some, Option.pure_def, put?_behind, putAll?_behind hmiddle,
      putSign?_behind hfront]
    simp [hscale]

end Leftward

/-- The text is written over the bytes that it takes up, and nothing else of the buffer changes. -/
theorem encodeAt_eq (d : Decimal) {place : Bytes} (h : place.length = d.textLength) (before after : Bytes) :
    d.encodeAt (before ++ place ++ after) before.length = some (before ++ d.text ++ after, d.textLength) := by
  have hwindow : (before ++ place ++ after).window before.length d.textLength = place := by
    rw [Bytes.window, List.append_assoc, List.drop_left, ← h, List.take_left]
  have hput := Leftward.putDecimal?_behind h
  rw [Leftward.behind, List.append_nil, h] at hput
  rw [encodeAt, if_neg (by simp; omega), hwindow, hput]
  simp [Leftward.behind, Bytes.overwrite, length_text, ← h]

/-- A decimal is written in the bytes that it is measured to have. It is read back, as the decimal of the same number
without the zeros at the end of its fraction, for every value but the least one. -/
theorem parse_encodeAt {value : Int64} {scale : UInt8} {d : Decimal} (hd : d = make value.toInt scale.toNat) :
    d.textLength ≤ maxLength ∧ d.text.length = d.textLength ∧
      (∀ before place after : Bytes, place.length = d.textLength →
        d.encodeAt (before ++ place ++ after) before.length = some (before ++ d.text ++ after, d.textLength)) ∧
      parse d.text = (if value = Int64.minValue then none else some d.reduced) ∧
      d.reduced.number = d.number ∧ (d.reduced.scale = 0 ∨ ¬ 10 ∣ d.reduced.value) := by
  have hvalue : d.value.natAbs ≤ 2 ^ 63 := by
    have := value.le_toInt
    have := value.toInt_lt
    rw [hd]
    change value.toInt.natAbs ≤ _
    omega
  have hscale : d.scale ≤ maxScale := by
    rw [hd]
    exact Nat.min_le_right _ _
  have hmin : d.value.natAbs = 2 ^ 63 ↔ value = Int64.minValue := by
    rw [← Int64.toInt_inj, Int64.toInt_minValue]
    have := value.toInt_lt
    rw [hd]
    change value.toInt.natAbs = _ ↔ _
    omega
  refine ⟨textLength_le hvalue hscale, d.length_text, fun before place after h => d.encodeAt_eq h before after, ?_,
    number_stripped _ _, canonical_stripped _ _⟩
  rw [← text_literal, Literal.parse_text]
  by_cases h : value = Int64.minValue
  · rw [if_pos h, if_neg fun hfits => (d.fits_literal_iff hvalue hscale).1 hfits (hmin.2 h)]
  · rw [if_neg h, if_pos ((d.fits_literal_iff hvalue hscale).2 fun heq => h (hmin.1 heq))]
    -- Both are canonical decimals of the number of `d`.
    refine congrArg some (d.literal.canonical_decimal.unique (canonical_stripped _ _) ?_)
    rw [Literal.number_decimal, number_literal, reduced, number_stripped, number]

/-- The decimal `12.50` is written as it is, over five bytes of seven, and read back as `12.5`. -/
theorem parse_encodeAt_trailing_zero :
    (make 1250 2).encodeAt [0x41, 0x42, 0x43, 0x44, 0x45, 0x46, 0x47] 1 =
        some ([0x41, 0x31, 0x32, 0x2e, 0x35, 0x30, 0x47], 5) ∧
      parse [0x31, 0x32, 0x2e, 0x35, 0x30] = some ⟨125, 1⟩ := by
  obtain ⟨-, -, hwrite, hparse, -⟩ := @parse_encodeAt 1250 2 (make 1250 2) (by decide)
  have hlength : (make 1250 2).textLength = 5 := by decide +kernel
  refine ⟨?_, hparse.trans (by decide)⟩
  have hput := hwrite [0x41] [0x42, 0x43, 0x44, 0x45, 0x46] [0x47] hlength.symm
  rwa [hlength] at hput

/-- The least value with two decimals, which does not stand for a missing one, is written and not read back. -/
theorem parse_text_least :
    (make Int64.minValue.toInt 2).isMissing = false ∧ parse (make Int64.minValue.toInt 2).text = none := by
  decide +kernel

end Decimal

end FixWire
