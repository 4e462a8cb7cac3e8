import FixWire.Time.Timestamp
import Mathlib.Tactic.Common

/-!
# Spellings of an instant

What the reader of timestamps takes for one : numbers with blanks before them, of which the year may have a sign. Each
number takes up as many digits as it can, so a number that is not full ends where no digit follows (`Digits.Stops`).
The instant of a text is that of its spelling (`parseChars_eq_some_iff`), and a text has one spelling at most
(`Spelling.eq_of_chars`).
-/

namespace FixWire

namespace Timestamp

open Text

/-! ## Digits -/

/-- A digit is read back. -/
theorem digitValue?_digitChar {d : Nat} (h : d < 10) : digitValue? d.digitChar = some d := by
  have hall : ∀ d < 10, digitValue? (Nat.digitChar d) = some d := by decide
  exact hall d h

/-- What is read as a digit is how the digit is written. -/
theorem digitValue?_eq_some_iff {c : Char} {d : Nat} : digitValue? c = some d ↔ d < 10 ∧ c = d.digitChar := by
  refine ⟨fun h => ?_, fun ⟨hd, hc⟩ => hc ▸ digitValue?_digitChar hd⟩
  rw [digitValue?] at h
  split_ifs at h with hc
  rw [Bool.and_eq_true, decide_eq_true_eq, decide_eq_true_eq] at hc
  have hlow : 48 ≤ c.toNat := hc.1
  have hhigh : c.toNat ≤ 57 := hc.2
  obtain rfl : c.toNat - 48 = d := Option.some.inj h
  refine ⟨by omega, Char.toNat_inj.1 ?_⟩
  rw [Nat.toNat_digitChar_of_lt_ten (by omega)]
  omega

theorem isBlank_digitChar {d : Nat} (h : d < 10) : isBlank d.digitChar = false := by
  have hall : ∀ d < 10, isBlank (Nat.digitChar d) = false := by decide
  exact hall d h

/-- No digit comes next. -/
def Ends (cs : List Char) : Prop :=
  (spanDigits cs).1 = []

theorem ends_nil : Ends [] :=
  rfl

/-- No digit comes next if the first character is none. -/
theorem ends_cons {c : Char} {cs : List Char} : Ends (c :: cs) ↔ digitValue? c = none := by
  rw [Ends, spanDigits]
  cases digitValue? c <;> simp

/-- Decimal digits by their values, one at least. -/
@[ext] structure Digits where
  values : List Nat
  lt_ten : ∀ d ∈ values, d < 10
  ne_nil : values ≠ []

namespace Digits

/-- The digits as they are written. -/
def chars (d : Digits) : List Char :=
  d.values.map Nat.digitChar

/-- The number that the digits denote. -/
def number (d : Digits) : Nat :=
  ofDigits d.values

/-- Digits that are followed by anything begin with a digit. -/
theorem exists_cons (d : Digits) (rest : List Char) :
    ∃ n cs, n < 10 ∧ d.chars ++ rest = n.digitChar :: cs := by
  obtain ⟨n, ns, h⟩ := List.exists_cons_of_ne_nil d.ne_nil
  refine ⟨n, ns.map Nat.digitChar ++ rest, d.lt_ten n (h ▸ List.mem_cons_self), ?_⟩
  rw [chars, h]
  rfl

theorem not_ends (d : Digits) (rest : List Char) : ¬ Ends (d.chars ++ rest) := by
  obtain ⟨n, cs, hn, h⟩ := d.exists_cons rest
  rw [h, ends_cons, digitValue?_digitChar hn]
  exact Option.some_ne_none n

end Digits

/-- Digits are taken off the front of a text, and then those behind them. -/
theorem spanDigits_append {ds : List Nat} (h : ∀ d ∈ ds, d < 10) (rest : List Char) :
    spanDigits (ds.map Nat.digitChar ++ rest) = (ds ++ (spanDigits rest).1, (spanDigits rest).2) := by
  induction ds with
  | nil => rfl
  | cons d ds ih =>
    rw [List.forall_mem_cons] at h
    rw [List.map_cons, List.cons_append, spanDigits, digitValue?_digitChar h.1, ih h.2]
    rfl

/-- The digits at the start of a text are digits, and none follows them. -/
theorem spanDigits_spec (cs : List Char) :
    (∀ d ∈ (spanDigits cs).1, d < 10) ∧ (spanDigits cs).1.map Nat.digitChar ++ (spanDigits cs).2 = cs ∧
      Ends (spanDigits cs).2 := by
  induction cs with
  | nil => exact ⟨nofun, rfl, ends_nil⟩
  | cons c cs ih =>
    obtain ⟨hlt, happend, hends⟩ := ih
    rw [spanDigits]
    cases hc : digitValue? c with
    | none => exact ⟨nofun, rfl, ends_cons.2 hc⟩
    | some d =>
      obtain ⟨hd, rfl⟩ := digitValue?_eq_some_iff.1 hc
      exact ⟨List.forall_mem_cons.2 ⟨hd, hlt⟩, congrArg (d.digitChar :: ·) happend, hends⟩

/-! ## Numbers -/

/-- The digits are all that a number of at most `width` digits can take from a text that starts with them. -/
def Digits.Stops (width : Nat) (d : Digits) (rest : List Char) : Prop :=
  d.values.length ≤ width ∧ (d.values.length < width → Ends rest)

/-- As many digits are taken as the number has. -/
theorem Digits.take_spanDigits {width : Nat} {d : Digits} {rest : List Char} (h : d.Stops width rest) :
    (spanDigits (d.chars ++ rest)).1.take width = d.values := by
  rw [chars, spanDigits_append d.lt_ten]
  obtain hfull | hshort := Nat.eq_or_lt_of_le h.1
  · rw [← hfull, List.take_left]
  · have hrest : (spanDigits rest).1 = [] := h.2 hshort
    rw [hrest, List.append_nil, List.take_of_length_le h.1]

/-- A number of any length is read as far as digits go. -/
theorem number_eq_some_iff {cs rest : List Char} {n : Nat} :
    number cs = some (n, rest) ↔ ∃ d : Digits, d.chars ++ rest = cs ∧ d.number = n ∧ Ends rest := by
  constructor
  · intro h
    obtain ⟨hlt, happend, hends⟩ := spanDigits_spec cs
    rw [number] at h
    split at h
    next => cases h
    next ds rest' hne hspan =>
      cases h
      rw [hspan] at hlt happend hends
      exact ⟨⟨ds, hlt, hne⟩, happend, rfl, hends⟩
  · rintro ⟨d, rfl, rfl, hends⟩
    obtain ⟨-, hrest, -⟩ := spanDigits_spec rest
    rw [Ends] at hends
    rw [hends, List.map_nil, List.nil_append] at hrest
    rw [number, Digits.chars, spanDigits_append d.lt_ten, hends, hrest, List.append_nil]
    split
    next hnil => exact absurd (congrArg Prod.fst hnil) d.ne_nil
    next heq =>
      cases heq
      rfl

/-- A number of a limited length is read as far as digits go or the length allows. -/
theorem shortNumber_eq_some_iff {width : Nat} {cs rest : List Char} {n : Nat} :
    shortNumber width cs = some (n, rest) ↔
      ∃ d : Digits, d.chars ++ rest = cs ∧ d.number = n ∧ d.Stops width rest := by
  constructor
  · intro h
    obtain ⟨hlt, happend, hends⟩ := spanDigits_spec cs
    rw [shortNumber] at h
    generalize (spanDigits cs).1 = all at *
    generalize (spanDigits cs).2 = tail at *
    have hsplit : (all.take width).map Nat.digitChar ++ ((all.drop width).map Nat.digitChar ++ tail) = cs := by
      rw [← List.append_assoc, ← List.map_append, List.take_append_drop, happend]
    have hrest : cs.drop (all.take width).length = (all.drop width).map Nat.digitChar ++ tail := by
      rw [← hsplit]
      exact List.drop_left' (List.length_map _)
    split at h
    next => cases h
    next ds hne =>
      cases h
      refine ⟨⟨all.take width, fun d hd => hlt d (List.mem_of_mem_take hd), hne⟩, hrest ▸ hsplit, rfl,
        List.length_take_le width all, fun hshort => ?_⟩
      change (all.take width).length < width at hshort
      rw [List.length_take] at hshort
      rw [hrest, List.drop_eq_nil_of_le (by omega)]
      exact hends
  · rintro ⟨d, rfl, rfl, hstops⟩
    rw [shortNumber, Digits.take_spanDigits hstops]
    split
    next hnil => exact absurd hnil d.ne_nil
    next => exact congrArg (fun rest => some (d.number, rest)) (List.drop_left' (List.length_map _))

/-! ## Numbers after blanks -/

/-- Digits with blanks before them. -/
@[ext] structure Numeral extends Digits where
  blanks : List Char
  all_blank : ∀ c ∈ blanks, isBlank c = true

/-- The blanks at the start of a text are all that stand before something else. -/
theorem span_blanks {blanks : List Char} (hblanks : ∀ c ∈ blanks, isBlank c = true) {c : Char} (hc : isBlank c = false)
    (cs : List Char) :
    (blanks ++ c :: cs).takeWhile isBlank = blanks ∧ trimStart (blanks ++ c :: cs) = c :: cs := by
  rw [trimStart, List.takeWhile_append_of_pos hblanks, List.dropWhile_append_of_pos hblanks,
    List.takeWhile_cons_of_neg (by simp [hc]), List.dropWhile_cons_of_neg (by simp [hc]), List.append_nil]
  exact ⟨rfl, rfl⟩

namespace Numeral

/-- The numeral as it is written, blanks first. -/
def chars (m : Numeral) : List Char :=
  m.blanks ++ m.toDigits.chars

/-- The blanks of a numeral are those that are skipped before its digits. -/
theorem span_chars (m : Numeral) (rest : List Char) :
    (m.chars ++ rest).takeWhile isBlank = m.blanks ∧ trimStart (m.chars ++ rest) = m.toDigits.chars ++ rest := by
  obtain ⟨n, cs, hn, h⟩ := m.exists_cons rest
  rw [chars, List.append_assoc, h]
  exact span_blanks m.all_blank (isBlank_digitChar hn) cs

/-- A numeral goes on with digits unless there are blanks before its own. -/
theorem ends_chars_append_iff (m : Numeral) (rest : List Char) : Ends (m.chars ++ rest) ↔ m.blanks ≠ [] := by
  rw [chars, List.append_assoc]
  cases h : m.blanks with
  | nil => exact iff_of_false (m.not_ends rest) fun hne => hne rfl
  | cons c cs =>
    refine iff_of_true (ends_cons.2 ?_) (List.cons_ne_nil c cs)
    have hblank : isBlank c = true := m.all_blank c (h ▸ List.mem_cons_self)
    refine Option.eq_none_iff_forall_ne_some.2 fun d hd => ?_
    obtain ⟨hlt, rfl⟩ := digitValue?_eq_some_iff.1 hd
    rw [isBlank_digitChar hlt] at hblank
    cases hblank

end Numeral

theorem append_trimStart (cs : List Char) : cs.takeWhile isBlank ++ trimStart cs = cs :=
  List.takeWhile_append_dropWhile

/-- The numeral that some digits are when the blanks of a text stand before them. -/
def Digits.after (d : Digits) (cs : List Char) : Numeral where
  toDigits := d
  blanks := cs.takeWhile isBlank
  all_blank := List.all_eq_true.1 List.all_takeWhile

/-- Two digits are read wherever a numeral stands that stops there. -/
theorem twoDigits_eq_some_iff {cs rest : List Char} {n : Nat} :
    twoDigits cs = some (n, rest) ↔ ∃ m : Numeral, m.chars ++ rest = cs ∧ m.number = n ∧ m.Stops 2 rest := by
  rw [twoDigits, shortNumber_eq_some_iff]
  constructor
  · rintro ⟨d, hd, hn, hstops⟩
    refine ⟨d.after cs, ?_, hn, hstops⟩
    rw [Numeral.chars, List.append_assoc]
    change cs.takeWhile isBlank ++ (d.chars ++ rest) = cs
    rw [hd, append_trimStart]
  · rintro ⟨m, rfl, hn, hstops⟩
    exact ⟨m.toDigits, (m.span_chars rest).2.symm, hn, hstops⟩

/-! ## Years -/

/-- What may stand right before the digits of a year. -/
inductive Sign where
  | unsigned
  | plus
  | minus
  deriving DecidableEq, Repr

namespace Sign

/-- The sign as it is written. -/
def chars : Sign → List Char
  | unsigned => []
  | plus => ['+']
  | minus => ['-']

/-- The number with the sign. -/
def apply : Sign → Nat → Int
  | unsigned, n => n
  | plus, n => n
  | minus, n => -n

end Sign

/-- A numeral that may have a sign. -/
@[ext] structure Year extends Numeral where
  sign : Sign

namespace Year

/-- The year as it is written : blanks, the sign and the digits. -/
def chars (y : Year) : List Char :=
  y.blanks ++ (y.sign.chars ++ y.toDigits.chars)

/-- The number of the year. -/
def value (y : Year) : Int :=
  y.sign.apply y.number

/-- The year is all that can be read from a text that starts with it : it has four digits at most, or a sign and any
number of them. -/
def Stops (y : Year) (rest : List Char) : Prop :=
  (y.sign = .unsigned → y.toDigits.Stops 4 rest) ∧ (y.sign ≠ .unsigned → Ends rest)

/-- The blanks of a year are those that are skipped before its sign and its digits. -/
theorem span_chars (y : Year) (rest : List Char) :
    (y.chars ++ rest).takeWhile isBlank = y.blanks ∧
      trimStart (y.chars ++ rest) = y.sign.chars ++ (y.toDigits.chars ++ rest) := by
  rw [chars, List.append_assoc, List.append_assoc]
  cases y.sign with
  | unsigned =>
    obtain ⟨n, cs, hn, h⟩ := y.exists_cons rest
    rw [Sign.chars, List.nil_append, h]
    exact span_blanks y.all_blank (isBlank_digitChar hn) cs
  | plus => exact span_blanks y.all_blank (by decide) _
  | minus => exact span_blanks y.all_blank (by decide) _

end Year

/-- Digits do not begin with a character that is no digit. -/
theorem Digits.append_ne_cons (d : Digits) (rest : List Char) {c : Char} (hc : digitValue? c = none) (cs : List Char) :
    d.chars ++ rest ≠ c :: cs := by
  intro h
  exact d.not_ends rest (h ▸ ends_cons.2 hc)

/-- A year is read wherever one stands that stops there. -/
theorem year_eq_some_iff {cs rest : List Char} {n : Int} :
    year cs = some (n, rest) ↔ ∃ y : Year, y.chars ++ rest = cs ∧ y.value = n ∧ y.Stops rest := by
  constructor
  · intro h
    -- The digits that have been read are those of a year with the blanks of the text and the sign.
    have hyear (sign : Sign) {d : Digits} (htrim : trimStart cs = sign.chars ++ (d.chars ++ rest))
        (hstops : (⟨d.after cs, sign⟩ : Year).Stops rest) :
        ∃ y : Year, y.chars ++ rest = cs ∧ y.value = sign.apply d.number ∧ y.Stops rest := by
      refine ⟨⟨d.after cs, sign⟩, ?_, rfl, hstops⟩
      rw [Year.chars, List.append_assoc, List.append_assoc]
      change cs.takeWhile isBlank ++ (sign.chars ++ (d.chars ++ rest)) = cs
      rw [← htrim, append_trimStart]
    rw [year] at h
    split at h
    all_goals
      rw [Option.map_eq_some_iff] at h
      obtain ⟨⟨k, rest'⟩, hread, heq⟩ := h
      cases heq
    next htrim =>
      obtain ⟨d, rfl, rfl, hends⟩ := number_eq_some_iff.1 hread
      exact hyear .minus htrim ⟨nofun, fun _ => hends⟩
    next htrim =>
      obtain ⟨d, rfl, rfl, hends⟩ := number_eq_some_iff.1 hread
      exact hyear .plus htrim ⟨nofun, fun _ => hends⟩
    next =>
      obtain ⟨d, hd, rfl, hstops⟩ := shortNumber_eq_some_iff.1 hread
      exact hyear .unsigned hd.symm ⟨fun _ => hstops, fun hne => absurd rfl hne⟩
  · rintro ⟨y, rfl, rfl, hstops⟩
    rw [year, (y.span_chars rest).2, Year.value]
    cases hsign : y.sign with
    | unsigned =>
      have hread := shortNumber_eq_some_iff.2 ⟨y.toDigits, rfl, rfl, hstops.1 hsign⟩
      rw [Sign.chars, List.nil_append]
      split
      next h => exact absurd h (y.append_ne_cons rest (by decide) _)
      next h => exact absurd h (y.append_ne_cons rest (by decide) _)
      next =>
        rw [hread]
        rfl
    | plus =>
      have hread := number_eq_some_iff.2 ⟨y.toDigits, rfl, rfl, hstops.2 (hsign ▸ nofun)⟩
      simp only [Sign.chars, List.cons_append, List.nil_append]
      rw [hread]
      rfl
    | minus =>
      have hread := number_eq_some_iff.2 ⟨y.toDigits, rfl, rfl, hstops.2 (hsign ▸ nofun)⟩
      simp only [Sign.chars, List.cons_append, List.nil_append]
      rw [hread]
      rfl

/-! ## Separators and fractions -/

theorem literal_eq_some_iff {c : Char} {cs rest : List Char} : literal c cs = some rest ↔ c :: rest = cs := by
  cases cs with
  | nil => simp [literal]
  | cons c' cs =>
    rw [literal, List.cons.injEq]
    by_cases h : c' = c
    · simp [h, eq_comm]
    · simp [h, Ne.symm h]

/-- The fraction of a second, if there is one, after its point. -/
def tail : Option Digits → List Char
  | none => []
  | some d => '.' :: d.chars

/-- The whole milliseconds of a fraction. -/
def millisOf : Option Digits → Nat
  | none => 0
  | some d => ofDigits ((d.values ++ [0, 0]).take 3)

/-- The tail of a text has no digit before its point. -/
theorem ends_tail (f : Option Digits) : Ends (tail f) := by
  cases f with
  | none => exact ends_nil
  | some d => exact ends_cons.2 (by decide)

/-- Digits alone are all taken. -/
theorem spanDigits_chars (d : Digits) : spanDigits d.chars = (d.values, []) := by
  have h := spanDigits_append d.lt_ten []
  rwa [List.append_nil, spanDigits, List.append_nil] at h

/-- A fraction is read if it is the whole tail, whatever the number of its digits. -/
theorem fraction_eq_some_iff {cs : List Char} {millis : Nat} :
    fraction cs = some millis ↔ ∃ f, tail f = cs ∧ millisOf f = millis := by
  constructor
  · intro h
    cases cs with
    | nil => exact ⟨none, rfl, Option.some.inj h⟩
    | cons c rest =>
      obtain ⟨hlt, happend, -⟩ := spanDigits_spec rest
      rw [fraction] at h
      split at h
      next => cases h
      next ds hne hspan =>
        split_ifs at h with hc
        cases h
        rw [hspan] at hlt happend
        rw [List.append_nil] at happend
        exact ⟨some ⟨ds, hlt, hne⟩, by rw [hc, ← happend]; rfl, rfl⟩
      next => cases h
  · rintro ⟨f, rfl, rfl⟩
    cases f with
    | none => rfl
    | some d =>
      rw [tail, fraction, spanDigits_chars]
      split
      next h => exact absurd (congrArg Prod.fst h) d.ne_nil
      next h =>
        cases h
        rfl
      next h => exact absurd rfl (h d.values)

/-! ## Spellings -/

/-- The numbers of a date and of a time of day, as they may stand in a text. A number that is not full is followed by a
blank before the next one, if nothing else stands between them. -/
@[ext] structure Spelling where
  year : Year
  month : Numeral
  day : Numeral
  hour : Numeral
  minute : Numeral
  second : Numeral
  fraction : Option Digits
  year_short : year.sign = .unsigned → year.values.length ≤ 4
  year_apart : month.blanks = [] → year.sign = .unsigned ∧ year.values.length = 4
  month_short : month.values.length ≤ 2
  month_apart : day.blanks = [] → month.values.length = 2
  day_short : day.values.length ≤ 2
  hour_short : hour.values.length ≤ 2
  minute_short : minute.values.length ≤ 2
  second_short : second.values.length ≤ 2

/-- Digits of at most a width stop where no digit comes next. -/
theorem Digits.Stops.of_ends {width : Nat} {d : Digits} {rest : List Char} (h : d.values.length ≤ width)
    (hends : Ends rest) : d.Stops width rest :=
  ⟨h, fun _ => hends⟩

/-- What it takes for a year to stop before a numeral. -/
theorem Year.stops_iff (y : Year) (m : Numeral) (rest : List Char) :
    y.Stops (m.chars ++ rest) ↔ (y.sign = .unsigned → y.values.length ≤ 4) ∧
      (m.blanks = [] → y.sign = .unsigned ∧ y.values.length = 4) := by
  simp only [Year.Stops, Digits.Stops, m.ends_chars_append_iff]
  by_cases hsign : y.sign = .unsigned
  · simp only [hsign, ne_eq, not_true_eq_false, false_imp_iff, and_true, true_imp_iff, true_and]
    refine and_congr_right fun hle => ⟨fun h hm => ?_, fun h hlt hm => ?_⟩
    · exact Nat.le_antisymm hle (Nat.not_lt.1 fun hlt => h hlt hm)
    · exact absurd (h hm) (Nat.ne_of_lt hlt)
  · simp [hsign]

/-- What it takes for a numeral to stop before another one. -/
theorem Numeral.stops_iff (m m' : Numeral) (rest : List Char) :
    m.Stops 2 (m'.chars ++ rest) ↔ m.values.length ≤ 2 ∧ (m'.blanks = [] → m.values.length = 2) := by
  rw [Digits.Stops, m'.ends_chars_append_iff]
  refine and_congr_right fun hle => ⟨fun h hm => ?_, fun h hlt hm => ?_⟩
  · exact Nat.le_antisymm hle (Nat.not_lt.1 fun hlt => h hlt hm)
  · exact absurd (h hm) (Nat.ne_of_lt hlt)

namespace Spelling

variable (s : Spelling) {rest : List Char}

/-- The timestamp as it is written. -/
def chars : List Char :=
  s.year.chars ++ (s.month.chars ++ (s.day.chars ++ '-' :: (s.hour.chars ++ ':' :: (s.minute.chars ++ ':' ::
    (s.second.chars ++ tail s.fraction)))))

/-- The instant with these numbers, if there is one. -/
def instant? : Option Int :=
  ofParts ⟨s.year.value, s.month.number, s.day.number⟩ s.hour.number s.minute.number s.second.number
    (millisOf s.fraction)

theorem year_stops : s.year.Stops (s.month.chars ++ rest) :=
  (s.year.stops_iff ..).2 ⟨s.year_short, s.year_apart⟩

theorem month_stops : s.month.Stops 2 (s.day.chars ++ rest) :=
  (s.month.stops_iff ..).2 ⟨s.month_short, s.month_apart⟩

theorem day_stops : s.day.Stops 2 ('-' :: rest) :=
  .of_ends s.day_short (ends_cons.2 (by decide))

theorem hour_stops : s.hour.Stops 2 (':' :: rest) :=
  .of_ends s.hour_short (ends_cons.2 (by decide))

theorem minute_stops : s.minute.Stops 2 (':' :: rest) :=
  .of_ends s.minute_short (ends_cons.2 (by decide))

theorem second_stops : s.second.Stops 2 (tail s.fraction) :=
  .of_ends s.second_short (ends_tail s.fraction)

end Spelling

/-- What a text says is the instant of its spelling. -/
theorem parseChars_eq_some_iff {cs : List Char} {millis : Int} :
    parseChars cs = some millis ↔ ∃ s : Spelling, s.chars = cs ∧ s.instant? = some millis := by
  simp only [parseChars, Option.bind_eq_bind, Option.bind_eq_some_iff, Prod.exists, year_eq_some_iff,
    twoDigits_eq_some_iff, literal_eq_some_iff, fraction_eq_some_iff]
  constructor
  · rintro ⟨_, _, ⟨year, rfl, rfl, hyear⟩, _, _, ⟨month, rfl, rfl, hmonth⟩, _, _, ⟨day, rfl, rfl, hday⟩, _, rfl,
      _, _, ⟨hour, rfl, rfl, hhour⟩, _, rfl, _, _, ⟨minute, rfl, rfl, hminute⟩, _, rfl,
      _, _, ⟨second, rfl, rfl, hsecond⟩, _, ⟨fraction, rfl, rfl⟩, h⟩
    rw [year.stops_iff] at hyear
    rw [month.stops_iff] at hmonth
    exact ⟨⟨year, month, day, hour, minute, second, fraction, hyear.1, hyear.2, hmonth.1, hmonth.2, hday.1, hhour.1,
      hminute.1, hsecond.1⟩, rfl, h⟩
  · rintro ⟨s, rfl, h⟩
    exact ⟨_, _, ⟨s.year, rfl, rfl, s.year_stops⟩, _, _, ⟨s.month, rfl, rfl, s.month_stops⟩,
      _, _, ⟨s.day, rfl, rfl, s.day_stops⟩, _, rfl, _, _, ⟨s.hour, rfl, rfl, s.hour_stops⟩, _, rfl,
      _, _, ⟨s.minute, rfl, rfl, s.minute_stops⟩, _, rfl, _, _, ⟨s.second, rfl, rfl, s.second_stops⟩,
      _, ⟨s.fraction, rfl, rfl⟩, h⟩

/-! ## One spelling of a text -/

/-- A text has one way to begin with digits that stop. -/
theorem Digits.eq_of_append {width : Nat} {d d' : Digits} {rest rest' : List Char}
    (h : d.chars ++ rest = d'.chars ++ rest') (hd : d.Stops width rest) (hd' : d'.Stops width rest') :
    d = d' ∧ rest = rest' := by
  have hvalues := d.take_spanDigits hd
  rw [h, d'.take_spanDigits hd'] at hvalues
  obtain rfl := Digits.ext hvalues
  exact ⟨rfl, List.append_cancel_left h⟩

/-- A text has one way to begin with all its digits. -/
theorem Digits.eq_of_ends {d d' : Digits} {rest rest' : List Char} (h : d.chars ++ rest = d'.chars ++ rest')
    (hends : Ends rest) (hends' : Ends rest') : d = d' ∧ rest = rest' :=
  eq_of_append h (.of_ends (Nat.le_max_left d.values.length d'.values.length) hends)
    (.of_ends (Nat.le_max_right d.values.length d'.values.length) hends')

/-- A text has one way to begin with a numeral. -/
theorem Numeral.eq_of_append {m m' : Numeral} {rest rest' : List Char} (h : m.chars ++ rest = m'.chars ++ rest')
    (hm : m.Stops 2 rest) (hm' : m'.Stops 2 rest') : m = m' ∧ rest = rest' := by
  obtain ⟨hblanks, htrim⟩ := m.span_chars rest
  obtain ⟨hblanks', htrim'⟩ := m'.span_chars rest'
  rw [h] at hblanks htrim
  obtain ⟨hdigits, hrest⟩ := Digits.eq_of_append (htrim.symm.trans htrim') hm hm'
  exact ⟨Numeral.ext (congrArg Digits.values hdigits) (hblanks.symm.trans hblanks'), hrest⟩

/-- The sign that a text starts with. -/
def Sign.of (cs : List Char) : Sign :=
  if cs.head? = some '-' then minus else if cs.head? = some '+' then plus else unsigned

/-- The sign of a year shows in the first character. -/
theorem Sign.of_append (sign : Sign) (d : Digits) (rest : List Char) : of (sign.chars ++ (d.chars ++ rest)) = sign := by
  cases sign with
  | plus => rfl
  | minus => rfl
  | unsigned =>
    obtain ⟨n, cs, hn, h⟩ := d.exists_cons rest
    have hne {c : Char} (hc : digitValue? c = none) : some n.digitChar ≠ some c := by
      intro heq
      rw [← Option.some.inj heq, digitValue?_digitChar hn] at hc
      cases hc
    rw [chars, List.nil_append, h, of, List.head?_cons, if_neg (hne (by decide)), if_neg (hne (by decide))]

/-- A text has one way to begin with a year. -/
theorem Year.eq_of_append {y y' : Year} {rest rest' : List Char} (h : y.chars ++ rest = y'.chars ++ rest')
    (hy : y.Stops rest) (hy' : y'.Stops rest') : y = y' ∧ rest = rest' := by
  obtain ⟨hblanks, htrim⟩ := y.span_chars rest
  obtain ⟨hblanks', htrim'⟩ := y'.span_chars rest'
  rw [h] at hblanks htrim
  have heq := htrim.symm.trans htrim'
  have hsign : y.sign = y'.sign := by
    rw [← y.sign.of_append y.toDigits rest, heq, y'.sign.of_append]
  rw [hsign] at heq
  have hdigits := List.append_cancel_left heq
  by_cases hun : y.sign = .unsigned
  · obtain ⟨h, hrest⟩ := Digits.eq_of_append hdigits (hy.1 hun) (hy'.1 (hsign ▸ hun))
    exact ⟨Year.ext (congrArg Digits.values h) (hblanks.symm.trans hblanks') hsign, hrest⟩
  · obtain ⟨h, hrest⟩ := Digits.eq_of_ends hdigits (hy.2 hun) (hy'.2 (hsign ▸ hun))
    exact ⟨Year.ext (congrArg Digits.values h) (hblanks.symm.trans hblanks') hsign, hrest⟩

/-- Fractions that are written alike are the same. -/
theorem tail_inj {f f' : Option Digits} (h : tail f = tail f') : f = f' := by
  cases f with
  | none =>
    cases f' with
    | none => rfl
    | some d' => cases h
  | some d =>
    cases f' with
    | none => cases h
    | some d' =>
      have hvalues := congrArg spanDigits (List.cons.inj h).2
      rw [spanDigits_chars, spanDigits_chars] at hvalues
      exact congrArg some (Digits.ext (congrArg Prod.fst hvalues))

/-- A text has one spelling at most. -/
theorem Spelling.eq_of_chars {s s' : Spelling} (h : s.chars = s'.chars) : s = s' := by
  obtain ⟨hyear, h⟩ := Year.eq_of_append h s.year_stops s'.year_stops
  obtain ⟨hmonth, h⟩ := Numeral.eq_of_append h s.month_stops s'.month_stops
  obtain ⟨hday, h⟩ := Numeral.eq_of_append h s.day_stops s'.day_stops
  obtain ⟨hhour, h⟩ := Numeral.eq_of_append (List.cons.inj h).2 s.hour_stops s'.hour_stops
  obtain ⟨hminute, h⟩ := Numeral.eq_of_append (List.cons.inj h).2 s.minute_stops s'.minute_stops
  obtain ⟨hsecond, h⟩ := Numeral.eq_of_append (List.cons.inj h).2 s.second_stops s'.second_stops
  exact Spelling.ext hyear hmonth hday hhour hminute hsecond (tail_inj h)

end Timestamp

end FixWire
