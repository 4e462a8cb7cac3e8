import FixWire.Proofs.Number.Written
import FixWire.Proofs.Text.Utf8
import FixWire.Proofs.Time.Calendar
import FixWire.Proofs.Time.Spelling

/-!
# The format of timestamps

`YYYYMMDD-HH:MM:SS`, and perhaps a point and digits : every number but the fraction has a fixed number of digits. Each
text of this form is read as the instant that it is made of (`parse_text`), and it is the plain spelling of that instant
(`wireFormat_iff`).
-/

namespace FixWire

namespace Timestamp

open Text

/-! ## Numbers of a fixed length -/

/-- The last digits of a number. -/
def lastDigits : Nat → Nat → List Nat
  | 0, _ => []
  | width + 1, n => lastDigits width (n / 10) ++ [n % 10]

/-- A number has as many last digits as asked for. -/
theorem length_lastDigits (width n : Nat) : (lastDigits width n).length = width := by
  induction width generalizing n with
  | zero => rfl
  | succ width ih => rw [lastDigits, List.length_append, ih, List.length_singleton]

theorem lt_of_mem_lastDigits {width n : Nat} : ∀ d ∈ lastDigits width n, d < 10 := by
  induction width generalizing n with
  | zero => exact nofun
  | succ width ih =>
    rw [lastDigits, List.forall_mem_append, List.forall_mem_singleton]
    exact ⟨ih, Nat.mod_lt n (by omega)⟩

/-- The last digits of a number are how it is padded. -/
theorem map_lastDigits (width n : Nat) : (lastDigits width n).map Natural.digit = Natural.padded width n := by
  induction width generalizing n with
  | zero => rfl
  | succ width ih => rw [lastDigits, List.map_append, ih, Natural.padded, List.map_singleton]

/-- A digit at the end makes a number ten times as large, and adds itself. -/
theorem ofDigits_append_singleton (ds : List Nat) (d : Nat) : ofDigits (ds ++ [d]) = ofDigits ds * 10 + d := by
  rw [ofDigits, List.foldl_append]
  rfl

/-- The last digits of a number denote what is left of it. -/
theorem ofDigits_lastDigits (width n : Nat) : ofDigits (lastDigits width n) = n % 10 ^ width := by
  induction width generalizing n with
  | zero => rw [lastDigits, pow_zero, Nat.mod_one]; rfl
  | succ width ih =>
    rw [lastDigits, ofDigits_append_singleton, ih, pow_succ', Nat.mod_mul]
    ring

/-- Digits are the last digits of the number that they denote. -/
theorem lastDigits_ofDigits {ds : List Nat} (h : ∀ d ∈ ds, d < 10) : lastDigits ds.length (ofDigits ds) = ds := by
  induction ds using List.reverseRecOn with
  | nil => rfl
  | append_singleton ds d ih =>
    rw [List.forall_mem_append, List.forall_mem_singleton] at h
    have hd := h.2
    rw [List.length_append, List.length_singleton, ofDigits_append_singleton, lastDigits,
      show (ofDigits ds * 10 + d) / 10 = ofDigits ds by omega, show (ofDigits ds * 10 + d) % 10 = d by omega, ih h.1]

/-- As many digits denote less than ten to as many. -/
theorem ofDigits_lt {ds : List Nat} (h : ∀ d ∈ ds, d < 10) : ofDigits ds < 10 ^ ds.length := by
  rw [← lastDigits_ofDigits h, ofDigits_lastDigits, lastDigits_ofDigits h]
  exact Nat.mod_lt _ (by positivity)

namespace Digits

/-- The last digits of a number, one or more of them. -/
def last (width n : Nat) (h : 0 < width) : Digits where
  values := lastDigits width n
  lt_ten := lt_of_mem_lastDigits
  ne_nil := by
    rw [← List.length_pos_iff, length_lastDigits]
    exact h

/-- A number that fits is denoted by its last digits. -/
theorem number_last {width n : Nat} {h : 0 < width} (hn : n < 10 ^ width) : (last width n h).number = n :=
  (ofDigits_lastDigits width n).trans (Nat.mod_eq_of_lt hn)

/-- Digits of that length are the last digits of their number. -/
theorem last_number {width : Nat} (h : 0 < width) {d : Digits} (hd : d.values.length = width) :
    last width d.number h = d := by
  subst hd
  exact Digits.ext (lastDigits_ofDigits d.lt_ten)

/-- Digits of a length denote less than ten to that length. -/
theorem number_lt {width : Nat} {d : Digits} (hd : d.values.length = width) : d.number < 10 ^ width :=
  hd ▸ ofDigits_lt d.lt_ten

/-- The digits in ASCII. -/
def bytes (d : Digits) : Bytes :=
  d.values.map Natural.digit

/-- Digits are written with a byte each. -/
theorem asciiBytes_chars (d : Digits) : Utf8.asciiBytes d.chars = d.bytes := by
  rw [Utf8.asciiBytes, chars, List.map_map]
  rfl

/-- Digits are written without anything but digits. -/
theorem isAscii_chars (d : Digits) : Utf8.IsAscii d.chars := by
  intro c hc
  obtain ⟨n, hn, rfl⟩ := List.mem_map.1 hc
  have := d.lt_ten n hn
  rw [Nat.toNat_digitChar_of_lt_ten this]
  omega

end Digits

/-! ## Instants -/

/-- What the parts of an instant have to be, and the milliseconds that they come to. -/
theorem ofParts_eq_some_iff {date : Date} {hour minute second milli : Nat} {millis : Int} :
    ofParts date hour minute second milli = some millis ↔
      (Calendar.isValid date = true ∧ -262143 ≤ date.year ∧ date.year ≤ 262142 ∧ hour ≤ 23 ∧ minute ≤ 59 ∧
        second ≤ 60) ∧
      (Calendar.toDays date - Calendar.epoch) * dayMillis +
        (((hour * 60 + minute) * 60 + second) * 1000 + milli : Nat) = millis := by
  rw [ofParts]
  split_ifs with h
  · simp only [Bool.and_eq_true, decide_eq_true_eq, and_assoc] at h
    simp [h]
  · simp only [Bool.and_eq_true, decide_eq_true_eq, and_assoc] at h
    simp [h]

/-- A timestamp is read from the texts that spell one. -/
theorem parse_eq_ok_iff {text : Bytes} {millis : Int} :
    parse text = .ok millis ↔ ∃ s : Spelling, Utf8.decode? text = some s.chars ∧ s.instant? = some millis := by
  have hparse : parse text = .ok millis ↔ (Utf8.decode? text).bind parseChars = some millis := by
    rw [parse]
    split
    next h => rw [h, Except.ok.injEq, Option.some.injEq]
    next h => simp [h]
  simp only [hparse, Option.bind_eq_some_iff, parseChars_eq_some_iff]
  constructor
  · rintro ⟨_, htext, s, rfl, h⟩
    exact ⟨s, htext, h⟩
  · rintro ⟨s, htext, h⟩
    exact ⟨_, htext, s, rfl, h⟩

/-! ## Timestamps -/

/-- A date of the years from 0 to 9999 and a time of day, which may be in a leap second, with digits after the point of
the second or without. -/
@[ext] structure Stamp where
  date : Date
  hour : Nat
  minute : Nat
  second : Nat
  fraction : Option Digits
  date_valid : Calendar.isValid date = true
  year_nonneg : 0 ≤ date.year
  year_le : date.year ≤ 9999
  hour_le : hour ≤ 23
  minute_le : minute ≤ 59
  second_le : second ≤ 60

namespace Stamp

variable (s : Stamp)

/-- The timestamp in its format. -/
def text : Bytes :=
  Natural.padded 4 s.date.year.toNat ++ Natural.padded 2 s.date.month ++ Natural.padded 2 s.date.day ++
  Bytes.ofString "-" ++ Natural.padded 2 s.hour ++ Bytes.ofString ":" ++ Natural.padded 2 s.minute ++
  Bytes.ofString ":" ++ Natural.padded 2 s.second ++
    (s.fraction.map fun d => Bytes.ofString "." ++ d.bytes).getD []

/-- The length of a timestamp depends on its fraction only. -/
theorem length_text : s.text.length = 17 + (s.fraction.map fun d => d.values.length + 1).getD 0 := by
  have hdash : (Bytes.ofString "-").length = 1 := rfl
  have hcolon : (Bytes.ofString ":").length = 1 := rfl
  have hpoint : (Bytes.ofString ".").length = 1 := rfl
  simp only [text, List.length_append, Natural.length_padded, hdash, hcolon]
  cases s.fraction with
  | none => rfl
  | some d => simp [Digits.bytes, hpoint, Nat.add_comm]

/-- The milliseconds from the start of 1970 to the instant, without further digits of its fraction. -/
def millis : Int :=
  (Calendar.toDays s.date - Calendar.epoch) * dayMillis +
    (((s.hour * 60 + s.minute) * 60 + s.second) * 1000 + millisOf s.fraction : Nat)

end Stamp

/-- Digits without blanks before them. -/
def Digits.plain (d : Digits) : Numeral where
  toDigits := d
  blanks := []
  all_blank := nofun

/-- A padded number is written with its last digits. -/
theorem Digits.bytes_last (width n : Nat) (h : 0 < width) : (last width n h).bytes = Natural.padded width n :=
  map_lastDigits width n

/-- The bytes of a tail are its point and its digits. -/
theorem asciiBytes_tail (f : Option Digits) :
    Utf8.asciiBytes (tail f) = (f.map fun d => Bytes.ofString "." ++ d.bytes).getD [] := by
  cases f with
  | none => rfl
  | some d => exact congrArg (0x2e :: ·) d.asciiBytes_chars

theorem isAscii_tail (f : Option Digits) : Utf8.IsAscii (tail f) := by
  cases f with
  | none => exact nofun
  | some d => exact List.forall_mem_cons.2 ⟨by decide, d.isAscii_chars⟩

namespace Stamp

variable (s : Stamp)

/-- The spelling of a timestamp in its format. -/
def spelling : Spelling where
  year := ⟨(Digits.last 4 s.date.year.toNat (by decide)).plain, .unsigned⟩
  month := (Digits.last 2 s.date.month (by decide)).plain
  day := (Digits.last 2 s.date.day (by decide)).plain
  hour := (Digits.last 2 s.hour (by decide)).plain
  minute := (Digits.last 2 s.minute (by decide)).plain
  second := (Digits.last 2 s.second (by decide)).plain
  fraction := s.fraction
  year_short := fun _ => (length_lastDigits 4 _).le
  year_apart := fun _ => ⟨rfl, length_lastDigits 4 _⟩
  month_short := (length_lastDigits 2 _).le
  month_apart := fun _ => length_lastDigits 2 _
  day_short := (length_lastDigits 2 _).le
  hour_short := (length_lastDigits 2 _).le
  minute_short := (length_lastDigits 2 _).le
  second_short := (length_lastDigits 2 _).le

/-- The characters of a stamp, number by number. -/
theorem chars_spelling :
    s.spelling.chars = (Digits.last 4 s.date.year.toNat (by decide)).chars ++
      ((Digits.last 2 s.date.month (by decide)).chars ++ ((Digits.last 2 s.date.day (by decide)).chars ++
      '-' :: ((Digits.last 2 s.hour (by decide)).chars ++ ':' :: ((Digits.last 2 s.minute (by decide)).chars ++
      ':' :: ((Digits.last 2 s.second (by decide)).chars ++ tail s.fraction))))) :=
  rfl

/-- The bytes of the spelling of a stamp are its text. -/
theorem asciiBytes_spelling : Utf8.asciiBytes s.spelling.chars = s.text := by
  rw [chars_spelling, text, show Bytes.ofString "-" = [Char.toUInt8 '-'] from rfl,
    show Bytes.ofString ":" = [Char.toUInt8 ':'] from rfl]
  simp only [Utf8.asciiBytes_append, Utf8.asciiBytes_cons, Digits.asciiBytes_chars, Digits.bytes_last, asciiBytes_tail,
    List.append_assoc, List.cons_append, List.nil_append]

/-- The spelling of a stamp has no characters of several bytes. -/
theorem isAscii_spelling : Utf8.IsAscii s.spelling.chars := by
  rw [chars_spelling]
  simp only [Utf8.isAscii_append, Utf8.isAscii_cons, Digits.isAscii_chars, isAscii_tail, and_true, true_and]
  decide

/-- The spelling of a stamp is that of its instant. -/
theorem instant?_spelling : s.spelling.instant? = some s.millis := by
  obtain ⟨hmonth, hday⟩ := Calendar.le_of_isValid s.date_valid
  obtain ⟨date, hour, minute, second, fraction, hdate, hyear, hyear', hhour, hminute, hsecond⟩ := s
  dsimp only at hmonth hday
  have hfirst : -262143 ≤ date.year := by omega
  have hlast : date.year ≤ 262142 := by omega
  have hvalue : ((Digits.last 4 date.year.toNat (by decide)).number : Int) = date.year := by
    rw [Digits.number_last (by omega), Int.toNat_of_nonneg hyear]
  change ofParts ⟨((Digits.last 4 date.year.toNat (by decide)).number : Int), (Digits.last 2 date.month (by decide)).number,
    (Digits.last 2 date.day (by decide)).number⟩ (Digits.last 2 hour (by decide)).number
    (Digits.last 2 minute (by decide)).number (Digits.last 2 second (by decide)).number (millisOf fraction) = _
  rw [hvalue, Digits.number_last (by omega), Digits.number_last (by omega), Digits.number_last (by omega),
    Digits.number_last (by omega), Digits.number_last (by omega)]
  exact ofParts_eq_some_iff.2 ⟨⟨hdate, hfirst, hlast, hhour, hminute, hsecond⟩, rfl⟩

/-- A timestamp in its format is read as its instant. -/
theorem parse_text : parse s.text = .ok s.millis := by
  refine parse_eq_ok_iff.2 ⟨s.spelling, ?_, s.instant?_spelling⟩
  rw [Utf8.decode?_eq_ascii_iff s.isAscii_spelling, asciiBytes_spelling]

end Stamp

/-! ## Plain spellings -/

/-- No blanks, no sign, and all the digits that there can be. -/
structure Spelling.Plain (s : Spelling) : Prop where
  unsigned : s.year.sign = .unsigned
  year_full : s.year.values.length = 4
  year_blanks : s.year.blanks = []
  full : ∀ m ∈ [s.month, s.day, s.hour, s.minute, s.second], m.blanks = [] ∧ m.values.length = 2

/-- Two digits without blanks are those of their number. -/
theorem Digits.plain_last_number {m : Numeral} (h : m.blanks = [] ∧ m.values.length = 2) :
    (last 2 m.number (by decide)).plain = m :=
  Numeral.ext (congrArg values (last_number (by decide) h.2)) h.1.symm

/-- A plain spelling of an instant is that of a timestamp in the format. -/
theorem Spelling.plain_iff {s : Spelling} {millis : Int} (h : s.instant? = some millis) :
    s.Plain ↔ ∃ stamp : Stamp, stamp.spelling = s := by
  constructor
  · rintro ⟨hunsigned, hfull, hblanks, hall⟩
    simp only [List.forall_mem_cons] at hall
    obtain ⟨hmonth, hday, hhour, hminute, hsecond, -⟩ := hall
    obtain ⟨⟨hdate, -, -, hhour', hminute', hsecond'⟩, -⟩ := ofParts_eq_some_iff.1 h
    have hyear : s.year.value = s.year.number := by rw [Year.value, hunsigned, Sign.apply]
    have hlt : s.year.number < 10000 := Digits.number_lt hfull
    refine ⟨⟨_, _, _, _, s.fraction, hdate, by dsimp only; omega, by dsimp only; omega, hhour', hminute', hsecond'⟩, ?_⟩
    refine Spelling.ext ?_ (Digits.plain_last_number hmonth) (Digits.plain_last_number hday)
      (Digits.plain_last_number hhour) (Digits.plain_last_number hminute) (Digits.plain_last_number hsecond) rfl
    refine Year.ext ?_ hblanks.symm hunsigned.symm
    change lastDigits 4 s.year.value.toNat = s.year.values
    rw [hyear, Int.toNat_natCast]
    exact congrArg Digits.values (Digits.last_number (by decide) hfull)
  · rintro ⟨stamp, rfl⟩
    refine ⟨rfl, length_lastDigits 4 _, rfl, ?_⟩
    simp only [List.forall_mem_cons]
    exact ⟨⟨rfl, length_lastDigits 2 _⟩, ⟨rfl, length_lastDigits 2 _⟩, ⟨rfl, length_lastDigits 2 _⟩,
      ⟨rfl, length_lastDigits 2 _⟩, ⟨rfl, length_lastDigits 2 _⟩, fun _ h => absurd h List.not_mem_nil⟩

/-- The text is a timestamp in its format. -/
def WireFormat (text : Bytes) : Prop :=
  ∃ stamp : Stamp, stamp.text = text

/-- A text that is in the format of timestamps has a plain spelling, and the other way round. -/
theorem wireFormat_iff {text : Bytes} {s : Spelling} {millis : Int} (htext : Utf8.decode? text = some s.chars)
    (h : s.instant? = some millis) : WireFormat text ↔ s.Plain := by
  rw [Spelling.plain_iff h]
  refine exists_congr fun stamp => ?_
  rw [← stamp.asciiBytes_spelling, eq_comm, ← Utf8.decode?_eq_ascii_iff stamp.isAscii_spelling, htext, Option.some.injEq]
  exact ⟨fun h => Spelling.eq_of_chars h.symm, fun h => h ▸ rfl⟩

end Timestamp

end FixWire
