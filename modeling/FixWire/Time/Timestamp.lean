import FixWire.FieldError
import FixWire.Number.Natural
import FixWire.Text.Blank
import FixWire.Text.Utf8
import FixWire.Time.Calendar

/-!
# UTC timestamps

An instant is a number of milliseconds since the start of 1970. It is written as
`YYYYMMDD-HH:MM:SS.mmm`, for the years 0 to 9999. Reading is more tolerant : blanks may stand before each
number, the two-digit numbers may have one digit, the year may have up to four digits or a sign and any
number of digits, and a fraction of the second may be absent or have any number of digits, of which
those beyond the milliseconds are dropped. Second 60 is a leap second and counts as one second after
second 59.
-/

namespace FixWire.Timestamp

/-- The number of bytes of a written timestamp. -/
def textLength : Nat := 21

/-- The milliseconds of a day. -/
def dayMillis : Int := 86400000

/-- The name of timestamps in error texts. -/
def kind : String := "timestamp"

/-! ## Writing -/

/-- The text of an instant whose year has at most four digits. -/
def text? (millis : Int) : Option Bytes :=
  let date := Calendar.ofDays (millis / dayMillis + Calendar.epoch)
  let time := (millis % dayMillis).toNat
  if 0 ≤ date.year ∧ date.year ≤ 9999 then
    some <|
      Natural.padded 4 date.year.toNat ++ Natural.padded 2 date.month ++ Natural.padded 2 date.day ++
      Bytes.ofString "-" ++ Natural.padded 2 (time / 3600000) ++
      Bytes.ofString ":" ++ Natural.padded 2 (time / 60000 % 60) ++
      Bytes.ofString ":" ++ Natural.padded 2 (time / 1000 % 60) ++
      Bytes.ofString "." ++ Natural.padded 3 (time % 1000)
  else none

/-- The buffer with the text of an instant written at `offset`. The year is checked before the room. -/
def write (millis : Int) (buffer : Bytes) (offset : Nat) : Except FieldError Bytes :=
  match text? millis with
  | none => .error (.invalidValue kind offset)
  | some text =>
    let available := buffer.length - offset
    if available < textLength then .error (.bufferTooShort textLength available)
    else .ok (buffer.overwrite offset text)

/-! ## Reading -/

/-- The value of an ASCII digit. -/
def digitValue? (c : Char) : Option Nat :=
  if '0' ≤ c && c ≤ '9' then some (c.toNat - '0'.toNat) else none

/-- The digits at the start of the text, and the rest. -/
def spanDigits : List Char → List Nat × List Char
  | [] => ([], [])
  | c :: rest =>
    match digitValue? c with
    | some d => (d :: (spanDigits rest).1, (spanDigits rest).2)
    | none => ([], c :: rest)

/-- The number that some decimal digits denote. -/
def ofDigits (digits : List Nat) : Nat :=
  digits.foldl (fun n d => n * 10 + d) 0

/-- The number written by the digits at the start of the text, of which there must be one. -/
def number (cs : List Char) : Option (Nat × List Char) :=
  match spanDigits cs with
  | ([], _) => none
  | (digits, rest) => some (ofDigits digits, rest)

/-- The number written by the digits at the start of the text, at least one and at most `width`. -/
def shortNumber (width : Nat) (cs : List Char) : Option (Nat × List Char) :=
  match (spanDigits cs).1.take width with
  | [] => none
  | digits => some (ofDigits digits, cs.drop digits.length)

/-- A year : a sign and any number of digits, or up to four digits. -/
def year (cs : List Char) : Option (Int × List Char) :=
  match Text.trimStart cs with
  | '-' :: rest => (number rest).map fun (n, rest) => (-(n : Int), rest)
  | '+' :: rest => (number rest).map fun (n, rest) => ((n : Int), rest)
  | cs => (shortNumber 4 cs).map fun (n, rest) => ((n : Int), rest)

/-- A number of one or two digits. -/
def twoDigits (cs : List Char) : Option (Nat × List Char) :=
  shortNumber 2 (Text.trimStart cs)

/-- The rest of the text after a character that has to come next. -/
def literal (c : Char) : List Char → Option (List Char)
  | [] => none
  | c' :: rest => if c' = c then some rest else none

/-- The milliseconds of an optional fraction, which ends the text. -/
def fraction : List Char → Option Nat
  | [] => some 0
  | c :: rest =>
    match spanDigits rest with
    | ([], _) => none
    | (digits, []) =>
      if c = '.' then some (ofDigits ((digits ++ [0, 0]).take 3)) else none
    | _ => none

/-- The instant of a date and a time of day. -/
def ofParts (date : Date) (hour minute second millis : Nat) : Option Int :=
  if Calendar.isValid date && -262143 ≤ date.year && date.year ≤ 262142 &&
      hour ≤ 23 && minute ≤ 59 && second ≤ 60 then
    some ((Calendar.toDays date - Calendar.epoch) * dayMillis
      + (((hour * 60 + minute) * 60 + second) * 1000 + millis : Nat))
  else none

/-- The instant written by a text. -/
def parseChars (cs : List Char) : Option Int := do
  let (year, cs) ← year cs
  let (month, cs) ← twoDigits cs
  let (day, cs) ← twoDigits cs
  let cs ← literal '-' cs
  let (hour, cs) ← twoDigits cs
  let cs ← literal ':' cs
  let (minute, cs) ← twoDigits cs
  let cs ← literal ':' cs
  let (second, cs) ← twoDigits cs
  let millis ← fraction cs
  ofParts ⟨year, month, day⟩ hour minute second millis

/-- The instant written by some bytes, which have to be UTF-8. -/
def parse (text : Bytes) : Except FieldError Int :=
  match (Utf8.decode? text).bind parseChars with
  | some millis => .ok millis
  | none => .error (.invalidValue kind 0)

end FixWire.Timestamp
