import FixWire.Number.Digitwise
import FixWire.Time.Timestamp

/-!
# Timestamps column by column

A timestamp is written into a buffer column by column : each number has columns of its own, which are filled from the
last one, and each separator has one. There is no answer if a column is outside the place of the timestamp.
-/

namespace FixWire

namespace Bytes

/-- Writes a byte. -/
def put? (bytes : Bytes) (column : Nat) (b : UInt8) : Option Bytes :=
  if column < bytes.length then some (bytes.set column b) else none

/-- Fills the columns from `first` up to, and without, `stop` with the last digits of a number. -/
def putPadded? (bytes : Bytes) (first stop n : Nat) : Option Bytes := do
  if first ≤ stop ∧ stop ≤ bytes.length then
    let (w, _) ← Decimal.Leftward.putLow? (stop - first) n ⟨bytes.slice first stop, stop - first⟩
    pure (bytes.overwrite first w.bytes)
  else none

end Bytes

namespace Timestamp

/-- Writes a date and a time of day into the place of a timestamp. -/
def putStamp? (out : Bytes) (date : Date) (hour minute second milli : Nat) : Option Bytes := do
  let out ← out.putPadded? 0 4 date.year.toNat
  let out ← out.putPadded? 4 6 date.month
  let out ← out.putPadded? 6 8 date.day
  let out ← out.put? 8 0x2d
  let out ← out.putPadded? 9 11 hour
  let out ← out.put? 11 0x3a
  let out ← out.putPadded? 12 14 minute
  let out ← out.put? 14 0x3a
  let out ← out.putPadded? 15 17 second
  let out ← out.put? 17 0x2e
  out.putPadded? 18 21 milli

/-- Writes an instant over the bytes of a buffer from `offset` on, and tells how many bytes it has written. The year is
checked before the room. -/
def encodeAt (millis : Int) (buffer : Bytes) (offset : Nat) : Option (Except FieldError Nat × Bytes) := do
  let date := Calendar.ofDays (millis / dayMillis + Calendar.epoch)
  let time := (millis % dayMillis).toNat
  if 0 ≤ date.year ∧ date.year ≤ 9999 then
    let available := buffer.length - offset
    if available < textLength then pure (.error (.bufferTooShort textLength available), buffer)
    else
      let out ← putStamp? (buffer.window offset textLength) date (time / 3600000) (time / 60000 % 60)
        (time / 1000 % 60) (time % 1000)
      pure (.ok textLength, buffer.overwrite offset out)
  else pure (.error (.invalidValue kind offset), buffer)

end Timestamp

end FixWire
