import FixWire.Time.Columns

/-!
# Integers digit by digit

Reading an integer digit by digit, the number read so far has to fit into 64 bits at every digit. Writing one takes the
digits from the last to the first, after they have been counted by dividing by ten. What is written over the bytes of a
buffer comes with the number of bytes that it takes up; there is no answer if it would end outside the buffer.
-/

namespace FixWire

/-! ## Reading -/

namespace Natural

/-- `parse`, digit by digit. -/
def parseByDigit (text : Bytes) : Option Nat :=
  if text.isEmpty then none else text.foldlM push? 0

end Natural

namespace Integer

/-- `parse`, digit by digit. The magnitude of the least integer has no positive counterpart. -/
def parseByDigit (text : Bytes) : Option Int :=
  if text.head? = some minus then do
    let magnitude ← Natural.parseByDigit text.tail
    if magnitude = limit then some missing
    else if magnitude < limit then some (-(magnitude : Int)) else none
  else do
    let n ← Natural.parseByDigit text
    if n < limit then some (n : Int) else none

end Integer

/-! ## Counting -/

namespace Natural

/-- Adds one to `length` for every division by ten until nothing remains. -/
def countFrom (length remaining : Nat) : Nat :=
  if remaining = 0 then length else countFrom (length + 1) (remaining / 10)
termination_by remaining

/-- `digitCount`, by a loop. -/
def countDigits (n : Nat) : Nat :=
  countFrom 1 (n / 10)

end Natural

/-- `Integer.textLength`, by a loop. -/
def Integer.countBytes (n : Int) : Nat :=
  (if n < 0 then 1 else 0) + Natural.countDigits n.natAbs

/-! ## Writing -/

namespace Bytes

/-- Writes one byte. -/
def putByte? (bytes : Bytes) (offset : Nat) (b : UInt8) : Option (Bytes × Nat) :=
  (bytes.put? offset b).map (·, 1)

/-- Writes some bytes. -/
def putSlice? (bytes : Bytes) (offset : Nat) (source : Bytes) : Option (Bytes × Nat) :=
  if offset + source.length ≤ bytes.length then some (bytes.overwrite offset source, source.length) else none

/-- Writes the digits of a number. -/
def putNatural? (bytes : Bytes) (offset n : Nat) : Option (Bytes × Nat) :=
  let length := Natural.countDigits n
  (bytes.putPadded? offset (offset + length) n).map (·, length)

/-- Writes an integer : the minus sign, if it has one, and the digits. -/
def putInt? (bytes : Bytes) (offset : Nat) (n : Int) : Option (Bytes × Nat) :=
  if n < 0 then do
    let (bytes, _) ← bytes.putByte? offset Integer.minus
    let (bytes, length) ← bytes.putNatural? (offset + 1) n.natAbs
    pure (bytes, 1 + length)
  else bytes.putNatural? offset n.natAbs

/-- Writes the three digits of a checksum, from the first to the last. -/
def putChecksum? (bytes : Bytes) (offset : Nat) (sum : UInt8) : Option (Bytes × Nat) := do
  let bytes ← bytes.put? offset (Natural.digit (sum.toNat / 100))
  let bytes ← bytes.put? (offset + 1) (Natural.digit (sum.toNat / 10 % 10))
  let bytes ← bytes.put? (offset + 2) (Natural.digit (sum.toNat % 10))
  pure (bytes, 3)

end Bytes

end FixWire
