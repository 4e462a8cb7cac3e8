import FixWire.Number.Decimal

/-!
# Decimals digit by digit

Reading a decimal digit by digit, the number read so far has to fit into 64 bits before each digit is added to it and
after. Writing one into a buffer starts at the last byte of the place that it takes up : the fraction, the point, the
digits in front of it and the sign, each put to the left of what has been written.
-/

namespace FixWire

namespace Natural

/-- The number, if it fits into 64 bits. -/
def fit? (n : Nat) : Option Nat :=
  if n < limit then some n else none

/-- The number with one more digit. -/
def push? (n : Nat) (b : UInt8) : Option Nat :=
  if isDigit b then do fit? ((← fit? (n * 10)) + (b.toNat - 0x30)) else none

end Natural

namespace Decimal

/-! ## Reading -/

/-- What stands before the first point and after it; without a point, everything stands before it. -/
def halves (text : Bytes) : Bytes × Bytes :=
  match text.findIdx? (· == point) with
  | some dot => (text.take dot, text.drop (dot + 1))
  | none => (text, [])

/-- A fraction up to the last byte that is no zero. -/
def upToLast (fraction : Bytes) : Bytes :=
  match fraction.reverse.findIdx? (· != 0x30) with
  | some zeros => fraction.take (fraction.length - zeros)
  | none => []

/-- `ofParts`, digit by digit. -/
def ofPartsByDigit (negative : Bool) (integer fraction : Bytes) : Option Decimal := do
  if integer.isEmpty && fraction.isEmpty then none
  else
    let fraction := upToLast fraction
    if maxScale < fraction.length then none
    else
      let magnitude ← (integer ++ fraction).foldlM Natural.push? 0
      if magnitude < Integer.limit then
        some ⟨if negative then -(magnitude : Int) else magnitude, fraction.length⟩
      else none

/-- `parse`, digit by digit. -/
def parseByDigit (text : Bytes) : Option Decimal :=
  let negative := text.head? == some Integer.minus
  let (integer, fraction) := halves (if negative then text.tail else text)
  ofPartsByDigit negative integer fraction

/-! ## Writing -/

/-- Some bytes that are written from the right : everything from `position` on has been written. -/
structure Leftward where
  bytes : Bytes
  position : Nat

namespace Leftward

/-- Writes a byte to the left of what has been written; there is none to the left of the first byte. -/
def put? (w : Leftward) (b : UInt8) : Option Leftward :=
  if 0 < w.position ∧ w.position ≤ w.bytes.length then some ⟨w.bytes.set (w.position - 1) b, w.position - 1⟩
  else none

/-- Writes the last `width` digits of a number, and tells what is left of it. -/
def putLow? : Nat → Nat → Leftward → Option (Leftward × Nat)
  | 0, n, w => some (w, n)
  | width + 1, n, w => do putLow? width (n / 10) (← w.put? (Natural.digit (n % 10)))

/-- Writes the digits of a number, one at least. -/
def putAll? (n : Nat) (w : Leftward) : Option Leftward := do
  let w ← w.put? (Natural.digit (n % 10))
  if n / 10 = 0 then some w else putAll? (n / 10) w
termination_by n

/-- Writes the sign of a number. -/
def putSign? (n : Int) (w : Leftward) : Option Leftward :=
  if n < 0 then w.put? Integer.minus else some w

/-- Writes a decimal : the fraction, if it has one, the point, the digits before it and the sign. -/
def putDecimal? (d : Decimal) (w : Leftward) : Option Leftward := do
  let (w, left) ←
    if 0 < d.scale then do
      let (w, left) ← w.putLow? d.scale d.value.natAbs
      pure (← w.put? point, left)
    else pure (w, d.value.natAbs)
  (← w.putAll? left).putSign? d.value

end Leftward

/-- Writes a decimal over the bytes of a buffer from `offset` on, and tells how many bytes it has written. There is no
answer if it would write outside the buffer, or outside the bytes that it has measured. -/
def encodeAt (d : Decimal) (buffer : Bytes) (offset : Nat) : Option (Bytes × Nat) := do
  let length := d.textLength
  if buffer.length < offset + length then none
  else
    let w ← Leftward.putDecimal? d ⟨buffer.window offset length, length⟩
    pure (buffer.overwrite offset w.bytes, length)

end Decimal

end FixWire
