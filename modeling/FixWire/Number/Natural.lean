import FixWire.FieldError

/-!
# Natural numbers in decimal digits

Tags, counters and lengths are written in the fewest ASCII digits. They are read from any non-empty
run of digits, leading zeros included, as long as the number fits into 64 bits.
-/

namespace FixWire.Natural

/-- The first number that takes more than 64 bits. -/
def limit : Nat := 0x10000000000000000

/-- An ASCII digit. -/
def isDigit (b : UInt8) : Bool :=
  0x30 ≤ b && b ≤ 0x39

/-- The digit for `n`, which is below ten. -/
def digit (n : Nat) : UInt8 :=
  (Nat.digitChar n).toUInt8

/-- The number that a run of digits denotes. -/
def ofDigits (digits : Bytes) : Nat :=
  digits.foldl (fun n b => n * 10 + (b.toNat - 0x30)) 0

/-- The number written by `text`, if it is a run of digits and the number fits into 64 bits. -/
def parse (text : Bytes) : Option Nat :=
  if text ≠ [] ∧ text.all isDigit ∧ ofDigits text < limit then some (ofDigits text) else none

/-- The number written between `offset` and `stop`. -/
def read (buffer : Bytes) (offset stop : Nat) : Except FieldError Nat :=
  match parse (buffer.slice offset stop) with
  | some n => .ok n
  | none => .error (.invalidValue "natural" offset)

/-- The fewest digits that denote `n`. -/
def digits (n : Nat) : Bytes :=
  (Nat.toDigits 10 n).map Char.toUInt8

/-- The number of digits of `n` : one for each time it can be divided by ten, and one more. -/
def digitCount (n : Nat) : Nat :=
  if n < 10 then 1 else digitCount (n / 10) + 1
termination_by n

/-- `n` in exactly `width` digits, higher ones cut off. -/
def padded : Nat → Nat → Bytes
  | 0, _ => []
  | width + 1, n => padded width (n / 10) ++ [digit (n % 10)]

end FixWire.Natural
