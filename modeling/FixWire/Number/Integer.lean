import FixWire.Number.Natural

/-!
# Integers in decimal digits

An integer is a natural number with at most one minus sign in front, and fits into 64 bits with its
sign. The least such integer stands for a value that is missing.
-/

namespace FixWire.Integer

/-- The byte in front of a negative number. -/
def minus : UInt8 := 0x2d

/-- The first positive number that takes more than 64 bits with its sign. -/
def limit : Nat := 0x8000000000000000

/-- The least 64-bit integer, which stands for a missing value. -/
def missing : Int := -(limit : Int)

/-- The integer written by `text`, if it is a number that fits into 64 bits with its sign. -/
def parse : Bytes → Option Int
  | [] => none
  | b :: rest =>
    if b = minus then
      match Natural.parse rest with
      | some n => if n ≤ limit then some (-(n : Int)) else none
      | none => none
    else
      match Natural.parse (b :: rest) with
      | some n => if n < limit then some (n : Int) else none
      | none => none

/-- The minus sign of a negative number, and nothing otherwise. -/
def sign (n : Int) : Bytes :=
  if n < 0 then [minus] else []

/-- The shortest text that denotes `n`. -/
def text (n : Int) : Bytes :=
  sign n ++ Natural.digits n.natAbs

/-- The number of bytes of the text of `n`. -/
def textLength (n : Int) : Nat :=
  (if n < 0 then 1 else 0) + Natural.digitCount n.natAbs

end FixWire.Integer
