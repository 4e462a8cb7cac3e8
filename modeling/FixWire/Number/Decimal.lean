import FixWire.Number.Integer

/-!
# Decimals

Prices and quantities are decimals : an unscaled integer and a number of fractional digits, at most
eighteen of them. Reading drops trailing zeros of the fraction, so two texts of one number are read
as one decimal. Writing keeps every fractional digit and at least one digit in front of the point.
-/

namespace FixWire

/-- The number `value / 10 ^ scale`. -/
structure Decimal where
  value : Int
  scale : Nat
  deriving DecidableEq, Repr

namespace Decimal

/-- The most fractional digits of a decimal. -/
def maxScale : Nat := 18

/-- The longest text of a decimal : a sign, a point and nineteen digits. -/
def maxLength : Nat := 21

/-- Stands for a missing value. -/
def missing : Decimal := ⟨Integer.missing, 0⟩

/-- Zero, which is also the default. -/
def zero : Decimal := ⟨0, 0⟩

instance : Inhabited Decimal := ⟨zero⟩

/-- The decimal with the given digits; a scale above the largest counts as the largest. -/
def make (value : Int) (scale : Nat) : Decimal :=
  ⟨value, min scale maxScale⟩

/-- Stands for a missing value. -/
def isMissing (d : Decimal) : Bool :=
  d == missing

/-- The byte between the integer digits and the fraction. -/
def point : UInt8 := 0x2e

/-- The digits of a fraction that matter : all but the zeros at its end. -/
def trimZeros (fraction : Bytes) : Bytes :=
  (fraction.reverse.dropWhile (· == 0x30)).reverse

/-- The decimal written by the digits in front of the point and the digits after it. The fraction
loses its trailing zeros before anything about it is checked. -/
def ofParts (negative : Bool) (integer fraction : Bytes) : Option Decimal :=
  let fraction' := trimZeros fraction
  let digits := integer ++ fraction'
  let magnitude := Natural.ofDigits digits
  if integer = [] ∧ fraction = [] then none
  else if fraction'.length ≤ maxScale ∧ digits.all Natural.isDigit ∧ magnitude < Integer.limit then
    some ⟨if negative then -(magnitude : Int) else magnitude, fraction'.length⟩
  else none

/-- The decimal written by an unsigned text, split at its first point. -/
def parseUnsigned (negative : Bool) (text : Bytes) : Option Decimal :=
  let integer := text.takeWhile (· != point)
  ofParts negative integer (text.drop (integer.length + 1))

/-- The decimal written by `text`, if it is an optional minus sign and digits around at most one
point, with at most eighteen fractional digits that matter and unscaled digits that fit into 64 bits with
their sign. -/
def parse : Bytes → Option Decimal
  | [] => none
  | b :: rest => if b = Integer.minus then parseUnsigned true rest else parseUnsigned false (b :: rest)

/-- The digits of the unscaled value, with zeros in front so that one digit stands before the
point. -/
def paddedDigits (d : Decimal) : Bytes :=
  let digits := Natural.digits d.value.natAbs
  List.replicate (d.scale + 1 - digits.length) 0x30 ++ digits

/-- The text of a decimal, with all fractional digits and at least one digit before the point. -/
def text (d : Decimal) : Bytes :=
  let digits := d.paddedDigits
  let integer := digits.take (digits.length - d.scale)
  let fraction := digits.drop (digits.length - d.scale)
  Integer.sign d.value ++ integer ++ if d.scale = 0 then [] else point :: fraction

/-- The number of bytes of the text. -/
def textLength (d : Decimal) : Nat :=
  let sign := if d.value < 0 then 1 else 0
  let digits := Natural.digitCount d.value.natAbs
  if d.scale = 0 then sign + digits
  else if digits ≤ d.scale then sign + 2 + d.scale
  else sign + digits + 1

/-- The nearest float of the unscaled value, divided by the power of ten. -/
def toFloat (d : Decimal) : Float :=
  Float.ofInt d.value / Float.ofNat (Nat.pow 10 d.scale)

end Decimal

end FixWire
