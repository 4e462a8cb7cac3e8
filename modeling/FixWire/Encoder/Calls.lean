import FixWire.Cursor
import FixWire.Number.Stepwise

/-!
# Fields written step by step

Once there is room for the complete field, it is written at a cursor in four steps : the digits of the tag, the equals
sign, the value and the end of the field. Each step writes where the cursor stands and moves it on by the number of
bytes that it has written, without a look at the room that is left. There is no answer if a step would end outside the
buffer.
-/

namespace FixWire

/-- A field to be written at a cursor : with bytes, an integer or a checksum for its value. -/
inductive FieldCall where
  | field (tag : Tag) (value : Bytes)
  | int (tag : Tag) (n : Int)
  | checksum (tag : Tag) (sum : UInt8)
  deriving DecidableEq, Repr

namespace FieldCall

/-- The tag of the field. -/
def tag : FieldCall → Tag
  | field tag _ => tag
  | int tag _ => tag
  | checksum tag _ => tag

/-- The length that is announced for the value, before it is written. -/
def valueLength : FieldCall → Nat
  | field _ value => value.length
  | int _ n => Integer.countBytes n
  | checksum _ _ => 3

/-- The length that is announced for the complete field. -/
def length (f : FieldCall) : Nat :=
  Natural.countDigits f.tag + 1 + f.valueLength + 1

/-- Writes the value into a buffer. -/
def putValue? (bytes : Bytes) (offset : Nat) : FieldCall → Option (Bytes × Nat)
  | field _ value => bytes.putSlice? offset value
  | int _ n => bytes.putInt? offset n
  | checksum _ sum => bytes.putChecksum? offset sum

/-- The field as one write at a cursor. -/
def write : FieldCall → Write Unit
  | field tag value => Write.field tag value
  | int tag n => Write.int tag n
  | checksum tag sum => Write.checksum tag sum

end FieldCall

namespace Cursor

/-- Writes something where the cursor stands and moves the cursor behind it. -/
def advance? (c : Cursor) (put : Bytes → Nat → Option (Bytes × Nat)) : Option Cursor :=
  (put c.buffer c.position).map fun written =>
    { c with buffer := written.1, position := c.position + written.2 }

/-- Writes a field in its four steps, if there is room for the length that is announced for it. -/
def call? (c : Cursor) (f : FieldCall) : Option (Except FieldError Unit × Cursor) :=
  match c.ensure f.length with
  | .error cause => some (.error cause, c)
  | .ok () => do
    let c ← c.advance? (Bytes.putNatural? · · f.tag)
    let c ← c.advance? (Bytes.putByte? · · equalsSign)
    let c ← c.advance? (FieldCall.putValue? · · f)
    let c ← c.advance? (Bytes.putByte? · · soh)
    pure (.ok (), c)

/-- Writes fields one after another, and goes on after one that is refused. -/
def calls? (c : Cursor) : List FieldCall → Option (List (Except FieldError Unit) × Cursor)
  | [] => some ([], c)
  | f :: rest => do
    let (outcome, c) ← c.call? f
    let (outcomes, c) ← c.calls? rest
    pure (outcome :: outcomes, c)

end Cursor

end FixWire
