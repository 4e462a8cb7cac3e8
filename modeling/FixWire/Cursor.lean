import FixWire.FieldError
import FixWire.Number.Integer

/-!
# A cursor into a buffer

Fields are written into a buffer at a cursor, each as a whole or not at all : the room is checked for
the length of the complete field before its first byte is written.
-/

namespace FixWire

/-- The number of bytes of a field with a value of the given length. -/
def fieldLength (tag : Tag) (length : Nat) : Nat :=
  Natural.digitCount tag + 1 + length + 1

/-- A field as it stands in a message. -/
def fieldBytes (tag : Tag) (value : Bytes) : Bytes :=
  Natural.digits tag ++ equalsSign :: value ++ [soh]

/-- A checksum as it stands in a message : three digits. -/
def checksumText (sum : UInt8) : Bytes :=
  Natural.padded 3 sum.toNat

/-- A buffer that is being written : where writing started, and where it goes on. -/
structure Cursor where
  buffer : Bytes
  offset : Nat
  position : Nat
  deriving DecidableEq, Repr

namespace Cursor

/-- A cursor that starts at `offset`. -/
def start (buffer : Bytes) (offset : Nat) : Cursor :=
  ⟨buffer, offset, offset⟩

/-- The number of bytes written so far. -/
def written (c : Cursor) : Nat :=
  c.position - c.offset

/-- The number of bytes left in the buffer. -/
def remaining (c : Cursor) : Nat :=
  c.buffer.length - c.position

/-- Refuses if fewer than `required` bytes are left. -/
def ensure (c : Cursor) (required : Nat) : Except FieldError Unit :=
  if required > c.remaining then .error (.bufferTooShort required c.remaining) else .ok ()

/-- The cursor after some bytes that fit. -/
def put (c : Cursor) (bytes : Bytes) : Cursor :=
  { c with buffer := c.buffer.overwrite c.position bytes, position := c.position + bytes.length }

/-- The sum of the bytes written from `start` on. -/
def checksumSince (c : Cursor) (start : Nat) : UInt8 :=
  checksum (c.buffer.slice start c.position)

end Cursor

/-- Writing at a cursor. A refused write leaves the cursor, and what was written before, as it is. -/
abbrev Write := ExceptT FieldError (StateM Cursor)

namespace Write

/-- Refuses if fewer than `required` bytes are left. -/
def ensure (required : Nat) : Write Unit := do
  (← get).ensure required

/-- Writes a field whose value has the given length, or refuses it. -/
def sized (tag : Tag) (length : Nat) (value : Bytes) : Write Unit := do
  ensure (fieldLength tag length)
  modify fun c => c.put (fieldBytes tag value)

/-- Writes a field. -/
def field (tag : Tag) (value : Bytes) : Write Unit :=
  sized tag value.length value

/-- Writes a field whose value is an integer. -/
def int (tag : Tag) (n : Int) : Write Unit :=
  sized tag (Integer.textLength n) (Integer.text n)

/-- Writes a field whose value is a checksum. -/
def checksum (tag : Tag) (sum : UInt8) : Write Unit :=
  sized tag 3 (checksumText sum)

end Write

end FixWire
