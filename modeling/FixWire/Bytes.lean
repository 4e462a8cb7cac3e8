/-!
# Bytes

Messages, field values and buffers are lists of bytes. A field is written `tag=value` and ended by
the byte `soh`; the checksum of a message is the sum of its bytes modulo 256, which is what addition
of bytes computes.
-/

namespace FixWire

/-- A message, a field value or a buffer, byte by byte. -/
abbrev Bytes := List UInt8

/-- The number of a field or of a group's counter. -/
abbrev Tag := Nat

/-- The first number that takes more than 32 bits, and is no tag. -/
def tagLimit : Nat := 0x100000000

/-- Start of header : the byte that ends every field. -/
def soh : UInt8 := 0x01

/-- The byte between a tag and its value. -/
def equalsSign : UInt8 := 0x3d

/-- The byte between the tokens of a field with several values. -/
def space : UInt8 := 0x20

/-- The sum of the bytes modulo 256. -/
def checksum (bytes : Bytes) : UInt8 :=
  bytes.foldl (· + ·) 0

namespace Bytes

/-- The bytes of a text in UTF-8. -/
def ofString (text : String) : Bytes :=
  text.toList.flatMap String.utf8EncodeChar

/-- The `length` bytes from `offset` on, or as many of them as there are. -/
def window (bytes : Bytes) (offset length : Nat) : Bytes :=
  (bytes.drop offset).take length

/-- The bytes from `offset` up to, and without, `stop`. -/
def slice (bytes : Bytes) (offset stop : Nat) : Bytes :=
  bytes.window offset (stop - offset)

/-- Where `byte` first stands between `offset` and `stop`. -/
def find? (bytes : Bytes) (offset stop : Nat) (byte : UInt8) : Option Nat :=
  ((bytes.slice offset stop).findIdx? (· == byte)).map (offset + ·)

/-- `source` written over the bytes from `offset` on. -/
def overwrite (bytes : Bytes) (offset : Nat) (source : Bytes) : Bytes :=
  bytes.take offset ++ source ++ bytes.drop (offset + source.length)

/-- The tokens between the occurrences of `byte`, empty ones included. -/
def splitOn (byte : UInt8) : Bytes → List Bytes
  | [] => [[]]
  | b :: rest =>
    if b = byte then [] :: splitOn byte rest
    else
      match splitOn byte rest with
      | [] => [[b]]
      | token :: tokens => (b :: token) :: tokens

end Bytes

end FixWire
