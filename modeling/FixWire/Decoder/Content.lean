import FixWire.Dictionary.FieldType
import FixWire.Number.Decimal
import FixWire.Time.Timestamp

/-!
# What a value says

A decoder reads a value as it stores it, by the kind of its field, so that asking for it later costs
nothing. An empty value is stored as such and is a value of every kind.
-/

namespace FixWire.Decoder

/-- What a value says. -/
inductive Content where
  /-- An integer, or the instant of a timestamp. -/
  | int (n : Int)
  | decimal (d : Decimal)
  | char (b : UInt8)
  | flag (b : Bool)
  /-- A string or data, which say nothing but their bytes. -/
  | text
  /-- An empty value. -/
  | empty
  /-- Bytes that are no value of the kind. -/
  | malformed
  deriving DecidableEq, Repr

namespace Content

/-- The value that stands for true. -/
def yes : Bytes := [0x59]

/-- The value that stands for false. -/
def no : Bytes := [0x4e]

/-- What non-empty bytes say as a value of the kind. -/
def ofBytes? (kind : ValueKind) (bytes : Bytes) : Option Content :=
  match kind with
  | .int => (Integer.parse bytes).map .int
  | .decimal => (Decimal.parse bytes).map .decimal
  | .char =>
    match bytes with
    | [b] => some (.char b)
    | _ => none
  | .bool => if bytes = yes then some (.flag true) else if bytes = no then some (.flag false) else none
  | .string | .data => some .text
  | .timestamp => (Timestamp.parse bytes).toOption.map .int

/-- What bytes say as a value of the kind. -/
def ofBytes (kind : ValueKind) (bytes : Bytes) : Content :=
  if bytes = [] then .empty else (ofBytes? kind bytes).getD .malformed

end Content

/-- The value of a field in a decoder : none, or its bytes and what they say. -/
inductive Value where
  | absent
  | stored (raw : Bytes) (content : Content)
  deriving DecidableEq, Repr

namespace Value

/-- Whether there is a value. -/
def isPresent : Value → Bool
  | .absent => false
  | .stored _ _ => true

/-- The bytes of the value, none if there is no value. -/
def raw : Value → Bytes
  | .absent => []
  | .stored raw _ => raw

/-- Some bytes stored as a value of the kind. -/
def ofBytes (kind : ValueKind) (bytes : Bytes) : Value :=
  .stored bytes (Content.ofBytes kind bytes)

end Value

end FixWire.Decoder
