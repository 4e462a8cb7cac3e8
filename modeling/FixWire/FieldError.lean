import FixWire.Bytes

/-!
# What can go wrong with a field

The causes for which a typed access to a field, a write into a buffer or the conversion of a value is
refused, each with its text.
-/

namespace FixWire

/-- Why an operation on a field or a buffer was refused. -/
inductive FieldError where
  /-- An optional field was asked for that the message does not carry. -/
  | notSet (tag : Tag)
  /-- The bytes at `offset` are no value of the kind. -/
  | invalidValue (kind : String) (offset : Nat)
  /-- The field holds values of another kind than the one asked for. -/
  | typeMismatch (tag : Tag) (requested actual : String)
  /-- The aggregate has no such field, or no such group. -/
  | unknownField (tag : Tag)
  /-- The buffer has not enough room. -/
  | bufferTooShort (required available : Nat)
  deriving DecidableEq, Repr

/-- The text of the cause. -/
def FieldError.message : FieldError → String
  | .notSet tag => s!"field {tag} is not set"
  | .invalidValue kind offset => s!"invalid {kind} value at offset {offset}"
  | .typeMismatch tag requested actual => s!"field {tag} is {actual}, not {requested}"
  | .unknownField tag => s!"tag {tag} is not defined for this aggregate"
  | .bufferTooShort required available =>
    s!"buffer too short: required {required} bytes, available {available} bytes"

end FixWire
