import FixWire.Dictionary.Check
import FixWire.Dictionary.DocumentError
import FixWire.Text.Utf8

/-!
# Why there is no codec

The causes for which codecs cannot be made from a document, or for which there is no codec for a message.
-/

namespace FixWire

/-- Why there is no codec. -/
inductive CodecsError where
  /-- The document is refused. -/
  | document (cause : DocumentError)
  /-- The dictionary has a fault. -/
  | schema (cause : SchemaError)
  /-- Two message types have the same key. -/
  | keyClash (first second : String)
  /-- There is no message of the type. -/
  | unknownType (type : Bytes)
  /-- A message does not tell its type. -/
  | noType
  deriving DecidableEq, Repr

/-- The text of the cause. -/
def CodecsError.message : CodecsError → String
  | .document cause => "dictionary parse error: " ++ cause.message
  | .schema cause => "dictionary error: " ++ cause.message
  | .keyClash first second =>
    s!"generation error: message types '{first}' and '{second}' pack to the same code"
  | .unknownType type =>
    "generation error: unknown message type '" ++ String.ofList (Utf8.decodeLossy type) ++ "'"
  | .noType => "generation error: no MsgType field in message"

end FixWire
