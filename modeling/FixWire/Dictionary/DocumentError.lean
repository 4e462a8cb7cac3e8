/-!
# What can be wrong with a dictionary document

The causes for which a document is refused, each with its text.
-/

namespace FixWire

/-- What is declared under a name that has to be unique. -/
inductive Declared where
  | field
  | fieldNumber
  | component
  | messageType
  deriving DecidableEq, Repr

/-- The word for it in error texts. -/
def Declared.word : Declared → String
  | .field => "field"
  | .fieldNumber => "field number"
  | .component => "component"
  | .messageType => "message type"

/-- Why a document is refused. -/
inductive DocumentError where
  /-- The text is no document. -/
  | malformed
  /-- The document has no complete element. -/
  | noRoot
  /-- The root is another element than `fix`. -/
  | wrongRoot (found : String)
  /-- An element lacks an attribute. -/
  | missingAttribute (name element : String)
  /-- The value of an attribute is not of the kind it should be. -/
  | invalidAttribute (value name element : String)
  /-- An aggregate mentions a field that is not declared. -/
  | unknownField (name context : String)
  /-- An aggregate mentions a component that is not declared. -/
  | unresolvedComponent (name : String)
  /-- Something is declared twice. -/
  | duplicate (what : Declared) (name : String)
  deriving DecidableEq, Repr

/-- The text of the cause. -/
def DocumentError.message : DocumentError → String
  | .malformed => "XML parsing error"
  | .noRoot => "invalid dictionary structure: no root element found"
  | .wrongRoot found =>
    s!"invalid dictionary structure: expected root element 'fix', found '{found}'"
  | .missingAttribute name element => s!"missing required attribute '{name}' on element '{element}'"
  | .invalidAttribute value name element =>
    s!"invalid value '{value}' for attribute '{name}' on element '{element}'"
  | .unknownField name context => s!"unknown field '{name}' referenced in '{context}'"
  | .unresolvedComponent name => s!"unresolved component reference '{name}'"
  | .duplicate what name => s!"duplicate {what.word} definition: '{name}'"

end FixWire
