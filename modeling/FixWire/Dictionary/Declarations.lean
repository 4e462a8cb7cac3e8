import FixWire.Dictionary.Basic
import FixWire.Dictionary.DocumentError
import FixWire.Xml.Element

/-!
# Declarations

What a dictionary document declares, read from its elements : the fields first, then the components, the
messages, the header and the trailer, whatever their order in the document. In an aggregate, fields are
looked up as they are read, so an unknown one is found at its place. Components may be declared later than
they are mentioned; once everything is read, the first mention of a component that is not declared at all
is found.
-/

namespace FixWire

/-- A declared entry : a field, a group with the entries declared in it, or a mention of a component. -/
inductive Declaration where
  | field (required : Bool) (field : Field)
  | group (required : Bool) (counter : Field) (members : List Declaration)
  | component (required : Bool) (name : String)

/-- Entries declared under a name. -/
structure DeclaredComponent where
  name : String
  members : List Declaration

/-- A declared message with its entries. -/
structure DeclaredMessage where
  name : String
  type : String
  category : Category
  members : List Declaration

/-- All that a document declares. -/
structure Declarations where
  major : Nat
  minor : Nat
  fields : List Field
  components : List DeclaredComponent
  messages : List DeclaredMessage
  header : List Declaration
  trailer : List Declaration

/-! ## Attributes -/

/-- An attribute that has to be there. -/
def Xml.Element.require (e : Xml.Element) (name : String) : Except DocumentError String :=
  match e.attribute? name with
  | some value => .ok value
  | none => .error (.missingAttribute name e.name)

/-- The digits of a number, after a plus sign if there is one. -/
def unsignedDigits : List Char → List Char
  | '+' :: rest => rest
  | cs => cs

/-- The number of at most 32 bits that a text writes in decimal digits, after an optional plus sign. -/
def unsigned? (cs : List Char) : Option Nat :=
  let digits := unsignedDigits cs
  let value := digits.foldl (fun n c => n * 10 + (c.toNat - '0'.toNat)) 0
  if digits ≠ [] ∧ digits.all (fun c => '0' ≤ c && c ≤ '9') ∧ value < tagLimit then some value else none

/-- An attribute that has to be a number of at most 32 bits, possibly between blanks. -/
def Xml.Element.requireNumber (e : Xml.Element) (name : String) : Except DocumentError Nat := do
  let value ← e.require name
  match unsigned? (Text.trim value).toList with
  | some n => .ok n
  | none => .error (.invalidAttribute value name e.name)

/-! ## Fields -/

/-- The values declared in a field. -/
def readValues : List Xml.Element → Except DocumentError (List EnumValue)
  | [] => .ok []
  | e :: rest => do
    let representation ← e.require "enum"
    let description ← e.require "description"
    return ⟨representation, description⟩ :: (← readValues rest)

/-- The field that an element declares, after the given ones. -/
def readField (known : List Field) (e : Xml.Element) : Except DocumentError Field := do
  let number ← e.requireNumber "number"
  let name ← e.require "name"
  let typeName ← e.require "type"
  let some type := FieldType.ofName? typeName
    | throw (.invalidAttribute typeName "type" "field")
  let values ← readValues (e.childrenNamed "value")
  if known.any fun f => f.name == name then
    throw (.duplicate .field name)
  if known.any fun f => f.number == number then
    throw (.duplicate .fieldNumber (toString number))
  return Field.settled ⟨number, name, type, values⟩

/-- The given fields and those that the elements declare. -/
def readFields (known : List Field) : List Xml.Element → Except DocumentError (List Field)
  | [] => .ok known
  | e :: rest => do
    let field ← readField known e
    readFields (known ++ [field]) rest

/-! ## Aggregates -/

/-- The declared field with the name that an aggregate mentions. -/
def mentionedField (fields : List Field) (name context : String) : Except DocumentError Field :=
  match fields.find? fun f => f.name == name with
  | some f => .ok f
  | none => .error (.unknownField name context)

mutual

/-- The entry that an element in an aggregate declares; none if the element is no entry, or an entry with
a blank name. -/
def readMember (fields : List Field) (context : String) :
    Xml.Element → Except DocumentError (Option Declaration)
  | ⟨kind, attributes, children⟩ =>
    let e : Xml.Element := ⟨kind, attributes, children⟩
    if kind ≠ "field" ∧ kind ≠ "group" ∧ kind ≠ "component" then .ok none
    else do
      let name ← e.require "name"
      let required := e.attribute? "required" == some "Y"
      if name.toList.all Text.isBlank then return none
      else if kind = "field" then
        return some (.field required (← mentionedField fields name context))
      else if kind = "group" then
        let counter ← mentionedField fields name context
        return some (.group required counter
          (← readMembers fields (Group.nameOfCounter name) children))
      else return some (.component required name)

/-- The entries that the elements in an aggregate declare. -/
def readMembers (fields : List Field) (context : String) :
    List Xml.Element → Except DocumentError (List Declaration)
  | [] => .ok []
  | e :: rest => do
    let member ← readMember fields context e
    return member.toList ++ (← readMembers fields context rest)

end

/-- The given components and those that the elements declare. -/
def readComponents (fields : List Field) (known : List DeclaredComponent) :
    List Xml.Element → Except DocumentError (List DeclaredComponent)
  | [] => .ok known
  | e :: rest => do
    let name ← e.require "name"
    if known.any fun c => c.name == name then
      throw (.duplicate .component name)
    let members ← readMembers fields name e.children
    readComponents fields (known ++ [⟨name, members⟩]) rest

/-- The given messages and those that the elements declare. -/
def readMessages (fields : List Field) (known : List DeclaredMessage) :
    List Xml.Element → Except DocumentError (List DeclaredMessage)
  | [] => .ok known
  | e :: rest => do
    let name ← e.require "name"
    let type ← e.require "msgtype"
    let categoryName ← e.require "msgcat"
    let some category := Category.ofName? categoryName
      | throw (.invalidAttribute categoryName "msgcat" "message")
    if known.any fun m => m.type == type then
      throw (.duplicate .messageType type)
    let members ← readMembers fields name e.children
    readMessages fields (known ++ [⟨name, type, category, members⟩]) rest

/-- The entries declared in an element that may be absent. -/
def readPart (fields : List Field) (context : String) (e : Option Xml.Element) :
    Except DocumentError (List Declaration) :=
  match e with
  | some e => readMembers fields context e.children
  | none => .ok []

/-! ## Mentions of components -/

mutual

/-- The components mentioned in an entry, in order. -/
def Declaration.mentions : Declaration → List String
  | .field _ _ => []
  | .group _ _ members => allMentions members
  | .component _ name => [name]

/-- The components mentioned in some entries, in order. -/
def allMentions : List Declaration → List String
  | [] => []
  | d :: rest => d.mentions ++ allMentions rest

end

namespace Declarations

/-- The components mentioned anywhere, in the order of reading. -/
def mentions (d : Declarations) : List String :=
  d.components.flatMap (allMentions ·.members) ++ d.messages.flatMap (allMentions ·.members) ++
    allMentions d.header ++ allMentions d.trailer

/-- The first mention of a component that is not declared. -/
def unresolved? (d : Declarations) : Option String :=
  d.mentions.find? fun name => !d.components.any fun c => c.name == name

/-- The elements with a name in all sections with a name. -/
def inSections (root : Xml.Element) (sectionName name : String) : List Xml.Element :=
  (root.childrenNamed sectionName).flatMap (·.childrenNamed name)

/-- What the root of a document declares. -/
def ofRoot (root : Xml.Element) : Except DocumentError Declarations := do
  if root.name ≠ "fix" then
    throw (.wrongRoot root.name)
  let major ← root.requireNumber "major"
  let minor ← root.requireNumber "minor"
  let fields ← readFields [] (inSections root "fields" "field")
  let components ← readComponents fields [] (inSections root "components" "component")
  let messages ← readMessages fields [] (inSections root "messages" "message")
  let header ← readPart fields "Header" (root.child? "header")
  let trailer ← readPart fields "Trailer" (root.child? "trailer")
  let d : Declarations := ⟨major, minor, fields, components, messages, header, trailer⟩
  match d.unresolved? with
  | some name => throw (.unresolvedComponent name)
  | none => return d

/-- What a document declares. -/
def ofDocument (text : String) : Except DocumentError Declarations :=
  match Xml.root? text with
  | none => .error .malformed
  | some none => .error .noRoot
  | some (some root) => ofRoot root

end Declarations

end FixWire
