import FixWire.Bytes
import FixWire.Dictionary.FieldType

/-!
# Dictionaries

A dictionary describes one version of the protocol : its fields, and the messages made of them. A message,
a header, a trailer, a component and a group each hold a list of entries, in order. An entry points at a
field, at a repeating group, or at a component, which is a list of entries under a name. Groups are known
by their number in the order in which they end in the document, so that a group comes after those inside
it.

A component that has been spliced out keeps its place among the components, but is no longer in the
table of components.
-/

namespace FixWire

/-- An enumerated value of a field : how it is written, and what it means. -/
structure EnumValue where
  representation : String
  description : String
  deriving DecidableEq, Repr

/-- A declared field. -/
structure Field where
  number : Tag
  name : String
  type : FieldType
  values : List EnumValue
  deriving DecidableEq, Repr

namespace Field

/-- A field with enumerated values. -/
def isEnum (f : Field) : Bool :=
  !f.values.isEmpty

/-- The value that is written as the given bytes. -/
def value? (f : Field) (representation : Bytes) : Option EnumValue :=
  f.values.find? fun v => Bytes.ofString v.representation == representation

/-- Whether a value is written as the given bytes. -/
def hasValue (f : Field) (representation : Bytes) : Bool :=
  (f.value? representation).isSome

/-- What the value that is written as the given bytes means. -/
def descriptionOf? (f : Field) (representation : Bytes) : Option String :=
  (f.value? representation).map EnumValue.description

/-- The field, retyped as a string if it is a single character of which some value needs more than
one byte. -/
def settled (f : Field) : Field :=
  if f.type = .char ∧ f.values.any fun v => 1 < v.representation.utf8ByteSize then
    { f with type := .string }
  else f

end Field

/-- What an entry points at. -/
inductive Item where
  /-- A field. -/
  | field (field : Field)
  /-- The group with the number. -/
  | group (index : Nat)
  /-- The component with the name. -/
  | component (name : String)
  deriving DecidableEq, Repr

/-- An entry of an aggregate : what it points at, and whether that has to be present. -/
structure Entry where
  required : Bool
  item : Item
  deriving DecidableEq, Repr

/-- A repeating group : the field that counts its repetitions, and the entries of one repetition. -/
structure Group where
  name : String
  counter : Field
  entries : List Entry
  deriving DecidableEq, Repr

/-- The name of a group : that of its counter, without the word `No` in front. -/
def Group.nameOfCounter (counter : String) : String :=
  if counter.startsWith "No" then String.ofList (counter.toList.drop 2) else counter

/-- A list of entries under a name. -/
structure Component where
  name : String
  entries : List Entry
  deriving DecidableEq, Repr

/-- Whether a message belongs to the session or to an application. -/
inductive Category where
  | admin
  | app
  deriving DecidableEq, Repr

/-- The category with a name, whatever its case and whatever blanks surround it. -/
def Category.ofName? (text : String) : Option Category :=
  [("ADMIN", .admin), ("APP", .app)].lookup ((Text.trim text).map Char.toUpper)

/-- A declared message. -/
structure Message where
  name : String
  type : String
  category : Category
  entries : List Entry
  deriving DecidableEq, Repr

/-- A dictionary. `spliced` are the names of the components that are no longer in the table. -/
structure Dictionary where
  major : Nat
  minor : Nat
  fields : List Field
  groups : List Group
  components : List Component
  spliced : List String
  messages : List Message
  header : List Entry
  trailer : List Entry
  deriving DecidableEq, Repr

/-- Something that holds entries. -/
inductive Holder where
  /-- The header of every message. -/
  | header
  /-- The trailer of every message. -/
  | trailer
  /-- The message at the position. -/
  | message (index : Nat)
  /-- The group with the number. -/
  | group (index : Nat)
  /-- The component with the name. -/
  | component (name : String)
  deriving DecidableEq, Repr

namespace Dictionary

/-- The first field of every message : the version of the protocol. -/
def beginString (d : Dictionary) : String :=
  s!"FIX.{d.major}.{d.minor}"

/-- The field with the name. -/
def fieldNamed? (d : Dictionary) (name : String) : Option Field :=
  d.fields.find? fun f => f.name == name

/-- The position of the field with the name. -/
def fieldIndex? (d : Dictionary) (name : String) : Option Nat :=
  d.fields.findIdx? fun f => f.name == name

/-- The field with the number. -/
def fieldNumbered? (d : Dictionary) (number : Tag) : Option Field :=
  d.fields.find? fun f => f.number == number

/-- The message with the type. -/
def messageOfType? (d : Dictionary) (type : String) : Option Message :=
  d.messages.find? fun m => m.type == type

/-- The message with the name. -/
def messageNamed? (d : Dictionary) (name : String) : Option Message :=
  d.messages.find? fun m => m.name == name

/-- The component with the name, in the table or not. -/
def component? (d : Dictionary) (name : String) : Option Component :=
  d.components.find? fun c => c.name == name

/-- Whether the component with the name is in the table. -/
def inTable (d : Dictionary) (name : String) : Bool :=
  !d.spliced.contains name

/-- The components in the table, in the order of their declaration. -/
def table (d : Dictionary) : List Component :=
  d.components.filter fun c => d.inTable c.name

/-- The components in the table, in the order of their names. -/
def sortedTable (d : Dictionary) : List Component :=
  d.table.mergeSort fun a b => !decide (b.name < a.name)

/-- The component in the table with the name. -/
def tableComponent? (d : Dictionary) (name : String) : Option Component :=
  d.table.find? fun c => c.name == name

/-- What a holder holds; nothing if there is no such holder. -/
def entriesOf (d : Dictionary) : Holder → List Entry
  | .header => d.header
  | .trailer => d.trailer
  | .message index => (d.messages[index]?.map Message.entries).getD []
  | .group index => (d.groups[index]?.map Group.entries).getD []
  | .component name => ((d.component? name).map Component.entries).getD []

/-- The name of a holder. -/
def nameOf (d : Dictionary) : Holder → String
  | .header => "Header"
  | .trailer => "Trailer"
  | .message index => (d.messages[index]?.map Message.name).getD ""
  | .group index => (d.groups[index]?.map Group.name).getD ""
  | .component name => name

/-- Every list of entries that a reader of the dictionary can come upon : those of the messages, the
groups, the components in the table, the header and the trailer. -/
def visibleEntries (d : Dictionary) : List (List Entry) :=
  d.messages.map Message.entries ++ d.groups.map Group.entries ++
    d.table.map Component.entries ++ [d.header, d.trailer]

/-- Whether some visible entry points at the group. -/
def pointsAt (d : Dictionary) (group : Nat) : Bool :=
  d.visibleEntries.any fun entries => entries.any fun e => e.item == .group group

/-- Whether a reader of the dictionary can come upon the holder. -/
def isVisible (d : Dictionary) : Holder → Bool
  | .header | .trailer => true
  | .message index => index < d.messages.length
  | .group index => d.pointsAt index
  | .component name => (d.tableComponent? name).isSome

/-- The dictionary with every entry replaced, in whatever list it is. -/
def mapEntries (f : Entry → Entry) (d : Dictionary) : Dictionary :=
  { d with
    groups := d.groups.map fun g => { g with entries := g.entries.map f }
    components := d.components.map fun c => { c with entries := c.entries.map f }
    messages := d.messages.map fun m => { m with entries := m.entries.map f }
    header := d.header.map f
    trailer := d.trailer.map f }

/-- How many components there are in the table. -/
def tableSize (d : Dictionary) : Nat :=
  d.table.length

/-! ## Delimiters -/

/-- The first field that the entries lead to : the first entry if it is a field, its counter if it is a
group, and what the component leads to if it is a component, following at most `n` of them. -/
def leadingField? (d : Dictionary) : Nat → List Entry → Option Field
  | _, [] => none
  | n, e :: _ =>
    match e.item with
    | .field f => some f
    | .group index => d.groups[index]?.map Group.counter
    | .component name =>
      match n with
      | 0 => none
      | n + 1 => d.leadingField? n (d.entriesOf (.component name))

/-- The field that starts each repetition of a group. A chain of components that is longer than there are
components runs in a circle and leads to no field. -/
def delimiter? (d : Dictionary) (group : Nat) : Option Field :=
  d.leadingField? d.components.length (d.entriesOf (.group group))

end Dictionary

end FixWire
