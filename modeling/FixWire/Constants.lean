import FixWire.CodecsError
import FixWire.Dictionary.Compile
import FixWire.MsgType
import FixWire.Text.Identifier
import FixWire.Text.Quoted

/-!
# Generated constants

The names of a dictionary as Rust source : a module with the numbers of the fields, a module with the values
of each enumerated field, and a module with the type of each message. Values with the same description get
different names, because the second one is told apart by what is written for it.
-/

namespace FixWire.Constants

/-- A constant with a comment. -/
structure Item where
  doc : String
  name : String
  type : String
  value : String
  deriving DecidableEq, Repr

/-- A module of constants with a comment. -/
structure Module where
  doc : String
  name : String
  items : List Item
  deriving DecidableEq, Repr

/-! ## Names -/

/-- Words that cannot name a module. -/
def keywords : List String :=
  ["as", "async", "await", "break", "const", "continue", "crate", "dyn", "else", "enum", "extern",
    "false", "fn", "for", "if", "impl", "in", "let", "loop", "match", "mod", "move", "mut", "pub",
    "ref", "return", "self", "static", "struct", "super", "trait", "true", "type", "unsafe", "use",
    "where", "while"]

/-- The name of a constant. -/
def constName (text : String) : String :=
  Text.toIdentifier (Text.screamingSnakeCase text)

/-- The name of a module. -/
def moduleName (text : String) : String :=
  let name := Text.toIdentifier (Text.snakeCase text)
  if keywords.contains name then name ++ "_" else name

/-- A name that is told apart by a representation. -/
def tellApart (name representation : String) : String :=
  name ++ "_" ++ String.ofList ((constName representation).toList.dropWhile (· == '_'))

/-- The constants for some values. `seen` are the names that are taken. -/
def valueItems (seen : List String) : List EnumValue → List Item
  | [] => []
  | v :: rest =>
    let plain := constName v.description
    let name := if seen.contains plain then tellApart plain v.representation else plain
    ⟨v.description, name, "&str", Text.Quoted.literal v.representation⟩ ::
      valueItems (name :: seen) rest

/-! ## The modules of a dictionary -/

/-- The numbers of the fields. -/
def tags (d : Dictionary) : List Item :=
  d.fields.map fun f =>
    ⟨f.name ++ " (" ++ f.type.name ++ ").", constName f.name, "u32", toString f.number⟩

/-- The values of the enumerated fields. -/
def values (d : Dictionary) : List Module :=
  (d.fields.filter Field.isEnum).map fun f =>
    ⟨f.name ++ " (" ++ toString f.number ++ ") values.", moduleName f.name, valueItems [] f.values⟩

/-- The word for a category. -/
def categoryWord : Category → String
  | .admin => "admin"
  | .app => "app"

/-- The types of the messages. -/
def messages (d : Dictionary) : List Module :=
  d.messages.map fun m =>
    ⟨m.name ++ " (" ++ categoryWord m.category ++ ").", moduleName m.name,
      [⟨"Value of MsgType.", "MESSAGE_TYPE", "&str", Text.Quoted.literal m.type⟩,
        ⟨"MsgType packed into a u64, first byte lowest.", "PACKED", "u64",
          toString (MsgType.key (Bytes.ofString m.type))⟩]⟩

/-! ## The source -/

/-- A constant with its comment, on two lines. -/
def Item.render (indent : String) (c : Item) : String :=
  indent ++ "/// " ++ c.doc ++ "\n" ++
    indent ++ "pub const " ++ c.name ++ ": " ++ c.type ++ " = " ++ c.value ++ ";\n"

/-- A module with its comment, around its content. -/
def renderModule (indent doc name content : String) : String :=
  indent ++ "/// " ++ doc ++ "\n" ++ indent ++ "pub mod " ++ name ++ " \x7b\n" ++ content ++
    indent ++ "\x7d\n"

/-- A module inside another one. -/
def Module.render (m : Module) : String :=
  renderModule "    " m.doc m.name (String.join (m.items.map (Item.render "        ")))

/-- The source for a dictionary. -/
def source (d : Dictionary) : String :=
  "// Generated by ironfix-codegen from the " ++ d.beginString ++ " dictionary. Do not edit.\n\n" ++
    Item.render "" ⟨"BeginString of this dictionary.", "BEGIN_STRING", "&str",
      Text.Quoted.literal d.beginString⟩ ++ "\n" ++
    renderModule "" "Field tag numbers." "tags"
      (String.join ((tags d).map (Item.render "    "))) ++ "\n" ++
    renderModule "" "Enumerated field values." "values"
      (String.join ((values d).map Module.render)) ++ "\n" ++
    renderModule "" "Message type codes." "messages"
      (String.join ((messages d).map Module.render))

/-- The source for the dictionary that a document describes, if it has no fault. -/
def ofDocument (text : String) : Except CodecsError String :=
  match Dictionary.compile text with
  | .error cause => .error (.document cause)
  | .ok d =>
    match d.fault? with
    | some cause => .error (.schema cause)
    | none => .ok (source d)

end FixWire.Constants
