import FixWire.Decoder.Cell

/-!
# Access to decoded values

Values are asked for by tag and kind. A required field that is absent, or a field with an empty value, gives
a value that stands for a missing one; an optional field that is absent is refused.
-/

namespace FixWire.Decoder.Aggregate

/-- The field with the tag, with its value. -/
def field (a : Aggregate) (tag : Tag) : Except FieldError (FieldSlot × Value) :=
  match find? a.cells tag with
  | some (.field slot value _) => .ok (slot, value)
  | _ => .error (.unknownField tag)

/-- What the field with the tag says, none if it is required and absent. -/
def typed (a : Aggregate) (tag : Tag) (kind : ValueKind) : Except FieldError (Option Content) := do
  let (slot, value) ← a.field tag
  if slot.kind ≠ kind then
    throw (.typeMismatch tag kind.name slot.kind.name)
  match value with
  | .absent => if slot.required then return none else throw (.notSet tag)
  | .stored _ .malformed => throw (.invalidValue kind.name 0)
  | .stored _ content => return some content

/-- An integer. -/
def getInt (a : Aggregate) (tag : Tag) : Except FieldError Int :=
  (a.typed tag .int).map fun
    | some (.int n) => n
    | _ => Integer.missing

/-- A decimal. -/
def getDecimal (a : Aggregate) (tag : Tag) : Except FieldError Decimal :=
  (a.typed tag .decimal).map fun
    | some (.decimal d) => d
    | _ => Decimal.missing

/-- A character; NUL stands for a missing one. -/
def getChar (a : Aggregate) (tag : Tag) : Except FieldError UInt8 :=
  (a.typed tag .char).map fun
    | some (.char b) => b
    | _ => 0

/-- A flag; false stands for a missing one. -/
def getBool (a : Aggregate) (tag : Tag) : Except FieldError Bool :=
  (a.typed tag .bool).map fun
    | some (.flag b) => b
    | _ => false

/-- An instant, in milliseconds since the start of 1970. -/
def getTimestamp (a : Aggregate) (tag : Tag) : Except FieldError Int :=
  (a.typed tag .timestamp).map fun
    | some (.int n) => n
    | _ => Integer.missing

/-- The bytes of a field of any kind. -/
def getBytes (a : Aggregate) (tag : Tag) : Except FieldError Bytes := do
  let (slot, value) ← a.field tag
  if !value.isPresent && !slot.required then throw (.notSet tag)
  return value.raw

/-- A field of any kind as text, none if it is absent. -/
def getText (a : Aggregate) (tag : Tag) : Except FieldError (Option String) := do
  let (_, value) ← a.field tag
  match value with
  | .absent => return none
  | .stored raw _ =>
    match Utf8.decode? raw with
    | some cs => return some (String.ofList cs)
    | none => throw (.invalidValue "utf-8" (Utf8.validLength raw))

/-- Whether the member with the tag was in the last message. -/
def has (a : Aggregate) (tag : Tag) : Bool :=
  (find? a.cells tag).any Cell.isPresent

/-- The number of bytes of the value of the field with the tag. -/
def length (a : Aggregate) (tag : Tag) : Nat :=
  ((find? a.cells tag).map Cell.length).getD 0

/-- The tag of the field with the name, or else of the group whose counter or which itself has the name. -/
def tagOf? (a : Aggregate) (name : String) : Option Tag :=
  let field := a.cells.find? fun
    | .field slot _ _ => slot.name == name
    | .group _ _ _ _ _ => false
  let group := a.cells.find? fun
    | .field _ _ _ => false
    | .group slot _ _ _ _ => slot.counter.name == name || slot.name == name
  (field.or group).map Cell.tag

end FixWire.Decoder.Aggregate

namespace FixWire.Decoder

/-- A group of a decoded aggregate, as it is shown to its users. -/
structure GroupView where
  name : String
  counter : Tag
  present : Bool
  declared : Option Nat
  repetitions : List Aggregate

/-- The number that the counter gave, or the integer that stands for a missing one. -/
def GroupView.declaredCount (g : GroupView) : Int :=
  match g.declared with
  | some n => n
  | none => Integer.missing

/-- The group whose counter has the tag. -/
def Aggregate.group? (a : Aggregate) (tag : Tag) : Option GroupView :=
  match find? a.cells tag with
  | some (.group slot _ counter live _) =>
    some ⟨slot.name, slot.tag, counter.present, counter.declared, live.map (.ofRepetition slot)⟩
  | _ => none

end FixWire.Decoder
