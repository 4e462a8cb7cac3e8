import FixWire.Dictionary.Basic

/-!
# Checking a dictionary

Codecs are made only from a dictionary in which no enumerated value is empty, the list types have values,
each group has a field to start its repetitions with, and no aggregate is inside itself. The checks are
made in this order, and the first fault counts.
-/

namespace FixWire

/-- Why no codecs can be made from a dictionary. -/
inductive SchemaError where
  /-- A field with a type for lists of values has no values. -/
  | emptyEnum (field : String)
  /-- A value is written as nothing. -/
  | emptyRepresentation (field description : String)
  /-- The repetitions of a group start with no field. -/
  | missingDelimiter (group : String)
  /-- Aggregates that are each inside the one before, the last of which occurs before. -/
  | circular (path : List String)
  deriving DecidableEq, Repr

/-- The text of the cause. -/
def SchemaError.message : SchemaError → String
  | .emptyEnum field => s!"field '{field}' declares an enumeration without values"
  | .emptyRepresentation field description =>
    s!"validation error: field '{field}' has an empty enum representation for '{description}'"
  | .missingDelimiter group => s!"group '{group}' has no delimiter field"
  | .circular path => "circular component reference detected: " ++ " -> ".intercalate path

/-- The fault of a field. -/
def Field.fault? (f : Field) : Option SchemaError :=
  if (f.type = .multipleCharValue ∨ f.type = .multipleStringValue) ∧ f.values = [] then
    some (.emptyEnum f.name)
  else
    (f.values.find? fun v => v.representation.isEmpty).map fun v =>
      .emptyRepresentation f.name v.description

namespace Dictionary

/-- The first fault of a group. -/
def groupFault? (d : Dictionary) : Option SchemaError :=
  (List.range d.groups.length).findSome? fun index =>
    match d.delimiter? index with
    | some _ => none
    | none => some (.missingDelimiter (d.nameOf (.group index)))

/-! ## Aggregates inside themselves -/

/-- What is directly inside a holder, in order. -/
def inside (d : Dictionary) (h : Holder) : List Holder :=
  (d.entriesOf h).filterMap fun e =>
    match e.item with
    | .field _ => none
    | .group index => some (.group index)
    | .component name => some (.component name)

/-- Everything that can be inside something, and the header and the trailer. -/
def holders (d : Dictionary) : List Holder :=
  d.components.map (fun c => .component c.name) ++ [.header, .trailer] ++
    (List.range d.groups.length).map .group

/-- Visits a holder and all that is inside it. `path` are the holders around it, innermost first, and
`done` those that were visited before. The outcome is what has been visited, or the path to a holder that
is inside itself. A path has each holder at most once, so `n`, the number of all holders, bounds its
length. -/
def visit (d : Dictionary) : Nat → List Holder → List Holder → Holder → Except (List Holder) (List Holder)
  | 0, _, done, _ => .ok done
  | n + 1, path, done, h =>
    if h ∈ done then .ok done
    else if h ∈ path then .error (h :: path)
    else do
      let done ← (d.inside h).foldlM (d.visit n (h :: path)) done
      return h :: done

/-- A path to a holder that is inside itself, outermost first. -/
def cycle? (d : Dictionary) : Option (List Holder) :=
  match d.holders.foldlM (d.visit (d.holders.length + 1) []) [] with
  | .ok _ => none
  | .error path => some path.reverse

/-- The first fault of a dictionary. -/
def fault? (d : Dictionary) : Option SchemaError :=
  (d.fields.findSome? Field.fault?).or <| d.groupFault?.or <|
    d.cycle?.map fun path => .circular (path.map d.nameOf)

end Dictionary

end FixWire
