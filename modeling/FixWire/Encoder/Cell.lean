import FixWire.Cursor
import FixWire.Layout.Basic
import FixWire.Number.Decimal
import FixWire.Outline
import FixWire.Time.Timestamp

/-!
# The cells of an encoder

An encoder has a cell for every member of an aggregate : the bytes of a field, if it is set, and the entries
of a group. Removed entries are kept to be used again.

Fields are set by tag and kind. A value that is refused leaves everything as it is. What is written for an
aggregate are its members in order : fields that are set, required fields that are not with an empty value,
and groups that have entries or are required, with their number of entries.
-/

namespace FixWire.Encoder

/-- The state of a member. The entries of a group are lists of cells : those that were added, in order, and
spare ones. -/
inductive Cell where
  | field (slot : FieldSlot) (value : Option Bytes)
  | group (slot : GroupSlot) (body : List Member) (live spare : List (List Cell))

namespace Cell

/-- The tag of the member. -/
def tag : Cell → Tag
  | .field slot _ => slot.tag
  | .group slot _ _ _ => slot.tag

/-- The cell of a member that has not been set. -/
def blank : Member → Cell
  | .field slot => .field slot none
  | .group slot body => .group slot body [] []

/-- The cell as if it had not been set. Its entries become spare. -/
def clear : Cell → Cell
  | .field slot _ => .field slot none
  | .group slot body live spare => .group slot body [] (live ++ spare)

/-- Whether the field is set or the group has entries. -/
def isPresent : Cell → Bool
  | .field _ value => value.isSome
  | .group _ _ live _ => !live.isEmpty

/-- Whether the cell is that of the field computed in this way. -/
def isDerived (d : Derived) : Cell → Bool
  | .field slot _ => slot.derived? == some d
  | .group _ _ _ _ => false

/-- Whether the cell is that of the field with the name. -/
def isNamed (name : String) : Cell → Bool
  | .field slot _ => slot.name == name
  | .group _ _ _ _ => false

end Cell

/-! ## Cells of an aggregate -/

/-- The cells of an aggregate of which nothing has been set. -/
def blank (members : List Member) : List Cell :=
  members.map Cell.blank

/-- The cells as if nothing had been set. -/
def clear (cells : List Cell) : List Cell :=
  cells.map Cell.clear

/-- The cell with the tag. -/
def find? (cells : List Cell) (tag : Tag) : Option Cell :=
  cells.find? fun c => c.tag == tag

/-- The cells with a cell in the place of the one with the same tag. -/
def put (cell : Cell) : List Cell → List Cell
  | [] => []
  | c :: rest => if c.tag = cell.tag then cell :: rest else c :: put cell rest

/-- The cells with the first field that satisfies `p` set. -/
def setFirst (p : Cell → Bool) (value : Bytes) : List Cell → List Cell
  | [] => []
  | .field slot old :: rest =>
    if p (.field slot old) then .field slot (some value) :: rest
    else .field slot old :: setFirst p value rest
  | c :: rest => c :: setFirst p value rest

mutual

/-- What a cell holds; nothing for a field that is not set or a group without entries. -/
def Cell.outline? : Cell → Option Outline
  | .field slot value => value.map (.field slot.name ·)
  | .group slot _ live _ => if live.isEmpty then none else some (.group slot.name (outlines live))

/-- What the cells hold. -/
def outline : List Cell → List Outline
  | [] => []
  | c :: rest => c.outline?.toList ++ outline rest

/-- What each of the entries holds. -/
def outlines : List (List Cell) → List (List Outline)
  | [] => []
  | cells :: rest => outline cells :: outlines rest

end

/-- Whether the field with the tag is set or the group has entries. -/
def has (cells : List Cell) (tag : Tag) : Bool :=
  (find? cells tag).any Cell.isPresent

/-- The text of an aggregate. -/
def render (cells : List Cell) : String :=
  Outline.render (outline cells)

/-! ## Setting fields -/

/-- The field with the tag. -/
def field (cells : List Cell) (tag : Tag) : Except FieldError FieldSlot :=
  match find? cells tag with
  | some (.field slot _) => .ok slot
  | _ => .error (.unknownField tag)

/-- The field with the tag, if its values are of the kind. -/
def typed (cells : List Cell) (tag : Tag) (kind : ValueKind) : Except FieldError FieldSlot := do
  let slot ← field cells tag
  if slot.kind ≠ kind then
    throw (.typeMismatch tag kind.name slot.kind.name)
  return slot

/-- Sets a field of a kind. -/
def setTyped (cells : List Cell) (tag : Tag) (kind : ValueKind) (value : Bytes) :
    Except FieldError (List Cell) := do
  let slot ← typed cells tag kind
  return put (.field slot (some value)) cells

/-- Sets an integer. -/
def setInt (cells : List Cell) (tag : Tag) (n : Int) : Except FieldError (List Cell) :=
  setTyped cells tag .int (Integer.text n)

/-- Sets a decimal. -/
def setDecimal (cells : List Cell) (tag : Tag) (d : Decimal) : Except FieldError (List Cell) :=
  setTyped cells tag .decimal d.text

/-- Sets a character. -/
def setChar (cells : List Cell) (tag : Tag) (b : UInt8) : Except FieldError (List Cell) :=
  setTyped cells tag .char [b]

/-- Sets a flag, which is written `Y` or `N`. -/
def setBool (cells : List Cell) (tag : Tag) (b : Bool) : Except FieldError (List Cell) :=
  setTyped cells tag .bool (Bytes.ofString (if b then "Y" else "N"))

/-- Sets a string. -/
def setText (cells : List Cell) (tag : Tag) (text : String) : Except FieldError (List Cell) :=
  setTyped cells tag .string (Bytes.ofString text)

/-- Sets an instant, in milliseconds since the start of 1970. -/
def setTimestamp (cells : List Cell) (tag : Tag) (millis : Int) : Except FieldError (List Cell) := do
  let slot ← typed cells tag .timestamp
  match Timestamp.text? millis with
  | some text => return put (.field slot (some text)) cells
  | none => throw (.invalidValue Timestamp.kind 0)

/-- Sets a field of any kind to some bytes. -/
def setBytes (cells : List Cell) (tag : Tag) (value : Bytes) : Except FieldError (List Cell) := do
  let slot ← field cells tag
  return put (.field slot (some value)) cells

/-! ## Groups -/

/-- A group with its entries. -/
structure GroupCell where
  slot : GroupSlot
  body : List Member
  live : List (List Cell)
  spare : List (List Cell)

namespace GroupCell

/-- The cell of the group. -/
def toCell (g : GroupCell) : Cell :=
  .group g.slot g.body g.live g.spare

/-- The group with one more entry, in which nothing is set. -/
def next (g : GroupCell) : GroupCell :=
  match g.spare with
  | [] => { g with live := g.live ++ [blank g.body] }
  | cells :: spare => { g with live := g.live ++ [clear cells], spare }

/-- The group without entries. -/
def clear (g : GroupCell) : GroupCell :=
  { g with live := [], spare := g.live ++ g.spare }

end GroupCell

/-- The group whose counter has the tag. -/
def group (cells : List Cell) (tag : Tag) : Except FieldError GroupCell :=
  match find? cells tag with
  | some (.group slot body live spare) => .ok ⟨slot, body, live, spare⟩
  | _ => .error (.unknownField tag)

/-- Adds an entry to a group. -/
def nextEntry (cells : List Cell) (tag : Tag) : Except FieldError (List Cell) := do
  return put (← group cells tag).next.toCell cells

/-- Removes the entries of a group. -/
def clearGroup (cells : List Cell) (tag : Tag) : Except FieldError (List Cell) := do
  return put (← group cells tag).clear.toCell cells

/-- The cells of the entry that a path of counters and positions leads to. The path is refused where it
names no group, and leads to nothing where it names no entry. -/
def at? : List Cell → List (Tag × Nat) → Except FieldError (Option (List Cell))
  | cells, [] => .ok (some cells)
  | cells, (tag, index) :: path => do
    let g ← group cells tag
    match g.live[index]? with
    | some entry => at? entry path
    | none => return none

/-- The cells with those of the entry at the end of a path replaced. -/
def replaceAt : List Cell → List (Tag × Nat) → List Cell → List Cell
  | _, [], new => new
  | cells, (tag, index) :: path, new =>
    match group cells tag with
    | .ok g =>
      match g.live[index]? with
      | some entry => put { g with live := g.live.set index (replaceAt entry path new) }.toCell cells
      | none => cells
    | .error _ => cells

/-! ## Writing -/

mutual

/-- The number of bytes that are written for a cell. -/
def Cell.writtenLength : Cell → Nat
  | .field slot value =>
    if value.isSome || slot.required then fieldLength slot.tag (value.getD []).length else 0
  | .group slot _ live _ =>
    if live.isEmpty && !slot.required then 0
    else fieldLength slot.tag (Natural.digitCount live.length) + entriesLength live

/-- The number of bytes that are written for the cells. -/
def writtenLength : List Cell → Nat
  | [] => 0
  | c :: rest => c.writtenLength + writtenLength rest

/-- The number of bytes that are written for the entries of a group. -/
def entriesLength : List (List Cell) → Nat
  | [] => 0
  | cells :: rest => writtenLength cells + entriesLength rest

end

mutual

/-- Writes a cell. -/
def Cell.write : Cell → Write Unit
  | .field slot value =>
    if value.isSome || slot.required then Write.field slot.tag (value.getD []) else pure ()
  | .group slot _ live _ =>
    if live.isEmpty && !slot.required then pure ()
    else do
      Write.int slot.tag live.length
      writeEntries live

/-- Writes the cells. -/
def write : List Cell → Write Unit
  | [] => pure ()
  | c :: rest => do
    c.write
    write rest

/-- Writes the entries of a group. -/
def writeEntries : List (List Cell) → Write Unit
  | [] => pure ()
  | cells :: rest => do
    write cells
    writeEntries rest

end

/-- Writes the cells into a buffer at `offset`, if there is room for all of them : the number of bytes
written and the buffer. -/
def encode (cells : List Cell) (buffer : Bytes) (offset : Nat) : Except FieldError Nat × Bytes :=
  let written : Write Nat := do
    Write.ensure (writtenLength cells)
    write cells
    return (← get).written
  let (result, cursor) := written.run (Cursor.start buffer offset)
  (result, cursor.buffer)

end FixWire.Encoder
