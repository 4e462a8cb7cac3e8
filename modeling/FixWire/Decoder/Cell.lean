import FixWire.Decoder.Content
import FixWire.FieldError
import FixWire.Layout.Basic
import FixWire.Outline

/-!
# The cells of a decoder

A decoder has a cell for every member of an aggregate. The cell of a field has its value. The cell of a
group has its counter and the repetitions of the last message, and keeps the repetitions of earlier messages
to use them again.

Each cell is stamped with the cycle in which it was last written. A cell that is written twice in one cycle
belongs to a tag that appears twice.
-/

namespace FixWire.Decoder

/-- What is known of the counter of a group : whether it was there, in which cycle, and the number it
gave. -/
structure Counter where
  present : Bool := false
  stamp : UInt32 := 0
  declared : Option Nat := none
  deriving DecidableEq, Repr

/-- The state of a member. The repetitions of a group are lists of cells : those of the last message in
order, and spare ones. -/
inductive Cell where
  | field (slot : FieldSlot) (value : Value) (stamp : UInt32)
  | group (slot : GroupSlot) (body : List Member) (counter : Counter) (live spare : List (List Cell))

namespace Cell

/-- The tag of the member. -/
def tag : Cell → Tag
  | .field slot _ _ => slot.tag
  | .group slot _ _ _ _ => slot.tag

/-- The cell of a member that has not been written. -/
def blank : Member → Cell
  | .field slot => .field slot .absent 0
  | .group slot body => .group slot body {} [] []

/-- The cell as if it had not been written. Its repetitions become spare. -/
def clear : Cell → Cell
  | .field slot _ _ => .field slot .absent 0
  | .group slot body _ live spare => .group slot body {} [] (live ++ spare)

/-- Whether the member was in the last message. -/
def isPresent : Cell → Bool
  | .field _ value _ => value.isPresent
  | .group _ _ counter _ _ => counter.present

/-- The number of bytes of the value of a field. -/
def length : Cell → Nat
  | .field _ value _ => value.raw.length
  | .group _ _ _ _ _ => 0

/-- Whether the cell is that of the field computed in this way. -/
def isDerived (d : Derived) : Cell → Bool
  | .field slot _ _ => slot.derived? == some d
  | .group _ _ _ _ _ => false

end Cell

/-! ## Cells of an aggregate -/

/-- The cell with the tag. -/
def find? (cells : List Cell) (tag : Tag) : Option Cell :=
  cells.find? fun c => c.tag == tag

/-- The cells with a cell in the place of the one with the same tag. -/
def put (cell : Cell) : List Cell → List Cell
  | [] => []
  | c :: rest => if c.tag = cell.tag then cell :: rest else c :: put cell rest

mutual

/-- What a cell holds; nothing if the member was not in the last message. -/
def Cell.outline? : Cell → Option Outline
  | .field slot value _ => if value.isPresent then some (.field slot.name value.raw) else none
  | .group slot _ counter live _ =>
    if counter.present then some (.group slot.name (outlines live)) else none

/-- What the cells hold. -/
def outline : List Cell → List Outline
  | [] => []
  | c :: rest => c.outline?.toList ++ outline rest

/-- What each of the repetitions holds. -/
def outlines : List (List Cell) → List (List Outline)
  | [] => []
  | cells :: rest => outline cells :: outlines rest

end

mutual

/-- The tag of a member that is required and not there; in a group that is there or not required, the
first such tag in its repetitions. -/
def Cell.missing? : Cell → Option Tag
  | .field slot value _ => if slot.required && !value.isPresent then some slot.tag else none
  | .group slot _ counter live _ =>
    if slot.required && !counter.present then some slot.tag else missingInAny? live

/-- The first such tag in the cells. -/
def missing? : List Cell → Option Tag
  | [] => none
  | c :: rest => c.missing?.or (missing? rest)

/-- The first such tag in some repetitions. -/
def missingInAny? : List (List Cell) → Option Tag
  | [] => none
  | cells :: rest => (missing? cells).or (missingInAny? rest)

end

/-- The cells of a header, a body, a trailer or a repetition, under the name of the aggregate. `stamp` is
its cycle. -/
structure Aggregate where
  name : String
  stamp : UInt32
  cells : List Cell

namespace Aggregate

/-- An aggregate that has not been written. -/
def blank (l : Layout) : Aggregate :=
  ⟨l.name, 0, l.members.map Cell.blank⟩

/-- The aggregate as if it had not been written. -/
def clear (a : Aggregate) : Aggregate :=
  { a with stamp := 0, cells := a.cells.map Cell.clear }

/-- The aggregate in its next cycle. Cycles are counted with 32 bits; 0 stands for no cycle and is left
out. -/
def nextCycle (a : Aggregate) : Aggregate :=
  { a with stamp := if a.stamp + 1 = 0 then 1 else a.stamp + 1 }

/-- Whether one of the members has the tag. -/
def owns (a : Aggregate) (tag : Tag) : Bool :=
  (find? a.cells tag).isSome

/-- The tags of the members. -/
def tags (a : Aggregate) : List Tag :=
  a.cells.map Cell.tag

/-- The text of the aggregate. -/
def render (a : Aggregate) : String :=
  Outline.render (outline a.cells)

/-- A repetition of a group. -/
def ofRepetition (slot : GroupSlot) (cells : List Cell) : Aggregate :=
  ⟨slot.name, 1, cells⟩

/-- The repetition that a path of counters and positions leads to. -/
def at? : Aggregate → List (Tag × Nat) → Option Aggregate
  | a, [] => some a
  | a, (tag, index) :: path =>
    match find? a.cells tag with
    | some (.group slot _ _ live _) =>
      match live[index]? with
      | some cells => at? (ofRepetition slot cells) path
      | none => none
    | _ => none

end Aggregate

end FixWire.Decoder
