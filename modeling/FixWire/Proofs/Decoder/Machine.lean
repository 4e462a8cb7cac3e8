import FixWire.Decoder.Reading

/-!
# A flat machine for messages

The machine says what a message means, pair by pair, without calls inside calls and without cells that are
used again. It has the three parts of the message, each with a node for every member of its layout, and a
stack of the open groups, innermost first.

* A pair whose tag the innermost open group has goes to the latest repetition of that group. A repetition is
  started if there is none, or if the tag is the delimiter and the latest repetition has had it.
* Otherwise, if a group around it or a part has the tag, groups are closed until that one is the innermost :
  of the groups the innermost that has the tag, of the parts the header before the body before the trailer.
* Otherwise the pair is left out, and no group is closed.

A counter opens its group without repetitions, whatever was in it before. After the checksum the message ends
at the first pair that belongs to no open group and not to the trailer.

Everything that happens is an event of the machine. Repetitions are told apart by the event that starts them.
-/

namespace FixWire

/-- The member with the tag. -/
def memberOf? (members : List Member) (tag : Tag) : Option Member :=
  members.find? fun m => m.tag == tag

namespace MessageLayout

/-- The part that has the tag : the header before the body, and the body before the trailer. -/
def owner? (l : MessageLayout) (tag : Tag) : Option Part :=
  [Part.header, .body, .trailer].find? fun part => owns (l.part part).members tag

/-- Whether the member of the part with the tag is the checksum of the message. -/
def isSum (l : MessageLayout) (part : Part) (tag : Tag) : Bool :=
  part = .trailer && (memberOf? l.trailer.members tag).any (Member.isDerived .checkSum)

end MessageLayout

namespace Decoder

/-! ## What a message holds -/

/-- What a message holds for a member : the value of a field, or a group with what its counter declares and
with its repetitions. -/
inductive Node where
  | field (slot : FieldSlot) (value : Value)
  | group (slot : GroupSlot) (present : Bool) (declared : Option Nat) (repetitions : List (List Node))

namespace Node

/-- The tag of the member. -/
def tag : Node → Tag
  | .field slot _ => slot.tag
  | .group slot _ _ _ => slot.tag

/-- The node of a member that the message does not have. -/
def blank : Member → Node
  | .field slot => .field slot .absent
  | .group slot _ => .group slot false none []

/-- The node of a member that is given a value. A group starts without repetitions. -/
def given (value : Bytes) : Member → Node
  | .field slot => .field slot (Value.ofBytes slot.kind value)
  | .group slot _ => .group slot true (declaredCount? value) []

/-- The nodes with a node in the place of the one with the same tag. -/
def place (node : Node) : List Node → List Node
  | [] => []
  | n :: rest => if n.tag = node.tag then node :: rest else n :: place node rest

end Node

/-! ## Events -/

/-- An aggregate of a message : one of its parts, or the repetition that is started by the event with the
number. -/
inductive Instance where
  | part (part : Part)
  | repetition (start : Nat)
  deriving DecidableEq, Repr

/-- Something that happens while a message is read. -/
inductive Event where
  /-- A pair is the field of an aggregate. -/
  | field (owner : Instance) (slot : FieldSlot) (value : Bytes)
  /-- A pair is the counter of a group of an aggregate. -/
  | counter (owner : Instance) (slot : GroupSlot) (value : Bytes)
  /-- A group is over : what its counter has declared, and how many repetitions there were. -/
  | closed (slot : GroupSlot) (declared : Option Nat) (count : Nat)
  /-- A pair has a tag that nothing has, inside a group or outside. -/
  | unclaimed (tag : Tag) (inside : Bool)
  deriving DecidableEq, Repr

/-- The event that a member of an aggregate is given a value. -/
def Event.given (owner : Instance) (value : Bytes) : Member → Event
  | .field slot => .field owner slot value
  | .group slot _ => .counter owner slot value

/-! ## Open groups -/

/-- An open group. Its repetitions are the latest first; `delimited` tells whether the latest one has had the
delimiter, and `start` is the number of the event that has started it. -/
structure Frame where
  slot : GroupSlot
  body : List Member
  declared : Option Nat
  repetitions : List (List Node)
  delimited : Bool
  start : Nat

namespace Frame

/-- Whether the repetitions have a member with the tag. -/
def owns (f : Frame) (tag : Tag) : Bool :=
  FixWire.owns f.body tag

/-- The node of the group. -/
def node (f : Frame) : Node :=
  .group f.slot true f.declared f.repetitions.reverse

/-- The group with a new repetition, which the event with the number starts. -/
def startRepetition (f : Frame) (start : Nat) : Frame :=
  { f with repetitions := f.body.map Node.blank :: f.repetitions, delimited := false, start }

/-- The group when the event with the number gives it a pair with the tag. -/
def advance (f : Frame) (tag : Tag) (event : Nat) : Frame :=
  let isDelimiter := tag == f.slot.delimiter
  let f := if f.repetitions.isEmpty || (isDelimiter && f.delimited) then f.startRepetition event else f
  { f with delimited := f.delimited || isDelimiter }

/-- The group with a node placed in its latest repetition. -/
def fill (f : Frame) (node : Node) : Frame :=
  match f.repetitions with
  | [] => f
  | latest :: earlier => { f with repetitions := Node.place node latest :: earlier }

end Frame

/-- The group that is opened when a member is given a value. -/
def Frame.opened? (value : Bytes) : Member → Option Frame
  | .field _ => none
  | .group slot body => some ⟨slot, body, declaredCount? value, [], false, 0⟩

/-! ## The machine -/

/-- What has been read of a message : its parts, the open groups, innermost first, the part that the outermost
of them belongs to, whether the checksum has been read, the number of bytes, and the events. -/
structure Machine where
  parts : Part → List Node
  frames : List Frame
  base : Part
  summed : Bool
  consumed : Nat
  events : List Event

namespace Machine

/-- A message of which nothing has been read. -/
def start (l : MessageLayout) : Machine where
  parts part := (l.part part).members.map Node.blank
  frames := []
  base := .header
  summed := false
  consumed := 0
  events := []

/-- A node is placed in a part. -/
def placeInPart (s : Machine) (part : Part) (node : Node) : Machine :=
  { s with parts := fun q => if q = part then Node.place node (s.parts q) else s.parts q }

/-- The innermost open group is over. -/
def closeInner (s : Machine) : Machine :=
  match s.frames with
  | [] => s
  | f :: outer =>
    let closed := Event.closed f.slot f.declared f.repetitions.length
    match outer with
    | [] => { s.placeInPart s.base f.node with frames := [], events := s.events ++ [closed] }
    | g :: rest => { s with frames := g.fill f.node :: rest, events := s.events ++ [closed] }

/-- The `n` innermost open groups are over. -/
def close : Nat → Machine → Machine
  | 0, s => s
  | n + 1, s => close n s.closeInner

/-- All open groups are over. -/
def closeAll (s : Machine) : Machine :=
  s.close s.frames.length

/-- The innermost open group is given a pair that it has. -/
def giveGroup (s : Machine) (p : Pair) : Machine :=
  match s.frames with
  | [] => s
  | f :: outer =>
    let f := f.advance p.tag s.events.length
    match memberOf? f.body p.tag with
    | none => s
    | some m =>
      { s with
        frames := (Frame.opened? p.value m).toList ++ f.fill (.given p.value m) :: outer
        events := s.events ++ [.given (.repetition f.start) p.value m] }

/-- A part is given a pair that it has. -/
def givePart (l : MessageLayout) (s : Machine) (part : Part) (p : Pair) : Machine :=
  match memberOf? (l.part part).members p.tag with
  | none => s
  | some m =>
    { s.placeInPart part (.given p.value m) with
      frames := (Frame.opened? p.value m).toList
      base := part
      summed := s.summed || l.isSum part p.tag
      events := s.events ++ [.given (.part part) p.value m] }

/-- A pair is left out. -/
def leaveOut (s : Machine) (p : Pair) : Machine :=
  { s with events := s.events ++ [.unclaimed p.tag !s.frames.isEmpty] }

/-- The number of open groups inside the innermost one that has the tag, if there is one. -/
def ownerDepth? (s : Machine) (tag : Tag) : Option Nat :=
  s.frames.findIdx? fun f => f.owns tag

/-- The machine after a pair, or none if the message ends before the pair. -/
def step (l : MessageLayout) (s : Machine) (p : Pair) : Option Machine :=
  let advance (s : Machine) : Machine := { s with consumed := s.consumed + p.width }
  match s.ownerDepth? p.tag with
  | some depth => some (advance ((s.close depth).giveGroup p))
  | none =>
    match l.owner? p.tag with
    | some part =>
      if s.summed && !owns l.trailer.members p.tag then none
      else some (advance (s.closeAll.givePart l part p))
    | none => if s.summed && s.frames.isEmpty then none else some (advance (s.leaveOut p))

/-- The machine after some pairs, up to where the message ends, when all groups are over. -/
def run (l : MessageLayout) : List Pair → Machine → Machine
  | [], s => s.closeAll
  | p :: rest, s =>
    match s.step l p with
    | some s => run l rest s
    | none => s.closeAll

end Machine

/-- What the flat machine makes of a window of bytes. -/
def flatly (l : MessageLayout) (window : Bytes) : Machine :=
  (Machine.start l).run l (Pair.all window)

end Decoder

end FixWire
