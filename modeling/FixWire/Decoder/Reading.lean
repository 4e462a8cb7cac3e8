import FixWire.Decoder.Cell
import FixWire.Decoder.Log
import FixWire.Pair

/-!
# Reading pairs into cells

The end of a group is not marked in a message. It follows from the tags : a pair belongs to the innermost
open group that has its tag, and groups inside that one are then over; a pair whose tag belongs to the
header, the body or the trailer ends all open groups. A tag that none of them has ends nothing.

Reading a group inside a group is a call inside a call. Each call knows the tags of all that is around it,
takes the pairs that belong to its own group, and returns at the first pair that belongs to something around
it. An aggregate that is read on its own, without a message around it, ends at the first tag that it does not
have.
-/

namespace FixWire.Decoder

/-! ## Open groups -/

/-- A group while its repetitions are read. `finished` are the repetitions before the current one, latest
first, and `delimited` tells whether the current one has had the delimiter. -/
structure OpenGroup where
  slot : GroupSlot
  body : List Member
  counter : Counter
  finished : List (List Cell)
  current : Option (List Cell)
  delimited : Bool
  spare : List (List Cell)

namespace OpenGroup

/-- Whether the repetitions have a member with the tag. -/
def owns (g : OpenGroup) (tag : Tag) : Bool :=
  FixWire.owns g.body tag

/-- The tags of a repetition. -/
def tags (g : OpenGroup) : List Tag :=
  g.body.map Member.tag

/-- The repetitions so far, in order. -/
def repetitions (g : OpenGroup) : List (List Cell) :=
  (g.current.toList ++ g.finished).reverse

/-- The cell of the group. -/
def toCell (g : OpenGroup) : Cell :=
  .group g.slot g.body g.counter g.repetitions g.spare

/-- The fault of a group that has another number of repetitions than its counter gave. -/
def countFaults (g : OpenGroup) : List Fault :=
  match g.counter.declared with
  | some n =>
    if n = g.repetitions.length then []
    else [.incorrect g.slot.tag .incorrectNumInGroupCountForRepeatingGroup]
  | none => []

/-- The group at the start of a new repetition, which is a spare one if there is any. -/
def next (g : OpenGroup) : OpenGroup :=
  let finished := g.current.toList ++ g.finished
  match g.spare with
  | [] => { g with finished, current := some (g.body.map Cell.blank), delimited := false }
  | cells :: spare =>
    { g with finished, current := some (cells.map Cell.clear), delimited := false, spare }

/-- The group before a pair with the tag is stored in it : at a new repetition if there is none yet, or if
the tag is the delimiter and the current repetition has had it. -/
def advance (g : OpenGroup) (tag : Tag) : OpenGroup :=
  let isDelimiter := tag == g.slot.delimiter
  let g := if g.current.isNone || (isDelimiter && g.delimited) then g.next else g
  { g with delimited := g.delimited || isDelimiter }

end OpenGroup

/-! ## Storing a pair -/

/-- The cycle of every repetition : it is cleared before it is used. -/
def repetitionCycle : UInt32 := 1

/-- The faults of a value of a field. -/
def valueFaults (slot : FieldSlot) (value : Bytes) : List Fault :=
  if value = [] then [.emptyValue slot.tag]
  else if Content.ofBytes slot.kind value = .malformed then
    [.incorrect slot.tag .incorrectDataFormatForValue]
  else if !slot.accepts value then [.incorrect slot.tag .valueIsIncorrect]
  else []

/-- The number that the value of a counter gives. -/
def declaredCount? (value : Bytes) : Option Nat :=
  (Natural.parse value).filter fun n => n < Integer.limit

/-- The faults of a value of a counter. -/
def counterFaults (slot : GroupSlot) (value : Bytes) : List Fault :=
  match declaredCount? value with
  | some _ => []
  | none =>
    if value = [] then [.emptyValue slot.tag]
    else [.incorrect slot.tag .incorrectDataFormatForValue]

/-- A cell with a value stored in it, the group that is opened if it is that of a group, and the faults. -/
def Cell.store (cycle : UInt32) (value : Bytes) : Cell → Cell × Option OpenGroup × List Fault
  | .field slot _ stamp =>
    (.field slot (Value.ofBytes slot.kind value) cycle, none,
      (if stamp = cycle then [.duplicate slot.tag] else []) ++ valueFaults slot value)
  | .group slot body counter live spare =>
    let spare := live ++ spare
    let faults := (if counter.stamp = cycle then [.duplicate slot.tag] else []) ++ counterFaults slot value
    let counter : Counter := ⟨true, cycle, declaredCount? value⟩
    (.group slot body counter [] spare, some ⟨slot, body, counter, [], none, false, spare⟩, faults)

/-- The cells with a pair stored in the one that has its tag. -/
def store (cycle : UInt32) (p : Pair) : List Cell → List Cell × Option OpenGroup × List Fault
  | [] => ([], none, [])
  | c :: rest =>
    if c.tag = p.tag then
      let (c, opened, faults) := c.store cycle p.value
      (c :: rest, opened, faults)
    else
      let (rest, opened, faults) := store cycle p rest
      (c :: rest, opened, faults)

/-! ## The three parts -/

/-- The aggregates of a message. -/
structure Parts where
  header : Aggregate
  body : Aggregate
  trailer : Aggregate

namespace Parts

/-- One of the parts. -/
def get (ps : Parts) : Part → Aggregate
  | .header => ps.header
  | .body => ps.body
  | .trailer => ps.trailer

/-- The parts with the cells of one of them replaced. -/
def setCells (ps : Parts) (part : Part) (cells : List Cell) : Parts :=
  match part with
  | .header => { ps with header := { ps.header with cells } }
  | .body => { ps with body := { ps.body with cells } }
  | .trailer => { ps with trailer := { ps.trailer with cells } }

/-- The part that has the tag : the header before the body, and the body before the trailer. -/
def owner? (ps : Parts) (tag : Tag) : Option Part :=
  [Part.header, .body, .trailer].find? fun part => (ps.get part).owns tag

/-- The tags of the members of all parts. -/
def tags (ps : Parts) : List Tag :=
  ps.header.tags ++ ps.body.tags ++ ps.trailer.tags

/-- Whether a pair with the tag, stored in the part, is the checksum of the message. -/
def isSum (ps : Parts) (part : Part) (tag : Tag) : Bool :=
  part = .trailer && (find? ps.trailer.cells tag).any (Cell.isDerived .checkSum)

/-- The parts, each in its next cycle. -/
def nextCycle (ps : Parts) : Parts :=
  ⟨ps.header.nextCycle, ps.body.nextCycle, ps.trailer.nextCycle⟩

/-- The parts as if they had not been written. -/
def clear (ps : Parts) : Parts :=
  ⟨ps.header.clear, ps.body.clear, ps.trailer.clear⟩

/-- The first required member that is missing from the parts. -/
def missing? (ps : Parts) : Option Tag :=
  (Decoder.missing? ps.header.cells).or <|
    (Decoder.missing? ps.body.cells).or (Decoder.missing? ps.trailer.cells)

end Parts

/-! ## Reading -/

/-- What is done with a pair whose tag belongs to nothing. -/
inductive Unclaimed where
  /-- The reading stops before it. -/
  | stop
  /-- It is logged and left out. `legal` are the tags of the dictionary. -/
  | skip (legal : List Tag)

/-- The fault of a tag that belongs to nothing. -/
def unclaimedFault (legal : List Tag) (tag : Tag) : Fault :=
  if legal.contains tag then .undefinedTag tag else .invalidTag tag

/-- What has been read from some bytes, the log, and the bytes that are left. -/
structure Reading (α : Type) (bytes : Bytes) where
  value : α
  log : Log
  rest : Bytes
  length_rest_le : rest.length ≤ bytes.length

namespace Reading

/-- A reading from which nothing has been taken. -/
def done {α : Type} (value : α) (log : Log) (bytes : Bytes) : Reading α bytes :=
  ⟨value, log, bytes, Nat.le_refl _⟩

/-- What has been read from the end of some bytes, as read from all of them. -/
def widen {α : Type} {bytes whole : Bytes} (r : Reading α bytes) (h : bytes.length ≤ whole.length) :
    Reading α whole :=
  ⟨r.value, r.log, r.rest, Nat.le_trans r.length_rest_le h⟩

theorem widen_value {α : Type} {bytes whole : Bytes} (r : Reading α bytes) (h : bytes.length ≤ whole.length) :
    (r.widen h).value = r.value :=
  rfl

theorem widen_log {α : Type} {bytes whole : Bytes} (r : Reading α bytes) (h : bytes.length ≤ whole.length) :
    (r.widen h).log = r.log :=
  rfl

theorem widen_rest {α : Type} {bytes whole : Bytes} (r : Reading α bytes) (h : bytes.length ≤ whole.length) :
    (r.widen h).rest = r.rest :=
  rfl

end Reading

mutual

/-- Stores a pair in the cell that has its tag. If that is the cell of a group, reads the repetitions that
follow and closes the group. `around` are the tags of the aggregate of the cells, and of all around it. -/
def readPair (unclaimed : Unclaimed) (around : List Tag) (cycle : UInt32) (p : Pair) (cells : List Cell)
    (log : Log) (bytes : Bytes) : Reading (List Cell) bytes :=
  match store cycle p cells with
  | (cells, none, faults) => .done cells (log.add faults) bytes
  | (cells, some g, faults) =>
    let r := readGroup unclaimed around g (log.add faults) bytes
    ⟨put r.value.toCell cells, r.log.add r.value.countFaults, r.rest, r.length_rest_le⟩
termination_by (bytes.length, 1)

/-- Reads the repetitions of an open group, up to the first pair that belongs to something around it. -/
def readGroup (unclaimed : Unclaimed) (around : List Tag) (g : OpenGroup) (log : Log) (bytes : Bytes) :
    Reading OpenGroup bytes :=
  match h : Pair.read? bytes with
  | none => .done g log bytes
  | some (p, rest) =>
    have hlt := Pair.length_lt_of_read? h
    if g.owns p.tag then
      let g := g.advance p.tag
      let inner := readPair unclaimed (g.tags ++ around) repetitionCycle p (g.current.getD []) log rest
      have hle : inner.rest.length < bytes.length := Nat.lt_of_le_of_lt inner.length_rest_le hlt
      (readGroup unclaimed around { g with current := some inner.value } inner.log inner.rest).widen
        (Nat.le_of_lt hle)
    else if around.contains p.tag then .done g log bytes
    else
      match unclaimed with
      | .stop => .done g log bytes
      | .skip legal =>
        (readGroup unclaimed around g (log.add [unclaimedFault legal p.tag]) rest).widen (Nat.le_of_lt hlt)
termination_by (bytes.length, 0)
decreasing_by
  · exact Prod.Lex.left _ _ hlt
  · exact Prod.Lex.left _ _ hle
  · exact Prod.Lex.left _ _ hlt

end

/-- Reads the parts of a message. After the checksum the reading ends at the first tag outside groups that the
trailer does not have. -/
def readParts (legal : List Tag) (summed : Bool) (ps : Parts) (log : Log) (bytes : Bytes) :
    Reading Parts bytes :=
  match h : Pair.read? bytes with
  | none => .done ps log bytes
  | some (p, rest) =>
    have hlt := Pair.length_lt_of_read? h
    if summed && !ps.trailer.owns p.tag then .done ps log bytes
    else
      match ps.owner? p.tag with
      | some part =>
        let a := ps.get part
        let inner := readPair (.skip legal) ps.tags a.stamp p a.cells (log.see p.tag) rest
        have hle : inner.rest.length < bytes.length := Nat.lt_of_le_of_lt inner.length_rest_le hlt
        (readParts legal (summed || ps.isSum part p.tag) (ps.setCells part inner.value) inner.log
          inner.rest).widen (Nat.le_of_lt hle)
      | none =>
        (readParts legal summed ps ((log.see p.tag).add [unclaimedFault legal p.tag]) rest).widen (Nat.le_of_lt hlt)
termination_by bytes.length
decreasing_by
  · exact hle
  · exact hlt

/-- Reads an aggregate on its own, up to the first tag that it does not have. -/
def readAggregate (cycle : UInt32) (cells : List Cell) (log : Log) (bytes : Bytes) :
    Reading (List Cell) bytes :=
  match h : Pair.read? bytes with
  | none => .done cells log bytes
  | some (p, rest) =>
    have hlt := Pair.length_lt_of_read? h
    if (find? cells p.tag).isSome then
      let inner := readPair .stop (cells.map Cell.tag) cycle p cells log rest
      have hle : inner.rest.length < bytes.length := Nat.lt_of_le_of_lt inner.length_rest_le hlt
      (readAggregate cycle inner.value inner.log inner.rest).widen (Nat.le_of_lt hle)
    else .done cells log bytes
termination_by bytes.length
decreasing_by exact hle

/-! ## One case at a time -/

section Cases

variable {unclaimed : Unclaimed} {around legal : List Tag} {cycle : UInt32} {p : Pair}
  {cells cells' : List Cell} {faults : List Fault} {g : OpenGroup} {log : Log} {bytes rest : Bytes}

/-- A pair that opens no group is stored and is all that is read. -/
theorem readPair_field (h : store cycle p cells = (cells', none, faults)) :
    readPair unclaimed around cycle p cells log bytes = .done cells' (log.add faults) bytes := by
  rw [readPair, h]

/-- A pair that opens a group is stored and the group is read after it. -/
theorem readPair_group (h : store cycle p cells = (cells', some g, faults)) :
    readPair unclaimed around cycle p cells log bytes =
      let r := readGroup unclaimed around g (log.add faults) bytes
      ⟨put r.value.toCell cells', r.log.add r.value.countFaults, r.rest, r.length_rest_le⟩ := by
  rw [readPair, h]

/-- A pair that the group owns is read into its repetition, and the group goes on after it. -/
theorem readGroup_owned {inner : Reading (List Cell) rest} (h : Pair.read? bytes = some (p, rest))
    (ho : g.owns p.tag)
    (hi : readPair unclaimed ((g.advance p.tag).tags ++ around) repetitionCycle p
      ((g.advance p.tag).current.getD []) log rest = inner) :
    readGroup unclaimed around g log bytes =
      (readGroup unclaimed around { g.advance p.tag with current := some inner.value } inner.log
        inner.rest).widen
        (Nat.le_of_lt (Nat.lt_of_le_of_lt inner.length_rest_le (Pair.length_lt_of_read? h))) := by
  subst hi
  rw [readGroup]
  split
  · simp_all
  · rename_i h'
    obtain ⟨rfl, rfl⟩ := Option.some.inj (h.symm.trans h')
    simp [ho]

/-- Inside a part a pair that neither the group nor what is around it owns is logged and left out. -/
theorem readGroup_skip (h : Pair.read? bytes = some (p, rest)) (ho : ¬g.owns p.tag)
    (ha : ¬around.contains p.tag) :
    readGroup (.skip legal) around g log bytes =
      (readGroup (.skip legal) around g (log.add [unclaimedFault legal p.tag]) rest).widen
        (Nat.le_of_lt (Pair.length_lt_of_read? h)) := by
  rw [readGroup]
  split
  · simp_all
  · rename_i h'
    obtain ⟨rfl, rfl⟩ := Option.some.inj (h.symm.trans h')
    rw [if_neg ho, if_neg ha]

variable {summed : Bool} {ps : Parts} {part : Part}

/-- Parts stop where no pair can be read. -/
theorem readParts_none (h : Pair.read? bytes = none) :
    readParts legal summed ps log bytes = .done ps log bytes := by
  rw [readParts]
  split <;> simp_all

/-- After the checksum the first pair that the trailer does not own ends the message. -/
theorem readParts_stop (h : Pair.read? bytes = some (p, rest)) (hs : summed && !ps.trailer.owns p.tag) :
    readParts legal summed ps log bytes = .done ps log bytes := by
  rw [readParts]
  split
  · rfl
  · rename_i h'
    obtain ⟨rfl, rfl⟩ := Option.some.inj (h.symm.trans h')
    rw [if_pos hs]

/-- A pair that a part owns is read into it, and the parts go on after it. -/
theorem readParts_owned {inner : Reading (List Cell) rest} (h : Pair.read? bytes = some (p, rest))
    (hs : ¬(summed && !ps.trailer.owns p.tag)) (ho : ps.owner? p.tag = some part)
    (hi : readPair (.skip legal) ps.tags (ps.get part).stamp p (ps.get part).cells (log.see p.tag) rest =
      inner) :
    readParts legal summed ps log bytes =
      (readParts legal (summed || ps.isSum part p.tag) (ps.setCells part inner.value) inner.log
        inner.rest).widen
        (Nat.le_of_lt (Nat.lt_of_le_of_lt inner.length_rest_le (Pair.length_lt_of_read? h))) := by
  subst hi
  rw [readParts]
  split
  · simp_all
  · rename_i h'
    obtain ⟨rfl, rfl⟩ := Option.some.inj (h.symm.trans h')
    rw [if_neg hs]
    split
    · rename_i ho'
      obtain rfl := Option.some.inj (ho.symm.trans ho')
      rfl
    · simp_all

/-- A pair that no part owns is logged and left out. -/
theorem readParts_skip (h : Pair.read? bytes = some (p, rest)) (hs : ¬(summed && !ps.trailer.owns p.tag))
    (ho : ps.owner? p.tag = none) :
    readParts legal summed ps log bytes =
      (readParts legal summed ps ((log.see p.tag).add [unclaimedFault legal p.tag]) rest).widen
        (Nat.le_of_lt (Pair.length_lt_of_read? h)) := by
  rw [readParts]
  split
  · simp_all
  · rename_i h'
    obtain ⟨rfl, rfl⟩ := Option.some.inj (h.symm.trans h')
    rw [if_neg hs]
    split
    · simp_all
    · rfl

/-- An aggregate stops where no pair can be read. -/
theorem readAggregate_none (h : Pair.read? bytes = none) :
    readAggregate cycle cells log bytes = .done cells log bytes := by
  rw [readAggregate]
  split <;> simp_all

/-- An aggregate stops at a pair that it does not own. -/
theorem readAggregate_stop (h : Pair.read? bytes = some (p, rest)) (ho : ¬(find? cells p.tag).isSome) :
    readAggregate cycle cells log bytes = .done cells log bytes := by
  rw [readAggregate]
  split
  · rfl
  · rename_i h'
    obtain ⟨rfl, rfl⟩ := Option.some.inj (h.symm.trans h')
    rw [if_neg ho]

/-- A pair that an aggregate owns is read into it, and the aggregate goes on after it. -/
theorem readAggregate_owned {inner : Reading (List Cell) rest} (h : Pair.read? bytes = some (p, rest))
    (ho : (find? cells p.tag).isSome)
    (hi : readPair .stop (cells.map Cell.tag) cycle p cells log rest = inner) :
    readAggregate cycle cells log bytes =
      (readAggregate cycle inner.value inner.log inner.rest).widen
        (Nat.le_of_lt (Nat.lt_of_le_of_lt inner.length_rest_le (Pair.length_lt_of_read? h))) := by
  subst hi
  rw [readAggregate]
  split
  · simp_all
  · rename_i h'
    obtain ⟨rfl, rfl⟩ := Option.some.inj (h.symm.trans h')
    rw [if_pos ho]

end Cases

end FixWire.Decoder
