import FixWire.Codecs

/-!
# Decoding in place

A decoder that works in place is given a buffer, an offset and a length. It keeps a position in the buffer, which it
moves on from pair to pair and hands to and fro between the loops for messages and for groups, and it stops where the
window ends or the buffer does. Reading bytes that are not all inside the window counts as a slip, and so does a turn of
a loop that does not move the position on.
-/

namespace FixWire

open Decoder

/-! ## Windows of buffers -/

/-- What must not happen while decoding in place. -/
inductive Slip where
  /-- The bytes between two positions are not all inside the window. -/
  | outside (first stop : Nat)
  /-- A turn of a loop leaves the position where it is. -/
  | stuck (position : Nat)
  deriving DecidableEq, Repr

/-- The part of a buffer from one position up to, and without, another. -/
structure View where
  buffer : Bytes
  first : Nat
  stop : Nat

namespace View

/-- The window of a buffer with an offset and a length, as far as the buffer goes. -/
def cut (buffer : Bytes) (offset length : Nat) : View :=
  ⟨buffer, offset, min (offset + length) buffer.length⟩

/-- Whether the bytes between two positions are inside the window, and there are such bytes. -/
def Has (v : View) (first stop : Nat) : Prop :=
  v.first ≤ first ∧ first ≤ stop ∧ stop ≤ v.stop ∧ stop ≤ v.buffer.length

instance (v : View) (first stop : Nat) : Decidable (v.Has first stop) :=
  inferInstanceAs (Decidable (_ ∧ _))

/-- The bytes between two positions. -/
def slice (v : View) (first stop : Nat) : Except Slip Bytes :=
  if v.Has first stop then .ok (v.buffer.slice first stop) else .error (.outside first stop)

/-- Where a byte first stands between a position and the end of the window. -/
def scan (v : View) (position : Nat) (byte : UInt8) : Except Slip (Option Nat) :=
  if v.Has position v.stop then .ok (v.buffer.find? position v.stop byte) else .error (.outside position v.stop)

/-- The bytes from a position to the end of the window. -/
def rest (v : View) (position : Nat) : Bytes :=
  v.buffer.slice position v.stop

end View

/-! ## Decoding in place -/

/-- A pair in a buffer : the text of its tag, where its value starts and stops, and where the next pair starts. -/
structure Span where
  text : Bytes
  first : Nat
  stop : Nat
  next : Nat

namespace Span

/-- The pair, with its value. -/
def pair (s : Span) (value : Bytes) : Pair :=
  ⟨s.text, value, s.stop < s.next⟩

/-- The tag of the pair. -/
def tag (s : Span) : Tag :=
  (s.pair []).tag

/-- The pair at a position; none if there is no further equals sign in the window. -/
def read? (v : View) (position : Nat) : Except Slip (Option Span) := do
  match ← v.scan position equalsSign with
  | none => return none
  | some equals =>
    let stop := (← v.scan (equals + 1) soh).getD v.stop
    let text ← v.slice position equals
    return some ⟨text, equals + 1, stop, min (stop + 1) v.stop⟩

end Span

namespace Decoder

/-- Makes sure that a turn of a loop moves the position on. -/
def advance (position next : Nat) : Except Slip (PLift (position < next)) :=
  if h : position < next then .ok ⟨h⟩ else .error (.stuck position)

mutual

/-- `readPair` in place : the cells, the log, and the position after what has been read. -/
def readPairAt (v : View) (unclaimed : Unclaimed) (around : List Tag) (cycle : UInt32) (s : Span) (cells : List Cell)
    (log : Log) : Except Slip (List Cell × Log × Nat) := do
  let value ← v.slice s.first s.stop
  match store cycle (s.pair value) cells with
  | (cells, none, faults) => return (cells, log.add faults, s.next)
  | (cells, some g, faults) =>
    let (g, log, position) ← readGroupAt v unclaimed around g (log.add faults) s.next
    return (put g.toCell cells, log.add g.countFaults, position)
termination_by (v.stop - s.next, 1)

/-- `readGroup` in place. -/
def readGroupAt (v : View) (unclaimed : Unclaimed) (around : List Tag) (g : OpenGroup) (log : Log) (position : Nat) :
    Except Slip (OpenGroup × Log × Nat) :=
  if _ : position < v.stop then do
    match ← Span.read? v position with
    | none => return (g, log, position)
    | some s =>
      let ⟨_⟩ ← advance position s.next
      if g.owns s.tag then
        let g := g.advance s.tag
        let (cells, log, next) ←
          readPairAt v unclaimed (g.tags ++ around) repetitionCycle s (g.current.getD []) log
        let ⟨_⟩ ← advance position next
        readGroupAt v unclaimed around { g with current := some cells } log next
      else if around.contains s.tag then return (g, log, position)
      else
        match unclaimed with
        | .stop => return (g, log, position)
        | .skip legal => readGroupAt v (.skip legal) around g (log.add [unclaimedFault legal s.tag]) s.next
  else return (g, log, position)
termination_by (v.stop - position, 0)
decreasing_by all_goals (apply Prod.Lex.left; omega)

end

/-- `readParts` in place. -/
def readPartsAt (v : View) (legal : List Tag) (summed : Bool) (ps : Parts) (log : Log) (position : Nat) :
    Except Slip (Parts × Log × Nat) :=
  if _ : position < v.stop then do
    match ← Span.read? v position with
    | none => return (ps, log, position)
    | some s =>
      if summed && !ps.trailer.owns s.tag then return (ps, log, position)
      else
        match ps.owner? s.tag with
        | some part =>
          let a := ps.get part
          let (cells, log, next) ← readPairAt v (.skip legal) ps.tags a.stamp s a.cells (log.see s.tag)
          let ⟨_⟩ ← advance position next
          readPartsAt v legal (summed || ps.isSum part s.tag) (ps.setCells part cells) log next
        | none =>
          let ⟨_⟩ ← advance position s.next
          readPartsAt v legal summed ps ((log.see s.tag).add [unclaimedFault legal s.tag]) s.next
  else return (ps, log, position)
termination_by v.stop - position

/-- `readAggregate` in place. -/
def readAggregateAt (v : View) (cycle : UInt32) (cells : List Cell) (log : Log) (position : Nat) :
    Except Slip (List Cell × Log × Nat) :=
  if _ : position < v.stop then do
    match ← Span.read? v position with
    | none => return (cells, log, position)
    | some s =>
      if (find? cells s.tag).isSome then
        let (cells, log, next) ← readPairAt v .stop (cells.map Cell.tag) cycle s cells log
        let ⟨_⟩ ← advance position next
        readAggregateAt v cycle cells log next
      else return (cells, log, position)
  else return (cells, log, position)
termination_by v.stop - position

/-- The value of the first pair with the tag from a position on. -/
def valueOfAt? (v : View) (tag : Tag) (position : Nat) : Except Slip (Option Bytes) :=
  if _ : position < v.stop then do
    match ← Span.read? v position with
    | none => return none
    | some s =>
      if s.tag == tag then return some (← v.slice s.first s.stop)
      else
        let ⟨_⟩ ← advance position s.next
        valueOfAt? v tag s.next
  else return none
termination_by v.stop - position

end Decoder

/-- `MessageDecoder.decode` in place. -/
def MessageDecoder.decodeAt (d : MessageDecoder) (buffer : Bytes) (offset length : Nat) :
    Except Slip (MessageDecoder × Nat) := do
  let (parts, log, position) ←
    readPartsAt (.cut buffer offset length) d.legal false d.parts.nextCycle (.empty d.log.enabled) offset
  return ({ d with parts, log }, position - offset)

/-- `AggregateDecoder.decode` in place. -/
def AggregateDecoder.decodeAt (d : AggregateDecoder) (buffer : Bytes) (offset length : Nat) :
    Except Slip (AggregateDecoder × Nat) := do
  let root := d.root.nextCycle
  let (cells, log, position) ←
    readAggregateAt (.cut buffer offset length) root.stamp root.cells (.empty d.log.enabled) offset
  return ({ d with root := { root with cells }, log }, position - offset)

/-- `Registry.decode` in place. -/
def Registry.decodeAt (r : Registry) (buffer : Bytes) (offset length : Nat) :
    Except Slip (Option (Registry × MessageDecoder)) := do
  match ← valueOfAt? (.cut buffer offset length) r.typeTag offset with
  | none => return none
  | some type =>
    match r.decoder? type with
    | none => return none
    | some d =>
      let (d, _) ← d.decodeAt buffer offset length
      return some (r.set type d, d)

end FixWire
