import FixWire.Decoder.Reading
import Mathlib.Tactic.Common

/-!
# Readings as derivations

`readGroup` and the readers around it call themselves for what is left of the bytes. The relations here say the same as
rules, one for each case : a group is over, its next pair is stored in a field, its next pair opens a group inside it,
or a pair that nothing has is left out (`GroupReads`), and likewise for a message (`PartsReads`) and for an aggregate on
its own (`AggregateReads`).

Every reading has a derivation (`reads_readGroup`, `reads_readParts`, `reads_readAggregate`), which is the one induction
on the bytes that are left, and a derivation tells what the reading comes to (`GroupReads.result_eq`,
`PartsReads.result_eq`, `AggregateReads.result_eq`). What all readings keep is proved along derivations.
-/

namespace FixWire.Decoder

/-- What a reading comes to, whatever bytes it is of. -/
def Reading.result {α : Type} {bytes : Bytes} (r : Reading α bytes) : α × Log × Bytes :=
  (r.value, r.log, r.rest)

/-- What reading gives is given by its value, its log and the bytes that are left. -/
theorem Reading.result_eq_iff {α : Type} {bytes left : Bytes} {r : Reading α bytes} {value : α} {log : Log} :
    r.result = (value, log, left) ↔ r.value = value ∧ r.log = log ∧ r.rest = left := by
  simp [result]

/-! ## Rules -/

/-- A group is over before the bytes : they have no pair, or the first pair is not of the group, and belongs to
something around it or to nothing, where this ends the reading. -/
def OpenGroup.Over (g : OpenGroup) (unclaimed : Unclaimed) (around : List Tag) (bytes : Bytes) : Prop :=
  ∀ p rest, Pair.read? bytes = some (p, rest) → ¬g.owns p.tag ∧ (around.contains p.tag ∨ unclaimed = .stop)

/-- An open group, a log and some bytes, and the group, the log and the bytes that are left once it is over. -/
inductive GroupReads (unclaimed : Unclaimed) : List Tag → OpenGroup → Log → Bytes → OpenGroup → Log → Bytes → Prop
  | ended {around : List Tag} {g : OpenGroup} {log : Log} {bytes : Bytes} (h : g.Over unclaimed around bytes) :
    GroupReads unclaimed around g log bytes g log bytes
  | field {around : List Tag} {g g' : OpenGroup} {log log' : Log} {bytes rest left : Bytes} {p : Pair}
    {cells : List Cell} {faults : List Fault} (hread : Pair.read? bytes = some (p, rest)) (ho : g.owns p.tag)
    (hstore : store repetitionCycle p ((g.advance p.tag).current.getD []) = (cells, none, faults))
    (after : GroupReads unclaimed around { g.advance p.tag with current := some cells } (log.add faults) rest g' log'
      left) :
    GroupReads unclaimed around g log bytes g' log' left
  | group {around : List Tag} {g g' opened closed : OpenGroup} {log inner log' : Log} {bytes rest rest' left : Bytes}
    {p : Pair} {cells : List Cell} {faults : List Fault} (hread : Pair.read? bytes = some (p, rest))
    (ho : g.owns p.tag)
    (hstore : store repetitionCycle p ((g.advance p.tag).current.getD []) = (cells, some opened, faults))
    (inside : GroupReads unclaimed ((g.advance p.tag).tags ++ around) opened (log.add faults) rest closed inner rest')
    (after : GroupReads unclaimed around { g.advance p.tag with current := some (put closed.toCell cells) }
      (inner.add closed.countFaults) rest' g' log' left) :
    GroupReads unclaimed around g log bytes g' log' left
  | leftOut {around legal : List Tag} {g g' : OpenGroup} {log log' : Log} {bytes rest left : Bytes} {p : Pair}
    (hread : Pair.read? bytes = some (p, rest)) (ho : ¬g.owns p.tag) (ha : ¬around.contains p.tag)
    (hunclaimed : unclaimed = .skip legal)
    (after : GroupReads unclaimed around g (log.add [unclaimedFault legal p.tag]) rest g' log' left) :
    GroupReads unclaimed around g log bytes g' log' left

/-- A pair is stored in some cells, together with the group that it opens. -/
inductive PairReads (unclaimed : Unclaimed) (around : List Tag) (cycle : UInt32) (p : Pair) (cells : List Cell)
    (log : Log) (bytes : Bytes) : List Cell → Log → Bytes → Prop
  | field {stored : List Cell} {faults : List Fault} (hstore : store cycle p cells = (stored, none, faults)) :
    PairReads unclaimed around cycle p cells log bytes stored (log.add faults) bytes
  | group {stored : List Cell} {opened closed : OpenGroup} {faults : List Fault} {inner : Log} {left : Bytes}
    (hstore : store cycle p cells = (stored, some opened, faults))
    (inside : GroupReads unclaimed around opened (log.add faults) bytes closed inner left) :
    PairReads unclaimed around cycle p cells log bytes (put closed.toCell stored) (inner.add closed.countFaults) left

/-- A message is over before the bytes : they have no pair, or the first pair is not of the trailer and the checksum has
been read. -/
def Parts.Over (ps : Parts) (summed : Bool) (bytes : Bytes) : Prop :=
  ∀ p rest, Pair.read? bytes = some (p, rest) → summed && !ps.trailer.owns p.tag

/-- The parts of a message, a log and some bytes, and the parts, the log and the bytes that are left once it is over. -/
inductive PartsReads (legal : List Tag) : Bool → Parts → Log → Bytes → Parts → Log → Bytes → Prop
  | ended {summed : Bool} {ps : Parts} {log : Log} {bytes : Bytes} (h : ps.Over summed bytes) :
    PartsReads legal summed ps log bytes ps log bytes
  | owned {summed : Bool} {ps ps' : Parts} {part : Part} {log inner log' : Log} {bytes rest rest' left : Bytes}
    {p : Pair} {cells : List Cell} (hread : Pair.read? bytes = some (p, rest))
    (hsum : ¬(summed && !ps.trailer.owns p.tag)) (ho : ps.owner? p.tag = some part)
    (pair : PairReads (.skip legal) ps.tags (ps.get part).stamp p (ps.get part).cells (log.see p.tag) rest cells inner
      rest')
    (after : PartsReads legal (summed || ps.isSum part p.tag) (ps.setCells part cells) inner rest' ps' log' left) :
    PartsReads legal summed ps log bytes ps' log' left
  | leftOut {summed : Bool} {ps ps' : Parts} {log log' : Log} {bytes rest left : Bytes} {p : Pair}
    (hread : Pair.read? bytes = some (p, rest)) (hsum : ¬(summed && !ps.trailer.owns p.tag))
    (ho : ps.owner? p.tag = none)
    (after : PartsReads legal summed ps ((log.see p.tag).add [unclaimedFault legal p.tag]) rest ps' log' left) :
    PartsReads legal summed ps log bytes ps' log' left

/-- The cells of an aggregate on its own, a log and some bytes, and the cells, the log and the bytes that are left
before the first tag that the aggregate does not have. -/
inductive AggregateReads (cycle : UInt32) : List Cell → Log → Bytes → List Cell → Log → Bytes → Prop
  | ended {cells : List Cell} {log : Log} {bytes : Bytes}
    (h : ∀ p rest, Pair.read? bytes = some (p, rest) → ¬(find? cells p.tag).isSome) :
    AggregateReads cycle cells log bytes cells log bytes
  | owned {cells cells' stored : List Cell} {log inner log' : Log} {bytes rest rest' left : Bytes} {p : Pair}
    (hread : Pair.read? bytes = some (p, rest)) (ho : (find? cells p.tag).isSome)
    (pair : PairReads .stop (cells.map Cell.tag) cycle p cells log rest stored inner rest')
    (after : AggregateReads cycle stored inner rest' cells' log' left) :
    AggregateReads cycle cells log bytes cells' log' left

variable {unclaimed : Unclaimed} {around legal : List Tag} {cycle : UInt32} {summed : Bool} {p : Pair} {part : Part}
  {cells stored : List Cell} {ps ps' : Parts} {g g' : OpenGroup} {log inner log' : Log}
  {bytes rest rest' left : Bytes}

/-- The next pair of a group is stored in its latest repetition, in a field or in a group. -/
theorem GroupReads.owned (hread : Pair.read? bytes = some (p, rest)) (ho : g.owns p.tag)
    (pair : PairReads unclaimed ((g.advance p.tag).tags ++ around) repetitionCycle p
      ((g.advance p.tag).current.getD []) log rest stored inner rest')
    (after : GroupReads unclaimed around { g.advance p.tag with current := some stored } inner rest' g' log' left) :
    GroupReads unclaimed around g log bytes g' log' left := by
  cases pair with
  | field hstore => exact .field hread ho hstore after
  | group hstore inside => exact .group hread ho hstore inside after

/-! ## Readings that are over -/

/-- A group that is over reads no more. -/
theorem readGroup_over (h : g.Over unclaimed around bytes) :
    readGroup unclaimed around g log bytes = .done g log bytes := by
  rw [readGroup]
  split
  · rfl
  next p rest hread =>
    obtain ⟨hnot, haround⟩ := h p rest hread
    rw [if_neg hnot]
    by_cases ha : around.contains p.tag
    · rw [if_pos ha]
    · rw [if_neg ha, haround.resolve_left ha]

/-- Parts that are over read no more. -/
theorem readParts_over (h : ps.Over summed bytes) : readParts legal summed ps log bytes = .done ps log bytes := by
  cases hread : Pair.read? bytes with
  | none => exact readParts_none hread
  | some next => exact readParts_stop hread (h next.1 next.2 hread)

/-- An aggregate stops at a pair that it does not own, and at the end of the pairs. -/
theorem readAggregate_over (h : ∀ p rest, Pair.read? bytes = some (p, rest) → ¬(find? cells p.tag).isSome) :
    readAggregate cycle cells log bytes = .done cells log bytes := by
  cases hread : Pair.read? bytes with
  | none => exact readAggregate_none hread
  | some next => exact readAggregate_stop hread (h next.1 next.2 hread)

/-! ## Derivations of readings -/

/-- The reading of a pair has a derivation, if those of groups in the same bytes have. -/
theorem reads_readPair_of_groups (around : List Tag) (cycle : UInt32) (p : Pair) (cells : List Cell) (log : Log)
    (hgroup : ∀ (around : List Tag) (g : OpenGroup) (log : Log),
      let r := readGroup unclaimed around g log bytes
      GroupReads unclaimed around g log bytes r.value r.log r.rest) :
    let r := readPair unclaimed around cycle p cells log bytes
    PairReads unclaimed around cycle p cells log bytes r.value r.log r.rest := by
  rcases hstore : store cycle p cells with ⟨stored, _ | opened, faults⟩
  · rw [readPair_field hstore]
    exact .field hstore
  · rw [readPair_group hstore]
    exact .group hstore (hgroup around opened _)

/-- The reading of a group has a derivation. The induction is on the bytes that are left. -/
theorem reads_readGroup (unclaimed : Unclaimed) (around : List Tag) (g : OpenGroup) (log : Log) (bytes : Bytes) :
    let r := readGroup unclaimed around g log bytes
    GroupReads unclaimed around g log bytes r.value r.log r.rest := by
  by_cases hover : g.Over unclaimed around bytes
  · rw [readGroup_over hover]
    exact .ended hover
  · obtain ⟨p, rest, hread, hgoes⟩ : ∃ p rest, Pair.read? bytes = some (p, rest) ∧
        (¬g.owns p.tag → ¬(around.contains p.tag ∨ unclaimed = .stop)) := by
      simpa [OpenGroup.Over] using hover
    have hlt := Pair.length_lt_of_read? hread
    by_cases ho : g.owns p.tag
    · have hpair := reads_readPair_of_groups ((g.advance p.tag).tags ++ around) repetitionCycle p
        ((g.advance p.tag).current.getD []) log fun around g log => reads_readGroup unclaimed around g log rest
      generalize hr : readPair unclaimed ((g.advance p.tag).tags ++ around) repetitionCycle p
        ((g.advance p.tag).current.getD []) log rest = inner at hpair
      have hle := inner.length_rest_le
      rw [readGroup_owned hread ho hr]
      exact .owned hread ho hpair (reads_readGroup unclaimed around _ _ inner.rest)
    · obtain ⟨ha, hstop⟩ := not_or.1 (hgoes ho)
      cases unclaimed with
      | stop => exact absurd rfl hstop
      | skip legal =>
        rw [readGroup_skip hread ho ha]
        exact .leftOut hread ho ha rfl (reads_readGroup (.skip legal) around g _ rest)
termination_by bytes.length
decreasing_by all_goals omega

/-- There is a derivation of what reading one pair gives. -/
theorem reads_readPair (unclaimed : Unclaimed) (around : List Tag) (cycle : UInt32) (p : Pair) (cells : List Cell)
    (log : Log) (bytes : Bytes) :
    let r := readPair unclaimed around cycle p cells log bytes
    PairReads unclaimed around cycle p cells log bytes r.value r.log r.rest :=
  reads_readPair_of_groups around cycle p cells log fun around g log => reads_readGroup unclaimed around g log bytes

/-- The reading of a message has a derivation. -/
theorem reads_readParts (legal : List Tag) (summed : Bool) (ps : Parts) (log : Log) (bytes : Bytes) :
    let r := readParts legal summed ps log bytes
    PartsReads legal summed ps log bytes r.value r.log r.rest := by
  by_cases hover : ps.Over summed bytes
  · rw [readParts_over hover]
    exact .ended hover
  · obtain ⟨p, rest, hread, hsum⟩ : ∃ p rest, Pair.read? bytes = some (p, rest) ∧
        ¬(summed && !ps.trailer.owns p.tag) := by
      simpa [Parts.Over] using hover
    have hlt := Pair.length_lt_of_read? hread
    cases ho : ps.owner? p.tag with
    | none =>
      rw [readParts_skip hread hsum ho]
      exact .leftOut hread hsum ho (reads_readParts legal summed ps _ rest)
    | some part =>
      have hpair := reads_readPair (.skip legal) ps.tags (ps.get part).stamp p (ps.get part).cells (log.see p.tag) rest
      generalize hr : readPair (.skip legal) ps.tags (ps.get part).stamp p (ps.get part).cells (log.see p.tag) rest =
        inner at hpair
      have hle := inner.length_rest_le
      rw [readParts_owned hread hsum ho hr]
      exact .owned hread hsum ho hpair (reads_readParts legal _ _ _ inner.rest)
termination_by bytes.length
decreasing_by all_goals omega

/-- The reading of an aggregate on its own has a derivation. -/
theorem reads_readAggregate (cycle : UInt32) (cells : List Cell) (log : Log) (bytes : Bytes) :
    let r := readAggregate cycle cells log bytes
    AggregateReads cycle cells log bytes r.value r.log r.rest := by
  by_cases hover : ∀ p rest, Pair.read? bytes = some (p, rest) → ¬(find? cells p.tag).isSome
  · rw [readAggregate_over hover]
    exact .ended hover
  · obtain ⟨p, rest, hread, ho⟩ : ∃ p rest, Pair.read? bytes = some (p, rest) ∧ (find? cells p.tag).isSome := by
      simpa [Option.isSome_iff_ne_none] using hover
    have hlt := Pair.length_lt_of_read? hread
    have hpair := reads_readPair .stop (cells.map Cell.tag) cycle p cells log rest
    generalize hr : readPair .stop (cells.map Cell.tag) cycle p cells log rest = inner at hpair
    have hle := inner.length_rest_le
    rw [readAggregate_owned hread ho hr]
    exact .owned hread ho hpair (reads_readAggregate cycle _ _ inner.rest)
termination_by bytes.length
decreasing_by all_goals omega

/-! ## What derivations tell of readings -/

/-- A derivation says what the reading of the group comes to. -/
theorem GroupReads.result_eq (h : GroupReads unclaimed around g log bytes g' log' left) :
    (readGroup unclaimed around g log bytes).result = (g', log', left) := by
  induction h with
  | ended hover =>
    rw [readGroup_over hover]
    rfl
  | field hread ho hstore _ ih =>
    rw [readGroup_owned hread ho (readPair_field hstore)]
    exact ih
  | group hread ho hstore _ _ ih ihafter =>
    rw [readGroup_owned hread ho (readPair_group hstore)]
    obtain ⟨rfl, rfl, rfl⟩ := Reading.result_eq_iff.1 ih
    exact ihafter
  | leftOut hread ho ha hunclaimed _ ih =>
    subst hunclaimed
    rw [readGroup_skip hread ho ha]
    exact ih

/-- A derivation tells what reading one pair gives. -/
theorem PairReads.result_eq (h : PairReads unclaimed around cycle p cells log bytes stored log' left) :
    (readPair unclaimed around cycle p cells log bytes).result = (stored, log', left) := by
  cases h with
  | field hstore =>
    rw [readPair_field hstore]
    rfl
  | group hstore inside =>
    obtain ⟨rfl, rfl, rfl⟩ := Reading.result_eq_iff.1 inside.result_eq
    rw [readPair_group hstore]
    rfl

/-- A derivation says what the reading of the message comes to. -/
theorem PartsReads.result_eq (h : PartsReads legal summed ps log bytes ps' log' left) :
    (readParts legal summed ps log bytes).result = (ps', log', left) := by
  induction h with
  | ended hover =>
    rw [readParts_over hover]
    rfl
  | owned hread hsum ho pair _ ih =>
    obtain ⟨rfl, rfl, rfl⟩ := Reading.result_eq_iff.1 pair.result_eq
    rw [readParts_owned hread hsum ho rfl]
    exact ih
  | leftOut hread hsum ho _ ih =>
    rw [readParts_skip hread hsum ho]
    exact ih

/-- A derivation says what the reading of the aggregate comes to. -/
theorem AggregateReads.result_eq {cells' : List Cell} (h : AggregateReads cycle cells log bytes cells' log' left) :
    (readAggregate cycle cells log bytes).result = (cells', log', left) := by
  induction h with
  | ended hover =>
    rw [readAggregate_over hover]
    rfl
  | owned hread ho pair _ ih =>
    obtain ⟨rfl, rfl, rfl⟩ := Reading.result_eq_iff.1 pair.result_eq
    rw [readAggregate_owned hread ho rfl]
    exact ih

/-! ## Lengths -/

/-- What is left of the bytes is not longer than they are. -/
theorem Reading.length_le_of_result {α : Type} {value : α} {r : Reading α bytes} (h : r.result = (value, log', left)) :
    left.length ≤ bytes.length :=
  (Reading.result_eq_iff.1 h).2.2 ▸ r.length_rest_le

/-- Reading a group leaves no more bytes than there were. -/
theorem GroupReads.length_le (h : GroupReads unclaimed around g log bytes g' log' left) : left.length ≤ bytes.length :=
  Reading.length_le_of_result h.result_eq

theorem PairReads.length_le (h : PairReads unclaimed around cycle p cells log bytes stored log' left) :
    left.length ≤ bytes.length :=
  Reading.length_le_of_result h.result_eq

theorem PartsReads.length_le (h : PartsReads legal summed ps log bytes ps' log' left) : left.length ≤ bytes.length :=
  Reading.length_le_of_result h.result_eq

end FixWire.Decoder
