import FixWire.Proofs.Decoder.Reset

/-!
# What holds of every field of a decoder

The cell of a field is written in few ways : as that of a new decoder, when it is cleared, and when a value is stored in
it. What all of these keep holds of every field of a decoder in use, those of repetitions at any depth and of spare ones
included (`Kept.used`, `Kept.used_aggregate`).
-/

namespace FixWire

open Decoder

namespace Decoder

/-! ## All fields of some cells -/

/-- A property of a field, its value and its stamp that is kept by all that is done with the cell of a field. -/
structure Kept (P : FieldSlot → Value → UInt32 → Prop) : Prop where
  blank (slot : FieldSlot) : P slot .absent 0
  clear {slot : FieldSlot} {value : Value} {stamp : UInt32} (h : P slot value stamp) : P slot .absent 0
  store {slot : FieldSlot} {value : Value} {stamp : UInt32} (h : P slot value stamp) (cycle : UInt32) (bytes : Bytes) :
    P slot (.ofBytes slot.kind bytes) cycle

variable {P : FieldSlot → Value → UInt32 → Prop}

/-- The property holds of all fields of a cell, in its live and in its spare repetitions as well. -/
inductive Cell.All (P : FieldSlot → Value → UInt32 → Prop) : Cell → Prop
  | field {slot : FieldSlot} {value : Value} {stamp : UInt32} (h : P slot value stamp) : All P (.field slot value stamp)
  | group {slot : GroupSlot} {body : List Member} {counter : Counter} {live spare : List (List Cell)}
    (hlive : ∀ cells ∈ live, ∀ c ∈ cells, All P c) (hspare : ∀ cells ∈ spare, ∀ c ∈ cells, All P c) :
    All P (.group slot body counter live spare)

/-- The property holds of all fields of some cells. -/
def All (P : FieldSlot → Value → UInt32 → Prop) (cells : List Cell) : Prop :=
  ∀ c ∈ cells, c.All P

/-- A property of all fields survives a cell that has it and is put in the place of its like. -/
theorem all_put {c : Cell} {cells : List Cell} (hc : c.All P) (h : All P cells) : All P (put c cells) := by
  induction cells with
  | nil => exact nofun
  | cons d rest ih =>
    obtain ⟨hd, hrest⟩ := List.forall_mem_cons.1 h
    rw [put]
    split_ifs
    · exact List.forall_mem_cons.2 ⟨hc, hrest⟩
    · exact List.forall_mem_cons.2 ⟨hd, ih hrest⟩

/-- An open group of which the property holds throughout. -/
structure OpenGroup.All (P : FieldSlot → Value → UInt32 → Prop) (g : OpenGroup) : Prop where
  current : ∀ cells ∈ g.current, Decoder.All P cells
  finished : ∀ cells ∈ g.finished, Decoder.All P cells
  spare : ∀ cells ∈ g.spare, Decoder.All P cells

theorem OpenGroup.All.toCell {g : OpenGroup} (h : g.All P) : g.toCell.All P := by
  refine .group (fun cells hcells => ?_) h.spare
  rw [repetitions, List.mem_reverse, List.mem_append, Option.mem_toList] at hcells
  exact hcells.elim (h.current cells) (h.finished cells)

mutual

theorem Kept.cell_stocked (hP : Kept P) (capacity : Nat) : ∀ m : Member, (Cell.stocked capacity m).All P
  | .field slot => .field (hP.blank slot)
  | .group _ body => .group nofun fun cells hcells => by
    rw [List.eq_of_mem_replicate hcells]
    exact hP.all_stock capacity body

theorem Kept.all_stock (hP : Kept P) (capacity : Nat) : ∀ members : List Member, All P (stock capacity members)
  | [] => nofun
  | m :: rest => List.forall_mem_cons.2 ⟨hP.cell_stocked capacity m, hP.all_stock capacity rest⟩

end

namespace Kept

variable (hP : Kept P)
include hP

theorem all_blank (members : List Member) : All P (members.map Cell.blank) := by
  intro c hc
  obtain ⟨m, -, rfl⟩ := List.mem_map.1 hc
  cases m with
  | field slot => exact .field (hP.blank slot)
  | group slot body => exact .group nofun nofun

theorem cell_clear {c : Cell} (h : c.All P) : c.clear.All P := by
  cases h with
  | field h => exact .field (hP.clear h)
  | group hlive hspare => exact .group nofun (List.forall_mem_append.2 ⟨hlive, hspare⟩)

theorem all_clear {cells : List Cell} (h : All P cells) : All P (cells.map Cell.clear) := by
  intro c hc
  obtain ⟨c', hc', rfl⟩ := List.mem_map.1 hc
  exact hP.cell_clear (h c' hc')

/-! ## Storing a pair -/

/-- Storing a value keeps a property of all fields, also in the group that it may open. -/
theorem cell_store {c : Cell} (h : c.All P) (cycle : UInt32) (value : Bytes) :
    (c.store cycle value).1.All P ∧ ∀ g, (c.store cycle value).2.1 = some g → g.All P := by
  cases h with
  | field h => exact ⟨.field (hP.store h cycle value), fun g hg => absurd hg.symm (Option.some_ne_none g)⟩
  | group hlive hspare =>
    have hall := List.forall_mem_append.2 ⟨hlive, hspare⟩
    refine ⟨.group nofun hall, fun g hg => ?_⟩
    obtain rfl := Option.some.inj hg
    exact ⟨nofun, nofun, hall⟩

theorem all_store {cells : List Cell} (h : All P cells) (cycle : UInt32) (p : Pair) :
    All P (Decoder.store cycle p cells).1 ∧ ∀ g, (Decoder.store cycle p cells).2.1 = some g → g.All P := by
  induction cells with
  | nil => exact ⟨nofun, fun g hg => absurd hg.symm (Option.some_ne_none g)⟩
  | cons c rest ih =>
    obtain ⟨hc, hrest⟩ := List.forall_mem_cons.1 h
    rw [Decoder.store]
    split_ifs
    · obtain ⟨hcell, hopened⟩ := hP.cell_store hc cycle p.value
      exact ⟨List.forall_mem_cons.2 ⟨hcell, hrest⟩, hopened⟩
    · exact ⟨List.forall_mem_cons.2 ⟨hc, (ih hrest).1⟩, (ih hrest).2⟩

/-- The next repetition of a group, be it a spare one or a new one, has the property as well. -/
theorem all_next {g : OpenGroup} (h : g.All P) : g.next.All P := by
  have hfinished : ∀ cells ∈ g.current.toList ++ g.finished, All P cells := by
    intro cells hcells
    rw [List.mem_append, Option.mem_toList] at hcells
    exact hcells.elim (h.current cells) (h.finished cells)
  have hspare := h.spare
  rw [OpenGroup.next]
  split
  next =>
    refine ⟨fun cells hcells => ?_, hfinished, h.spare⟩
    obtain rfl := Option.some.inj hcells
    exact hP.all_blank g.body
  next hs =>
    rw [hs, List.forall_mem_cons] at hspare
    refine ⟨fun cells hcells => ?_, hfinished, hspare.2⟩
    obtain rfl := Option.some.inj hcells
    exact hP.all_clear hspare.1

theorem all_advance {g : OpenGroup} (h : g.All P) (tag : Tag) : (g.advance tag).All P := by
  unfold OpenGroup.advance
  dsimp only
  split_ifs
  · exact ⟨(hP.all_next h).current, (hP.all_next h).finished, (hP.all_next h).spare⟩
  · exact ⟨h.current, h.finished, h.spare⟩

/-! ## Reading -/

theorem all_of_store {cells stored : List Cell} {cycle : UInt32} {p : Pair} {opened : Option OpenGroup}
    {faults : List Fault} (h : All P cells) (hstore : Decoder.store cycle p cells = (stored, opened, faults)) :
    All P stored ∧ ∀ g, opened = some g → g.All P := by
  have hboth := hP.all_store h cycle p
  rwa [hstore] at hboth

/-- The cells of the latest repetition once a pair with the tag has come. -/
theorem all_getD_current {g : OpenGroup} (h : g.All P) (tag : Tag) : All P ((g.advance tag).current.getD []) := by
  cases hc : (g.advance tag).current with
  | none => exact nofun
  | some cells => exact (hP.all_advance h tag).current cells hc

/-- Cells that are put into the latest repetition of a group that goes on. -/
theorem all_setCurrent {g : OpenGroup} (h : g.All P) (tag : Tag) {cells : List Cell} (hcells : All P cells) :
    OpenGroup.All P { g.advance tag with current := some cells } := by
  have hadvance := hP.all_advance h tag
  exact ⟨fun cells' hc => Option.some.inj hc ▸ hcells, hadvance.finished, hadvance.spare⟩

section Readings

variable {unclaimed : Unclaimed} {around : List Tag} {cycle : UInt32} {log log' : Log} {bytes left : Bytes}

/-- The property is kept where a group is read. -/
theorem groupReads {g g' : OpenGroup} (hreads : GroupReads unclaimed around g log bytes g' log' left) (h : g.All P) :
    g'.All P := by
  induction hreads with
  | ended _ => exact h
  | field _ _ hstore _ ih =>
    obtain ⟨hstored, -⟩ := hP.all_of_store (hP.all_getD_current h _) hstore
    exact ih (hP.all_setCurrent h _ hstored)
  | group _ _ hstore _ _ ihinside ihafter =>
    obtain ⟨hstored, hopened⟩ := hP.all_of_store (hP.all_getD_current h _) hstore
    have hclosed := ihinside (hopened _ rfl)
    exact ihafter (hP.all_setCurrent h _ (all_put hclosed.toCell hstored))
  | leftOut _ _ _ _ _ ih => exact ih h

/-- The property is kept where a pair is stored. -/
theorem pairReads {p : Pair} {cells stored : List Cell}
    (hreads : PairReads unclaimed around cycle p cells log bytes stored log' left) (h : All P cells) : All P stored := by
  cases hreads with
  | field hstore => exact (hP.all_of_store h hstore).1
  | group hstore inside =>
    obtain ⟨hstored, hopened⟩ := hP.all_of_store h hstore
    exact all_put (hP.groupReads inside (hopened _ rfl)).toCell hstored

/-- The property is kept where an aggregate is read on its own. -/
theorem aggregateReads {cells cells' : List Cell} (hreads : AggregateReads cycle cells log bytes cells' log' left)
    (h : All P cells) : All P cells' := by
  induction hreads with
  | ended _ => exact h
  | owned _ _ pair _ ih => exact ih (hP.pairReads pair h)

end Readings

end Kept

/-- The property holds of all fields of the parts. -/
def Parts.All (P : FieldSlot → Value → UInt32 → Prop) (ps : Parts) : Prop :=
  ∀ part, Decoder.All P (ps.get part).cells

theorem Parts.All.setCells {ps : Parts} (h : ps.All P) {part : Part} {cells : List Cell} (hcells : Decoder.All P cells) :
    (ps.setCells part cells).All P := by
  intro q
  by_cases hq : q = part
  · subst hq
    rwa [Parts.get_setCells]
  · rw [Parts.get_setCells_of_ne _ _ hq]
    exact h q

/-- The property is kept where a message is read. -/
theorem Kept.partsReads (hP : Kept P) {legal : List Tag} {summed : Bool} {ps ps' : Parts} {log log' : Log}
    {bytes left : Bytes} (hreads : PartsReads legal summed ps log bytes ps' log' left) (h : ps.All P) : ps'.All P := by
  induction hreads with
  | ended _ => exact h
  | owned _ _ _ pair _ ih => exact ih (h.setCells (hP.pairReads pair (h _)))
  | leftOut _ _ _ _ ih => exact ih h

/-! ## Decoders in use -/

/-- The property holds of every field of a decoder, whatever it has been used for. -/
theorem Kept.used (hP : Kept P) {capacity : Nat} {layout : MessageLayout} {legal order : List Tag} {validating : Bool}
    {d : MessageDecoder} (h : MessageDecoder.Used (.stocked capacity layout legal order validating) d) :
    d.parts.All P := by
  induction h with
  | new => rintro (_ | _ | _) <;> exact hP.all_stock capacity _
  | @decode d _ window ih =>
    refine hP.partsReads (reads_readParts d.legal false _ _ window) fun part => ?_
    rw [Parts.get_nextCycle]
    exact ih part
  | validate _ ih => exact ih
  | @reset d _ ih =>
    intro part
    change All P (d.parts.clear.get part).cells
    rw [Parts.get_clear]
    exact hP.all_clear (ih part)

/-- The same for a decoder of an aggregate on its own. -/
theorem Kept.used_aggregate (hP : Kept P) {capacity : Nat} {layout : Layout} {validating : Bool} {d : AggregateDecoder}
    (h : AggregateDecoder.Used (.stocked capacity layout validating) d) : All P d.root.cells := by
  induction h with
  | new => exact hP.all_stock capacity layout.members
  | decode _ window ih => exact hP.aggregateReads (reads_readAggregate _ _ _ window) ih
  | validate _ ih => exact ih
  | reset _ ih => exact hP.all_clear ih

/-! ## Fields that are asked for -/

/-- The property holds of the fields of the repetition that a path leads to. -/
theorem All.at? {a b : Aggregate} {path : List (Tag × Nat)} (h : All P a.cells) (hat : a.at? path = some b) :
    All P b.cells := by
  induction path generalizing a with
  | nil =>
    obtain rfl := Option.some.inj hat
    exact h
  | cons step path ih =>
    obtain ⟨tag, index⟩ := step
    rw [Aggregate.at?] at hat
    split at hat
    next slot body counter live spare hfind =>
      split at hat
      next cells hcells =>
        refine ih ?_ hat
        cases h _ (List.mem_of_find?_eq_some hfind) with
        | group hlive _ => exact hlive cells (List.mem_of_getElem? hcells)
      next => cases hat
    next => cases hat

/-- A property of all fields holds of the field that is found. -/
theorem All.field {cells : List Cell} {tag : Tag} {slot : FieldSlot} {value : Value} {stamp : UInt32} (h : All P cells)
    (hfind : find? cells tag = some (.field slot value stamp)) : P slot value stamp := by
  cases h _ (List.mem_of_find?_eq_some hfind) with
  | field h => exact h

end Decoder

end FixWire
