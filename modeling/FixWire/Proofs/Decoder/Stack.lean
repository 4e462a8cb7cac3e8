import FixWire.Proofs.Decoder.Derivations

/-!
# Reading with a stack

`readGroup` calls itself for a group inside a group. Here the open groups are a stack instead, innermost
first, and the pairs are taken one after the other : a pair closes the groups inside the innermost one that
has its tag, a pair that only a part of the message has closes all of them, and a pair that nothing has
closes none.

`Progress.run_group` is the simulation : reading on from an open group on top of a stack leads where the group
that the reading comes to leads once it is closed. It goes along the derivation of the reading, with a step of the
stack for each rule. `Progress.run_readParts` is the same for a whole message, with the same cells, the same log and
the same number of bytes.
-/

namespace FixWire.Decoder

/-- A message while it is read pair by pair : its parts, the open groups, innermost first, the part that the
outermost of them belongs to, whether the checksum has been read, the log, and the number of bytes read. -/
structure Progress where
  parts : Parts
  opened : List OpenGroup
  base : Part
  summed : Bool
  log : Log
  consumed : Nat

namespace Progress

/-! ## Steps -/

/-- The cells of the innermost open group are put where they belong, and its count is checked. -/
def closeInner (m : Progress) : Progress :=
  match m.opened with
  | [] => m
  | [g] =>
    { m with
      parts := m.parts.setCells m.base (put g.toCell (m.parts.get m.base).cells)
      opened := []
      log := m.log.add g.countFaults }
  | g :: outer :: rest =>
    let outer := { outer with current := outer.current.map (put g.toCell) }
    { m with opened := outer :: rest, log := m.log.add g.countFaults }

/-- The `n` innermost open groups are over. -/
def close : Nat → Progress → Progress
  | 0, m => m
  | n + 1, m => close n m.closeInner

/-- All open groups are over. -/
def closeAll (m : Progress) : Progress :=
  m.close m.opened.length

/-- The number of open groups inside the innermost one that has the tag, if there is one. -/
def ownerDepth? (m : Progress) (tag : Tag) : Option Nat :=
  m.opened.findIdx? fun g => g.owns tag

/-- Stores a pair in the innermost open group. -/
def storeInGroup (m : Progress) (p : Pair) : Progress :=
  match m.opened with
  | [] => m
  | g :: rest =>
    let g := g.advance p.tag
    let (cells, opened, faults) := store repetitionCycle p (g.current.getD [])
    { m with
      opened := opened.toList ++ { g with current := some cells } :: rest
      log := m.log.add faults }

/-- Stores a pair in a part, when no group is open. -/
def storeInPart (m : Progress) (part : Part) (p : Pair) : Progress :=
  let a := m.parts.get part
  let (cells, opened, faults) := store a.stamp p a.cells
  { m with
    parts := m.parts.setCells part cells
    opened := opened.toList
    base := part
    summed := m.summed || m.parts.isSum part p.tag
    log := (m.log.see p.tag).add faults }

/-- A pair that nothing has is logged. -/
def leaveOut (legal : List Tag) (m : Progress) (p : Pair) : Progress :=
  let log := if m.opened.isEmpty then m.log.see p.tag else m.log
  { m with log := log.add [unclaimedFault legal p.tag] }

/-- The progress after a pair, or none if the message ends before the pair. After the checksum it ends at the
first tag outside groups that the trailer does not have. -/
def step (legal : List Tag) (m : Progress) (p : Pair) : Option Progress :=
  let advance (m : Progress) : Progress := { m with consumed := m.consumed + p.width }
  match m.ownerDepth? p.tag with
  | some depth => some (advance ((m.close depth).storeInGroup p))
  | none =>
    match m.parts.owner? p.tag with
    | some part =>
      if m.summed && !m.parts.trailer.owns p.tag then none
      else some (advance (m.closeAll.storeInPart part p))
    | none => if m.summed && m.opened.isEmpty then none else some (advance (m.leaveOut legal p))

/-- The progress after some pairs, up to where the message ends, when all groups are over. -/
def run (legal : List Tag) : List Pair → Progress → Progress
  | [], m => m.closeAll
  | p :: rest, m =>
    match m.step legal p with
    | some m => run legal rest m
    | none => m.closeAll

end Progress

/-! ## Tags -/

@[simp] theorem tag_toCell (g : OpenGroup) : g.toCell.tag = g.slot.tag :=
  rfl

/-- Putting a cell in the place of another keeps the tags. -/
@[simp] theorem map_tag_put (cell : Cell) : ∀ cells : List Cell, (put cell cells).map Cell.tag = cells.map Cell.tag
  | [] => rfl
  | c :: rest => by
    rw [put]
    split_ifs with h
    · rw [List.map_cons, List.map_cons, h]
    · rw [List.map_cons, List.map_cons, map_tag_put cell rest]

theorem tag_store (cycle : UInt32) (value : Bytes) (c : Cell) : (c.store cycle value).1.tag = c.tag := by
  cases c <;> rfl

/-- Storing a pair keeps the tags. -/
theorem map_tag_store (cycle : UInt32) (p : Pair) :
    ∀ cells : List Cell, (store cycle p cells).1.map Cell.tag = cells.map Cell.tag
  | [] => rfl
  | c :: rest => by
    rw [store]
    split_ifs with h
    · rw [List.map_cons, List.map_cons, tag_store]
    · rw [List.map_cons, List.map_cons, map_tag_store cycle p rest]

/-- There is a cell with a tag if the tag is that of a cell. -/
theorem find?_isSome (cells : List Cell) (tag : Tag) :
    (find? cells tag).isSome = (cells.map Cell.tag).contains tag := by
  unfold find?
  rw [Bool.eq_iff_iff, List.find?_isSome, List.contains_iff_mem, List.mem_map]
  simp only [beq_iff_eq]

namespace Aggregate

/-- An aggregate has a tag if the tag is that of a cell. -/
theorem owns_eq (a : Aggregate) (tag : Tag) : a.owns tag = a.tags.contains tag :=
  find?_isSome a.cells tag

end Aggregate

namespace Parts

@[simp] theorem get_setCells (ps : Parts) (part : Part) (cells : List Cell) :
    (ps.setCells part cells).get part = { ps.get part with cells } := by
  cases part <;> rfl

@[simp] theorem setCells_setCells (ps : Parts) (part : Part) (cells cells' : List Cell) :
    (ps.setCells part cells).setCells part cells' = ps.setCells part cells' := by
  cases part <;> rfl

/-- Other parts keep their cells. -/
theorem get_setCells_of_ne {part part' : Part} (ps : Parts) (cells : List Cell) (h : part' ≠ part) :
    (ps.setCells part cells).get part' = ps.get part' := by
  cases part <;> cases part' <;> first | rfl | exact absurd rfl h

/-- Parts whose members have the same tags. -/
def SameTags (ps qs : Parts) : Prop :=
  ∀ part, (ps.get part).tags = (qs.get part).tags

theorem SameTags.refl (ps : Parts) : ps.SameTags ps :=
  fun _ => rfl

/-- Cells with the same tags may replace those of a part. -/
theorem sameTags_setCells {ps : Parts} {part : Part} {cells : List Cell}
    (h : cells.map Cell.tag = (ps.get part).tags) : (ps.setCells part cells).SameTags ps := by
  intro part'
  by_cases hp : part' = part
  · rw [hp, get_setCells, ← h]
    rfl
  · rw [get_setCells_of_ne ps cells hp]

theorem SameTags.owns {ps qs : Parts} (h : ps.SameTags qs) (part : Part) (tag : Tag) :
    (ps.get part).owns tag = (qs.get part).owns tag := by
  rw [Aggregate.owns_eq, Aggregate.owns_eq, h part]

/-- A tag belongs to the same part. -/
theorem SameTags.owner? {ps qs : Parts} (h : ps.SameTags qs) (tag : Tag) :
    ps.owner? tag = qs.owner? tag := by
  unfold Parts.owner?
  simp only [h.owns]

theorem SameTags.tags {ps qs : Parts} (h : ps.SameTags qs) : ps.tags = qs.tags :=
  congrArg₂ (· ++ ·) (congrArg₂ (· ++ ·) (h .header) (h .body)) (h .trailer)

/-- A part that a tag belongs to has the tag. -/
theorem owns_of_owner? {ps : Parts} {tag : Tag} {part : Part} (h : ps.owner? tag = some part) :
    (ps.get part).owns tag = true :=
  List.find?_some (p := fun part => (ps.get part).owns tag) h

/-- A tag belongs to some part if it is the tag of a member. -/
theorem isSome_owner? (ps : Parts) (tag : Tag) : (ps.owner? tag).isSome = ps.tags.contains tag := by
  unfold Parts.owner? Parts.tags
  rw [Bool.eq_iff_iff, List.find?_isSome]
  simp [Aggregate.owns_eq, Parts.get]

end Parts

namespace OpenGroup

@[simp] theorem body_next (g : OpenGroup) : g.next.body = g.body := by
  unfold next
  cases g.spare <;> rfl

@[simp] theorem body_advance (g : OpenGroup) (tag : Tag) : (g.advance tag).body = g.body := by
  unfold advance
  dsimp only
  split_ifs <;> simp

@[simp] theorem counter_advance (g : OpenGroup) (tag : Tag) : (g.advance tag).counter = g.counter := by
  unfold advance next
  dsimp only
  split_ifs <;> cases g.spare <;> rfl

/-- The tags of a repetition are those that the group has. -/
theorem contains_tags (g : OpenGroup) (tag : Tag) : g.tags.contains tag = g.owns tag := by
  unfold tags owns FixWire.owns
  rw [Bool.eq_iff_iff, List.contains_iff_mem, List.mem_map, List.any_eq_true]
  simp only [beq_iff_eq]

end OpenGroup

namespace Progress

variable {legal : List Tag} {m : Progress} {g : OpenGroup} {outer : List OpenGroup} {p : Pair}
  {bytes rest : Bytes}

/-! ## Closing a group early -/

/-- Where no group is open there is none to close. -/
theorem closeInner_of_nil (h : m.opened = []) : m.closeInner = m := by
  rw [closeInner, h]

/-- Closing the innermost group keeps the groups around it, up to their cells. -/
theorem map_body_closeInner (h : m.opened = g :: outer) :
    m.closeInner.opened.map OpenGroup.body = outer.map OpenGroup.body := by
  cases outer with
  | nil => rw [closeInner, h]
  | cons o rest => simp [closeInner, h]

/-- Closing a group keeps the tags of the parts. -/
theorem sameTags_closeInner (m : Progress) : m.closeInner.parts.SameTags m.parts := by
  unfold closeInner
  split
  · exact .refl _
  · exact Parts.sameTags_setCells (map_tag_put _ _)
  · exact .refl _

theorem summed_closeInner (m : Progress) : m.closeInner.summed = m.summed := by
  unfold closeInner
  split <;> rfl

/-- Closing all groups may begin with the innermost one. -/
theorem closeAll_closeInner (h : m.opened = g :: outer) : m.closeInner.closeAll = m.closeAll := by
  have hlen : m.closeInner.opened.length = outer.length := by
    rw [← List.length_map OpenGroup.body, map_body_closeInner h, List.length_map]
  unfold closeAll
  rw [hlen, h, List.length_cons, close]

/-- Closing groups leaves the members of the groups around them as they are. -/
theorem map_body_close : ∀ (n : Nat) (m : Progress),
    (m.close n).opened.map OpenGroup.body = (m.opened.map OpenGroup.body).drop n
  | 0, _ => rfl
  | n + 1, m => by
    rw [close, map_body_close n]
    cases hm : m.opened with
    | nil => simp [closeInner_of_nil hm, hm]
    | cons g outer => rw [map_body_closeInner hm, List.map_cons, List.drop_succ_cons]

/-- The innermost group that has the tag is the innermost one once those inside it are closed. -/
theorem exists_of_ownerDepth? {depth : Nat} {tag : Tag} (h : m.ownerDepth? tag = some depth) :
    ∃ g outer, (m.close depth).opened = g :: outer ∧ g.owns tag := by
  obtain ⟨hlt, ho, -⟩ := List.findIdx?_eq_some_iff_getElem.1 h
  have hmap := map_body_close depth m
  rw [List.drop_eq_getElem_cons (by simpa using hlt), List.getElem_map] at hmap
  obtain ⟨g, outer, hg, hbody, -⟩ := List.map_eq_cons_iff.1 hmap
  refine ⟨g, outer, hg, ?_⟩
  rwa [OpenGroup.owns, hbody]

/-- Which group has a tag depends on the members of the groups only. -/
theorem findIdx?_owns {gs gs' : List OpenGroup} (tag : Tag)
    (h : gs.map OpenGroup.body = gs'.map OpenGroup.body) :
    gs.findIdx? (·.owns tag) = gs'.findIdx? (·.owns tag) := by
  have hmap : ∀ gs : List OpenGroup,
      gs.findIdx? (·.owns tag) = (gs.map OpenGroup.body).findIdx? (FixWire.owns · tag) := by
    intro gs
    rw [List.findIdx?_map]
    rfl
  rw [hmap, hmap, h]

/-- A tag is in no open group if none has it. -/
theorem ownerDepth?_eq_none_iff (m : Progress) (tag : Tag) :
    m.ownerDepth? tag = none ↔ m.opened.any (·.owns tag) = false := by
  rw [ownerDepth?, List.findIdx?_eq_none_iff, List.any_eq_false]
  simp

/-- A group that does not have the tag is one more to close. -/
theorem ownerDepth?_closeInner (h : m.opened = g :: outer) {tag : Tag} (ho : ¬g.owns tag) :
    m.ownerDepth? tag = (m.closeInner.ownerDepth? tag).map (· + 1) := by
  rw [ownerDepth?, ownerDepth?, findIdx?_owns tag (map_body_closeInner h), h, List.findIdx?_cons,
    if_neg ho]

/-- A group that does not have the tag of the next pair can be closed before the pair is read, if something
around it has the tag. -/
theorem step_closeInner (h : m.opened = g :: outer) (ho : ¬g.owns p.tag)
    (ha : outer.any (·.owns p.tag) || (m.parts.owner? p.tag).isSome) :
    m.closeInner.step legal p = m.step legal p := by
  unfold step
  rw [ownerDepth?_closeInner h ho]
  cases hd : m.closeInner.ownerDepth? p.tag with
  | some depth => rfl
  | none =>
    rw [ownerDepth?, findIdx?_owns p.tag (map_body_closeInner h), List.findIdx?_eq_none_iff] at hd
    have hany : outer.any (·.owns p.tag) = false := by
      rw [List.any_eq_false]
      simpa using hd
    rw [hany, Bool.false_or] at ha
    obtain ⟨part, hpart⟩ := Option.isSome_iff_exists.1 ha
    have htrailer := (sameTags_closeInner m).owns .trailer p.tag
    simp only [Parts.get] at htrailer
    simp only [Option.map_none, (sameTags_closeInner m).owner?, hpart, htrailer, summed_closeInner,
      closeAll_closeInner h]

/-- A group that is over may be closed before the next pair is read. -/
theorem run_closeInner (h : m.opened = g :: outer)
    (hb : ∀ p rest, Pair.read? bytes = some (p, rest) →
      ¬g.owns p.tag ∧ (outer.any (·.owns p.tag) || (m.parts.owner? p.tag).isSome)) :
    m.closeInner.run legal (Pair.all bytes) = m.run legal (Pair.all bytes) := by
  cases hr : Pair.read? bytes with
  | none =>
    rw [Pair.all_of_read?_eq_none hr]
    exact closeAll_closeInner h
  | some pr =>
    obtain ⟨p, rest⟩ := pr
    obtain ⟨ho, ha⟩ := hb p rest hr
    rw [Pair.all_of_read?_eq_some hr, run, run, step_closeInner h ho ha, closeAll_closeInner h]

/-! ## Steps from one state to the next -/

/-- The progress with other open groups and another log, after some more bytes. -/
def goOn (m : Progress) (opened : List OpenGroup) (log : Log) (n : Nat) : Progress :=
  { m with opened, log, consumed := m.consumed + n }

/-- The progress after a pair with the tag, when no group was open : with these cells in the part that has the tag. -/
def goOnIn (m : Progress) (part : Part) (tag : Tag) (cells : List Cell) (opened : List OpenGroup) (log : Log)
    (n : Nat) : Progress :=
  { parts := m.parts.setCells part cells
    opened
    base := part
    summed := m.summed || m.parts.isSum part tag
    log
    consumed := m.consumed + n }

theorem goOn_self (m : Progress) : m.goOn m.opened m.log 0 = m :=
  rfl

/-- Going on twice is going on. -/
theorem goOn_goOn (m : Progress) (opened opened' : List OpenGroup) (log log' : Log) (n k : Nat) :
    (m.goOn opened log n).goOn opened' log' k = m.goOn opened' log' (n + k) := by
  simp [goOn, Nat.add_assoc]

/-- A group inside another one is put into its latest repetition. -/
theorem closeInner_goOn (m : Progress) (closed : OpenGroup) (cells : List Cell) (log : Log) (n : Nat) :
    (m.goOn (closed :: { g with current := some cells } :: outer) log n).closeInner =
      m.goOn ({ g with current := some (put closed.toCell cells) } :: outer) (log.add closed.countFaults) n :=
  rfl

/-- The outermost group is put into its part. -/
theorem closeInner_goOnIn (m : Progress) (part : Part) (tag : Tag) (cells : List Cell) (opened : List OpenGroup)
    (closed : OpenGroup) (log log' : Log) (n k : Nat) :
    ((m.goOnIn part tag cells opened log n).goOn [closed] log' k).closeInner =
      m.goOnIn part tag (put closed.toCell cells) [] (log'.add closed.countFaults) (n + k) := by
  simp [closeInner, goOn, goOnIn, Nat.add_assoc]

/-- A pair of the innermost group is stored in it. -/
theorem step_inGroup {cells : List Cell} {inner : Option OpenGroup} {faults : List Fault}
    (h : m.opened = g :: outer) (ho : g.owns p.tag)
    (hs : store repetitionCycle p ((g.advance p.tag).current.getD []) = (cells, inner, faults)) :
    m.step legal p = some (m.goOn (inner.toList ++ { g.advance p.tag with current := some cells } :: outer)
      (m.log.add faults) p.width) := by
  have hdepth : m.ownerDepth? p.tag = some 0 := by
    rw [ownerDepth?, h, List.findIdx?_cons, if_pos ho]
  unfold step
  simp only [hdepth, close, storeInGroup, h, hs]
  rfl

/-- A pair that nothing has is left out while a group is open. -/
theorem step_leaveOut (h : m.opened = g :: outer) (ho : ¬g.owns p.tag)
    (ha : ¬(outer.any (·.owns p.tag) || (m.parts.owner? p.tag).isSome)) :
    m.step legal p = some (m.goOn (g :: outer) (m.log.add [unclaimedFault legal p.tag]) p.width) := by
  simp only [Bool.or_eq_true, not_or, Option.isSome_iff_ne_none, ne_eq, not_not] at ha
  have hdepth : m.ownerDepth? p.tag = none := by
    rw [ownerDepth?_eq_none_iff, h, List.any_cons]
    simpa [ho] using ha.1
  unfold step
  simp only [hdepth, ha.2]
  simp [h, leaveOut, goOn]

theorem closeAll_of_nil (h : m.opened = []) : m.closeAll = m := by
  rw [closeAll, h]
  rfl

theorem ownerDepth?_of_nil (h : m.opened = []) (tag : Tag) : m.ownerDepth? tag = none := by
  rw [ownerDepth?, h, List.findIdx?_nil]

/-- After the checksum the message ends before a tag that the trailer does not have. -/
theorem step_stop (h : m.opened = []) (hs : m.summed && !m.parts.trailer.owns p.tag) :
    m.step legal p = none := by
  unfold step
  simp only [ownerDepth?_of_nil h, hs, if_true]
  split
  · rfl
  · rw [Bool.and_eq_true] at hs
    simp [h, hs.1]

/-- A pair of a part is stored in it when no group is open. -/
theorem step_inPart {part : Part} {cells : List Cell} {inner : Option OpenGroup} {faults : List Fault}
    (h : m.opened = []) (hs : ¬(m.summed && !m.parts.trailer.owns p.tag))
    (ho : m.parts.owner? p.tag = some part)
    (hst : store (m.parts.get part).stamp p (m.parts.get part).cells = (cells, inner, faults)) :
    m.step legal p =
      some (m.goOnIn part p.tag cells inner.toList ((m.log.see p.tag).add faults) p.width) := by
  unfold step
  simp only [ownerDepth?_of_nil h, if_neg hs, ho, closeAll_of_nil h, storeInPart, hst]
  rfl

/-- A pair that nothing has is left out when no group is open. -/
theorem step_unclaimed (h : m.opened = []) (hs : ¬(m.summed && !m.parts.trailer.owns p.tag))
    (ho : m.parts.owner? p.tag = none) :
    m.step legal p =
      some (m.goOn [] ((m.log.see p.tag).add [unclaimedFault legal p.tag]) p.width) := by
  have hns : m.summed = false := by
    have : m.parts.trailer.owns p.tag = false := by
      have := List.find?_eq_none.1 ho .trailer (by simp)
      simpa [Parts.get] using this
    simpa [this] using hs
  unfold step
  simp only [ownerDepth?_of_nil h, ho]
  simp [h, hns, leaveOut, goOn]

/-! ## Reading a group -/

section Group

variable {around : List Tag} {g' : OpenGroup} {log log' : Log} {left : Bytes}

/-- The tags around the innermost group are those of the groups around it and of the parts. -/
def Surrounded (m : Progress) (around : List Tag) (outer : List OpenGroup) : Prop :=
  ∀ tag, around.contains tag = (outer.any (·.owns tag) || (m.parts.owner? tag).isSome)

/-- The tags around a group inside a repetition are those of the repetition as well. -/
theorem Surrounded.inside (h : m.Surrounded around outer) (g : OpenGroup) (cells : List Cell) :
    m.Surrounded (g.tags ++ around) ({ g with current := some cells } :: outer) := by
  intro tag
  rw [List.contains_append, h, OpenGroup.contains_tags, List.any_cons, Bool.or_assoc]
  rfl

/-- A group that is over is closed before the next pair is read. -/
theorem run_over (h : m.opened = g :: outer) (ha : m.Surrounded around outer)
    (hover : g.Over (.skip legal) around bytes) :
    m.closeInner.run legal (Pair.all bytes) = m.run legal (Pair.all bytes) := by
  refine run_closeInner h fun p rest hread => ?_
  obtain ⟨hnot, haround⟩ := hover p rest hread
  exact ⟨hnot, ha p.tag ▸ haround.resolve_right (by simp)⟩

/-- Reading on from an open group leads where the group that the reading comes to leads once it is closed. -/
theorem run_group (hreads : GroupReads (.skip legal) around g log bytes g' log' left) (h : m.opened = g :: outer)
    (hlog : m.log = log) (ha : m.Surrounded around outer) :
    m.run legal (Pair.all bytes) =
      (m.goOn (g' :: outer) log' (bytes.length - left.length)).closeInner.run legal (Pair.all left) := by
  induction hreads generalizing m outer with
  | ended hover =>
    rw [Nat.sub_self, ← h, ← hlog, goOn_self, run_over h ha hover]
  | field hread ho hstore after ih =>
    have hlen := Pair.length_read? hread
    have hle := after.length_le
    rw [Pair.all_of_read?_eq_some hread, run, step_inGroup h ho hstore, hlog]
    refine (ih (m := m.goOn _ _ _) rfl rfl ha).trans ?_
    rw [goOn_goOn]
    congr 3
    omega
  | @group around g g' opened closed log inner log' bytes rest rest' left p cells faults hread ho hstore inside after
      ihinside ihafter =>
    have hlen := Pair.length_read? hread
    have hle := inside.length_le
    have hle' := after.length_le
    rw [Pair.all_of_read?_eq_some hread, run, step_inGroup h ho hstore, hlog]
    refine (ihinside (m := m.goOn _ _ _) rfl rfl (ha.inside (g.advance p.tag) cells)).trans ?_
    rw [goOn_goOn, closeInner_goOn]
    refine (ihafter (m := m.goOn _ _ _) rfl rfl ha).trans ?_
    rw [goOn_goOn]
    congr 3
    omega
  | leftOut hread ho hnot hunclaimed after ih =>
    cases hunclaimed
    have hlen := Pair.length_read? hread
    have hle := after.length_le
    rw [Pair.all_of_read?_eq_some hread, run, step_leaveOut h ho (ha _ ▸ hnot), hlog]
    refine (ih (m := m.goOn _ _ _) rfl rfl ha).trans ?_
    rw [goOn_goOn]
    congr 3
    omega

end Group

/-! ## Reading a message -/

section Message

variable {part : Part} {cells : List Cell} {summed : Bool} {ps ps' : Parts} {log log' : Log} {left : Bytes}

/-- Reading on after a pair of a part leads where the cells lead that the pair and the group that it opens come to. -/
theorem run_pair (h : m.opened = []) (hs : ¬(m.summed && !m.parts.trailer.owns p.tag))
    (ho : m.parts.owner? p.tag = some part)
    (pair : PairReads (.skip legal) m.parts.tags (m.parts.get part).stamp p (m.parts.get part).cells (m.log.see p.tag)
      rest cells log' left) :
    m.run legal (p :: Pair.all rest) =
      (m.goOnIn part p.tag cells [] log' (p.width + (rest.length - left.length))).run legal (Pair.all left) := by
  cases pair with
  | field hstore =>
    rw [run, step_inPart h hs ho hstore, Nat.sub_self]
    rfl
  | @group stored opened closed faults inner left hstore inside =>
    have htags : (m.parts.setCells part stored).SameTags m.parts := by
      have hmap := map_tag_store (m.parts.get part).stamp p (m.parts.get part).cells
      rw [hstore] at hmap
      exact Parts.sameTags_setCells hmap
    rw [run, step_inPart h hs ho hstore]
    refine (run_group inside rfl rfl fun tag => ?_).trans ?_
    · rw [List.any_nil, Bool.false_or, ← Parts.isSome_owner?]
      exact congrArg Option.isSome (htags.owner? tag).symm
    · rw [closeInner_goOnIn]

/-- A message that is over is read no further. -/
theorem run_done (h : m.opened = []) (hover : m.parts.Over m.summed bytes) : m.run legal (Pair.all bytes) = m := by
  cases hread : Pair.read? bytes with
  | none => rw [Pair.all_of_read?_eq_none hread, run, closeAll_of_nil h]
  | some next =>
    rw [Pair.all_of_read?_eq_some hread, run, step_stop h (hover next.1 next.2 hread), closeAll_of_nil h]

/-- Reading a message with a stack leads to the parts and the log that a reading comes to, and takes as many bytes. -/
theorem run_parts (hreads : PartsReads legal summed ps log bytes ps' log' left) (h : m.opened = [])
    (hsummed : m.summed = summed) (hparts : m.parts = ps) (hlog : m.log = log) :
    (m.run legal (Pair.all bytes)).parts = ps' ∧
      (m.run legal (Pair.all bytes)).log = log' ∧
      (m.run legal (Pair.all bytes)).consumed = m.consumed + (bytes.length - left.length) := by
  induction hreads generalizing m with
  | ended hover =>
    subst hsummed hparts hlog
    rw [run_done h hover, Nat.sub_self]
    exact ⟨rfl, rfl, rfl⟩
  | owned hread hsum ho pair after ih =>
    subst hsummed hparts hlog
    have hlen := Pair.length_read? hread
    have hle := pair.length_le
    have hle' := after.length_le
    rw [Pair.all_of_read?_eq_some hread, run_pair h hsum ho pair]
    obtain ⟨hp, hl, hc⟩ := ih (m := m.goOnIn _ _ _ _ _ _) rfl rfl rfl rfl
    refine ⟨hp, hl, hc.trans ?_⟩
    dsimp only [goOnIn]
    omega
  | leftOut hread hsum ho after ih =>
    subst hsummed hparts hlog
    have hlen := Pair.length_read? hread
    have hle := after.length_le
    rw [Pair.all_of_read?_eq_some hread, run, step_unclaimed h hsum ho]
    obtain ⟨hp, hl, hc⟩ := ih (m := m.goOn _ _ _) rfl rfl rfl rfl
    refine ⟨hp, hl, hc.trans ?_⟩
    dsimp only [goOn]
    omega

end Message

/-- Reading a message with a stack gives the same parts, the same log and the same number of bytes as reading
it with calls inside calls. -/
theorem run_readParts (legal : List Tag) (m : Progress) (bytes : Bytes) (h : m.opened = []) :
    let r := readParts legal m.summed m.parts m.log bytes
    (m.run legal (Pair.all bytes)).parts = r.value ∧
      (m.run legal (Pair.all bytes)).log = r.log ∧
      (m.run legal (Pair.all bytes)).consumed = m.consumed + (bytes.length - r.rest.length) :=
  run_parts (reads_readParts legal m.summed m.parts m.log bytes) h rfl rfl rfl

end Progress

end FixWire.Decoder
