import FixWire.Proofs.Decoder.Fresh
import FixWire.Proofs.Decoder.Validation

/-!
# Spare repetitions

A group keeps the repetitions of earlier messages to use them again, with whatever is in them, groups inside them
included. A cell is `bare` without them, at every depth. What a decoder shows is what its bare cells show, and reading
into cells that differ at most in spare repetitions leaves such cells again, with the same faults and the same bytes
left (`GroupReads.alike`, `AggregateReads.alike`, `PartsReads.alike`) : a spare repetition is cleared before it is used,
and then it is as good as a new one because it has the cells of the members of its group.
-/

namespace FixWire.Decoder

/-! ## Bare cells -/

mutual

/-- The cell without spare repetitions, inside it as well. -/
def Cell.bare : Cell → Cell
  | .field slot value stamp => .field slot value stamp
  | .group slot body counter live _ => .group slot body counter (bareLists live) []

/-- The cells without spare repetitions. -/
def bares : List Cell → List Cell
  | [] => []
  | c :: rest => c.bare :: bares rest

/-- The repetitions without spare ones inside them. -/
def bareLists : List (List Cell) → List (List Cell)
  | [] => []
  | cells :: rest => bares cells :: bareLists rest

end

theorem bares_eq_map (cells : List Cell) : bares cells = cells.map Cell.bare := by
  induction cells with
  | nil => rfl
  | cons c rest ih => exact congrArg _ ih

theorem bareLists_eq_map (repetitions : List (List Cell)) : bareLists repetitions = repetitions.map bares := by
  induction repetitions with
  | nil => rfl
  | cons cells rest ih => exact congrArg _ ih

namespace Cell

@[simp] theorem tag_bare (c : Cell) : c.bare.tag = c.tag := by
  cases c <;> rfl

@[simp] theorem isDerived_bare (d : Derived) (c : Cell) : c.bare.isDerived d = c.isDerived d := by
  cases c <;> rfl

theorem bare_blank (m : Member) : (blank m).bare = blank m := by
  cases m <;> rfl

/-- A cell that is cleared is as good as a new one. -/
theorem Fits.bare_clear {m : Member} {c : Cell} (h : c.Fits m) : c.clear.bare = blank m := by
  cases h <;> rfl

end Cell

theorem bares_blank (members : List Member) : bares (members.map Cell.blank) = members.map Cell.blank := by
  rw [bares_eq_map, List.map_map]
  exact List.map_congr_left fun m _ => Cell.bare_blank m

/-- Cells that are cleared are as good as new ones. -/
theorem Fit.bares_clear {members : List Member} {cells : List Cell} (h : Fit members cells) :
    bares (cells.map Cell.clear) = members.map Cell.blank := by
  induction h with
  | nil => rfl
  | cons hc _ ih => exact congrArg₂ _ hc.bare_clear ih

/-- Spare repetitions do not change which tags there are. -/
theorem map_tag_bares (cells : List Cell) : (bares cells).map Cell.tag = cells.map Cell.tag := by
  rw [bares_eq_map, List.map_map]
  exact List.map_congr_left fun c _ => c.tag_bare

/-- The cell with a tag is found without spare repetitions as well. -/
theorem find?_bares (cells : List Cell) (tag : Tag) : find? (bares cells) tag = (find? cells tag).map Cell.bare := by
  rw [bares_eq_map, find?, List.find?_map]
  simp only [Function.comp_def, Cell.tag_bare]
  rfl

/-- A cell is put in its place whether there are spare repetitions or not. -/
theorem bares_put (c : Cell) (cells : List Cell) : bares (put c cells) = put c.bare (bares cells) := by
  induction cells with
  | nil => rfl
  | cons d rest ih =>
    rw [put, bares, put, Cell.tag_bare, Cell.tag_bare]
    split_ifs
    · rfl
    · rw [bares, ih]

mutual

/-- Spare repetitions are not part of what a cell holds. -/
theorem Cell.node_bare : ∀ c : Cell, c.bare.node = c.node
  | .field _ _ _ => rfl
  | .group slot body counter live spare => by
    rw [Cell.bare, Cell.node, Cell.node, nodeLists_bareLists live]

/-- Bare cells hold the same. -/
theorem nodes_bares : ∀ cells : List Cell, nodes (bares cells) = nodes cells
  | [] => rfl
  | c :: rest => by rw [bares, nodes, nodes, Cell.node_bare c, nodes_bares rest]

theorem nodeLists_bareLists : ∀ live : List (List Cell), nodeLists (bareLists live) = nodeLists live
  | [] => rfl
  | cells :: rest => by rw [bareLists, nodeLists, nodeLists, nodes_bares cells, nodeLists_bareLists rest]

end

mutual

/-- Spare repetitions do not show in the text of a cell. -/
theorem Cell.outline?_bare : ∀ c : Cell, c.bare.outline? = c.outline?
  | .field _ _ _ => rfl
  | .group slot body counter live spare => by
    rw [Cell.bare, Cell.outline?, Cell.outline?, outlines_bareLists live]

/-- Bare cells are shown in the same way. -/
theorem outline_bares : ∀ cells : List Cell, outline (bares cells) = outline cells
  | [] => rfl
  | c :: rest => by rw [bares, outline, outline, Cell.outline?_bare c, outline_bares rest]

theorem outlines_bareLists : ∀ live : List (List Cell), outlines (bareLists live) = outlines live
  | [] => rfl
  | cells :: rest => by rw [bareLists, outlines, outlines, outline_bares cells, outlines_bareLists rest]

end

/-! ## Cells that differ in spare repetitions -/

/-- Cells of the member that differ at most in their spare repetitions. -/
structure Cell.Alike (m : Member) (c c' : Cell) : Prop where
  left : c.Fits m
  right : c'.Fits m
  bare : c.bare = c'.bare

/-- Cells of the members that differ at most in their spare repetitions. -/
structure Alike (members : List Member) (cells cells' : List Cell) : Prop where
  left : Fit members cells
  right : Fit members cells'
  bare : bares cells = bares cells'

namespace Alike

variable {members : List Member} {cells cells' : List Cell}

/-- Cells that differ in spare repetitions have the same tags. -/
theorem map_tag (h : Alike members cells cells') : cells.map Cell.tag = cells'.map Cell.tag := by
  rw [← map_tag_bares, h.bare, map_tag_bares]

/-- The cells with the tag of a member differ at most in their spare repetitions. -/
theorem find? {m : Member} {tag : Tag} (h : Alike members cells cells') (hm : memberOf? members tag = some m) :
    ∃ c c', Decoder.find? cells tag = some c ∧ Decoder.find? cells' tag = some c' ∧ c.Alike m c' := by
  obtain ⟨c, hc, hfits⟩ := h.left.find?_some hm
  obtain ⟨c', hc', hfits'⟩ := h.right.find?_some hm
  have hbare := congrArg (Decoder.find? · tag) h.bare
  simp only [find?_bares, hc, hc', Option.map_some, Option.some.injEq] at hbare
  exact ⟨c, c', hc, hc', hfits, hfits', hbare⟩

/-- Cells may be put in their places in both. -/
theorem put {m : Member} {c c' : Cell} (h : Alike members cells cells') (hc : c.Alike m c')
    (hm : memberOf? members m.tag = some m) : Alike members (put c cells) (put c' cells') := by
  refine ⟨h.left.put (hc.left.tag_eq ▸ hm) hc.left, h.right.put (hc.right.tag_eq ▸ hm) hc.right, ?_⟩
  rw [bares_put, bares_put, hc.bare, h.bare]

/-- Cleared cells differ at most in their spare repetitions too. -/
theorem clear (h : Alike members cells cells') : Alike members (cells.map Cell.clear) (cells'.map Cell.clear) :=
  ⟨h.left.clear, h.right.clear, h.left.bares_clear.trans h.right.bares_clear.symm⟩

/-- The same required member is missing from both. -/
theorem missing? (h : Alike members cells cells') : Decoder.missing? cells = Decoder.missing? cells' := by
  rw [missing?_eq, missing?_eq, ← nodes_bares cells, ← nodes_bares cells', h.bare]

end Alike

/-! ## Open groups -/

namespace OpenGroup

/-- The cells of every repetition, spare ones included, are those of the members of the group. -/
def Fit (g : OpenGroup) : Prop :=
  ∀ cells ∈ (g.current.toList ++ g.finished) ++ g.spare, Decoder.Fit g.body cells

/-- The group without spare repetitions. -/
def bare (g : OpenGroup) : OpenGroup :=
  { g with finished := g.finished.map bares, current := g.current.map bares, spare := [] }

/-- Open groups that are those of the member and differ at most in their spare repetitions. -/
structure Alike (m : Member) (g g' : OpenGroup) : Prop where
  member : .group g.slot g.body = m
  left : g.Fit
  right : g'.Fit
  bare : g.bare = g'.bare

variable {m : Member} {g g' : OpenGroup}

theorem slot_advance (g : OpenGroup) (tag : Tag) : (g.advance tag).slot = g.slot := by
  unfold advance next
  dsimp only
  split_ifs
  · cases g.spare <;> rfl
  · rfl

/-- What is in the group that is not spare. -/
theorem bare_eq_iff : g.bare = g'.bare ↔
    g.slot = g'.slot ∧ g.body = g'.body ∧ g.counter = g'.counter ∧ g.finished.map bares = g'.finished.map bares ∧
      g.current.map bares = g'.current.map bares ∧ g.delimited = g'.delimited := by
  simp [bare]

/-- A new repetition has the cells of the members. -/
theorem Fit.next (h : g.Fit) : g.next.Fit := by
  have hkept : ∀ cells ∈ g.current.toList ++ g.finished, Decoder.Fit g.body cells :=
    fun cells hc => h cells (List.mem_append_left _ hc)
  unfold OpenGroup.next
  cases hs : g.spare with
  | nil =>
    intro cells hc
    simp only [Option.toList_some, List.cons_append, List.nil_append, List.append_nil, List.mem_cons] at hc
    rcases hc with rfl | hc
    · exact fit_blank _
    · exact hkept cells hc
  | cons used spare =>
    have hspare : ∀ cells ∈ used :: spare, Decoder.Fit g.body cells :=
      fun cells hc => h cells (List.mem_append_right _ (hs ▸ hc))
    intro cells hc
    simp only [Option.toList_some, List.cons_append, List.nil_append, List.mem_cons, List.mem_append] at hc
    rcases hc with rfl | hc | hc
    · exact (hspare used List.mem_cons_self).clear
    · exact hkept cells (List.mem_append.2 hc)
    · exact hspare cells (List.mem_cons_of_mem _ hc)

/-- A new repetition is the same whether it has been used before or not. -/
theorem Fit.bare_next (h : g.Fit) : g.next.bare = g.bare.next := by
  have hblank : bares (g.body.map Cell.blank) = g.body.map Cell.blank := bares_blank g.body
  unfold OpenGroup.next
  cases hs : g.spare with
  | nil => cases hc : g.current <;> simp [bare, hc, hblank]
  | cons used spare =>
    have hused : bares (used.map Cell.clear) = g.body.map Cell.blank :=
      (h used (List.mem_append_right _ (hs ▸ List.mem_cons_self))).bares_clear
    cases hc : g.current <;> simp [bare, hc, hused]

/-- A group has the cells of its members when a pair is about to be stored in it. -/
theorem Fit.advance (h : g.Fit) (tag : Tag) : (g.advance tag).Fit := by
  unfold OpenGroup.advance
  dsimp only
  split_ifs
  · exact h.next
  · exact h

/-- A group goes on in the same way whether it has spare repetitions or not. -/
theorem Fit.bare_advance (h : g.Fit) (tag : Tag) : (g.advance tag).bare = g.bare.advance tag := by
  have hmark (g : OpenGroup) (b : Bool) :
      OpenGroup.bare { g with delimited := g.delimited || b } = { g.bare with delimited := g.bare.delimited || b } :=
    rfl
  have hnone : g.bare.current.isNone = g.current.isNone := by
    cases hc : g.current <;> simp [bare, hc]
  unfold OpenGroup.advance
  dsimp only
  rw [hmark, hnone]
  change OpenGroup.mk _ _ _ _ _ _ _ = OpenGroup.mk _ _ _ _ _ _ _
  split_ifs with hnew hnew' hnew'
  · rw [h.bare_next]
    rfl
  · exact absurd hnew hnew'
  · exact absurd hnew' hnew
  · rfl

/-- The latest repetition may get other cells of the members. -/
theorem Fit.setCurrent (h : g.Fit) {cells : List Cell} (hc : Decoder.Fit g.body cells) :
    OpenGroup.Fit { g with current := some cells } := by
  intro cells' hin
  simp only [Option.toList_some, List.cons_append, List.nil_append, List.mem_cons, List.mem_append] at hin
  rcases hin with rfl | hin | hin
  · exact hc
  · exact h cells' (List.mem_append_left _ (List.mem_append_right _ hin))
  · exact h cells' (List.mem_append_right _ hin)

/-- The latest repetition has the cells of the members. -/
theorem Fit.current (h : g.Fit) {cells : List Cell} (hc : g.current = some cells) : Decoder.Fit g.body cells :=
  h cells (by simp [hc])

/-- The cell of a group that is over. -/
theorem Fit.toCell (h : g.Fit) : g.toCell.Fits (.group g.slot g.body) := by
  refine .group fun cells hc => h cells ?_
  simpa [repetitions, or_assoc, or_comm, or_left_comm] using hc

namespace Alike

theorem slot (h : g.Alike m g') : g.slot = g'.slot :=
  (bare_eq_iff.1 h.bare).1

theorem body (h : g.Alike m g') : g.body = g'.body :=
  (bare_eq_iff.1 h.bare).2.1

theorem counter (h : g.Alike m g') : g.counter = g'.counter :=
  (bare_eq_iff.1 h.bare).2.2.1

/-- Both groups have the same tags. -/
theorem owns (h : g.Alike m g') (tag : Tag) : g.owns tag = g'.owns tag := by
  rw [OpenGroup.owns, OpenGroup.owns, h.body]

theorem tags (h : g.Alike m g') : g.tags = g'.tags := by
  rw [OpenGroup.tags, OpenGroup.tags, h.body]

/-- Both groups go on in the same way. -/
theorem advance (h : g.Alike m g') (tag : Tag) : (g.advance tag).Alike m (g'.advance tag) :=
  ⟨by rw [slot_advance, body_advance, h.member], h.left.advance tag, h.right.advance tag, by
    rw [h.left.bare_advance, h.right.bare_advance, h.bare]⟩

/-- The cells of the latest repetition. -/
theorem current (h : g.Alike m g') {cells : List Cell} (hc : g.current = some cells) :
    ∃ cells', g'.current = some cells' ∧ Decoder.Alike g.body cells cells' := by
  have hbare : g.current.map bares = g'.current.map bares := (bare_eq_iff.1 h.bare).2.2.2.2.1
  rw [hc] at hbare
  obtain ⟨cells', hc', hcells⟩ := Option.map_eq_some_iff.1 hbare.symm
  refine ⟨cells', hc', h.left.current hc, ?_, hcells.symm⟩
  rw [h.body]
  exact h.right.current hc'

/-- The latest repetition gets other cells. -/
theorem setCurrent (h : g.Alike m g') {cells cells' : List Cell} (hc : Decoder.Alike g.body cells cells') :
    OpenGroup.Alike m { g with current := some cells } { g' with current := some cells' } := by
  obtain ⟨hslot, hbody, hcounter, hfinished, -, hdelimited⟩ := bare_eq_iff.1 h.bare
  refine ⟨h.member, h.left.setCurrent hc.left, h.right.setCurrent (hbody ▸ hc.right), bare_eq_iff.2 ?_⟩
  exact ⟨hslot, hbody, hcounter, hfinished, congrArg some hc.bare, hdelimited⟩

/-- Both groups have the same repetitions, but for spare ones inside them. -/
theorem map_repetitions (h : g.Alike m g') : g.repetitions.map bares = g'.repetitions.map bares := by
  obtain ⟨-, -, -, hfinished, hcurrent, -⟩ := bare_eq_iff.1 h.bare
  have hlists (g : OpenGroup) : g.repetitions.map bares =
      ((g.current.map bares).toList ++ g.finished.map bares).reverse := by
    cases hc : g.current <;> simp [repetitions, hc]
  rw [hlists, hlists, hfinished, hcurrent]

/-- The same is wrong with the numbers of repetitions of both groups. -/
theorem countFaults (h : g.Alike m g') : g.countFaults = g'.countFaults := by
  have hlength : g.repetitions.length = g'.repetitions.length := by
    simpa using congrArg List.length h.map_repetitions
  rw [OpenGroup.countFaults, OpenGroup.countFaults, h.counter, h.slot, hlength]

/-- The cells of both groups, once they are over. -/
theorem toCell (h : g.Alike m g') : g.toCell.Alike m g'.toCell := by
  rw [← h.member]
  refine ⟨h.left.toCell, ?_, ?_⟩
  · rw [h.slot, h.body]
    exact h.right.toCell
  · rw [OpenGroup.toCell, OpenGroup.toCell, Cell.bare, Cell.bare, bareLists_eq_map, bareLists_eq_map,
      h.map_repetitions, h.slot, h.body, h.counter]

end Alike

end OpenGroup

/-- Storing a value does the same to both cells. -/
theorem Cell.Alike.store {m : Member} {c c' : Cell} (h : c.Alike m c') (cycle : UInt32) (value : Bytes) :
    (c.store cycle value).1.Alike m (c'.store cycle value).1 ∧
      Option.Rel (OpenGroup.Alike m) (c.store cycle value).2.1 (c'.store cycle value).2.1 ∧
      (c.store cycle value).2.2 = (c'.store cycle value).2.2 := by
  obtain ⟨hc, hc', hbare⟩ := h
  have hstored := hc.store cycle value
  have hstored' := hc'.store cycle value
  cases hc with
  | field =>
    cases hc' with
    | field =>
      simp only [Cell.bare, Cell.field.injEq] at hbare
      obtain ⟨-, rfl, rfl⟩ := hbare
      exact ⟨⟨hstored, hstored', rfl⟩, .none, rfl⟩
  | @group slot body counter live spare hfit =>
    cases hc' with
    | @group _ _ counter' live' spare' hfit' =>
      simp only [Cell.bare, Cell.group.injEq, true_and] at hbare
      obtain ⟨rfl, -⟩ := hbare
      refine ⟨⟨hstored, hstored', rfl⟩, .some ⟨rfl, ?_, ?_, rfl⟩, rfl⟩
      · simpa [OpenGroup.Fit] using hfit
      · simpa [OpenGroup.Fit] using hfit'

/-! ## Reading -/

/-- Storing a pair does the same to both lists of cells. -/
theorem Alike.store {members : List Member} {cells cells' : List Cell} {p : Pair} {m : Member}
    (h : Alike members cells cells') (hm : memberOf? members p.tag = some m) (cycle : UInt32) :
    Alike members (store cycle p cells).1 (store cycle p cells').1 ∧
      Option.Rel (OpenGroup.Alike m) (store cycle p cells).2.1 (store cycle p cells').2.1 ∧
      (store cycle p cells).2.2 = (store cycle p cells').2.2 := by
  obtain ⟨c, c', hc, hc', hcell⟩ := h.find? hm
  obtain ⟨hput, hopened, hfaults⟩ := hcell.store cycle p.value
  rw [store_of_find? hc, store_of_find? hc']
  exact ⟨h.put hput (memberOf?_tag hm), hopened, hfaults⟩

/-- Where storing a pair opens no group, it opens none in the other cells. -/
theorem Alike.store_field {members : List Member} {cells cells' stored : List Cell} {p : Pair} {m : Member}
    {cycle : UInt32} {faults : List Fault} (h : Alike members cells cells') (hm : memberOf? members p.tag = some m)
    (hstore : Decoder.store cycle p cells = (stored, none, faults)) :
    ∃ stored', Decoder.store cycle p cells' = (stored', none, faults) ∧ Alike members stored stored' := by
  have hboth := h.store hm cycle
  rw [hstore] at hboth
  rcases hstore' : Decoder.store cycle p cells' with ⟨stored', opened', faults'⟩
  rw [hstore'] at hboth
  obtain ⟨hcells, hopened, rfl⟩ := hboth
  cases hopened
  exact ⟨stored', rfl, hcells⟩

/-- Where storing a pair opens a group, it opens one in the other cells that differs at most in its spare
repetitions. -/
theorem Alike.store_group {members : List Member} {cells cells' stored : List Cell} {p : Pair} {m : Member}
    {cycle : UInt32} {faults : List Fault} {g : OpenGroup} (h : Alike members cells cells')
    (hm : memberOf? members p.tag = some m) (hstore : Decoder.store cycle p cells = (stored, some g, faults)) :
    ∃ stored' g', Decoder.store cycle p cells' = (stored', some g', faults) ∧ Alike members stored stored' ∧
      g.Alike m g' := by
  have hboth := h.store hm cycle
  rw [hstore] at hboth
  rcases hstore' : Decoder.store cycle p cells' with ⟨stored', opened', faults'⟩
  rw [hstore'] at hboth
  obtain ⟨hcells, hopened, rfl⟩ := hboth
  cases hopened with
  | some hg => exact ⟨stored', _, rfl, hcells, hg⟩

/-- A tag that some members have is that of one of them. -/
theorem exists_memberOf? {members : List Member} {tag : Tag} (h : owns members tag) :
    ∃ m, memberOf? members tag = some m :=
  Option.isSome_iff_exists.1 ((isSome_memberOf? members tag).trans h)

/-- The cells in which the next pair of a group is stored. -/
theorem OpenGroup.Alike.getD_current {m : Member} {g g' : OpenGroup} (h : g.Alike m g') (tag : Tag) :
    Decoder.Alike g.body ((g.advance tag).current.getD []) ((g'.advance tag).current.getD []) := by
  obtain ⟨cells, hcells⟩ := Option.isSome_iff_exists.1 (g.isSome_current_advance tag)
  obtain ⟨cells', hcells', hcurrent⟩ := (h.advance tag).current hcells
  rw [hcells, hcells']
  rwa [OpenGroup.body_advance] at hcurrent

/-- Cells that are put into the latest repetition of a group that goes on. -/
theorem OpenGroup.Alike.setCurrent_advance {m : Member} {g g' : OpenGroup} (h : g.Alike m g') (tag : Tag)
    {cells cells' : List Cell} (hc : Decoder.Alike g.body cells cells') :
    OpenGroup.Alike m { g.advance tag with current := some cells } { g'.advance tag with current := some cells' } :=
  (h.advance tag).setCurrent (by rwa [OpenGroup.body_advance])

/-- Both groups are over before the same bytes. -/
theorem OpenGroup.Alike.over {m : Member} {g g' : OpenGroup} {unclaimed : Unclaimed} {around : List Tag} {bytes : Bytes}
    (h : g.Alike m g') (hover : g.Over unclaimed around bytes) : g'.Over unclaimed around bytes :=
  fun p rest hread => h.owns p.tag ▸ hover p rest hread

section Alike

variable {unclaimed : Unclaimed} {around legal : List Tag} {cycle : UInt32} {log log' : Log} {bytes left : Bytes}

/-- A group is read in the same way whatever its spare repetitions are. -/
theorem GroupReads.alike {g₁ g₂ g₁' : OpenGroup} {m : Member}
    (hreads : GroupReads unclaimed around g₁ log bytes g₁' log' left)
    (h : g₁.Alike m g₂) : ∃ g₂', GroupReads unclaimed around g₂ log bytes g₂' log' left ∧ g₁'.Alike m g₂' := by
  induction hreads generalizing g₂ m with
  | ended hover => exact ⟨g₂, .ended (h.over hover), h⟩
  | field hread ho hstore _ ih =>
    obtain ⟨mem, hmem⟩ := exists_memberOf? ho
    obtain ⟨stored', hstore', hstored⟩ := (h.getD_current _).store_field hmem hstore
    obtain ⟨g₂', hafter, halike⟩ := ih (h.setCurrent_advance _ hstored)
    exact ⟨g₂', .field hread (h.owns _ ▸ ho) hstore' hafter, halike⟩
  | group hread ho hstore _ _ ihinside ihafter =>
    obtain ⟨mem, hmem⟩ := exists_memberOf? ho
    obtain ⟨stored', opened', hstore', hstored, hopened⟩ := (h.getD_current _).store_group hmem hstore
    obtain ⟨closed', hinside, hclosed⟩ := ihinside hopened
    rw [(h.advance _).tags] at hinside
    obtain ⟨g₂', hafter, halike⟩ := ihafter (h.setCurrent_advance _ (hstored.put hclosed.toCell (memberOf?_tag hmem)))
    rw [hclosed.countFaults] at hafter
    exact ⟨g₂', .group hread (h.owns _ ▸ ho) hstore' hinside hafter, halike⟩
  | leftOut hread ho ha hunclaimed _ ih =>
    obtain ⟨g₂', hafter, halike⟩ := ih h
    exact ⟨g₂', .leftOut hread (h.owns _ ▸ ho) ha hunclaimed hafter, halike⟩

/-- A pair is stored in the same way whatever the spare repetitions are. -/
theorem PairReads.alike {members : List Member} {cells cells' stored : List Cell} {p : Pair}
    (hreads : PairReads unclaimed around cycle p cells log bytes stored log' left) (h : Alike members cells cells')
    (ho : owns members p.tag) :
    ∃ stored', PairReads unclaimed around cycle p cells' log bytes stored' log' left ∧ Alike members stored stored' := by
  obtain ⟨m, hm⟩ := exists_memberOf? ho
  cases hreads with
  | field hstore =>
    obtain ⟨stored', hstore', hstored⟩ := h.store_field hm hstore
    exact ⟨stored', .field hstore', hstored⟩
  | group hstore inside =>
    obtain ⟨stored', opened', hstore', hstored, hopened⟩ := h.store_group hm hstore
    obtain ⟨closed', hinside, hclosed⟩ := inside.alike hopened
    rw [hclosed.countFaults]
    exact ⟨_, .group hstore' hinside, hstored.put hclosed.toCell (memberOf?_tag hm)⟩

/-- An aggregate on its own is read in the same way whatever its spare repetitions are. -/
theorem AggregateReads.alike {members : List Member} {cells₁ cells₂ cells₁' : List Cell}
    (hreads : AggregateReads cycle cells₁ log bytes cells₁' log' left) (h : Alike members cells₁ cells₂) :
    ∃ cells₂', AggregateReads cycle cells₂ log bytes cells₂' log' left ∧ Alike members cells₁' cells₂' := by
  have howns (tag : Tag) {cells₁ cells₂ : List Cell} (h : Alike members cells₁ cells₂) :
      (Decoder.find? cells₁ tag).isSome = (Decoder.find? cells₂ tag).isSome :=
    (h.left.owns_eq tag).symm.trans (h.right.owns_eq tag)
  induction hreads generalizing cells₂ with
  | ended hover => exact ⟨cells₂, .ended fun p rest hread => howns p.tag h ▸ hover p rest hread, h⟩
  | owned hread ho pair _ ih =>
    obtain ⟨stored', hpair, hstored⟩ := pair.alike h ((h.left.owns_eq _).trans ho)
    obtain ⟨cells₂', hafter, halike⟩ := ih hstored
    rw [h.map_tag] at hpair
    exact ⟨cells₂', .owned hread (howns _ h ▸ ho) hpair hafter, halike⟩

end Alike

/-! ## Parts -/

/-- Aggregates of the layout that differ at most in their spare repetitions. -/
structure Aggregate.Alike (l : Layout) (a a' : Aggregate) : Prop where
  left : a.name = l.name
  right : a'.name = l.name
  stamp : a.stamp = a'.stamp
  cells : Decoder.Alike l.members a.cells a'.cells

/-- Parts of a message that differ at most in their spare repetitions. -/
def Parts.Alike (l : MessageLayout) (ps ps' : Parts) : Prop :=
  ∀ part, (ps.get part).Alike (l.part part) (ps'.get part)

namespace Parts.Alike

variable {l : MessageLayout} {ps ps' : Parts}

/-- Parts that differ in spare repetitions have the same tags. -/
theorem sameTags (h : ps.Alike l ps') : ps.SameTags ps' :=
  fun part => (h part).cells.map_tag

/-- The cells of a part may be replaced in both. -/
theorem setCells (h : ps.Alike l ps') (part : Part) {cells cells' : List Cell}
    (hc : Decoder.Alike (l.part part).members cells cells') :
    (ps.setCells part cells).Alike l (ps'.setCells part cells') := by
  intro part'
  by_cases hp : part' = part
  · subst hp
    rw [get_setCells, get_setCells]
    exact ⟨(h part').left, (h part').right, (h part').stamp, hc⟩
  · rw [get_setCells_of_ne _ _ hp, get_setCells_of_ne _ _ hp]
    exact h part'

/-- The checksum is at the same place in both. -/
theorem isSum (h : ps.Alike l ps') (part : Part) (tag : Tag) : ps.isSum part tag = ps'.isSum part tag := by
  have hany (cells : List Cell) : (Decoder.find? cells tag).any (Cell.isDerived .checkSum) =
      (Decoder.find? (bares cells) tag).any (Cell.isDerived .checkSum) := by
    rw [find?_bares]
    cases Decoder.find? cells tag <;> simp
  rw [Parts.isSum, Parts.isSum, hany ps.trailer.cells, hany ps'.trailer.cells]
  rw [show bares ps.trailer.cells = bares ps'.trailer.cells from (h .trailer).cells.bare]

/-- The same required member is missing from both messages. -/
theorem missing? (h : ps.Alike l ps') : ps.missing? = ps'.missing? := by
  rw [Parts.missing?, Parts.missing?]
  exact congrArg₂ _ (h .header).cells.missing? (congrArg₂ _ (h .body).cells.missing? (h .trailer).cells.missing?)

end Parts.Alike

/-- A message is read in the same way whatever the spare repetitions of its parts are. -/
theorem PartsReads.alike {legal : List Tag} {l : MessageLayout} {summed : Bool} {ps₁ ps₂ ps₁' : Parts} {log log' : Log}
    {bytes left : Bytes} (hreads : PartsReads legal summed ps₁ log bytes ps₁' log' left) (h : ps₁.Alike l ps₂) :
    ∃ ps₂', PartsReads legal summed ps₂ log bytes ps₂' log' left ∧ ps₁'.Alike l ps₂' := by
  have htrailer (tag : Tag) {ps₁ ps₂ : Parts} (h : ps₁.Alike l ps₂) : ps₁.trailer.owns tag = ps₂.trailer.owns tag :=
    h.sameTags.owns .trailer tag
  induction hreads generalizing ps₂ with
  | ended hover => exact ⟨ps₂, .ended fun p rest hread => htrailer p.tag h ▸ hover p rest hread, h⟩
  | @owned summed ps ps' part log inner log' bytes rest rest' left p cells hread hsum ho pair _ ih =>
    have howns : owns (l.part part).members p.tag :=
      ((h part).cells.left.owns_eq p.tag).trans (Parts.owns_of_owner? ho)
    obtain ⟨stored', hpair, hstored⟩ := pair.alike (h part).cells howns
    obtain ⟨ps₂', hafter, halike⟩ := ih (h.setCells part hstored)
    rw [h.sameTags.tags, (h part).stamp] at hpair
    rw [h.isSum] at hafter
    exact ⟨ps₂', .owned hread (htrailer p.tag h ▸ hsum) (h.sameTags.owner? p.tag ▸ ho) hpair hafter, halike⟩
  | leftOut hread hsum ho _ ih =>
    obtain ⟨ps₂', hafter, halike⟩ := ih h
    exact ⟨ps₂', .leftOut hread (htrailer _ h ▸ hsum) (h.sameTags.owner? _ ▸ ho) hafter, halike⟩

end FixWire.Decoder
