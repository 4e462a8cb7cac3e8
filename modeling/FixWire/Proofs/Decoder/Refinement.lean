import FixWire.Decoder.Message
import FixWire.Proofs.Decoder.Fit

/-!
# The decoder refines the flat machine

The stack of open groups and the flat machine do the same in each step. They differ in what they keep : the
cells of the decoder have stamps and repetitions to be used again, the nodes of the machine have neither.
`Progress.Shows` is what relates the two. `Simulation.run` takes it, and every relation that each part of a step
respects, through all pairs.
-/

namespace FixWire.Decoder

/-! ## What cells hold -/

mutual

/-- What a cell holds. -/
def Cell.node : Cell → Node
  | .field slot value _ => .field slot value
  | .group slot _ counter live _ => .group slot counter.present counter.declared (nodeLists live)

/-- What the cells hold. -/
def nodes : List Cell → List Node
  | [] => []
  | c :: rest => c.node :: nodes rest

/-- What each of the repetitions holds. -/
def nodeLists : List (List Cell) → List (List Node)
  | [] => []
  | cells :: rest => nodes cells :: nodeLists rest

end

theorem nodes_eq_map : ∀ cells : List Cell, nodes cells = cells.map Cell.node
  | [] => rfl
  | _ :: rest => congrArg _ (nodes_eq_map rest)

theorem nodeLists_eq_map : ∀ repetitions : List (List Cell), nodeLists repetitions = repetitions.map nodes
  | [] => rfl
  | _ :: rest => congrArg _ (nodeLists_eq_map rest)

theorem Cell.tag_node (c : Cell) : c.node.tag = c.tag := by
  cases c <;> rfl

theorem Cell.node_blank (m : Member) : (Cell.blank m).node = Node.blank m := by
  cases m <;> rfl

/-- A cleared cell holds nothing. -/
theorem Cell.Fits.node_clear {m : Member} {c : Cell} (h : c.Fits m) : c.clear.node = Node.blank m := by
  cases h <;> rfl

/-- A cell in which a value is stored holds what it was given. -/
theorem Cell.Fits.node_store {m : Member} {c : Cell} (h : c.Fits m) (cycle : UInt32) (value : Bytes) :
    (c.store cycle value).1.node = Node.given value m := by
  cases h <;> rfl

/-- New cells hold nothing. -/
theorem nodes_blank (members : List Member) : nodes (members.map Cell.blank) = members.map Node.blank := by
  rw [nodes_eq_map, List.map_map]
  exact List.map_congr_left fun m _ => Cell.node_blank m

/-- Cleared cells hold nothing. -/
theorem Fit.nodes_clear {members : List Member} {cells : List Cell} (h : Fit members cells) :
    nodes (cells.map Cell.clear) = members.map Node.blank := by
  induction h with
  | nil => rfl
  | cons hc _ ih => exact congrArg₂ _ hc.node_clear ih

/-- Putting a cell in its place puts what it holds there. -/
theorem nodes_put (c : Cell) : ∀ cells : List Cell, nodes (put c cells) = Node.place c.node (nodes cells)
  | [] => rfl
  | c' :: rest => by
    rw [put, nodes, Node.place, Cell.tag_node, Cell.tag_node]
    split_ifs
    · rfl
    · rw [nodes, nodes_put c rest]

/-! ## Open groups -/

/-- The member that the group is. -/
def Frame.member (f : Frame) : Member :=
  .group f.slot f.body

/-- The open group is the one of the flat machine, and its cells fit its body. -/
structure OpenGroup.Shows (g : OpenGroup) (f : Frame) : Prop where
  slot : g.slot = f.slot
  body : g.body = f.body
  present : g.counter.present = true
  declared : g.counter.declared = f.declared
  repetitions : (g.current.toList ++ g.finished).map nodes = f.repetitions
  current : g.current = none → g.finished = []
  delimited : g.delimited = f.delimited
  fit : ∀ cells ∈ (g.current.toList ++ g.finished) ++ g.spare, Fit g.body cells

/-- A group has a repetition when a pair is about to be stored in it. -/
theorem OpenGroup.isSome_current_advance (g : OpenGroup) (tag : Tag) : (g.advance tag).current.isSome := by
  unfold OpenGroup.advance OpenGroup.next
  dsimp only
  split_ifs with h
  · cases g.spare <;> rfl
  · cases hc : g.current with
    | none => simp [hc] at h
    | some cells => simp

namespace OpenGroup.Shows

variable {g : OpenGroup} {f : Frame}

/-- A group has the tags of its frame. -/
theorem owns (h : g.Shows f) (tag : Tag) : g.owns tag = f.owns tag := by
  rw [OpenGroup.owns, Frame.owns, h.body]

/-- The cell of a group holds what its frame has. -/
theorem node (h : g.Shows f) : g.toCell.node = f.node := by
  rw [OpenGroup.toCell, OpenGroup.repetitions, Cell.node, nodeLists_eq_map, List.map_reverse,
    h.repetitions, h.present, h.declared, h.slot]
  rfl

/-- The cell of a group is one of its member. -/
theorem fits (h : g.Shows f) : g.toCell.Fits f.member := by
  rw [Frame.member, ← h.slot, ← h.body]
  refine .group fun cells hc => h.fit cells ?_
  simpa [OpenGroup.repetitions, or_assoc, or_comm, or_left_comm] using hc

/-- There is a repetition if there is one in the machine. -/
theorem isEmpty_repetitions (h : g.Shows f) : f.repetitions.isEmpty = g.current.isNone := by
  rw [← h.repetitions]
  cases hc : g.current with
  | none => rw [h.current hc]; rfl
  | some cells => rfl

/-- A new repetition is begun in both. -/
theorem next (h : g.Shows f) (start : Nat) : g.next.Shows (f.startRepetition start) := by
  have hfit : ∀ cells ∈ g.current.toList ++ g.finished, Fit g.body cells :=
    fun cells hc => h.fit cells (List.mem_append_left _ hc)
  have hreps := h.repetitions
  rw [OpenGroup.next]
  cases hs : g.spare with
  | nil =>
    refine ⟨h.slot, h.body, h.present, h.declared, ?_, nofun, rfl, ?_⟩
    · simp [Frame.startRepetition, nodes_blank, h.body, ← hreps]
    · intro cells' hc
      simp only [Option.toList_some, List.cons_append, List.nil_append, List.append_nil, List.mem_cons] at hc
      rcases hc with rfl | hc
      · exact fit_blank _
      · exact hfit cells' hc
  | cons cells spare =>
    have hspare : ∀ cells' ∈ cells :: spare, Fit g.body cells' :=
      fun cells' hc => h.fit cells' (List.mem_append_right _ (hs ▸ hc))
    refine ⟨h.slot, h.body, h.present, h.declared, ?_, nofun, rfl, ?_⟩
    · simp [Frame.startRepetition, (hspare cells (by simp)).nodes_clear, h.body, ← hreps]
    · intro cells' hc
      simp only [Option.toList_some, List.cons_append, List.nil_append, List.mem_cons,
        List.mem_append] at hc
      rcases hc with rfl | hc | hc
      · exact (hspare cells (by simp)).clear
      · exact hfit cells' (by simpa using hc)
      · exact hspare cells' (by simp [hc])

/-- A group goes on as its frame does. -/
theorem advance (h : g.Shows f) (tag : Tag) (event : Nat) : (g.advance tag).Shows (f.advance tag event) := by
  have hdel {g : OpenGroup} {f : Frame} (h : g.Shows f) (b : Bool) :
      OpenGroup.Shows { g with delimited := g.delimited || b } { f with delimited := f.delimited || b } :=
    ⟨h.slot, h.body, h.present, h.declared, h.repetitions, h.current, by rw [h.delimited], h.fit⟩
  unfold OpenGroup.advance Frame.advance
  dsimp only
  rw [h.isEmpty_repetitions, h.delimited, h.slot]
  split_ifs
  · exact hdel (h.next event) _
  · exact hdel h _

/-- A cell is put in the current repetition where the machine fills its latest one. -/
theorem fill {cells cells' : List Cell} {n : Node} (h : g.Shows f) (hg : g.current = some cells)
    (hfit : Fit g.body cells') (hn : nodes cells' = Node.place n (nodes cells)) :
    OpenGroup.Shows { g with current := some cells' } (f.fill n) := by
  have hreps := h.repetitions
  simp only [hg, Option.toList_some, List.cons_append, List.nil_append, List.map_cons] at hreps
  rw [Frame.fill, ← hreps]
  refine ⟨h.slot, h.body, h.present, h.declared, ?_, nofun, h.delimited, ?_⟩
  · simp [hn]
  · intro cells'' hc
    simp only [Option.toList_some, List.cons_append, List.nil_append, List.mem_cons] at hc
    rcases hc with rfl | hc
    · exact hfit
    · exact h.fit cells'' (by simp [hg, List.mem_append.1 hc])

end OpenGroup.Shows

/-- A group that is opened when a pair is stored is the one that the machine opens. -/
theorem Cell.Fits.opened {m : Member} {c : Cell} (h : c.Fits m) (cycle : UInt32) (value : Bytes) :
    List.Forall₂ OpenGroup.Shows (c.store cycle value).2.1.toList (Frame.opened? value m).toList := by
  cases h with
  | field => exact .nil
  | group h => exact .cons ⟨rfl, rfl, rfl, rfl, rfl, fun _ => rfl, rfl, by simpa using h⟩ .nil

/-! ## The stack -/

/-- The member with a tag is also the one with its own tag. -/
theorem memberOf?_tag {members : List Member} {tag : Tag} {m : Member} (h : memberOf? members tag = some m) :
    memberOf? members m.tag = some m := by
  have : m.tag = tag := by simpa using List.find?_some h
  rwa [this]

/-- Every open group is the member with its tag of the latest repetition of the group around it, or of
`members` if it is the outermost. -/
inductive Nested (members : List Member) : List Frame → Prop
  | nil : Nested members []
  | outermost {f : Frame} (h : memberOf? members f.slot.tag = some f.member) : Nested members [f]
  | inside {f g : Frame} {rest : List Frame} (h : memberOf? g.body f.slot.tag = some f.member)
    (hg : g.repetitions ≠ []) (hrest : Nested members (g :: rest)) : Nested members (f :: g :: rest)

namespace Nested

variable {members : List Member} {f g : Frame} {rest : List Frame}

/-- What the innermost group has in its repetitions does not matter. -/
theorem congr (h : Nested members (f :: rest)) (hs : g.slot = f.slot) (hb : g.body = f.body) :
    Nested members (g :: rest) := by
  have hm : g.member = f.member := by
    rw [Frame.member, Frame.member, hs, hb]
  cases h with
  | outermost h => exact .outermost (by rw [hm, hs, h])
  | inside h hg hrest => exact .inside (by rw [hm, hs, h]) hg hrest

/-- A group is opened in the latest repetition of the innermost one. -/
theorem opened {value : Bytes} {tag : Tag} {m : Member} (h : Nested members (f :: rest))
    (hf : f.repetitions ≠ []) (hm : memberOf? f.body tag = some m) :
    Nested members ((Frame.opened? value m).toList ++ f :: rest) := by
  cases m with
  | field slot => exact h
  | group slot body => exact .inside (memberOf?_tag hm) hf h

/-- A group is opened in a part. -/
theorem opened_outermost {value : Bytes} {tag : Tag} {m : Member} (hm : memberOf? members tag = some m) :
    Nested members (Frame.opened? value m).toList := by
  cases m with
  | field slot => exact .nil
  | group slot body => exact .outermost (memberOf?_tag hm)

end Nested

namespace Frame

@[simp] theorem slot_fill (f : Frame) (n : Node) : (f.fill n).slot = f.slot := by
  unfold fill
  split <;> rfl

@[simp] theorem body_fill (f : Frame) (n : Node) : (f.fill n).body = f.body := by
  unfold fill
  split <;> rfl

@[simp] theorem start_fill (f : Frame) (n : Node) : (f.fill n).start = f.start := by
  unfold fill
  split <;> rfl

@[simp] theorem slot_advance (f : Frame) (tag : Tag) (event : Nat) :
    (f.advance tag event).slot = f.slot := by
  unfold advance startRepetition
  dsimp only
  split_ifs <;> rfl

@[simp] theorem body_advance (f : Frame) (tag : Tag) (event : Nat) :
    (f.advance tag event).body = f.body := by
  unfold advance startRepetition
  dsimp only
  split_ifs <;> rfl

end Frame

/-! ## The simulation -/

/-- The progress of the decoder is that of the flat machine. -/
structure Progress.Shows (l : MessageLayout) (m : Progress) (s : Machine) : Prop where
  fit : ∀ part, Fit (l.part part).members (m.parts.get part).cells
  parts : ∀ part, nodes (m.parts.get part).cells = s.parts part
  opened : List.Forall₂ OpenGroup.Shows m.opened s.frames
  nested : Nested (l.part s.base).members s.frames
  base : m.base = s.base
  summed : m.summed = s.summed
  consumed : m.consumed = s.consumed

namespace Progress.Shows

variable {l : MessageLayout} {m : Progress} {s : Machine}

/-- The innermost group with a tag is as deep on both stacks. -/
theorem ownerDepth? (h : m.Shows l s) (tag : Tag) : m.ownerDepth? tag = s.ownerDepth? tag := by
  have hopened := h.opened
  unfold Progress.ownerDepth? Machine.ownerDepth?
  generalize m.opened = gs, s.frames = fs at hopened
  induction hopened with
  | nil => rfl
  | cons hg _ ih => rw [List.findIdx?_cons, List.findIdx?_cons, hg.owns, ih]

/-- A part has the tags of its members. -/
theorem owns_part (h : m.Shows l s) (part : Part) (tag : Tag) :
    (m.parts.get part).owns tag = FixWire.owns (l.part part).members tag :=
  ((h.fit part).owns_eq tag).symm

/-- A tag belongs to the same part. -/
theorem owner? (h : m.Shows l s) (tag : Tag) : m.parts.owner? tag = l.owner? tag := by
  unfold Parts.owner? MessageLayout.owner?
  simp only [h.owns_part]

/-- The checksum is at the same place. -/
theorem isSum (h : m.Shows l s) (part : Part) (tag : Tag) : m.parts.isSum part tag = l.isSum part tag := by
  unfold Parts.isSum MessageLayout.isSum
  have := (h.fit .trailer).find?_rel tag
  revert this
  dsimp only [Parts.get, MessageLayout.part]
  generalize memberOf? l.trailer.members tag = mem, find? m.parts.trailer.cells tag = c
  rintro (hc | _)
  · rw [Option.any_some, Option.any_some, hc.isDerived_eq]
  · rfl

/-- Groups are open on both stacks or on none. -/
theorem isEmpty_opened (h : m.Shows l s) : m.opened.isEmpty = s.frames.isEmpty := by
  have hopened := h.opened
  generalize m.opened = gs, s.frames = fs at hopened
  cases hopened <;> rfl

/-- A cell is put in a part where the machine places its node. -/
theorem putInPart (h : m.Shows l s) (part : Part) {cells : List Cell} {n : Node}
    (hfit : Fit (l.part part).members cells)
    (hn : nodes cells = Node.place n (nodes (m.parts.get part).cells)) (q : Part) :
    Fit (l.part q).members ((m.parts.setCells part cells).get q).cells ∧
      nodes ((m.parts.setCells part cells).get q).cells = (s.placeInPart part n).parts q := by
  by_cases hq : q = part
  · subst hq
    rw [Parts.get_setCells]
    exact ⟨hfit, by simp [hn, Machine.placeInPart, h.parts]⟩
  · rw [Parts.get_setCells_of_ne _ _ hq]
    exact ⟨h.fit q, by simp [Machine.placeInPart, hq, h.parts]⟩

/-- The innermost group is over in both. -/
theorem closeInner (h : m.Shows l s) : m.closeInner.Shows l s.closeInner := by
  have ho := h.opened
  have hnest := h.nested
  unfold Progress.closeInner Machine.closeInner
  cases hm : m.opened with
  | nil =>
    rw [hm] at ho
    rw [List.forall₂_nil_left_iff.1 ho]
    exact h
  | cons g outer =>
    rw [hm] at ho
    obtain ⟨f, frames, hg, hrest, hs⟩ := List.forall₂_cons_left_iff.1 ho
    rw [hs] at hnest ⊢
    cases hnest with
    | outermost hmem =>
      obtain rfl := List.forall₂_nil_right_iff.1 hrest
      dsimp only
      rw [h.base]
      have hput := h.putInPart s.base (n := f.node)
        ((h.fit s.base).put (by rw [tag_toCell, hg.slot]; exact hmem) hg.fits)
        (by rw [nodes_put, hg.node])
      exact ⟨fun q => (hput q).1, fun q => (hput q).2, .nil, .nil, rfl, h.summed, h.consumed⟩
    | @inside _ f' frames hmem hne hnest =>
      obtain ⟨g', outer, hg', houter, rfl⟩ := List.forall₂_cons_right_iff.1 hrest
      have hsome : g'.current.isSome := by
        rw [← Option.not_isNone, ← hg'.isEmpty_repetitions]
        simpa using hne
      obtain ⟨cells, hcells⟩ := Option.isSome_iff_exists.1 hsome
      have hfit : Fit g'.body cells := hg'.fit cells (by simp [hcells])
      refine ⟨h.fit, h.parts, .cons ?_ houter, hnest.congr (by simp) (by simp), h.base, h.summed, h.consumed⟩
      rw [hcells, Option.map_some]
      exact hg'.fill hcells
        (hfit.put (by rw [tag_toCell, hg.slot, hg'.body]; exact hmem) hg.fits)
        (by rw [nodes_put, hg.node])

theorem advance (h : m.Shows l s) (n : Nat) :
    Progress.Shows l { m with consumed := m.consumed + n } { s with consumed := s.consumed + n } :=
  ⟨h.fit, h.parts, h.opened, h.nested, h.base, h.summed, congrArg (· + n) h.consumed⟩

/-- A pair that nothing has is left out on both sides. -/
theorem leaveOut (h : m.Shows l s) (legal : List Tag) (p : Pair) :
    (m.leaveOut legal p).Shows l (s.leaveOut p) :=
  ⟨h.fit, h.parts, h.opened, h.nested, h.base, h.summed, h.consumed⟩

/-- What is stored where when the innermost group is given a pair. -/
theorem exists_storeInGroup {g : OpenGroup} {outer : List OpenGroup} {p : Pair} (h : m.Shows l s)
    (hm : m.opened = g :: outer) (ho : g.owns p.tag) :
    ∃ f frames cells mem c,
      s.frames = f :: frames ∧ g.Shows f ∧ List.Forall₂ OpenGroup.Shows outer frames ∧
      (g.advance p.tag).current = some cells ∧ find? cells p.tag = some c ∧
      memberOf? f.body p.tag = some mem ∧ c.Fits mem ∧
      m.storeInGroup p =
        { m with
          opened := (c.store repetitionCycle p.value).2.1.toList ++
            { g.advance p.tag with current := some (put (c.store repetitionCycle p.value).1 cells) } :: outer
          log := m.log.add (c.store repetitionCycle p.value).2.2 } ∧
      s.giveGroup p =
        { s with
          frames := (Frame.opened? p.value mem).toList ++
            (f.advance p.tag s.events.length).fill (.given p.value mem) :: frames
          events := s.events ++
            [.given (.repetition (f.advance p.tag s.events.length).start) p.value mem] } := by
  have hopened := h.opened
  rw [hm] at hopened
  obtain ⟨f, frames, hg, hrest, hs⟩ := List.forall₂_cons_left_iff.1 hopened
  have hadv := hg.advance p.tag s.events.length
  obtain ⟨cells, hcells⟩ := Option.isSome_iff_exists.1 (OpenGroup.isSome_current_advance g p.tag)
  obtain ⟨mem, hmem⟩ : ∃ mem, memberOf? f.body p.tag = some mem := by
    rw [← Option.isSome_iff_exists, isSome_memberOf?]
    exact (hg.owns p.tag).symm.trans ho
  have hfit : Fit f.body cells := by
    rw [← Frame.body_advance f p.tag s.events.length, ← hadv.body]
    exact hadv.fit cells (by simp [hcells])
  obtain ⟨c, hc, hcm⟩ := hfit.find?_some hmem
  refine ⟨f, frames, cells, mem, c, hs, hg, hrest, hcells, hc, hmem, hcm, ?_, ?_⟩
  · simp only [Progress.storeInGroup, hm, hcells, Option.getD_some, store_of_find? hc]
  · simp only [Machine.giveGroup, hs, Frame.body_advance, hmem]

/-- The innermost group is given a pair in both. -/
theorem storeInGroup {g : OpenGroup} {outer : List OpenGroup} {p : Pair} (h : m.Shows l s)
    (hm : m.opened = g :: outer) (ho : g.owns p.tag) : (m.storeInGroup p).Shows l (s.giveGroup p) := by
  obtain ⟨f, frames, cells, mem, c, hs, hg, hrest, hcells, hc, hmem, hcm, hm', hs'⟩ :=
    h.exists_storeInGroup hm ho
  have hnest := h.nested
  rw [hs] at hnest
  have hadv := hg.advance p.tag s.events.length
  have hbody : (g.advance p.tag).body = f.body := by
    rw [hadv.body, Frame.body_advance]
  have hput : Fit (g.advance p.tag).body (put (c.store repetitionCycle p.value).1 cells) :=
    (hadv.fit cells (by simp [hcells])).put (by rw [tag_store, find?_tag hc, hbody, hmem]) (hcm.store _ _)
  have hfill := hadv.fill (n := .given p.value mem) hcells hput (by rw [nodes_put, hcm.node_store])
  have hne : ((f.advance p.tag s.events.length).fill (.given p.value mem)).repetitions ≠ [] := by
    rw [ne_eq, ← List.isEmpty_iff, hfill.isEmpty_repetitions]
    simp
  rw [hm', hs']
  exact ⟨h.fit, h.parts, List.rel_append (hcm.opened _ _) (.cons hfill hrest),
    .opened (hnest.congr (by simp) (by simp)) hne (by rw [Frame.body_fill, Frame.body_advance, hmem]),
    h.base, h.summed, h.consumed⟩

/-- What is stored where when a part is given a pair. -/
theorem exists_storeInPart {part : Part} {p : Pair} (h : m.Shows l s) (ho : l.owner? p.tag = some part) :
    ∃ mem c,
      find? (m.parts.get part).cells p.tag = some c ∧ memberOf? (l.part part).members p.tag = some mem ∧
      c.Fits mem ∧
      m.storeInPart part p =
        { m with
          parts := m.parts.setCells part
            (put (c.store (m.parts.get part).stamp p.value).1 (m.parts.get part).cells)
          opened := (c.store (m.parts.get part).stamp p.value).2.1.toList
          base := part
          summed := m.summed || m.parts.isSum part p.tag
          log := (m.log.see p.tag).add (c.store (m.parts.get part).stamp p.value).2.2 } ∧
      s.givePart l part p =
        { s.placeInPart part (.given p.value mem) with
          frames := (Frame.opened? p.value mem).toList
          base := part
          summed := s.summed || l.isSum part p.tag
          events := s.events ++ [.given (.part part) p.value mem] } := by
  obtain ⟨mem, hmem⟩ : ∃ mem, memberOf? (l.part part).members p.tag = some mem := by
    rw [← Option.isSome_iff_exists, isSome_memberOf?]
    exact List.find?_some (p := fun q => owns (l.part q).members p.tag) ho
  obtain ⟨c, hc, hcm⟩ := (h.fit part).find?_some hmem
  refine ⟨mem, c, hc, hmem, hcm, ?_, ?_⟩
  · simp only [Progress.storeInPart, store_of_find? hc]
  · simp only [Machine.givePart, hmem]

/-- A part is given a pair in both. -/
theorem storeInPart {part : Part} {p : Pair} (h : m.Shows l s) (ho : l.owner? p.tag = some part) :
    (m.storeInPart part p).Shows l (s.givePart l part p) := by
  obtain ⟨mem, c, hc, hmem, hcm, hm', hs'⟩ := h.exists_storeInPart ho
  have hput := h.putInPart part (n := .given p.value mem)
    ((h.fit part).put (by rw [tag_store, find?_tag hc, hmem]) (hcm.store (m.parts.get part).stamp p.value))
    (by rw [nodes_put, hcm.node_store])
  rw [hm', hs']
  exact ⟨fun q => (hput q).1, fun q => (hput q).2, hcm.opened _ _, .opened_outermost hmem, rfl,
    by rw [h.summed, h.isSum], h.consumed⟩

end Progress.Shows

/-! ## Steps and runs -/

/-- A relation between the progress of the decoder and the flat machine that each part of a step respects. -/
structure Simulation (l : MessageLayout) (legal : List Tag) (R : Progress → Machine → Prop) : Prop where
  shows {m : Progress} {s : Machine} : R m s → m.Shows l s
  closeInner {m : Progress} {s : Machine} : R m s → R m.closeInner s.closeInner
  storeInGroup {m : Progress} {s : Machine} {g : OpenGroup} {outer : List OpenGroup} {p : Pair} :
    R m s → m.opened = g :: outer → g.owns p.tag → R (m.storeInGroup p) (s.giveGroup p)
  storeInPart {m : Progress} {s : Machine} {part : Part} {p : Pair} :
    R m s → l.owner? p.tag = some part → R (m.storeInPart part p) (s.givePart l part p)
  leaveOut {m : Progress} {s : Machine} (p : Pair) : R m s → R (m.leaveOut legal p) (s.leaveOut p)
  advance {m : Progress} {s : Machine} (n : Nat) :
    R m s → R { m with consumed := m.consumed + n } { s with consumed := s.consumed + n }

/-- Showing the same is kept by every step. -/
theorem Progress.Shows.simulation (l : MessageLayout) (legal : List Tag) :
    Simulation l legal (Progress.Shows l) where
  shows h := h
  closeInner h := h.closeInner
  storeInGroup h := h.storeInGroup
  storeInPart h := h.storeInPart
  leaveOut p h := h.leaveOut legal p
  advance n h := h.advance n

namespace Simulation

variable {l : MessageLayout} {legal : List Tag} {R : Progress → Machine → Prop}

/-- What steps keep is kept when groups are closed. -/
theorem close (sim : Simulation l legal R) :
    ∀ (n : Nat) {m : Progress} {s : Machine}, R m s → R (m.close n) (s.close n)
  | 0, _, _, h => h
  | n + 1, _, _, h => sim.close n (sim.closeInner h)

/-- What steps keep is kept when all groups are closed. -/
theorem closeAll (sim : Simulation l legal R) {m : Progress} {s : Machine} (h : R m s) :
    R m.closeAll s.closeAll := by
  rw [Progress.closeAll, Machine.closeAll, (sim.shows h).opened.length_eq]
  exact sim.close _ h

/-- A pair leads both on or ends the message for both. -/
theorem step (sim : Simulation l legal R) {m : Progress} {s : Machine} (h : R m s) (p : Pair) :
    Option.Rel R (m.step legal p) (s.step l p) := by
  have hs := sim.shows h
  have htrailer : m.parts.trailer.owns p.tag = owns l.trailer.members p.tag := hs.owns_part .trailer p.tag
  unfold Progress.step Machine.step
  rw [hs.ownerDepth?, hs.owner?, hs.summed, hs.isEmpty_opened, htrailer]
  cases hd : s.ownerDepth? p.tag with
  | some depth =>
    obtain ⟨g, outer, hg, ho⟩ := Progress.exists_of_ownerDepth? (hs.ownerDepth? p.tag ▸ hd)
    exact .some (sim.advance _ (sim.storeInGroup (sim.close depth h) hg ho))
  | none =>
    cases hp : l.owner? p.tag with
    | some part =>
      dsimp only
      split_ifs
      · exact .none
      · exact .some (sim.advance _ (sim.storeInPart (sim.closeAll h) hp))
    | none =>
      dsimp only
      split_ifs
      · exact .none
      · exact .some (sim.advance _ (sim.leaveOut p h))

/-- What steps keep is kept by whole runs. -/
theorem run (sim : Simulation l legal R) :
    ∀ (pairs : List Pair) {m : Progress} {s : Machine}, R m s → R (m.run legal pairs) (s.run l pairs)
  | [], _, _, h => sim.closeAll h
  | p :: rest, m, s, h => by
    have hstep := sim.step h p
    rw [Progress.run, Machine.run]
    revert hstep
    generalize m.step legal p = m', s.step l p = s'
    rintro (h' | _)
    · exact sim.run rest h'
    · exact sim.closeAll h

end Simulation

end FixWire.Decoder
