import FixWire.Proofs.Decoder.Fresh
import FixWire.Proofs.Decoder.Verdict

/-!
# Validation

A decoder logs faults while it reads, from within calls inside calls, and knows that a tag is repeated from
the stamps of its cells. `Records` relates the log and the stamps to the events of the flat machine : every
event has left its faults in the log, and a cell has the stamp of the current cycle if and only if an event
claims its tag for its aggregate. From this the verdict on the log is the verdict on the events.
-/

namespace FixWire.Decoder

/-! ## What an event leaves in the log -/

/-- The faults of an event after the given ones. -/
def Event.faults (legal : List Tag) (before : List Event) : Event → List Fault
  | .field owner slot value =>
    (if Claimed before owner slot.tag then [.duplicate slot.tag] else []) ++ valueFaults slot value
  | .counter owner slot value =>
    (if Claimed before owner slot.tag then [.duplicate slot.tag] else []) ++ counterFaults slot value
  | .closed slot (some n) count =>
    if n = count then [] else [.incorrect slot.tag .incorrectNumInGroupCountForRepeatingGroup]
  | .closed _ none _ => []
  | .unclaimed tag _ => [unclaimedFault legal tag]

/-- The faults of some events after the given ones. -/
def faultsOf (legal : List Tag) : List Event → List Event → List Fault
  | _, [] => []
  | before, e :: rest => e.faults legal before ++ faultsOf legal (before ++ [e]) rest

/-- One more event is judged with all that came before it. -/
theorem faultsOf_concat (legal : List Tag) (e : Event) :
    ∀ before events : List Event,
      faultsOf legal before (events ++ [e]) =
        faultsOf legal before events ++ e.faults legal (before ++ events)
  | before, [] => by simp [faultsOf]
  | before, e' :: rest => by
    rw [List.cons_append, faultsOf, faultsOf, faultsOf_concat legal e _ rest, List.append_assoc,
      List.append_assoc, List.singleton_append]

/-- What is found first among the faults is what a check finds first, if the check finds in each event what is
found first among its faults. -/
theorem findSome?_faultsOf {α : Type} {legal : List Tag} {f : Fault → Option α}
    {check : List Event → Event → Option α}
    (h : ∀ before e, (e.faults legal before).findSome? f = check before e) :
    ∀ before events : List Event, (faultsOf legal before events).findSome? f = firstOf check before events
  | _, [] => rfl
  | before, e :: rest => by
    rw [faultsOf, firstOf, List.findSome?_append, h, findSome?_faultsOf h]

/-! ## The checks on the log -/

section Checks

variable (legal : List Tag) (before : List Event) (e : Event)

/-- The first invalid tag among the faults of an event. -/
theorem findSome?_invalidTag :
    ((e.faults legal before).findSome? fun
      | .invalidTag tag => some (tag, .invalidTagNumber)
      | _ => none) = invalidTag legal before e := by
  rcases e with _ | _ | ⟨slot, _ | n, count⟩ | _ <;>
    simp only [Event.faults, valueFaults, counterFaults, unclaimedFault, invalidTag, List.contains_iff_mem]
  all_goals
    repeat' split
    all_goals rfl

/-- The first undefined tag among the faults of an event. -/
theorem findSome?_undefinedTag :
    ((e.faults legal before).findSome? fun
      | .undefinedTag tag => some (tag, .tagNotDefinedForThisMessageType)
      | _ => none) = undefinedTag legal before e := by
  rcases e with _ | _ | ⟨slot, _ | n, count⟩ | _ <;>
    simp only [Event.faults, valueFaults, counterFaults, unclaimedFault, undefinedTag, List.contains_iff_mem]
  all_goals
    repeat' split
    all_goals rfl

theorem declaredCount?_nil : declaredCount? [] = none :=
  rfl

/-- The first empty value among the faults of an event. -/
theorem findSome?_emptyValue :
    ((e.faults legal before).findSome? fun
      | .emptyValue tag => some (tag, .tagSpecifiedWithoutAValue)
      | _ => none) = emptyValue before e := by
  rcases e with _ | ⟨_, _, value⟩ | ⟨slot, _ | n, count⟩ | _
  case counter =>
    by_cases hv : value = []
    · subst hv
      simp only [Event.faults, counterFaults, emptyValue, declaredCount?_nil]
      split <;> rfl
    · simp only [Event.faults, counterFaults, emptyValue, hv, if_false]
      repeat' split
      all_goals rfl
  all_goals
    simp only [Event.faults, valueFaults, unclaimedFault, emptyValue]
    repeat' split
    all_goals rfl

/-- The first repeated tag among the faults of an event. -/
theorem findSome?_repeatedTag :
    ((e.faults legal before).findSome? fun
      | .duplicate tag => some (tag, .tagAppearsMoreThanOnce)
      | _ => none) = repeatedTag before e := by
  rcases e with _ | _ | ⟨slot, _ | n, count⟩ | _ <;>
    simp only [Event.faults, valueFaults, counterFaults, unclaimedFault, repeatedTag, Event.claim?]
  all_goals
    repeat' split
    all_goals rfl

/-- The first wrong value or wrong count among the faults of an event. -/
theorem findSome?_incorrect :
    ((e.faults legal before).findSome? fun
      | .incorrect tag reason => some (tag, reason)
      | _ => none) = incorrect before e := by
  rcases e with _ | ⟨_, _, value⟩ | ⟨slot, _ | n, count⟩ | _
  case counter =>
    simp only [Event.faults, counterFaults, incorrect]
    by_cases hv : value = []
    · subst hv
      simp only [declaredCount?_nil, true_or, if_true]
      split <;> rfl
    · simp only [hv, false_or, if_false]
      cases declaredCount? value <;> (split <;> rfl)
  all_goals
    simp only [Event.faults, valueFaults, unclaimedFault, incorrect]
    repeat' split
    all_goals first | rfl | simp_all

end Checks

/-! ## Stamps -/

/-- One more event claims a tag if it is the one that does. -/
theorem claimed_concat {events : List Event} {e : Event} {owner : Instance} {tag : Tag} :
    Claimed (events ++ [e]) owner tag ↔ Claimed events owner tag ∨ e.claim? = some (owner, tag) := by
  simp [Claimed, or_and_right, exists_or]

theorem claimed_append {events events' : List Event} {owner : Instance} {tag : Tag} :
    Claimed (events ++ events') owner tag ↔ Claimed events owner tag ∨ Claimed events' owner tag := by
  simp [Claimed, or_and_right, exists_or]

theorem claimed_append_concat {past events : List Event} {e : Event} {owner : Instance} {tag : Tag} :
    Claimed (past ++ (events ++ [e])) owner tag ↔
      Claimed (past ++ events) owner tag ∨ e.claim? = some (owner, tag) := by
  rw [← List.append_assoc, claimed_concat]

/-- A member that is given a value claims its tag. -/
theorem claim?_given (owner : Instance) (value : Bytes) (mem : Member) :
    (Event.given owner value mem).claim? = some (owner, mem.tag) := by
  cases mem <;> rfl

/-- A cell has the stamp of the cycle if its tag is claimed for the aggregate, and only then. -/
def Marked (cycle : UInt32) (cells : List Cell) (owner : Instance) (events : List Event) : Prop :=
  ∀ tag c, find? cells tag = some c → (c.stamp = cycle ↔ Claimed events owner tag)

/-- Putting a cell changes the cell of its own tag only. -/
theorem find?_put (c : Cell) (tag : Tag) : ∀ cells : List Cell,
    find? (put c cells) tag = if tag = c.tag then (find? cells tag).map fun _ => c else find? cells tag
  | [] => by simp [put, find?]
  | c' :: rest => by
    have ih := find?_put c tag rest
    simp only [find?, put, List.find?_cons] at ih ⊢
    by_cases hc : c'.tag = c.tag
    · rw [if_pos hc, List.find?_cons, hc]
      by_cases ht : tag = c.tag
      · simp [ht]
      · simp [ht, beq_eq_false_iff_ne.2 (Ne.symm ht)]
    · rw [if_neg hc, List.find?_cons]
      by_cases ht : c'.tag = tag
      · simp [ht, ht ▸ hc]
      · simp [beq_eq_false_iff_ne.2 ht, ih]

namespace Marked

variable {cycle : UInt32} {cells : List Cell} {owner : Instance} {events events' : List Event}

/-- Marks depend on which tags are claimed, and not on the events that claim them. -/
theorem congr (h : Marked cycle cells owner events)
    (hc : ∀ tag, Claimed events' owner tag ↔ Claimed events owner tag) :
    Marked cycle cells owner events' :=
  fun tag c hf => (h tag c hf).trans (hc tag).symm

/-- A cell with the stamp of the cycle is put where its tag is claimed. -/
theorem put {c : Cell} (h : Marked cycle cells owner events) (hs : c.stamp = cycle)
    (hc : ∀ tag, Claimed events' owner tag ↔ Claimed events owner tag ∨ tag = c.tag) :
    Marked cycle (put c cells) owner events' := by
  intro tag c' hf
  rw [find?_put] at hf
  rw [hc]
  split_ifs at hf with ht
  · obtain ⟨_, -, rfl⟩ := Option.map_eq_some_iff.1 hf
    simp [hs, ht]
  · simpa [ht] using h tag c' hf

/-- Cells of which none has been written in any cycle. -/
theorem of_unclaimed (hs : ∀ c ∈ cells, c.stamp = 0) (hcycle : cycle ≠ 0)
    (hc : ∀ tag, ¬Claimed events owner tag) : Marked cycle cells owner events := by
  intro tag c hf
  rw [hs c (List.mem_of_find?_eq_some hf)]
  exact iff_of_false hcycle.symm (hc tag)

end Marked

/-- A cell in which a value is stored has the stamp of the cycle. -/
theorem Cell.stamp_store (cycle : UInt32) (value : Bytes) (c : Cell) : (c.store cycle value).1.stamp = cycle := by
  cases c <;> rfl

/-- Storing a value leaves in the log what the event does. -/
theorem Cell.Fits.faults_store {mem : Member} {c : Cell} (h : c.Fits mem) {cycle : UInt32} {owner : Instance}
    {events : List Event} (legal : List Tag) (value : Bytes)
    (hc : c.stamp = cycle ↔ Claimed events owner mem.tag) :
    (c.store cycle value).2.2 = (Event.given owner value mem).faults legal events := by
  cases h with
  | field =>
    simp only [Cell.stamp, Member.tag] at hc
    simp only [Cell.store, Event.given, Event.faults, hc]
  | group =>
    simp only [Cell.stamp, Member.tag] at hc
    simp only [Cell.store, Event.given, Event.faults, hc]

/-! ## The log and the events -/

/-- The aggregate that the innermost of some open groups is in, or else that at the base. -/
def innermost (base : Instance) : List Frame → Instance
  | [] => base
  | f :: _ => .repetition f.start

/-- The cycle of the aggregate that the innermost of some open groups is in. -/
def innermostCycle (base : UInt32) : List OpenGroup → UInt32
  | [] => base
  | _ :: _ => repetitionCycle

/-- The stamps of the open groups agree with the events. A group has been claimed for the aggregate around it,
and its latest repetition was started after the repetitions around it. -/
inductive Stamped (events : List Event) (base : Instance) (cycle : UInt32) :
    List OpenGroup → List Frame → Prop
  | nil : Stamped events base cycle [] []
  | cons {g : OpenGroup} {f : Frame} {gs : List OpenGroup} {fs : List Frame}
    (marked : ∀ cells, g.current = some cells →
      Marked repetitionCycle cells (.repetition f.start) events ∧ ∀ f' ∈ fs, f'.start < f.start)
    (start : f.start < events.length)
    (stamp : g.counter.stamp = innermostCycle cycle gs)
    (claimed : Claimed events (innermost base fs) f.slot.tag)
    (rest : Stamped events base cycle gs fs) : Stamped events base cycle (g :: gs) (f :: fs)

namespace Stamped

variable {events : List Event} {base : Instance} {cycle : UInt32} {g : OpenGroup} {f : Frame}
  {gs : List OpenGroup} {fs : List Frame}

/-- An event that claims nothing for the open groups keeps their stamps. -/
theorem concat {e : Event} (h : Stamped events base cycle gs fs)
    (he : ∀ f ∈ fs, ∀ tag, e.claim? ≠ some (.repetition f.start, tag)) :
    Stamped (events ++ [e]) base cycle gs fs := by
  induction h with
  | nil => exact .nil
  | @cons g f gs fs hm hs hst hc _ ih =>
    refine .cons (fun cells hg => ⟨(hm cells hg).1.congr fun tag => ?_, (hm cells hg).2⟩) ?_ hst ?_
      (ih fun f hf => he f (List.mem_cons_of_mem _ hf))
    · simp [claimed_concat, he f (by simp) tag]
    · simpa using Nat.lt_succ_of_lt hs
    · exact claimed_concat.2 (.inl hc)

/-- The latest repetition of the innermost group when a pair is stored in it. -/
theorem advance {cells : List Cell} {tag : Tag} (h : Stamped events base cycle (g :: gs) (f :: fs))
    (hg : g.Shows f) (hcells : (g.advance tag).current = some cells)
    (hstarts : ∀ n tag, Claimed events (.repetition n) tag → n < events.length) :
    Marked repetitionCycle cells (.repetition (f.advance tag events.length).start) events ∧
      (f.advance tag events.length).start ≤ events.length ∧
      ∀ f' ∈ fs, f'.start < (f.advance tag events.length).start := by
  cases h with
  | cons hm hs _ _ hrest =>
    have hfs : ∀ {gs fs}, Stamped events base cycle gs fs → ∀ f' ∈ fs, f'.start < events.length := by
      intro gs fs h
      induction h with
      | nil => simp
      | cons _ hs _ _ _ ih => simpa using ⟨hs, ih⟩
    unfold OpenGroup.advance at hcells
    unfold Frame.advance
    dsimp only at hcells ⊢
    rw [hg.isEmpty_repetitions, ← hg.slot, ← hg.delimited]
    split_ifs at hcells ⊢
    · have hfresh : ∀ tag, ¬Claimed events (.repetition events.length) tag :=
        fun tag hc => absurd (hstarts _ tag hc) (Nat.lt_irrefl _)
      refine ⟨.of_unclaimed (fun c hc => ?_) (by decide) hfresh, Nat.le_refl _, hfs hrest⟩
      unfold OpenGroup.next at hcells
      cases hsp : g.spare with
      | nil =>
        simp only [hsp, Option.some.injEq] at hcells
        obtain ⟨mem, -, rfl⟩ := List.mem_map.1 (hcells ▸ hc)
        cases mem <;> rfl
      | cons spare _ =>
        simp only [hsp, Option.some.injEq] at hcells
        obtain ⟨c, -, rfl⟩ := List.mem_map.1 (hcells ▸ hc)
        cases c <;> rfl
    · exact ⟨(hm cells hcells).1, Nat.le_of_lt hs, (hm cells hcells).2⟩

/-- A group that has just been claimed is opened. -/
theorem opened {c : Cell} {mem : Member} {cycle' : UInt32} (h : Stamped events base cycle gs fs)
    (value : Bytes) (hc : c.Fits mem) (hcycle : cycle' = innermostCycle cycle gs)
    (hclaimed : Claimed events (innermost base fs) mem.tag) :
    Stamped events base cycle ((c.store cycle' value).2.1.toList ++ gs) ((Frame.opened? value mem).toList ++ fs) := by
  cases hc with
  | field => exact h
  | group =>
    obtain ⟨e, he, hclaim⟩ := hclaimed
    exact .cons nofun (List.length_pos_of_mem he) hcycle ⟨e, he, hclaim⟩ h

end Stamped

/-- The log of a decoder that logs faults has what the events leave in it, after those that have been left behind. -/
structure Log.Follows (legal : List Tag) (past : List Event) (log : Log) (events : List Event) : Prop where
  enabled : log.enabled = true
  seen : log.seen = events.filterMap Event.outerTag?
  faults : log.faults = faultsOf legal past events

namespace Log.Follows

variable {legal : List Tag} {log : Log} {past events : List Event} {e : Event} {faults : List Fault}

/-- An event inside a group. -/
theorem concat (h : log.Follows legal past events) (he : e.outerTag? = none)
    (hf : faults = e.faults legal (past ++ events)) : (log.add faults).Follows legal past (events ++ [e]) := by
  rw [Log.add, if_pos h.enabled]
  refine ⟨h.enabled, ?_, ?_⟩
  · simp [h.seen, he]
  · simp [h.faults, faultsOf_concat, hf]

/-- An event outside groups. -/
theorem concat_outer {tag : Tag} (h : log.Follows legal past events) (he : e.outerTag? = some tag)
    (hf : faults = e.faults legal (past ++ events)) :
    ((log.see tag).add faults).Follows legal past (events ++ [e]) := by
  rw [Log.add, if_pos (log.enabled_see tag ▸ h.enabled)]
  refine ⟨h.enabled, ?_, ?_⟩
  · simp [Log.see, h.seen, he]
  · simp [Log.see, h.faults, faultsOf_concat, hf]

end Log.Follows

/-- The count of a group is checked as its event says. -/
theorem OpenGroup.Shows.countFaults {g : OpenGroup} {f : Frame} (h : g.Shows f) (legal : List Tag)
    (before : List Event) :
    g.countFaults = (Event.closed f.slot f.declared f.repetitions.length).faults legal before := by
  have hlen : g.repetitions.length = f.repetitions.length := by
    rw [OpenGroup.repetitions, List.length_reverse, ← h.repetitions, List.length_map]
  rw [OpenGroup.countFaults, h.declared, hlen, h.slot]
  cases f.declared <;> rfl

/-- The log and the stamps of the decoder agree with the events of the flat machine, and with those that earlier
messages have left behind : what claims that the stamps of the parts still make before anything has been read. -/
structure Progress.Records (l : MessageLayout) (legal : List Tag) (past : List Event) (m : Progress) (s : Machine) :
    Prop extends m.Shows l s where
  log : m.log.Follows legal past s.events
  marked : ∀ part, Marked (m.parts.get part).stamp (m.parts.get part).cells (.part part) (past ++ s.events)
  stamped : Stamped s.events (.part s.base) (m.parts.get s.base).stamp m.opened s.frames
  starts : ∀ n tag, Claimed s.events (.repetition n) tag → n < s.events.length
  outside : ∀ n tag, ¬Claimed past (.repetition n) tag

namespace Progress.Records

variable {l : MessageLayout} {legal : List Tag} {past : List Event} {m : Progress} {s : Machine}

/-- An event claims nothing for a repetition that is started later. -/
theorem starts_concat {e : Event} (h : m.Records l legal past s)
    (he : ∀ n tag, e.claim? = some (.repetition n, tag) → n ≤ s.events.length) (n : Nat) (tag : Tag)
    (hc : Claimed (s.events ++ [e]) (.repetition n) tag) : n < (s.events ++ [e]).length := by
  rw [List.length_append, List.length_singleton, Nat.lt_succ_iff]
  rcases claimed_concat.1 hc with hc | hc
  · exact Nat.le_of_lt (h.starts n tag hc)
  · exact he n tag hc

/-- The stamps in a part in which a cell is put. -/
theorem marked_setCells {e : Event} {part : Part} {c : Cell} (h : m.Records l legal past s)
    (hs : c.stamp = (m.parts.get part).stamp)
    (he : ∀ q tag, e.claim? = some (.part q, tag) → q = part ∧ tag = c.tag)
    (hc : Claimed (past ++ (s.events ++ [e])) (.part part) c.tag) (q : Part) :
    let ps := m.parts.setCells part (put c (m.parts.get part).cells)
    Marked (ps.get q).stamp (ps.get q).cells (.part q) (past ++ (s.events ++ [e])) := by
  by_cases hq : q = part
  · subst hq
    simp only [Parts.get_setCells]
    refine (h.marked q).put hs fun tag => ⟨fun ht => ?_, fun ht => ?_⟩
    · exact (claimed_append_concat.1 ht).imp_right fun ht => (he q tag ht).2
    · rcases ht with ht | rfl
      · exact claimed_append_concat.2 (.inl ht)
      · exact hc
  · simp only [Parts.get_setCells_of_ne _ _ hq]
    refine (h.marked q).congr fun tag => claimed_append_concat.trans (or_iff_left fun ht => hq (he q tag ht).1)

/-- The innermost group is over in both. -/
theorem closeInner (h : m.Records l legal past s) : m.closeInner.Records l legal past s.closeInner := by
  have hshows := h.toShows.closeInner
  have hopened := h.opened
  have hst := h.stamped
  cases hm : m.opened with
  | nil =>
    rw [hm] at hopened
    have hs := List.forall₂_nil_left_iff.1 hopened
    rwa [closeInner_of_nil hm, Machine.closeInner, hs]
  | cons g outer =>
    rw [hm] at hopened hst
    obtain ⟨f, frames, hg, hrest, hs⟩ := List.forall₂_cons_left_iff.1 hopened
    rw [hs] at hst
    generalize he : Event.closed f.slot f.declared f.repetitions.length = e
    have hclaim (owner : Instance) (tag : Tag) : e.claim? ≠ some (owner, tag) := by
      rw [← he]
      nofun
    have hstarts := h.starts_concat (e := e) fun n tag hn => absurd hn (hclaim _ _)
    have hlog : (m.log.add g.countFaults).Follows legal past (s.events ++ [e]) :=
      h.log.concat (by rw [← he]; rfl) (he ▸ hg.countFaults legal _)
    have hconcat {gs fs} (hst : Stamped s.events (.part s.base) (m.parts.get s.base).stamp gs fs) :=
      hst.concat (e := e) fun f _ tag => hclaim _ _
    have hkeep {tag : Tag} {owner : Instance} (hc : Claimed s.events owner tag) :
        Claimed (s.events ++ [e]) owner tag :=
      claimed_concat.2 (.inl hc)
    cases hst with
    | cons _ _ hstamp hclaimed hst =>
      cases hrest with
      | nil =>
        have hm' : m.closeInner =
            { m with
              parts := m.parts.setCells s.base (put g.toCell (m.parts.get s.base).cells)
              opened := []
              log := m.log.add g.countFaults } := by
          rw [Progress.closeInner, hm, ← h.base]
        have hs' : s.closeInner = { s.placeInPart s.base f.node with frames := [], events := s.events ++ [e] } := by
          rw [Machine.closeInner, hs, ← he]
        rw [hm', hs'] at hshows ⊢
        refine ⟨hshows, hlog, h.marked_setCells hstamp (fun q tag hq => absurd hq (hclaim _ _)) ?_, .nil, hstarts,
          h.outside⟩
        rw [tag_toCell, hg.slot]
        exact claimed_append.2 (.inr (hkeep hclaimed))
      | @cons g' f' outer frames hg' hrest =>
        have hm' : m.closeInner =
            { m with
              opened := { g' with current := g'.current.map (put g.toCell) } :: outer
              log := m.log.add g.countFaults } := by
          rw [Progress.closeInner, hm]
        have hs' : s.closeInner =
            { s with frames := f'.fill f.node :: frames, events := s.events ++ [e] } := by
          rw [Machine.closeInner, hs, ← he]
        rw [hm', hs'] at hshows ⊢
        refine ⟨hshows, hlog, fun q => ?_, ?_, hstarts, h.outside⟩
        · exact (h.marked q).congr fun tag => claimed_append_concat.trans (or_iff_left (hclaim _ _))
        · cases hconcat hst with
          | cons hmark' hstart' hstamp' hclaimed' hst' =>
            refine .cons (fun cells' hcells' => ?_) (by rwa [Frame.start_fill]) hstamp'
              (by rwa [Frame.slot_fill]) hst'
            obtain ⟨cells, hcells, rfl⟩ := Option.map_eq_some_iff.1 hcells'
            rw [Frame.start_fill]
            refine ⟨(hmark' cells hcells).1.put hstamp fun tag => ?_, (hmark' cells hcells).2⟩
            refine ⟨.inl, fun ht => ht.elim id fun ht => ?_⟩
            rw [ht, tag_toCell, hg.slot]
            exact hkeep hclaimed

/-- A pair that nothing has is recorded as such. -/
theorem leaveOut (h : m.Records l legal past s) (p : Pair) : (m.leaveOut legal p).Records l legal past (s.leaveOut p) := by
  have hclaim (owner : Instance) (tag : Tag) :
      (Event.unclaimed p.tag !s.frames.isEmpty).claim? ≠ some (owner, tag) :=
    nofun
  refine ⟨h.toShows.leaveOut legal p, ?_, fun q => ?_, h.stamped.concat fun f _ tag => hclaim _ _,
    h.starts_concat fun n tag hn => absurd hn (hclaim _ _), h.outside⟩
  · unfold Progress.leaveOut Machine.leaveOut
    dsimp only
    rw [h.isEmpty_opened]
    cases s.frames.isEmpty with
    | true => exact h.log.concat_outer rfl rfl
    | false => exact h.log.concat rfl rfl
  · exact (h.marked q).congr fun tag => claimed_append_concat.trans (or_iff_left (hclaim _ _))

/-- The innermost group is given a pair in both. -/
theorem storeInGroup {g : OpenGroup} {outer : List OpenGroup} {p : Pair} (h : m.Records l legal past s)
    (hm : m.opened = g :: outer) (ho : g.owns p.tag) : (m.storeInGroup p).Records l legal past (s.giveGroup p) := by
  have hshows := h.toShows.storeInGroup hm ho
  obtain ⟨f, frames, cells, mem, c, hs, hg, -, hcells, hc, hmem, hcm, hm', hs'⟩ :=
    h.toShows.exists_storeInGroup hm ho
  have hst := h.stamped
  rw [hm, hs] at hst
  obtain ⟨hmarked, hstart, hbelow⟩ := hst.advance hg hcells h.starts
  generalize hf : f.advance p.tag s.events.length = f' at hs' hmarked hstart hbelow
  have htag : mem.tag = p.tag := by
    rw [← hcm.tag_eq, find?_tag hc]
  generalize he : Event.given (.repetition f'.start) p.value mem = e at hs'
  have hclaim : e.claim? = some (.repetition f'.start, p.tag) := by
    rw [← he, claim?_given, htag]
  have houter : e.outerTag? = none := by
    rw [← he]
    cases mem <;> rfl
  have hfaults : (c.store repetitionCycle p.value).2.2 = e.faults legal (past ++ s.events) := by
    rw [← he]
    refine hcm.faults_store legal p.value ((htag ▸ hmarked p.tag c hc).trans ?_)
    rw [claimed_append, or_iff_right (h.outside _ _)]
  have hput : Marked repetitionCycle (put (c.store repetitionCycle p.value).1 cells) (.repetition f'.start)
      (s.events ++ [e]) :=
    hmarked.put (c.stamp_store _ _) fun tag => by
      rw [claimed_concat, hclaim, tag_store, find?_tag hc]
      simp [eq_comm]
  rw [hm', hs'] at hshows ⊢
  refine ⟨hshows, h.log.concat houter hfaults, fun q => ?_, ?_, h.starts_concat ?_, h.outside⟩
  · exact (h.marked q).congr fun tag => claimed_append_concat.trans (or_iff_left (by simp [hclaim]))
  · cases hst with
    | cons _ _ hstamp hclaimed hrest =>
      refine .opened (.cons (fun cells' hcells' => ?_) ?_ ?_ ?_ (hrest.concat fun f'' hf'' tag ht => ?_))
        p.value hcm rfl ?_
      · obtain rfl := Option.some.inj hcells'
        rw [Frame.start_fill]
        exact ⟨hput, hbelow⟩
      · rw [Frame.start_fill, List.length_append]
        exact Nat.lt_succ_of_le hstart
      · rw [OpenGroup.counter_advance, hstamp]
      · rw [Frame.slot_fill, ← hf, Frame.slot_advance]
        exact claimed_concat.2 (.inl hclaimed)
      · rw [hclaim] at ht
        simp only [Option.some.injEq, Prod.mk.injEq, Instance.repetition.injEq] at ht
        exact absurd (hbelow f'' hf'') (by omega)
      · rw [innermost, Frame.start_fill, claimed_concat, hclaim, htag]
        exact .inr rfl
  · intro n tag ht
    rw [hclaim] at ht
    simp only [Option.some.injEq, Prod.mk.injEq, Instance.repetition.injEq] at ht
    omega

/-- A part is given a pair in both. -/
theorem storeInPart {part : Part} {p : Pair} (h : m.Records l legal past s)
    (ho : l.owner? p.tag = some part) : (m.storeInPart part p).Records l legal past (s.givePart l part p) := by
  have hshows := h.toShows.storeInPart ho
  obtain ⟨mem, c, hc, hmem, hcm, hm', hs'⟩ := h.toShows.exists_storeInPart ho
  have htag : mem.tag = p.tag := by
    rw [← hcm.tag_eq, find?_tag hc]
  generalize he : Event.given (.part part) p.value mem = e at hs'
  have hclaim : e.claim? = some (.part part, p.tag) := by
    rw [← he, claim?_given, htag]
  have houter : e.outerTag? = some p.tag := by
    rw [← he, ← htag]
    cases mem <;> rfl
  have hfaults : (c.store (m.parts.get part).stamp p.value).2.2 = e.faults legal (past ++ s.events) := by
    rw [← he]
    exact hcm.faults_store legal p.value (htag ▸ h.marked part p.tag c hc)
  have hclaimed : Claimed (s.events ++ [e]) (.part part) p.tag :=
    claimed_concat.2 (.inr hclaim)
  rw [hm', hs'] at hshows ⊢
  refine ⟨hshows, h.log.concat_outer houter hfaults, h.marked_setCells (c.stamp_store _ _) ?_ ?_, ?_,
    h.starts_concat (by simp [hclaim]), h.outside⟩
  · intro q tag ht
    rw [hclaim] at ht
    simp only [Option.some.injEq, Prod.mk.injEq, Instance.part.injEq] at ht
    rw [tag_store, find?_tag hc]
    exact ⟨ht.1.symm, ht.2.symm⟩
  · rw [tag_store, find?_tag hc]
    exact claimed_append.2 (.inr hclaimed)
  · have hopen := Stamped.nil.opened p.value hcm
      (show (m.parts.get part).stamp = innermostCycle _ [] from rfl) (htag ▸ hclaimed)
    rw [List.append_nil, List.append_nil] at hopen
    simpa only [Parts.get_setCells] using hopen

theorem advance (h : m.Records l legal past s) (n : Nat) :
    Progress.Records l legal past { m with consumed := m.consumed + n } { s with consumed := s.consumed + n } :=
  ⟨h.toShows.advance n, h.log, h.marked, h.stamped, h.starts, h.outside⟩

/-- Recording the events is kept by every step. -/
theorem simulation (l : MessageLayout) (legal : List Tag) {past : List Event} :
    Simulation l legal (Progress.Records l legal past) where
  shows h := h.toShows
  closeInner h := h.closeInner
  storeInGroup h := h.storeInGroup
  storeInPart h := h.storeInPart
  leaveOut p h := h.leaveOut p
  advance n h := h.advance n

end Progress.Records

/-! ## The verdict on the log -/

/-- The tags at the start of a message are compared one by one. -/
theorem misplaced?_eq : ∀ (n : Nat) (header seen : List Tag),
    (Log.misplaced? (header.take n) seen).map (·, RejectReason.tagSpecifiedOutOfRequiredOrder) =
      (List.range n).findSome? fun i =>
        match seen[i]?, header[i]? with
        | some actual, some expected =>
          if actual = expected then none else some (expected, .tagSpecifiedOutOfRequiredOrder)
        | _, _ => none
  | 0, _, _ => by simp [Log.misplaced?]
  | n + 1, [], seen => by simp [Log.misplaced?, eq_comm (a := none), List.findSome?_eq_none_iff]
  | n + 1, _ :: _, [] => by simp [Log.misplaced?, eq_comm (a := none), List.findSome?_eq_none_iff]
  | n + 1, expected :: header, actual :: seen => by
    have ih := misplaced?_eq n header seen
    rw [List.range_succ_eq_map, List.findSome?_cons, List.findSome?_map]
    simp only [List.getElem?_cons_zero, Function.comp_def, List.getElem?_cons_succ, ← ih]
    rw [List.take_succ_cons, Log.misplaced?, List.zip_cons_cons, List.find?_cons]
    by_cases h : actual = expected
    · simp [h, Log.misplaced?]
    · simp [h, bne_iff_ne.2 h]

theorem findSome?_id_cons {α : Type} (a : Option α) (rest : List (Option α)) :
    (a :: rest).findSome? id = a.or (rest.findSome? id) := by
  cases a <;> rfl

/-- What the log says against a message is what the first six checks say. -/
theorem Log.Follows.failure?_eq {legal : List Tag} {log : Log} {events : List Event}
    (h : log.Follows legal [] events) (header : List Tag) :
    log.failure? (header.take 3) =
      [misplaced header events, firstOf (invalidTag legal) [] events, firstOf (undefinedTag legal) [] events,
        firstOf emptyValue [] events, firstOf repeatedTag [] events, firstOf incorrect [] events].findSome? id := by
  simp only [findSome?_id_cons, List.findSome?_nil, Option.or_none]
  rw [Log.failure?, h.faults, h.seen]
  exact congrArg₂ Option.or (misplaced?_eq 3 header _) <|
    congrArg₂ Option.or (findSome?_faultsOf (findSome?_invalidTag legal) [] events) <|
    congrArg₂ Option.or (findSome?_faultsOf (findSome?_undefinedTag legal) [] events) <|
    congrArg₂ Option.or (findSome?_faultsOf (findSome?_emptyValue legal) [] events) <|
    congrArg₂ Option.or (findSome?_faultsOf (findSome?_repeatedTag legal) [] events) <|
    findSome?_faultsOf (findSome?_incorrect legal) [] events

mutual

/-- The first required member that is missing from a cell is the first that is unmet. -/
theorem Cell.missing?_eq : ∀ c : Cell, c.missing? = c.node.unmet.head?
  | .field slot value stamp => by
    rw [Cell.missing?, Cell.node, Node.unmet]
    cases value <;> cases slot.required <;> rfl
  | .group slot body counter live spare => by
    rw [Cell.missing?, Cell.node, Node.unmet, missingInAny?_eq live]
    cases slot.required <;> cases counter.present <;> rfl

/-- The first required member that is missing from the cells. -/
theorem missing?_eq : ∀ cells : List Cell, missing? cells = (unmet (nodes cells)).head?
  | [] => rfl
  | c :: rest => by
    rw [missing?, nodes, unmet, List.head?_append, Cell.missing?_eq c, missing?_eq rest]

theorem missingInAny?_eq : ∀ live : List (List Cell), missingInAny? live = (unmetInAny (nodeLists live)).head?
  | [] => rfl
  | cells :: rest => by
    rw [missingInAny?, nodeLists, unmetInAny, List.head?_append, missing?_eq cells, missingInAny?_eq rest]

end

/-- The verdict on missing members is that of the message. -/
theorem Progress.Shows.missing? {l : MessageLayout} {m : Progress} {s : Machine} (h : m.Shows l s) :
    m.parts.missing?.map (·, RejectReason.requiredTagMissing) = missing s := by
  rw [missing, Parts.missing?, ← h.parts, ← h.parts, ← h.parts, List.head?_append, List.head?_append,
    missing?_eq, missing?_eq, missing?_eq, Option.or_assoc]
  rfl

/-- Larger tags than the largest that is shown are shown as that one. -/
theorem Outcome.invalidTag_some (tag : Tag) (reason : RejectReason) :
    Outcome.invalidTag ⟨some (tag, reason)⟩ = min (tag : Int) 0x7fffffff := by
  have hlargest : (Outcome.largestTag : Int) = 0x7fffffff := rfl
  rw [Outcome.invalidTag, ← hlargest]
  dsimp only
  split_ifs with h
  · exact (Int.min_eq_left (Int.ofNat_le.2 h)).symm
  · exact (Int.min_eq_right (Int.ofNat_le.2 (Nat.le_of_not_le h))).symm

end FixWire.Decoder

namespace FixWire.MessageDecoder

open Decoder

variable {c : Codecs} {l : MessageLayout} {d : MessageDecoder}

/-- A new or reset decoder starts to read where the flat machine does, with nothing logged and nothing
stamped. -/
theorem Fresh.records_start (hv : c.validating = true) (h : Fresh (c.newDecoder l) d) :
    (Progress.start d.parts.nextCycle (.empty d.log.enabled)).Records l d.legal [] (Machine.start l) := by
  refine ⟨h.shows_start _, ⟨h.suits.enabled.trans hv, rfl, rfl⟩, fun part => ?_, .nil,
    by simp [Claimed, Machine.start], by simp [Claimed]⟩
  have := h.untouched
  simp only [Progress.start, Parts.get_nextCycle]
  refine .of_unclaimed (this.stamps part) ?_ (by simp [Claimed, Machine.start])
  simp [Aggregate.nextCycle, this.stamp part]

/-- The verdict of a new or reset decoder that judges messages : it accepts a message if none of the seven checks
finds anything, and otherwise it gives the reason and the tag of the first check that does. Tags that take more
than 31 bits are shown as the largest number that does not. -/
theorem validate_eq_verdict (hv : c.validating = true) (h : Fresh (c.newDecoder l) d) (window : Bytes) :
    let outcome := (d.decode window).1.validate.outcome
    let expected := verdict c (flatly l window)
    outcome.isValid = expected.isNone ∧ outcome.reason? = expected.map Prod.snd ∧
      outcome.invalidTag = (expected.map fun v => min (v.1 : Int) 0x7fffffff).getD (-1) := by
  have hrun := (Progress.Records.simulation l d.legal).run (Pair.all window) (h.records_start hv)
  have hfailure := hrun.log.failure?_eq (c.header.fields.map FieldSlot.tag)
  rw [← List.map_take] at hfailure
  have hverdict : (d.decode window).1.validate.outcome = ⟨verdict c (flatly l window)⟩ := by
    rw [decode_eq_run]
    dsimp only [validate]
    rw [Log.judge, if_pos hrun.log.enabled, hrun.toShows.missing?, h.suits.order]
    refine congrArg Outcome.mk ((congrArg (Option.or · _) hfailure).trans ?_)
    rw [h.suits.legal]
    simp only [verdict, findSome?_id_cons, List.findSome?_nil, Option.or_none, Option.or_assoc]
    rfl
  rw [hverdict]
  refine ⟨rfl, rfl, ?_⟩
  cases verdict c (flatly l window) with
  | none => rfl
  | some v => exact Outcome.invalidTag_some v.1 v.2

/-- A message that has a tag twice in one repetition. -/
theorem validate_eq_verdict_repeated :
    let d := Sample.codecs.newDecoder Sample.layout
    let outcome := (d.decode (Sample.bytes "8=F|9=5|35=S|555=1|600=A|602=B|602=C|55=D|10=000|")).1.validate.outcome
    Sample.codecs.validating = true ∧ Fresh d d ∧ outcome.isValid = false ∧
      outcome.reason? = some .tagAppearsMoreThanOnce ∧ outcome.invalidTag = 602 := by
  intro d outcome
  have hverdict : verdict Sample.codecs
      (flatly Sample.layout (Sample.bytes "8=F|9=5|35=S|555=1|600=A|602=B|602=C|55=D|10=000|")) =
        some (602, .tagAppearsMoreThanOnce) := by
    decide +kernel
  obtain ⟨hvalid, hreason, htag⟩ := validate_eq_verdict (c := Sample.codecs) (l := Sample.layout) rfl
    (Fresh.new : Fresh d d) (Sample.bytes "8=F|9=5|35=S|555=1|600=A|602=B|602=C|55=D|10=000|")
  rw [hverdict] at hvalid hreason htag
  exact ⟨rfl, .new, hvalid, hreason, htag⟩

end FixWire.MessageDecoder
