import FixWire.Proofs.Codecs.Registry
import FixWire.Proofs.Decoder.Overlay
import FixWire.Proofs.Decoder.Validation

/-!
# Decoders that are not reset

A decoder that goes on to another message without a reset keeps the values of earlier ones. Its log starts anew, and
its stamps are never later than its cycle (`Holds`), so that all that it logs is about the last message. But it
looks for missing members in all that it holds. So its verdict is that of a new decoder if one of the checks on the log
fails, or if the same required member, or none, is missing from the message as from what is held after it
(`MessageDecoder.verdictOn_since_iff`) : a member of an earlier message can stand in for a required one, and a group of
an earlier message can be found to lack one.

Cycles are counted with 32 bits. What is said here is about the messages before they wrap around.
-/

namespace FixWire

open Decoder

namespace Decoder

/-! ## Stamps while a message is read -/

theorem Fit.map_tag_nodes {members : List Member} {cells : List Cell} (h : Fit members cells) :
    (nodes cells).map Node.tag = (members.map Node.blank).map Node.tag := by
  induction h with
  | nil => rfl
  | @cons m c members cells hc _ ih =>
    rw [nodes, List.map_cons, List.map_cons, List.map_cons, ih, Cell.tag_node, hc.tag_eq]
    cases m <;> rfl

theorem Progress.parts_storeInGroup (m : Progress) (p : Pair) : (m.storeInGroup p).parts = m.parts := by
  unfold storeInGroup
  split <;> rfl

/-- The parts are in given cycles, and the stamps of their cells are among those that are admitted. -/
structure Progress.Tracks (l : MessageLayout) (legal : List Tag) (past : List Event) (cycle : Part → UInt32)
    (admits : Part → Tag → UInt32 → Prop) (m : Progress) (s : Machine) : Prop extends m.Records l legal past s where
  current : ∀ part, (m.parts.get part).stamp = cycle part
  admitted : ∀ part tag c, find? (m.parts.get part).cells tag = some c → admits part tag c.stamp

namespace Progress.Tracks

variable {l : MessageLayout} {legal : List Tag} {past : List Event} {cycle : Part → UInt32}
  {admits : Part → Tag → UInt32 → Prop} {m : Progress} {s : Machine}

/-- A cell that is put in a part has the stamp of its cycle, which is admitted. -/
theorem setCells (h : m.Tracks l legal past cycle admits s) (hadmits : ∀ part tag, admits part tag (cycle part))
    {part : Part} {c : Cell} (hc : c.stamp = (m.parts.get part).stamp) (q : Part) :
    let ps := m.parts.setCells part (put c (m.parts.get part).cells)
    (ps.get q).stamp = cycle q ∧ ∀ tag c', find? (ps.get q).cells tag = some c' → admits q tag c'.stamp := by
  by_cases hq : q = part
  · subst hq
    simp only [Parts.get_setCells]
    refine ⟨h.current q, fun tag c' hc' => ?_⟩
    rw [find?_put] at hc'
    split_ifs at hc'
    · obtain ⟨_, -, rfl⟩ := Option.map_eq_some_iff.1 hc'
      rw [hc, h.current]
      exact hadmits q tag
    · exact h.admitted q tag c' hc'
  · dsimp only
    rw [Parts.get_setCells_of_ne _ _ hq]
    exact ⟨h.current q, h.admitted q⟩

theorem closeInner (h : m.Tracks l legal past cycle admits s) (hadmits : ∀ part tag, admits part tag (cycle part)) :
    m.closeInner.Tracks l legal past cycle admits s.closeInner := by
  have hparts (q : Part) : (m.closeInner.parts.get q).stamp = cycle q ∧
      ∀ tag c, find? (m.closeInner.parts.get q).cells tag = some c → admits q tag c.stamp := by
    have hstamped := h.stamped
    unfold Progress.closeInner
    split
    · exact ⟨h.current q, h.admitted q⟩
    · rename_i g hm
      rw [hm] at hstamped
      have hstamp : g.counter.stamp = (m.parts.get s.base).stamp := by
        generalize s.frames = frames at hstamped
        cases hstamped with
        | cons _ _ hstamp _ hrest =>
          cases hrest
          exact hstamp
      rw [h.base]
      exact h.setCells hadmits (c := g.toCell) hstamp q
    · exact ⟨h.current q, h.admitted q⟩
  exact ⟨h.toRecords.closeInner, fun q => (hparts q).1, fun q => (hparts q).2⟩

theorem storeInPart {part : Part} {p : Pair} (h : m.Tracks l legal past cycle admits s)
    (hadmits : ∀ part tag, admits part tag (cycle part)) (ho : l.owner? p.tag = some part) :
    (m.storeInPart part p).Tracks l legal past cycle admits (s.givePart l part p) := by
  obtain ⟨mem, c, -, -, -, hm', -⟩ := h.toRecords.toShows.exists_storeInPart ho
  have hrecords := h.toRecords.storeInPart ho
  have hparts := h.setCells hadmits (c.stamp_store (m.parts.get part).stamp p.value)
  rw [hm'] at hrecords ⊢
  exact ⟨hrecords, fun q => (hparts q).1, fun q => (hparts q).2⟩

/-- A decoder that carries stamps over goes in step with the machine. -/
theorem simulation (l : MessageLayout) (legal : List Tag) {past : List Event} {cycle : Part → UInt32}
    {admits : Part → Tag → UInt32 → Prop} (hadmits : ∀ part tag, admits part tag (cycle part)) :
    Simulation l legal (Progress.Tracks l legal past cycle admits) where
  shows h := h.toRecords.toShows
  closeInner h := h.closeInner hadmits
  storeInGroup {m s g outer p} h hm ho :=
    ⟨h.toRecords.storeInGroup hm ho, by rw [parts_storeInGroup]; exact h.current,
      by rw [parts_storeInGroup]; exact h.admitted⟩
  storeInPart h := h.storeInPart hadmits
  leaveOut p h := ⟨h.toRecords.leaveOut p, h.current, h.admitted⟩
  advance n h := ⟨h.toRecords.advance n, h.current, h.admitted⟩

theorem run (h : m.Tracks l legal past cycle admits s) (hadmits : ∀ part tag, admits part tag (cycle part))
    (pairs : List Pair) : (m.run legal pairs).Tracks l legal past cycle admits (s.run l pairs) :=
  (simulation l legal hadmits).run pairs h

end Progress.Tracks

/-- The stamp of the next cycle, as long as cycles do not wrap around. -/
theorem Aggregate.toNat_stamp_nextCycle {a : Aggregate} (h : a.stamp.toNat + 1 < UInt32.size) :
    a.nextCycle.stamp.toNat = a.stamp.toNat + 1 := by
  have hadd : (a.stamp + 1).toNat = a.stamp.toNat + 1 := by
    rw [UInt32.toNat_add]
    exact Nat.mod_eq_of_lt h
  have hne : a.stamp + 1 ≠ 0 := by
    intro h0
    rw [h0] at hadd
    cases hadd
  rw [nextCycle, if_neg hne, hadd]

/-! ## The checks on the log -/

/-- What the first six checks say against a message. They look at its events only. -/
def early (c : Codecs) (s : Machine) : Option (Tag × RejectReason) :=
  let legal := c.dictionary.fields.map Field.number
  [misplaced (c.header.fields.map FieldSlot.tag) s.events,
    firstOf (invalidTag legal) [] s.events,
    firstOf (undefinedTag legal) [] s.events,
    firstOf emptyValue [] s.events,
    firstOf repeatedTag [] s.events,
    firstOf incorrect [] s.events].findSome? id

/-- The last check is made if the others find nothing. -/
theorem verdict_eq_or (c : Codecs) (s : Machine) : verdict c s = (early c s).or (missing s) := by
  simp only [verdict, early, findSome?_id_cons, List.findSome?_nil, Option.or_none, Option.or_assoc]

/-- What is shown of a verdict : whether the message is accepted, the reason, and the tag. -/
def Outcome.shown (o : Outcome) : Bool × Option RejectReason × Int :=
  (o.isValid, o.reason?, o.invalidTag)

end Decoder

namespace MessageDecoder

/-! ## Histories -/

/-- What becomes of a decoder by using it, and the messages that it has decoded since it was new or reset, the latest
last. -/
inductive Since (d₀ : MessageDecoder) : List Bytes → MessageDecoder → Prop
  | new : Since d₀ [] d₀
  | decode {windows : List Bytes} {d : MessageDecoder} (h : Since d₀ windows d) (window : Bytes) :
    Since d₀ (windows ++ [window]) (d.decode window).1
  | validate {windows : List Bytes} {d : MessageDecoder} (h : Since d₀ windows d) : Since d₀ windows d.validate
  | reset {windows : List Bytes} {d : MessageDecoder} (h : Since d₀ windows d) : Since d₀ [] d.reset

/-- What is shown of the verdict on a message that is decoded next. -/
def verdictOn (d : MessageDecoder) (window : Bytes) : Bool × Option RejectReason × Int :=
  (d.decode window).1.validate.outcome.shown

/-- The decoders that come of decoding, judging and resetting are decoders in use. -/
theorem Since.used {d₀ d : MessageDecoder} {windows : List Bytes} (h : Since d₀ windows d) : Used d₀ d := by
  induction h with
  | new => exact .new
  | decode _ window ih => exact ih.decode window
  | validate _ ih => exact ih.validate
  | reset _ ih => exact ih.reset

/-- A decoder in use has decoded some messages since it was new or reset. -/
theorem Used.exists_since {d₀ d : MessageDecoder} (h : Used d₀ d) : ∃ windows, Since d₀ windows d := by
  induction h with
  | new => exact ⟨_, .new⟩
  | decode _ window ih =>
    obtain ⟨_, hs⟩ := ih
    exact ⟨_, hs.decode window⟩
  | validate _ ih =>
    obtain ⟨_, hs⟩ := ih
    exact ⟨_, hs.validate⟩
  | reset _ ih =>
    obtain ⟨_, hs⟩ := ih
    exact ⟨_, hs.reset⟩

/-- A decoder that holds what some messages have left behind, in the cycle of the last of them. -/
structure Holds (l : MessageLayout) (windows : List Bytes) (d : MessageDecoder) : Prop where
  nodes : ∀ part, nodes (d.parts.get part).cells = holdings l windows part
  stamp : ∀ part, (d.parts.get part).stamp.toNat = windows.length
  bounded : ∀ part tag c, find? (d.parts.get part).cells tag = some c → c.stamp ≤ (d.parts.get part).stamp

theorem holds_nil {l : MessageLayout} {d : MessageDecoder} (h : d.parts.Untouched l) : Holds l [] d := by
  refine ⟨h.nodes, fun part => by rw [h.stamp part]; rfl, fun part tag c hc => ?_⟩
  rw [h.stamps part c (List.mem_of_find?_eq_some hc), h.stamp part]
  exact UInt32.le_refl 0

section Reuse

variable {c : Codecs} {l : MessageLayout} {windows : List Bytes} {d : MessageDecoder}

/-- A decoder ends where the flat machine does that has its parts laid over what the decoder holds, if the stamps of its
cells agree with some claims from before. -/
theorem Used.tracks_run (hu : Used (c.newDecoder l) d) (hv : c.validating = true) (past : List Event)
    (admits : Part → Tag → UInt32 → Prop) (houtside : ∀ n tag, ¬Claimed past (.repetition n) tag)
    (hmarked : ∀ part, Marked (d.parts.get part).nextCycle.stamp (d.parts.get part).cells (.part part) past)
    (hcells : ∀ part tag cell, find? (d.parts.get part).cells tag = some cell → admits part tag cell.stamp)
    (hcycle : ∀ part tag, admits part tag (d.parts.get part).nextCycle.stamp) (window : Bytes) :
    ((Progress.start d.parts.nextCycle (.empty d.log.enabled)).run d.legal (Pair.all window)).Tracks l d.legal past
      (fun part => (d.parts.get part).nextCycle.stamp) admits
      ((flatly l window).above fun part => nodes (d.parts.get part).cells) := by
  have hsuits := hu.suits (fit_make _ _ _ _)
  have haligned : (Machine.start l).Aligned fun part => nodes (d.parts.get part).cells :=
    fun part => (hsuits.fit part).map_tag_nodes
  have hget (part : Part) : d.parts.nextCycle.get part = (d.parts.get part).nextCycle :=
    Parts.get_nextCycle d.parts part
  have hshows : (Progress.start d.parts.nextCycle (.empty d.log.enabled)).Shows l
      ((Machine.start l).above fun part => nodes (d.parts.get part).cells) := by
    refine ⟨hsuits.fit.nextCycle, fun part => ?_, .nil, .nil, rfl, rfl, rfl⟩
    rw [parts_start_above haligned]
    exact (congrArg (fun a : Aggregate => Decoder.nodes a.cells) (hget part)).trans rfl
  -- Nothing has been read yet, so that the stamps agree with the claims from before.
  have hstart : (Progress.start d.parts.nextCycle (.empty d.log.enabled)).Tracks l d.legal past
      (fun part => (d.parts.get part).nextCycle.stamp) admits
      ((Machine.start l).above fun part => nodes (d.parts.get part).cells) := by
    refine ⟨⟨hshows, ⟨hsuits.enabled.trans hv, rfl, rfl⟩, fun part => ?_, .nil,
      by simp [Claimed, Machine.start, Machine.above], houtside⟩, fun part => congrArg Aggregate.stamp (hget part),
      fun part tag cell hcell => ?_⟩
    · have hevents : ((Machine.start l).above fun part => nodes (d.parts.get part).cells).events = [] := rfl
      rw [hevents, List.append_nil]
      simp only [Progress.start, hget]
      exact hmarked part
    · simp only [Progress.start, hget] at hcell
      exact hcells part tag cell hcell
  have hrun := hstart.run hcycle (Pair.all window)
  rwa [(Machine.run_above (Pair.all window) haligned).2] at hrun

/-- As long as cycles do not wrap around, the new one is later than every stamp. -/
theorem Holds.tracks_run (h : Holds l windows d) (hv : c.validating = true) (hu : Used (c.newDecoder l) d)
    (hlen : windows.length + 1 < UInt32.size) (window : Bytes) :
    ((Progress.start d.parts.nextCycle (.empty d.log.enabled)).run d.legal (Pair.all window)).Tracks l d.legal []
      (fun part => (d.parts.get part).nextCycle.stamp) (fun part _ stamp => stamp ≤ (d.parts.get part).nextCycle.stamp)
      ((flatly l window).above (holdings l windows)) := by
  have hbelow (part : Part) (tag : Tag) (cell : Cell) (hcell : find? (d.parts.get part).cells tag = some cell) :
      cell.stamp < (d.parts.get part).nextCycle.stamp := by
    refine UInt32.lt_of_le_of_lt (h.bounded part tag cell hcell) ?_
    rw [UInt32.lt_iff_toNat_lt, Aggregate.toNat_stamp_nextCycle (by rwa [h.stamp part])]
    exact Nat.lt_succ_self _
  rw [← funext h.nodes]
  refine hu.tracks_run hv [] (fun part _ stamp => stamp ≤ (d.parts.get part).nextCycle.stamp) (by simp [Claimed])
    (fun part tag cell hcell => ?_) (fun part tag cell hcell => UInt32.le_of_lt (hbelow part tag cell hcell))
    (fun _ _ => UInt32.le_refl _) window
  exact iff_of_false (UInt32.ne_of_lt (hbelow part tag cell hcell)) (by simp [Claimed])

/-- A decoder that holds what the messages since a reset say holds it after one more of them, as long as the cycles have
not come round. -/
theorem Holds.decode (h : Holds l windows d) (hv : c.validating = true) (hu : Used (c.newDecoder l) d)
    (hlen : windows.length + 1 < UInt32.size) (window : Bytes) :
    Holds l (windows ++ [window]) (d.decode window).1 := by
  have hrun := h.tracks_run hv hu hlen window
  rw [decode_eq_run]
  refine ⟨fun part => ?_, fun part => ?_, fun part tag cell hcell => ?_⟩
  · rw [hrun.parts, holdings_concat]
    rfl
  · rw [hrun.current, Aggregate.toNat_stamp_nextCycle (by rwa [h.stamp part]), h.stamp, List.length_append]
    rfl
  · rw [hrun.current]
    exact hrun.admitted part tag cell hcell

/-- A decoder holds what the messages that it has decoded have left behind. -/
theorem Since.holds (h : Since (c.newDecoder l) windows d) (hv : c.validating = true)
    (hlen : windows.length < UInt32.size) : Holds l windows d := by
  induction h with
  | new => exact holds_nil (untouched_make _ _ _ _)
  | @decode windows d hs window ih =>
    rw [List.length_append, List.length_singleton] at hlen
    exact (ih (Nat.lt_of_succ_lt hlen)).decode hv hs.used hlen window
  | validate _ ih => exact ⟨(ih hlen).nodes, (ih hlen).stamp, (ih hlen).bounded⟩
  | reset hs _ => exact holds_nil (hs.used.suits (fit_make _ _ _ _)).fit.clear

/-- The verdict of a decoder is the one on the message laid over what is held. -/
theorem Since.outcome_decode (h : Since (c.newDecoder l) windows d) (hv : c.validating = true)
    (hlen : windows.length + 1 < UInt32.size) (window : Bytes) :
    (d.decode window).1.validate.outcome = ⟨verdict c ((flatly l window).above (holdings l windows))⟩ := by
  have hsuits := h.used.suits (fit_make _ _ _ _)
  have hrun := (h.holds hv (Nat.lt_of_succ_lt hlen)).tracks_run hv h.used hlen window
  have hfailure := hrun.log.failure?_eq (c.header.fields.map FieldSlot.tag)
  rw [← List.map_take] at hfailure
  rw [decode_eq_run]
  dsimp only [MessageDecoder.validate]
  rw [Log.judge, if_pos hrun.log.enabled, hrun.toRecords.toShows.missing?, hsuits.order, verdict_eq_or]
  refine congrArg Outcome.mk ((congrArg (Option.or · _) hfailure).trans ?_)
  rw [hsuits.legal]
  rfl

/-- Nothing is held by a new decoder. -/
theorem above_holdings_nil (window : Bytes) : (flatly l window).above (holdings l []) = flatly l window := by
  have haligned : (Machine.start l).Aligned (holdings l []) := aligned_holdings []
  have hstart : (Machine.start l).above (holdings l []) = Machine.start l :=
    congrArg (fun parts => { Machine.start l with parts }) (funext (parts_start_above haligned))
  rw [flatly, ← (Machine.run_above (Pair.all window) haligned).2, hstart]

/-- A new decoder holds what the flat machine does, and takes up as many bytes. -/
theorem decode_new (window : Bytes) :
    (∀ part, nodes (((c.newDecoder l).decode window).1.part part).cells = (flatly l window).parts part) ∧
      ((c.newDecoder l).decode window).2 = (flatly l window).consumed := by
  have hstart : Fresh (c.newDecoder l) (c.newDecoder l) := .new
  have hrun := (Progress.Shows.simulation l c.legalTags).run (Pair.all window) (hstart.shows_start (.empty c.validating))
  rw [decode_eq_run]
  exact ⟨hrun.parts, hrun.consumed⟩

/-- A new decoder has nothing held under the message that it judges. -/
theorem outcome_decode_new (hv : c.validating = true) (window : Bytes) :
    ((c.newDecoder l).decode window).1.validate.outcome = ⟨verdict c (flatly l window)⟩ := by
  rw [Since.outcome_decode .new hv (by decide) window, above_holdings_nil]

theorem shown_or {failure a b : Option (Tag × RejectReason)} :
    Outcome.shown ⟨failure.or a⟩ = Outcome.shown ⟨failure.or b⟩ ↔
      failure.isSome ∨ Outcome.shown ⟨a⟩ = Outcome.shown ⟨b⟩ := by
  cases failure <;> simp

/-- Decoders that judge messages and have not been reset give the verdict that a new decoder gives on the next message,
as long as their cycles do not wrap around, if a check on the log fails, or if the first required member that is missing
from what is then held is the first one that is missing from the message; and only then. The decoders of a registry are
such decoders, whatever the registry has been used for. -/
theorem verdictOn_since_iff (hv : c.validating = true) :
    (∀ {l : MessageLayout} {windows : List Bytes} {d : MessageDecoder}, Since (c.newDecoder l) windows d →
      windows.length + 1 < UInt32.size → ∀ window,
        (d.verdictOn window = (c.newDecoder l).verdictOn window ↔
          (early c (flatly l window)).isSome ∨
            Outcome.shown ⟨missing ((flatly l window).above (holdings l windows))⟩ =
              Outcome.shown ⟨missing (flatly l window)⟩)) ∧
      ∀ {r r' : Registry} {window : Bytes} {d' : MessageDecoder}, Registry.Used c.registry r →
        r.decode window = some (r', d') →
          ∃ l ∈ c.messages, ∃ windows d, Since (c.newDecoder l) windows d ∧ (d.decode window).1 = d' := by
  refine ⟨fun {l windows d} h hlen window => ?_, fun {r r' window d'} hr hd => ?_⟩
  · -- A new decoder is one that holds nothing.
    have hsince : Since (c.newDecoder l) [] (c.newDecoder l) := .new
    have hnew := hsince.outcome_decode hv (by decide) window
    rw [above_holdings_nil] at hnew
    have hearly : early c ((flatly l window).above (holdings l windows)) = early c (flatly l window) := rfl
    rw [verdictOn, verdictOn, h.outcome_decode hv hlen, hnew, verdict_eq_or, verdict_eq_or, hearly]
    exact shown_or
  · obtain ⟨type, d, -, hfound, rfl, -⟩ := Registry.decode_eq_some_iff.1 hd
    obtain ⟨l, hl, hused⟩ := hr.exists_layout hfound
    obtain ⟨windows, hs⟩ := hused.exists_since
    exact ⟨l, List.mem_of_find?_eq_some hl, windows, d, hs, rfl⟩

/-- A complete message after another one, read by one decoder and by a registry. -/
theorem verdictOn_since_complete :
    let d₀ := Sample.codecs.newDecoder Sample.layout
    let d := (d₀.decode Sample.window).1
    let next := Sample.bytes "8=FIX.4.4|9=5|35=S|55=F|10=000|"
    Sample.codecs.validating = true ∧ Since d₀ [Sample.window] d ∧ [Sample.window].length + 1 < UInt32.size ∧
      d.verdictOn next = d₀.verdictOn next ∧
      ∃ r r' d', Registry.Used Sample.codecs.registry r ∧ r.decode next = some (r', d') ∧
        ∃ l ∈ Sample.codecs.messages, ∃ windows d, Since (Sample.codecs.newDecoder l) windows d ∧
          (d.decode next).1 = d' := by
  intro d₀ d next
  have hv : Sample.codecs.validating = true := rfl
  have hsince : Since d₀ [Sample.window] d := .decode .new Sample.window
  have hlen : [Sample.window].length + 1 < UInt32.size := by decide
  obtain ⟨honce, hregistry⟩ := verdictOn_since_iff hv
  have hsame : Outcome.shown ⟨missing ((flatly Sample.layout next).above (holdings Sample.layout [Sample.window]))⟩ =
      Outcome.shown ⟨missing (flatly Sample.layout next)⟩ := by
    decide +kernel
  have htype : Pair.valueOf? Sample.codecs.registry.typeTag next = some (Bytes.ofString "S") := by decide +kernel
  have hnew : Registry.Used Sample.codecs.registry Sample.codecs.registry := .new
  obtain ⟨found, hfound, -⟩ := hnew.exists_decoder (Codecs.require_eq_ok_iff.1 Sample.require_layout).1
  have hdecode := Registry.decode_eq_some_iff.2 ⟨_, found, htype, hfound, rfl, rfl⟩
  exact ⟨hv, hsince, hlen, (honce hsince hlen next).2 (.inr hsame), _, _, _, hnew, hdecode, hregistry hnew hdecode⟩

/-- The symbol of a message stands in for that of the next one, which has none : the decoder that has read both accepts
it, while a new one says that the symbol is missing. -/
theorem verdictOn_since_ne :
    let d₀ := Sample.codecs.newDecoder Sample.layout
    let d := (d₀.decode Sample.window).1
    let next := Sample.bytes "8=FIX.4.4|9=5|35=S|10=000|"
    Codecs.ofDocument Sample.document true = .ok Sample.codecs ∧ Sample.layout ∈ Sample.codecs.messages ∧
      Since d₀ [Sample.window] d ∧ d.verdictOn next = (true, none, -1) ∧
      d₀.verdictOn next = (false, some .requiredTagMissing, 55) := by
  intro d₀ d next
  have hnew : Since d₀ [] d₀ := .new
  have hsince : Since d₀ [Sample.window] d := hnew.decode Sample.window
  have hmem : Sample.layout ∈ Sample.codecs.messages :=
    List.mem_of_find?_eq_some (Codecs.require_eq_ok_iff.1 Sample.require_layout).1
  refine ⟨Sample.ofDocument_document, hmem, hsince, ?_, ?_⟩
  · rw [verdictOn, hsince.outcome_decode rfl (by decide)]
    decide +kernel
  · rw [verdictOn, hnew.outcome_decode rfl (by decide)]
    decide +kernel

end Reuse

end MessageDecoder

end FixWire
