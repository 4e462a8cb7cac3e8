import FixWire.Proofs.Decoder.Refinement
import FixWire.Proofs.Dictionary.Documents

/-!
# New and reset decoders

A decoder is used for one message after another, and may be reset in between. Whatever it has been used for,
its cells fit its layout; after a reset nothing of it shows any more, and it decodes the next message as a new
one does : as the flat machine says.
-/

namespace FixWire

open Decoder

namespace Decoder

/-! ## The log -/

@[simp] theorem Log.enabled_add (log : Log) (faults : List Fault) : (log.add faults).enabled = log.enabled := by
  unfold Log.add
  split_ifs <;> rfl

@[simp] theorem Log.enabled_see (log : Log) (tag : Tag) : (log.see tag).enabled = log.enabled :=
  rfl

namespace Progress

@[simp] theorem enabled_closeInner (m : Progress) : m.closeInner.log.enabled = m.log.enabled := by
  unfold closeInner
  split <;> simp

@[simp] theorem enabled_close : ∀ (n : Nat) (m : Progress), (m.close n).log.enabled = m.log.enabled
  | 0, _ => rfl
  | n + 1, m => (enabled_close n _).trans m.enabled_closeInner

@[simp] theorem enabled_closeAll (m : Progress) : m.closeAll.log.enabled = m.log.enabled :=
  enabled_close _ m

@[simp] theorem enabled_storeInGroup (m : Progress) (p : Pair) :
    (m.storeInGroup p).log.enabled = m.log.enabled := by
  unfold storeInGroup
  split <;> simp

@[simp] theorem enabled_storeInPart (m : Progress) (part : Part) (p : Pair) :
    (m.storeInPart part p).log.enabled = m.log.enabled := by
  simp [storeInPart]

@[simp] theorem enabled_leaveOut (m : Progress) (legal : List Tag) (p : Pair) :
    (m.leaveOut legal p).log.enabled = m.log.enabled := by
  unfold leaveOut
  dsimp only
  split_ifs <;> simp

/-- A pair does not change whether faults are logged. -/
theorem enabled_step {legal : List Tag} {m m' : Progress} {p : Pair} (h : m.step legal p = some m') :
    m'.log.enabled = m.log.enabled := by
  unfold step at h
  dsimp only at h
  split at h
  · cases h
    simp
  · split at h
    all_goals
      split_ifs at h
      cases h
      simp

/-- A run neither starts nor stops the log. -/
theorem enabled_run (legal : List Tag) :
    ∀ (pairs : List Pair) (m : Progress), (m.run legal pairs).log.enabled = m.log.enabled
  | [], m => m.enabled_closeAll
  | p :: rest, m => by
    rw [run]
    split
    · rename_i h
      rw [enabled_run legal rest, enabled_step h]
    · exact m.enabled_closeAll

end Progress

/-! ## The parts -/

/-- The cycle in which the cell was last written. -/
def Cell.stamp : Cell → UInt32
  | .field _ _ stamp => stamp
  | .group _ _ counter _ _ => counter.stamp

/-- Parts of which nothing has been read. -/
def Progress.start (parts : Parts) (log : Log) : Progress :=
  ⟨parts, [], .header, false, log, 0⟩

namespace Parts

/-- Every cell is that of a member of the layout. -/
def Fit (l : MessageLayout) (ps : Parts) : Prop :=
  ∀ part, Decoder.Fit (l.part part).members (ps.get part).cells

/-- No part has been written in any cycle, and neither has a cell. -/
structure Untouched (l : MessageLayout) (ps : Parts) : Prop where
  fit : ps.Fit l
  nodes : ∀ part, nodes (ps.get part).cells = (l.part part).members.map Node.blank
  stamp : ∀ part, (ps.get part).stamp = 0
  stamps : ∀ part, ∀ c ∈ (ps.get part).cells, c.stamp = 0

theorem get_nextCycle (ps : Parts) (part : Part) : ps.nextCycle.get part = (ps.get part).nextCycle := by
  cases part <;> rfl

theorem get_clear (ps : Parts) (part : Part) : ps.clear.get part = (ps.get part).clear := by
  cases part <;> rfl

/-- A new cycle leaves the parts those of the layout. -/
theorem Fit.nextCycle {l : MessageLayout} {ps : Parts} (h : ps.Fit l) : ps.nextCycle.Fit l := by
  intro part
  rw [get_nextCycle]
  exact h part

/-- Clearing makes the parts as if untouched. -/
theorem Fit.clear {l : MessageLayout} {ps : Parts} (h : ps.Fit l) : ps.clear.Untouched l := by
  refine ⟨fun part => ?_, fun part => ?_, fun part => ?_, fun part c hc => ?_⟩ <;>
    rw [get_clear] at *
  · exact (h part).clear
  · exact (h part).nodes_clear
  · rfl
  · obtain ⟨c, -, rfl⟩ := List.mem_map.1 hc
    cases c <;> rfl

/-- A machine with what the parts hold starts where they are read on. -/
theorem Fit.shows_start {l : MessageLayout} {ps : Parts} (h : ps.Fit l) (log : Log) :
    (Progress.start ps log).Shows l ⟨fun part => nodes (ps.get part).cells, [], .header, false, 0, []⟩ :=
  ⟨h, fun _ => rfl, .nil, .nil, rfl, rfl, rfl⟩

/-- Reading keeps every cell that of its member. -/
theorem Fit.run {l : MessageLayout} {ps : Parts} (h : ps.Fit l) (legal : List Tag) (log : Log)
    (pairs : List Pair) : ((Progress.start ps log).run legal pairs).parts.Fit l :=
  ((Progress.Shows.simulation l legal).run pairs (h.shows_start log)).fit

end Parts

end Decoder

/-! ## Decoders -/

namespace MessageDecoder

/-- The decoders that become of a decoder by using it. -/
inductive Used (d₀ : MessageDecoder) : MessageDecoder → Prop
  | new : Used d₀ d₀
  | decode {d : MessageDecoder} (h : Used d₀ d) (window : Bytes) : Used d₀ (d.decode window).1
  | validate {d : MessageDecoder} (h : Used d₀ d) : Used d₀ d.validate
  | reset {d : MessageDecoder} (h : Used d₀ d) : Used d₀ d.reset

/-- The decoder itself, and those that become of it by using it and then resetting it. -/
inductive Fresh (d₀ : MessageDecoder) : MessageDecoder → Prop
  | new : Fresh d₀ d₀
  | reset {d : MessageDecoder} (h : Used d₀ d) : Fresh d₀ d.reset

/-- What stays the same of a decoder while it is used. -/
structure Suits (d₀ d : MessageDecoder) : Prop where
  layout : d.layout = d₀.layout
  legal : d.legal = d₀.legal
  order : d.order = d₀.order
  enabled : d.log.enabled = d₀.log.enabled
  fit : d.parts.Fit d₀.layout

/-- Decoding is reading with a stack. -/
theorem decode_eq_run (d : MessageDecoder) (window : Bytes) :
    let m := (Progress.start d.parts.nextCycle (.empty d.log.enabled)).run d.legal (Pair.all window)
    d.decode window = ({ d with parts := m.parts, log := m.log }, m.consumed) := by
  obtain ⟨hp, hl, hc⟩ := Progress.run_readParts d.legal
    (.start d.parts.nextCycle (.empty d.log.enabled)) window rfl
  dsimp only
  rw [hp, hl, hc, decode]
  simp [Progress.start]

/-- Reading does not change whether faults are logged. -/
theorem enabled_decode (d : MessageDecoder) (window : Bytes) :
    (d.decode window).1.log.enabled = d.log.enabled := by
  rw [decode_eq_run]
  exact Progress.enabled_run d.legal _ _

/-- Decoders in use have the tables of the one they come of and parts of the same layout. -/
theorem Used.suits {d₀ d : MessageDecoder} (h : Used d₀ d) (h₀ : d₀.parts.Fit d₀.layout) : d₀.Suits d := by
  induction h with
  | new => exact ⟨rfl, rfl, rfl, rfl, h₀⟩
  | @decode d _ window ih =>
    refine ⟨ih.layout, ih.legal, ih.order, (enabled_decode d window).trans ih.enabled, ?_⟩
    rw [decode_eq_run]
    exact ih.fit.nextCycle.run d.legal _ _
  | validate _ ih => exact ⟨ih.layout, ih.legal, ih.order, ih.enabled, ih.fit⟩
  | reset _ ih => exact ⟨ih.layout, ih.legal, ih.order, ih.enabled, ih.fit.clear.fit⟩

section Fresh

variable {layout : MessageLayout} {legal order : List Tag} {validating : Bool} {d : MessageDecoder}

/-- The parts of a new decoder are those of its layout. -/
theorem fit_make (layout : MessageLayout) (legal order : List Tag) (validating : Bool) :
    (make layout legal order validating).parts.Fit layout := by
  rintro (_ | _ | _) <;> exact fit_blank _

theorem untouched_make (layout : MessageLayout) (legal order : List Tag) (validating : Bool) :
    (make layout legal order validating).parts.Untouched layout := by
  refine ⟨fit_make _ legal order validating, ?_, ?_, ?_⟩
  · rintro (_ | _ | _) <;> exact nodes_blank _
  · rintro (_ | _ | _) <;> rfl
  · have (members : List Member) : ∀ c ∈ members.map Cell.blank, c.stamp = 0 := by
      intro c hc
      obtain ⟨m, -, rfl⟩ := List.mem_map.1 hc
      cases m <;> rfl
    rintro (_ | _ | _) <;> exact this _

theorem Fresh.suits (h : Fresh (make layout legal order validating) d) :
    (make layout legal order validating).Suits d := by
  cases h with
  | new => exact Used.new.suits (fit_make _ _ _ _)
  | reset h => exact h.reset.suits (fit_make _ _ _ _)

/-- Nothing shows in a new or reset decoder of what it has been used for. -/
theorem Fresh.untouched (h : Fresh (make layout legal order validating) d) : d.parts.Untouched layout := by
  cases h with
  | new => exact untouched_make ..
  | reset h => exact (h.suits (fit_make _ _ _ _)).fit.clear

/-- A new or reset decoder starts to read where the flat machine does. -/
theorem Fresh.shows_start (h : Fresh (make layout legal order validating) d) (log : Log) :
    (Progress.start d.parts.nextCycle log).Shows layout (Machine.start layout) := by
  refine ⟨h.untouched.fit.nextCycle, fun part => ?_, .nil, .nil, rfl, rfl, rfl⟩
  exact (congrArg (fun a : Aggregate => nodes a.cells) (Parts.get_nextCycle d.parts part)).trans
    (h.untouched.nodes part)

/-- The decoder refines the flat machine : for every layout and every window of bytes, a new or reset decoder
ends with the values and the repetitions of the machine, and takes up as many bytes. -/
theorem decode_eq_flatly (h : Fresh (make layout legal order validating) d) (window : Bytes) :
    (∀ part, nodes ((d.decode window).1.part part).cells = (flatly layout window).parts part) ∧
      (d.decode window).2 = (flatly layout window).consumed := by
  have hs := (Progress.Shows.simulation layout d.legal).run (Pair.all window)
    (h.shows_start (.empty d.log.enabled))
  rw [decode_eq_run]
  exact ⟨hs.parts, hs.consumed⟩

/-- A message with a group of two repetitions, read by a decoder that has been used for its first half and
then reset. -/
theorem decode_eq_flatly_sample :
    let d₀ := Sample.codecs.newDecoder Sample.layout
    let d := (d₀.decode (Sample.window.take 33)).1.reset
    Fresh d₀ d ∧
      (∀ part, nodes ((d.decode Sample.window).1.part part).cells = (flatly Sample.layout Sample.window).parts part) ∧
      (d.decode Sample.window).2 = (flatly Sample.layout Sample.window).consumed ∧
      (flatly Sample.layout Sample.window).consumed = 73 := by
  intro d₀ d
  have hfresh : Fresh d₀ d := .reset (.decode .new (Sample.window.take 33))
  exact ⟨hfresh, (decode_eq_flatly hfresh _).1, (decode_eq_flatly hfresh _).2, by decide +kernel⟩

end Fresh

end MessageDecoder

end FixWire
