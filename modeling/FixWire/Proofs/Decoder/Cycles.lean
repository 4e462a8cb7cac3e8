import FixWire.Proofs.Decoder.Reuse

/-!
# Cycles that come round again

Cycles are counted with 32 bits, and 0 is left out, so that after 2 ^ 32 - 1 messages the count is where it was. A cell
that no message has written in the meantime then has the stamp of the new cycle, though it was written in an old one.

A decoder therefore reads as if the tags of such cells had been there already (`Parts.carried`, `Used.tracks_carried`).
Which tags these are is told by the histories of a decoder alone : a cell has the stamp of the latest message that has
its tag (`Since.timed`). So a decoder logs a tag as repeated if the message repeats it, and if the message has it once
and it is one of these (`MessageDecoder.duplicates_since_iff`). There is none among the first 2 ^ 32 - 1 messages.
-/

namespace FixWire

open Decoder

namespace Decoder

/-! ## Repeated claims -/

/-- How many pairs are the member of the aggregate with the tag. -/
def claims (events : List Event) (owner : Instance) (tag : Tag) : Nat :=
  events.countP fun e => e.claim? = some (owner, tag)

theorem claimed_iff_claims (events : List Event) {owner : Instance} {tag : Tag} :
    Claimed events owner tag ↔ 0 < claims events owner tag := by
  rw [claims, List.countP_pos_iff]
  simp [Claimed]

/-- An aggregate has a tag no more often than the message has it. -/
theorem claims_le (events : List Event) (owner : Instance) (tag : Tag) :
    claims events owner tag ≤ events.countP fun e => e.claim?.map Prod.snd = some tag :=
  List.countP_mono_left fun e _ he => by simp_all

/-- A pair gives the fault of a repeated tag if its aggregate has had the tag before it, and only then. -/
theorem Event.duplicate_mem_faults {legal : List Tag} {before : List Event} {e : Event} {tag : Tag} :
    .duplicate tag ∈ e.faults legal before ↔ ∃ owner, e.claim? = some (owner, tag) ∧ Claimed before owner tag := by
  have hagain (owner : Instance) (tag' : Tag) :
      .duplicate tag ∈ (if Claimed before owner tag' then [Fault.duplicate tag'] else []) ↔
        ∃ owner', some (owner, tag') = some (owner', tag) ∧ Claimed before owner' tag := by
    split
    · simp only [List.mem_singleton, Fault.duplicate.injEq, Option.some.injEq, Prod.mk.injEq]
      grind
    · simp only [List.not_mem_nil, Option.some.injEq, Prod.mk.injEq]
      grind
  rcases e with ⟨owner, slot, value⟩ | ⟨owner, slot, value⟩ | ⟨slot, _ | n, count⟩ | ⟨tag', inside⟩
  case field =>
    have hvalue : .duplicate tag ∉ valueFaults slot value := by
      unfold valueFaults
      split_ifs <;> simp
    rw [faults, List.mem_append, or_iff_left hvalue]
    exact hagain owner slot.tag
  case counter =>
    have hcounter : .duplicate tag ∉ counterFaults slot value := by
      unfold counterFaults
      split
      · simp
      · split_ifs <;> simp
    rw [faults, List.mem_append, or_iff_left hcounter]
    exact hagain owner slot.tag
  all_goals
    simp only [faults, claim?, unclaimedFault]
    repeat' split
    all_goals simp

/-- A tag is logged as repeated if it is claimed again for an aggregate, by the events or after those before them. -/
theorem duplicate_mem_faultsOf {legal : List Tag} {tag : Tag} (past events : List Event) :
    .duplicate tag ∈ faultsOf legal past events ↔
      ∃ owner, Claimed events owner tag ∧ (Claimed past owner tag ∨ 2 ≤ claims events owner tag) := by
  induction events generalizing past with
  | nil => simp [faultsOf, Claimed]
  | cons e rest ih =>
    rw [faultsOf, List.mem_append, Event.duplicate_mem_faults, ih, ← exists_or]
    refine exists_congr fun owner => ?_
    have hcount : claims (e :: rest) owner tag =
        claims rest owner tag + if e.claim? = some (owner, tag) then 1 else 0 := by
      simp [claims, List.countP_cons]
    simp only [claimed_concat, claimed_iff_claims (e :: rest), claimed_iff_claims rest, hcount]
    by_cases h : e.claim? = some (owner, tag)
    · rw [if_pos h]
      by_cases hp : Claimed past owner tag
      · simp [h, hp]
      · simp only [h, hp, true_and, true_or, and_true, or_true, false_or]
        omega
    · simp [h]

/-! ## The count of cycles -/

/-- The count of cycles after some messages. -/
def cycleAfter : Nat → Nat
  | 0 => 0
  | n + 1 => n % (UInt32.size - 1) + 1

theorem Aggregate.toNat_stamp_nextCycle_of_cycleAfter {a : Aggregate} {n : Nat} (h : a.stamp.toNat = cycleAfter n) :
    a.nextCycle.stamp.toNat = cycleAfter (n + 1) := by
  have hsize : UInt32.size - 1 = 4294967295 := rfl
  have hadd : (a.stamp + 1).toNat = (a.stamp.toNat + 1) % 4294967296 := UInt32.toNat_add _ _
  have hzero : a.stamp + 1 = 0 ↔ (a.stamp.toNat + 1) % 4294967296 = 0 := by
    rw [← UInt32.toNat_inj, hadd]
    rfl
  rw [nextCycle]
  dsimp only
  rw [apply_ite UInt32.toNat, hadd]
  rcases n with _ | n
  · rw [h, if_neg (by rw [hzero, h]; decide)]
    decide
  · rw [cycleAfter, hsize] at *
    split_ifs with h0
    · rw [hzero] at h0
      have hone : UInt32.toNat 1 = 1 := rfl
      omega
    · rw [hzero] at h0
      omega

/-- Two counts agree a whole number of rounds apart. -/
theorem cycleAfter_eq_iff {m n : Nat} (h : m ≤ n) :
    cycleAfter m = cycleAfter (n + 1) ↔ 0 < m ∧ UInt32.size - 1 ∣ n + 1 - m := by
  have hsize : UInt32.size - 1 = 4294967295 := rfl
  rcases m with _ | m
  · simp [cycleAfter]
  · rw [cycleAfter, cycleAfter, hsize]
    omega

/-! ## Stamps of old cycles -/

/-- The claim of a part that its cell has been written. -/
def Cell.claim (part : Part) : Cell → Event
  | .field slot _ _ => .field (.part part) slot []
  | .group slot _ _ _ _ => .counter (.part part) slot []

theorem Cell.claim?_claim (part : Part) (c : Cell) : (c.claim part).claim? = some (.part part, c.tag) := by
  cases c <;> rfl

/-- Claims for the tags whose cells have the stamps of their parts. -/
def Parts.carried (ps : Parts) : List Event :=
  [Part.header, .body, .trailer].flatMap fun part =>
    ((ps.get part).cells.filter fun c => (find? (ps.get part).cells c.tag).any (·.stamp == (ps.get part).stamp)).map
      (Cell.claim part)

/-- Among the tags that a part carries over are those of its cells with the stamp of its cycle, and no others. -/
theorem Parts.claimed_carried {ps : Parts} {part : Part} {tag : Tag} :
    Claimed ps.carried (.part part) tag ↔
      ∃ c, find? (ps.get part).cells tag = some c ∧ c.stamp = (ps.get part).stamp := by
  have hpart : part ∈ [Part.header, .body, .trailer] := by cases part <;> simp
  simp only [Claimed, carried, List.mem_flatMap, List.mem_map, List.mem_filter, Option.any_eq_true, beq_iff_eq]
  constructor
  · rintro ⟨_, ⟨q, -, c, ⟨-, c', hfind, hstamp⟩, rfl⟩, hclaim⟩
    rw [Cell.claim?_claim] at hclaim
    simp only [Option.some.injEq, Prod.mk.injEq, Instance.part.injEq] at hclaim
    obtain ⟨rfl, rfl⟩ := hclaim
    exact ⟨c', hfind, hstamp⟩
  · rintro ⟨c, hfind, hstamp⟩
    have htag : c.tag = tag := find?_tag hfind
    refine ⟨c.claim part, ⟨part, hpart, c, ⟨List.mem_of_find?_eq_some hfind, c, htag ▸ hfind, hstamp⟩, rfl⟩, ?_⟩
    rw [Cell.claim?_claim, htag]

theorem Parts.not_claimed_carried_repetition {ps : Parts} {n : Nat} {tag : Tag} :
    ¬Claimed ps.carried (.repetition n) tag := by
  rintro ⟨_, he, hclaim⟩
  simp only [carried, List.mem_flatMap, List.mem_map] at he
  obtain ⟨q, -, c, -, rfl⟩ := he
  rw [Cell.claim?_claim] at hclaim
  cases hclaim

/-! ## Claims of parts -/

/-- Only members of a part are claimed for it. -/
def Machine.Owned (l : MessageLayout) (s : Machine) : Prop :=
  ∀ part tag, Claimed s.events (.part part) tag → ∃ mem, memberOf? (l.part part).members tag = some mem

namespace Machine.Owned

variable {l : MessageLayout} {s : Machine}

/-- An event whose tag the part has as a member keeps the events owned. -/
theorem concat {s' : Machine} {e : Event} (h : s.Owned l) (hevents : s'.events = s.events ++ [e])
    (he : ∀ part tag, e.claim? = some (.part part, tag) → ∃ mem, memberOf? (l.part part).members tag = some mem) :
    s'.Owned l := by
  intro part tag hclaimed
  rw [hevents, claimed_concat] at hclaimed
  exact hclaimed.elim (h part tag) (he part tag)

theorem closeInner (h : s.Owned l) : s.closeInner.Owned l := by
  unfold Machine.closeInner
  split
  · exact h
  · dsimp only
    split
    · exact h.concat rfl nofun
    · exact h.concat rfl nofun

theorem giveGroup (h : s.Owned l) (p : Pair) : (s.giveGroup p).Owned l := by
  unfold Machine.giveGroup
  split
  · exact h
  · dsimp only
    split
    · exact h
    · refine h.concat rfl fun part tag hclaim => ?_
      rw [claim?_given] at hclaim
      cases hclaim

theorem givePart (h : s.Owned l) (part : Part) (p : Pair) : (s.givePart l part p).Owned l := by
  unfold Machine.givePart
  split
  · exact h
  next mem hmem =>
    refine h.concat rfl fun part' tag hclaim => ?_
    rw [claim?_given] at hclaim
    simp only [Option.some.injEq, Prod.mk.injEq, Instance.part.injEq] at hclaim
    obtain ⟨rfl, rfl⟩ := hclaim
    have htag : mem.tag = p.tag := by simpa using List.find?_some hmem
    exact ⟨mem, htag ▸ hmem⟩

/-- A decoder goes in step with the machine, and all events of the machine's parts are of their members. -/
theorem simulation (l : MessageLayout) (legal : List Tag) :
    Simulation l legal fun m s => m.Shows l s ∧ s.Owned l where
  shows h := h.1
  closeInner h := ⟨h.1.closeInner, h.2.closeInner⟩
  storeInGroup h hm ho := ⟨h.1.storeInGroup hm ho, h.2.giveGroup _⟩
  storeInPart h ho := ⟨h.1.storeInPart ho, h.2.givePart _ _⟩
  leaveOut p h := ⟨h.1.leaveOut legal p, h.2.concat rfl nofun⟩
  advance n h := ⟨h.1.advance n, h.2⟩

end Machine.Owned

end Decoder

namespace MessageDecoder

/-! ## Histories of any length -/

/-- The number of the latest message that has the tag in the part, counted from 1 and given the latest first; 0 if none
has it. -/
def latestOf (l : MessageLayout) (part : Part) (tag : Tag) : List Bytes → Nat
  | [] => 0
  | window :: earlier =>
    if Claimed (flatly l window).events (.part part) tag then earlier.length + 1 else latestOf l part tag earlier

/-- The number of the latest message that has the tag in the part. -/
def latest (l : MessageLayout) (windows : List Bytes) (part : Part) (tag : Tag) : Nat :=
  latestOf l part tag windows.reverse

/-- A message that has the tag is the latest one that has it. -/
theorem latest_concat (l : MessageLayout) (windows : List Bytes) (window : Bytes) (part : Part) (tag : Tag) :
    latest l (windows ++ [window]) part tag =
      if Claimed (flatly l window).events (.part part) tag then windows.length + 1 else latest l windows part tag := by
  rw [latest, List.reverse_append, List.reverse_singleton, List.singleton_append, latestOf, List.length_reverse]
  rfl

theorem latest_le (l : MessageLayout) (windows : List Bytes) (part : Part) (tag : Tag) :
    latest l windows part tag ≤ windows.length := by
  induction windows using List.reverseRecOn with
  | nil => exact Nat.le_refl 0
  | append_singleton windows window ih =>
    rw [latest_concat, List.length_append, List.length_singleton]
    split_ifs
    · exact Nat.le_refl _
    · exact Nat.le_succ_of_le ih

/-- The latest message with the tag in the part is a whole number of rounds before the next message. -/
def Worn (l : MessageLayout) (windows : List Bytes) (part : Part) (tag : Tag) : Prop :=
  0 < latest l windows part tag ∧ UInt32.size - 1 ∣ windows.length + 1 - latest l windows part tag

/-- The parts of a decoder are in the cycle of the latest of some messages, and their cells in those of the latest
messages that have them. -/
structure Timed (l : MessageLayout) (windows : List Bytes) (d : MessageDecoder) : Prop where
  stamp : ∀ part, (d.parts.get part).stamp.toNat = cycleAfter windows.length
  cells : ∀ part tag c, find? (d.parts.get part).cells tag = some c →
    c.stamp.toNat = cycleAfter (latest l windows part tag)

theorem timed_nil {l : MessageLayout} {d : MessageDecoder} (h : d.parts.Untouched l) : Timed l [] d := by
  refine ⟨fun part => by rw [h.stamp part]; rfl, fun part tag c hc => ?_⟩
  rw [h.stamps part c (List.mem_of_find?_eq_some hc)]
  rfl

section Cycles

variable {c : Codecs} {l : MessageLayout} {windows : List Bytes} {d : MessageDecoder}

/-- The stamps of the next cycle. -/
theorem Timed.stamp_nextCycle (h : Timed l windows d) (part : Part) :
    (d.parts.get part).nextCycle.stamp.toNat = cycleAfter (windows.length + 1) :=
  Aggregate.toNat_stamp_nextCycle_of_cycleAfter (h.stamp part)

/-- A cell has the stamp of the next cycle if its tag is worn. -/
theorem Timed.stamp_eq_iff (h : Timed l windows d) {part : Part} {tag : Tag} {cell : Cell}
    (hc : find? (d.parts.get part).cells tag = some cell) :
    cell.stamp = (d.parts.get part).nextCycle.stamp ↔ Worn l windows part tag := by
  rw [← UInt32.toNat_inj, h.cells part tag cell hc, h.stamp_nextCycle, cycleAfter_eq_iff (latest_le ..)]
  rfl

/-- The stamps that a cell of a part may have while a message is read : that of the cycle, and the one from before. -/
def Admits (d : MessageDecoder) (part : Part) (tag : Tag) (stamp : UInt32) : Prop :=
  stamp = (d.parts.get part).nextCycle.stamp ∨
    ∃ c, find? (d.parts.get part).cells tag = some c ∧ c.stamp = stamp

/-- The tag of a cell counts as having been there if the cell has the stamp of the next cycle. -/
theorem claimed_carried_iff {part : Part} {tag : Tag} {cell : Cell}
    (hc : find? (d.parts.get part).cells tag = some cell) :
    Claimed d.parts.nextCycle.carried (.part part) tag ↔ cell.stamp = (d.parts.get part).nextCycle.stamp := by
  rw [Parts.claimed_carried, Parts.get_nextCycle]
  refine ⟨?_, fun hstamp => ⟨cell, hc, hstamp⟩⟩
  rintro ⟨cell', hc', hstamp⟩
  rwa [Option.some.inj (hc.symm.trans hc')]

/-- A decoder reads as if the tags had been there whose cells have the stamps of the new cycle. -/
theorem Used.tracks_carried (hu : Used (c.newDecoder l) d) (hv : c.validating = true) (window : Bytes) :
    ((Progress.start d.parts.nextCycle (.empty d.log.enabled)).run d.legal (Pair.all window)).Tracks l d.legal
      d.parts.nextCycle.carried (fun part => (d.parts.get part).nextCycle.stamp) d.Admits
      ((flatly l window).above fun part => nodes (d.parts.get part).cells) := by
  exact hu.tracks_run hv _ d.Admits (fun _ _ => Parts.not_claimed_carried_repetition)
    (fun part tag cell hcell => (claimed_carried_iff hcell).symm) (fun part tag cell hcell => .inr ⟨cell, hcell, rfl⟩)
    (fun _ _ => .inl rfl) window

/-- A message has only tags of cells in a part. -/
theorem Used.exists_cell (hu : Used (c.newDecoder l) d) {window : Bytes} {part : Part} {tag : Tag}
    (h : Claimed (flatly l window).events (.part part) tag) :
    ∃ cell, find? (d.parts.get part).cells tag = some cell := by
  have hstart := (Fresh.new : Fresh (c.newDecoder l) (c.newDecoder l)).shows_start (.empty false)
  have howned : (Machine.start l).Owned l := by simp [Machine.Owned, Claimed, Machine.start]
  have hrun := (Machine.Owned.simulation l []).run (Pair.all window) ⟨hstart, howned⟩
  obtain ⟨mem, hmem⟩ := hrun.2 part tag h
  obtain ⟨cell, hcell, -⟩ := ((hu.suits (fit_make _ _ _ _)).fit part).find?_some hmem
  exact ⟨cell, hcell⟩

/-- A message that is decoded gives its stamp to the cells whose tags it has, and leaves the others those of the latest
message that had them. -/
theorem Timed.decode (h : Timed l windows d) (hu : Used (c.newDecoder l) d) (hv : c.validating = true)
    (window : Bytes) : Timed l (windows ++ [window]) (d.decode window).1 := by
  have hrun := hu.tracks_carried hv window
  rw [decode_eq_run]
  refine ⟨fun part => ?_, fun part tag cell hcell => ?_⟩
  · rw [hrun.current, h.stamp_nextCycle, List.length_append, List.length_singleton]
  · have hmarked := hrun.marked part tag cell hcell
    rw [hrun.current, claimed_append] at hmarked
    have hevents : ((flatly l window).above fun part => nodes (d.parts.get part).cells).events =
        (flatly l window).events := rfl
    rw [hevents] at hmarked
    rw [latest_concat]
    split_ifs with hclaimed
    · rw [hmarked.2 (.inr hclaimed), h.stamp_nextCycle]
    · -- A cell that this message does not have keeps its stamp, be it that of the new cycle.
      rcases hrun.admitted part tag cell hcell with hstamp | ⟨cell', hcell', hstamp⟩
      · have hcarried := (hmarked.1 hstamp).resolve_right hclaimed
        obtain ⟨cell', hcell', hstamp'⟩ := Parts.claimed_carried.1 hcarried
        rw [Parts.get_nextCycle] at hcell' hstamp'
        rw [hstamp, ← hstamp', h.cells part tag cell' hcell']
      · rw [← hstamp, h.cells part tag cell' hcell']

/-- The cells of a decoder have the stamps of the latest messages that have them. -/
theorem Since.timed (h : Since (c.newDecoder l) windows d) (hv : c.validating = true) : Timed l windows d := by
  induction h with
  | new => exact timed_nil (untouched_make _ _ _ _)
  | decode hs window ih => exact ih.decode hs.used hv window
  | validate _ ih => exact ⟨ih.stamp, ih.cells⟩
  | reset hs _ => exact timed_nil (hs.used.suits (fit_make _ _ _ _)).fit.clear

/-- No tag is worn before the cycles come round. -/
theorem not_worn (hlen : windows.length + 1 < UInt32.size) (part : Part) (tag : Tag) : ¬Worn l windows part tag := by
  rintro ⟨hpos, hdvd⟩
  have hle := latest_le l windows part tag
  have hsize : UInt32.size = 4294967296 := rfl
  have := Nat.le_of_dvd (by omega) hdvd
  omega

/-- A tag is logged as repeated if some aggregate of the message has it twice or a part has it and it is worn there, and
only then. -/
theorem Since.duplicate_mem_faults (h : Since (c.newDecoder l) windows d) (hv : c.validating = true) (window : Bytes)
    (tag : Tag) :
    .duplicate tag ∈ (d.decode window).1.log.faults ↔
      (∃ owner, 2 ≤ claims (flatly l window).events owner tag) ∨
        ∃ part, Claimed (flatly l window).events (.part part) tag ∧ Worn l windows part tag := by
  have hrun := h.used.tracks_carried hv window
  have hevents : ((flatly l window).above fun part => nodes (d.parts.get part).cells).events =
      (flatly l window).events := rfl
  have hcarried {part : Part} (hclaimed : Claimed (flatly l window).events (.part part) tag) :
      Claimed d.parts.nextCycle.carried (.part part) tag ↔ Worn l windows part tag := by
    obtain ⟨cell, hcell⟩ := h.used.exists_cell hclaimed
    exact (claimed_carried_iff hcell).trans ((h.timed hv).stamp_eq_iff hcell)
  rw [decode_eq_run, hrun.log.faults, duplicate_mem_faultsOf, hevents]
  constructor
  · rintro ⟨owner, hclaimed, hpast | hcount⟩
    · rcases owner with part | n
      · exact .inr ⟨part, hclaimed, (hcarried hclaimed).1 hpast⟩
      · exact absurd hpast Parts.not_claimed_carried_repetition
    · exact .inl ⟨owner, hcount⟩
  · rintro (⟨owner, hcount⟩ | ⟨part, hclaimed, hworn⟩)
    · exact ⟨owner, (claimed_iff_claims _).2 (by omega), .inr hcount⟩
    · exact ⟨.part part, hclaimed, .inl ((hcarried hclaimed).2 hworn)⟩

/-- A decoder that judges messages, whatever it has decoded and however often it has been reset, starts a message with
the stamp of the new cycle in the cells whose tags are worn. It logs a tag as repeated if some aggregate of the message
has it twice or a part has it and it is worn there, and only then. No tag is worn in the first 2 ^ 32 - 1 messages after
a reset. The decoders of a registry are such decoders, whatever the registry has been used for. -/
theorem duplicates_since_iff (hv : c.validating = true) :
    (∀ {l : MessageLayout} {windows : List Bytes} {d : MessageDecoder}, Since (c.newDecoder l) windows d →
      (∀ part tag cell, find? (d.parts.get part).cells tag = some cell →
        (cell.stamp = (d.parts.get part).nextCycle.stamp ↔ Worn l windows part tag)) ∧
      (∀ window tag, .duplicate tag ∈ (d.decode window).1.log.faults ↔
        (∃ owner, 2 ≤ claims (flatly l window).events owner tag) ∨
          ∃ part, Claimed (flatly l window).events (.part part) tag ∧ Worn l windows part tag) ∧
      (windows.length + 1 < UInt32.size → ∀ part tag, ¬Worn l windows part tag)) ∧
      ∀ {r : Registry} {type : Bytes} {d : MessageDecoder}, Registry.Used c.registry r → r.decoder? type = some d →
        ∃ l ∈ c.messages, ∃ windows, Since (c.newDecoder l) windows d := by
  refine ⟨fun {l windows d} h => ⟨fun part tag cell => (h.timed hv).stamp_eq_iff, h.duplicate_mem_faults hv,
    not_worn⟩, fun {r type d} hr hd => ?_⟩
  obtain ⟨l, hl, hused⟩ := hr.exists_layout hd
  obtain ⟨windows, hs⟩ := hused.exists_since
  exact ⟨l, List.mem_of_find?_eq_some hl, windows, hs⟩

/-- A message with a tag twice in one repetition, read after another one, and the decoder of a registry. -/
theorem duplicates_since_repeated :
    let d₀ := Sample.codecs.newDecoder Sample.layout
    let d := (d₀.decode Sample.window).1
    let next := Sample.bytes "8=F|9=5|35=S|555=1|600=A|602=B|602=C|55=D|10=000|"
    Sample.codecs.validating = true ∧ Since d₀ [Sample.window] d ∧
      .duplicate 602 ∈ (d.decode next).1.log.faults ∧ ¬Worn Sample.layout [Sample.window] .body 55 ∧
      ∃ r type found, Registry.Used Sample.codecs.registry r ∧ r.decoder? type = some found ∧
        ∃ l ∈ Sample.codecs.messages, ∃ windows, Since (Sample.codecs.newDecoder l) windows found := by
  intro d₀ d next
  have hv : Sample.codecs.validating = true := rfl
  have hsince : Since d₀ [Sample.window] d := .decode .new Sample.window
  obtain ⟨hdecoder, hregistry⟩ := duplicates_since_iff hv
  obtain ⟨-, hduplicate, hworn⟩ := hdecoder hsince
  have hcount : 2 ≤ claims (flatly Sample.layout next).events (.repetition 4) 602 := by decide +kernel
  have hnew : Registry.Used Sample.codecs.registry Sample.codecs.registry := .new
  obtain ⟨found, hfound, -⟩ := hnew.exists_decoder (Codecs.require_eq_ok_iff.1 Sample.require_layout).1
  exact ⟨hv, hsince, (hduplicate next 602).2 (.inl ⟨_, hcount⟩), hworn (by decide) .body 55, _, _, found, hnew, hfound,
    hregistry hnew hfound⟩

/-! ## A whole round -/

/-- A decoder goes on for any number of windows without anything in them. -/
theorem Since.exists_idle {d₀ : MessageDecoder} (h : Since d₀ windows d) (n : Nat) :
    ∃ d', Since d₀ (windows ++ List.replicate n []) d' := by
  induction n with
  | zero => exact ⟨d, by rwa [List.replicate_zero, List.append_nil]⟩
  | succ n ih =>
    obtain ⟨d', hd'⟩ := ih
    exact ⟨_, by rw [List.replicate_succ', ← List.append_assoc]; exact hd'.decode []⟩

/-- Windows without anything in them do not change which message had a tag last. -/
theorem latest_idle (n : Nat) (part : Part) (tag : Tag) :
    latest l (windows ++ List.replicate n []) part tag = latest l windows part tag := by
  induction n with
  | zero => rw [List.replicate_zero, List.append_nil]
  | succ n ih =>
    have hempty : (flatly l []).events = [] := by
      rw [flatly, Pair.all_of_read?_eq_none rfl]
      rfl
    rw [List.replicate_succ', ← List.append_assoc, latest_concat, ih, hempty, if_neg (by simp [Claimed])]

/-- A message that has the tag 8 once, in its header, is decoded, then 2 ^ 32 - 2 windows with nothing in them, and then
the message again : the decoder logs the tag as repeated. -/
theorem duplicates_since_round :
    ∃ windows d, Since (Sample.codecs.newDecoder Sample.layout) windows d ∧
      (∀ owner, claims (flatly Sample.layout Sample.window).events owner 8 ≤ 1) ∧
      .duplicate 8 ∈ (d.decode Sample.window).1.log.faults := by
  have hfirst : Since (Sample.codecs.newDecoder Sample.layout) [Sample.window] _ := .decode .new Sample.window
  obtain ⟨d, hd⟩ := hfirst.exists_idle (UInt32.size - 2)
  have hclaimed : Claimed (flatly Sample.layout Sample.window).events (.part .header) 8 := by decide +kernel
  have hlatest : latest Sample.layout [Sample.window] .header 8 = 1 := if_pos hclaimed
  have honce : (flatly Sample.layout Sample.window).events.countP (fun e => e.claim?.map Prod.snd = some 8) = 1 := by
    decide +kernel
  refine ⟨_, d, hd, fun owner => honce ▸ claims_le _ owner 8,
    (hd.duplicate_mem_faults rfl _ _).2 (.inr ⟨.header, hclaimed, ?_, ?_⟩)⟩
  · rw [latest_idle, hlatest]
    exact Nat.one_pos
  · rw [latest_idle, hlatest, List.length_append, List.length_replicate]
    exact ⟨1, rfl⟩

end Cycles

end MessageDecoder

end FixWire
