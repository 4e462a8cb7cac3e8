import FixWire.Proofs.Decoder.Judging
import FixWire.Proofs.Decoder.Reuse
import FixWire.Proofs.Layout.Header

/-!
# Pairs without a usable tag

The text of a tag that is no number of 32 bits counts as tag 0, and is looked up like any other tag. A pair with a tag
that a message does not have is left out wherever the decoder comes to it, even after the checksum in an open group :
the decoder holds afterwards what it holds without the pair, and if the dictionary does not have the tag either, the
message is rejected for it (`MessageDecoder.ignores_of_mentions`). This is so for all pairs without a usable tag if
the dictionary has no field with the number 0. A document may declare one, and then a pair with any such text is taken
for that field : what was to be left out without exception is left out only where no field has the number
(`Codecs.ignoresUnusable_iff`).
-/

namespace FixWire

open Decoder

/-! ## Windows without a pair -/

namespace Pair

/-- The text of the tag writes no number of at most 32 bits : it is empty, or not all of it are digits, or the number is
larger. -/
def Unusable (p : Pair) : Prop :=
  p.text = [] ∨ (∃ b ∈ p.text, Natural.isDigit b = false) ∨ tagLimit ≤ Natural.ofDigits p.text

theorem Unusable.tag_eq {p : Pair} (h : p.Unusable) : p.tag = 0 := by
  rw [tag, Natural.parse]
  split_ifs with htext
  · have hle : tagLimit ≤ Natural.ofDigits p.text := by
      rcases h with h | ⟨b, hb, hdigit⟩ | h
      · exact absurd h htext.1
      · rw [List.all_eq_true.1 htext.2.1 b hb] at hdigit
        cases hdigit
      · exact h
    exact if_neg (Nat.not_lt.2 hle)
  · rfl

/-- The window without the pair that comes after the others. -/
def cut (window : Bytes) (before : List Pair) (p : Pair) : Bytes :=
  window.take (widths before) ++ window.drop (widths before + p.width)

/-- Dropping as many bytes as come before a byte leaves it at the front. -/
theorem drop_length_takeWhile (f : UInt8 → Bool) : ∀ bytes : Bytes,
    bytes.drop (bytes.takeWhile f).length = bytes.dropWhile f
  | [] => rfl
  | b :: rest => by
    rw [List.takeWhile_cons, List.dropWhile_cons]
    cases f b with
    | true => exact drop_length_takeWhile f rest
    | false => rfl

/-- The first byte that stops is what comes behind those that do not. -/
theorem eq_of_dropWhile {bytes rest : Bytes} {b stop : UInt8} (h : bytes.dropWhile (· != stop) = b :: rest) :
    stop ∉ bytes.takeWhile (· != stop) ∧ bytes = bytes.takeWhile (· != stop) ++ stop :: rest := by
  have hb : b = stop := by
    have hhead := List.head?_dropWhile_not (· != stop) bytes
    rw [h] at hhead
    simpa using hhead
  subst hb
  refine ⟨fun hmem => ?_, by rw [← h, List.takeWhile_append_dropWhile]⟩
  simpa using List.all_eq_true.1 List.all_takeWhile _ hmem

/-- Only the last pair of a window may lack the end of its field. -/
theorem read?_cases {window rest : Bytes} {p : Pair} (h : read? window = some (p, rest)) :
    (p.Complete ∧ window = p.bytes ++ rest) ∨ rest = [] := by
  rw [read?] at h
  dsimp only at h
  rw [drop_length_takeWhile] at h
  split at h
  · cases h
  · rename_i b tail htail
    obtain ⟨htext, hwindow⟩ := eq_of_dropWhile htail
    rw [drop_length_takeWhile] at h
    split at h
    · cases h
      exact .inr rfl
    · rename_i b' tail' htail'
      obtain ⟨hvalue, htail⟩ := eq_of_dropWhile htail'
      cases h
      refine .inl ⟨⟨htext, hvalue, rfl⟩, ?_⟩
      rw [bytes]
      dsimp only
      conv_lhs => rw [hwindow, htail]
      simp

/-- A complete pair is read before those behind it. -/
theorem Complete.all_append {p : Pair} (h : p.Complete) (rest : Bytes) : all (p.bytes ++ rest) = p :: all rest := by
  obtain ⟨text, value, ended⟩ := p
  obtain ⟨htext, hvalue, rfl⟩ := h
  exact all_of_read?_eq_some (read?_field htext hvalue rest)

/-- The first of the pairs of a window is the one that is read. -/
theorem exists_read? {window : Bytes} {p : Pair} {ps : List Pair} (h : all window = p :: ps) :
    ∃ rest, read? window = some (p, rest) ∧ all rest = ps := by
  cases hread : read? window with
  | none =>
    rw [all_of_read?_eq_none hread] at h
    cases h
  | some pr =>
    obtain ⟨p', rest⟩ := pr
    rw [all_of_read?_eq_some hread] at h
    obtain ⟨rfl, rfl⟩ := List.cons.inj h
    exact ⟨rest, rfl, rfl⟩

/-- A pair is as wide as what is read of the window. -/
theorem drop_width {window rest : Bytes} {p : Pair} (h : read? window = some (p, rest)) :
    window.drop p.width = rest := by
  rcases read?_cases h with ⟨hp, rfl⟩ | rfl
  · rw [← hp.length_bytes, List.drop_left]
  · exact List.drop_eq_nil_of_le (Nat.le_of_eq ((length_read? h).symm.trans (Nat.zero_add _)))

/-- The pairs of the window without the pair are the other ones. -/
theorem all_cut {p : Pair} {after : List Pair} : ∀ {before : List Pair} {window : Bytes},
    all window = before ++ p :: after → all (cut window before p) = before ++ after
  | [], window, h => by
    obtain ⟨rest, hread, hrest⟩ := exists_read? h
    rw [cut, widths, List.take_zero, Nat.zero_add, drop_width hread]
    exact hrest
  | q :: before, window, h => by
    obtain ⟨rest, hread, hrest⟩ := exists_read? h
    obtain ⟨hq, rfl⟩ : q.Complete ∧ window = q.bytes ++ rest := by
      rcases read?_cases hread with hq | rfl
      · exact hq
      · rw [all_of_read?_eq_none rfl] at hrest
        exact absurd hrest.symm (by simp)
    have hcut : cut (q.bytes ++ rest) (q :: before) p = q.bytes ++ cut rest before p := by
      rw [cut, cut, widths, Nat.add_assoc, ← hq.length_bytes, List.take_length_add_append, List.drop_length_add_append,
        List.append_assoc]
    rw [hcut, hq.all_append, all_cut hrest, List.cons_append]

end Pair

namespace Decoder

/-! ## Reading on -/

namespace Progress

/-- Later in reading : `n` more bytes have been read, and no fault that has been logged is forgotten. -/
structure Later (n : Nat) (m m' : Progress) : Prop where
  consumed : m'.consumed = m.consumed + n
  faults : m.log.faults ⊆ m'.log.faults

namespace Later

/-- A progress is later than itself by nothing. -/
theorem refl (m : Progress) : Later 0 m m :=
  ⟨rfl, fun _ h => h⟩

/-- Being later adds up. -/
theorem trans {k n : Nat} {m m' m'' : Progress} (h : Later k m m') (h' : Later n m' m'') : Later (k + n) m m'' :=
  ⟨by rw [h'.consumed, h.consumed, Nat.add_assoc], fun _ hf => h'.faults (h.faults hf)⟩

/-- Taking bytes makes a progress later. -/
theorem advance {n : Nat} {m m' : Progress} (h : Later 0 m m') : Later n m { m' with consumed := m'.consumed + n } :=
  ⟨congrArg (· + n) h.consumed, h.faults⟩

end Later

/-- A log keeps its faults when others are added. -/
theorem faults_add (log : Log) (faults : List Fault) : log.faults ⊆ (log.add faults).faults := by
  unfold Log.add
  split_ifs
  · exact List.subset_append_left _ _
  · exact fun _ h => h

/-- Closing a group keeps the log and takes no bytes. -/
theorem later_closeInner (m : Progress) : Later 0 m m.closeInner := by
  unfold closeInner
  split
  · exact .refl m
  · exact ⟨rfl, faults_add _ _⟩
  · exact ⟨rfl, faults_add _ _⟩

theorem later_close : ∀ (n : Nat) (m : Progress), Later 0 m (m.close n)
  | 0, m => .refl m
  | n + 1, m => m.later_closeInner.trans (later_close n _)

/-- So does closing all groups. -/
theorem later_closeAll (m : Progress) : Later 0 m m.closeAll :=
  later_close _ m

/-- So does storing a pair in a group. -/
theorem later_storeInGroup (m : Progress) (p : Pair) : Later 0 m (m.storeInGroup p) := by
  unfold storeInGroup
  split
  · exact .refl m
  · exact ⟨rfl, faults_add _ _⟩

/-- So does storing a pair in a part. -/
theorem later_storeInPart (m : Progress) (part : Part) (p : Pair) : Later 0 m (m.storeInPart part p) :=
  ⟨rfl, faults_add (m.log.see p.tag) _⟩

/-- So does leaving a pair out. -/
theorem later_leaveOut (m : Progress) (legal : List Tag) (p : Pair) : Later 0 m (m.leaveOut legal p) := by
  unfold leaveOut
  dsimp only
  split_ifs
  · exact ⟨rfl, faults_add (m.log.see p.tag) _⟩
  · exact ⟨rfl, faults_add m.log _⟩

variable {legal : List Tag} {m m' : Progress} {p : Pair}

/-- A step takes the bytes of its pair. -/
theorem later_step (h : m.step legal p = some m') : Later p.width m m' := by
  unfold step at h
  dsimp only at h
  split at h
  · cases h
    exact ((later_close _ m).trans (later_storeInGroup _ p)).advance
  · split at h
    · split_ifs at h
      cases h
      exact (m.later_closeAll.trans (later_storeInPart _ _ p)).advance
    · split_ifs at h
      cases h
      exact (m.later_leaveOut legal p).advance

/-- A run takes bytes, and keeps the log. -/
theorem later_run : ∀ (pairs : List Pair) (m : Progress), ∃ n, Later n m (m.run legal pairs)
  | [], m => ⟨0, m.later_closeAll⟩
  | p :: rest, m => by
    rw [run]
    split
    · rename_i h
      obtain ⟨n, hn⟩ := later_run rest _
      exact ⟨_, (later_step h).trans hn⟩
    · exact ⟨0, m.later_closeAll⟩

/-- Before the checksum no pair ends the message. -/
theorem exists_step_of_summed (legal : List Tag) (h : m.summed = false) (p : Pair) :
    ∃ next, m.step legal p = some next := by
  unfold step
  cases m.ownerDepth? p.tag with
  | some depth => exact ⟨_, rfl⟩
  | none =>
    simp only [h, Bool.false_and, Bool.false_eq_true, if_false]
    cases m.parts.owner? p.tag <;> exact ⟨_, rfl⟩

variable {l : MessageLayout}

/-- If reading goes on beyond the beginning of a pair, it comes to the pair and reads it. -/
theorem exists_reached {after : List Pair} : ∀ {before : List Pair} {m : Progress} {s : Machine}, m.Shows l s →
    m.consumed + Pair.widths before < (m.run legal (before ++ p :: after)).consumed →
    ∃ (m' : Progress) (s' : Machine) (next : Progress),
      m'.Shows l s' ∧ m'.step legal p = some next ∧ ∀ ps, m.run legal (before ++ ps) = m'.run legal ps
  | [], m, s, hs, hlt => by
    rw [List.nil_append, run] at hlt
    cases hstep : m.step legal p with
    | none =>
      simp only [hstep, m.later_closeAll.consumed, Pair.widths] at hlt
      exact absurd hlt (Nat.lt_irrefl _)
    | some next => exact ⟨m, s, next, hs, hstep, fun _ => rfl⟩
  | q :: before, m, s, hs, hlt => by
    rw [List.cons_append, run, Pair.widths] at hlt
    cases hstep : m.step legal q with
    | none =>
      simp only [hstep, m.later_closeAll.consumed] at hlt
      omega
    | some m₁ =>
      have hrel := (Shows.simulation l legal).step hs q
      rw [hstep] at hrel
      generalize s.step l q = s₁ at hrel
      cases hrel with
      | some hs₁ =>
        have hconsumed := (later_step hstep).consumed
        simp only [hstep] at hlt
        have hlt₁ : m₁.consumed + Pair.widths before < (m₁.run legal (before ++ p :: after)).consumed := by
          omega
        obtain ⟨m', s', next, hs', hnext, hrun⟩ := exists_reached hs₁ hlt₁
        exact ⟨m', s', next, hs', hnext, fun ps => (run_of_step hstep _).trans (hrun ps)⟩

/-- A pair with a tag that the message does not have is left out wherever it is read, and is logged. -/
theorem ahead_of_step {s : Machine} {next : Progress} (hs : m.Shows l s) (htag : l.mentions p.tag = false)
    (h : m.step legal p = some next) :
    m.Ahead p.width next ∧ (m.log.enabled = true → unclaimedFault legal p.tag ∈ next.log.faults) := by
  unfold step at h
  rw [hs.ownerDepth?_eq_none htag, hs.owner?_eq_none htag] at h
  dsimp only at h
  split_ifs at h
  cases h
  refine ⟨⟨_, by rw [leaveOut]⟩, fun henabled => ?_⟩
  rw [leaveOut]
  dsimp only
  rw [Log.add, if_pos (by split_ifs <;> exact henabled)]
  exact List.mem_append_right _ (List.mem_singleton.2 rfl)

end Progress

/-- What is found first among the faults, if one of them is of the sort that is looked for. -/
theorem map_snd_findSome? {f : Fault → Option (Tag × RejectReason)} {faults : List Fault} {fault : Fault}
    {reason : RejectReason} (h : fault ∈ faults) (hfault : (f fault).isSome)
    (hreason : ∀ fault failure, f fault = some failure → failure.2 = reason) (rest : Option (Tag × RejectReason)) :
    ((faults.findSome? f).or rest).map Prod.snd = some reason := by
  obtain ⟨failure, hfailure⟩ := Option.isSome_iff_exists.1 (List.findSome?_isSome_iff.2 ⟨fault, h, hfault⟩)
  obtain ⟨fault', -, hfault'⟩ := List.exists_of_findSome?_eq_some hfailure
  rw [hfailure, Option.some_or, Option.map_some, hreason fault' failure hfault']

/-- If an invalid tag has been logged, it is the reason to reject the message, unless the message does not start with
the tags in order. -/
theorem Log.reason?_judge {log : Log} {tag : Tag} (henabled : log.enabled = true) (h : .invalidTag tag ∈ log.faults)
    (order : List Tag) (missing : Option Tag) :
    (log.judge order missing).reason? = some (if (misplaced? order log.seen).isSome then
      .tagSpecifiedOutOfRequiredOrder else .invalidTagNumber) := by
  rw [judge, if_pos henabled, failure?, Outcome.reason?]
  cases misplaced? order log.seen with
  | some tag' => rfl
  | none =>
    simp only [Option.map_none, Option.none_or, Option.or_assoc]
    refine map_snd_findSome? h rfl (fun fault failure hfault => ?_) _
    cases fault with
    | invalidTag => cases hfault; rfl
    | _ => cases hfault

end Decoder

/-! ## Decoding -/

namespace MessageDecoder

/-- The decoder comes to the pair when it reads the window, after the others. -/
structure Reads (d : MessageDecoder) (window : Bytes) (before : List Pair) (p : Pair) (after : List Pair) : Prop where
  pairs : Pair.all window = before ++ p :: after
  reached : Pair.widths before < (d.decode window).2

/-- The decoder takes nothing from the pair. It is no field and no group of the message, at any depth, and every
value, counter and repetition is afterwards as it is without the pair. If the decoder judges the message, it rejects
it for an invalid tag, unless the message does not start with the tags in order. -/
structure Ignores (d : MessageDecoder) (window : Bytes) (before : List Pair) (p : Pair) : Prop where
  unclaimed : d.layout.mentions p.tag = false
  parts : ∀ part, (d.decode window).1.part part = (d.decode (Pair.cut window before p)).1.part part
  reason : d.log.enabled = true → (d.decode window).1.validate.outcome.reason? =
    some (if (Log.misplaced? d.order (d.decode window).1.log.seen).isSome then .tagSpecifiedOutOfRequiredOrder
      else .invalidTagNumber)

variable {capacity : Nat} {layout : MessageLayout} {legal order : List Tag} {validating : Bool} {d : MessageDecoder}
  {window : Bytes} {before after : List Pair} {p : Pair}

/-- A decoder, new or used, ignores every pair with a tag that the message does not have, and that is not legal either
if the decoder judges messages. -/
theorem ignores_of_mentions (hd : Used (.stocked capacity layout legal order validating) d)
    (hr : d.Reads window before p after) (htag : layout.mentions p.tag = false)
    (hlegal : validating = true → p.tag ∉ legal) : d.Ignores window before p := by
  have hsuits := hd.suits (fit_stocked _ _ _ _ _)
  have hstart := hsuits.fit.nextCycle.shows_start (.empty d.log.enabled)
  have hreached := hr.reached
  rw [decode_eq_run] at hreached
  dsimp only at hreached
  rw [hr.pairs] at hreached
  obtain ⟨m, s, next, hs, hnext, hrun⟩ := Progress.exists_reached hstart (by simpa [Progress.start] using hreached)
  obtain ⟨hahead, hfault⟩ := Progress.ahead_of_step hs htag hnext
  have hwith : (Progress.start d.parts.nextCycle (.empty d.log.enabled)).run d.legal (Pair.all window) =
      next.run d.legal after := by
    rw [hr.pairs, hrun, Progress.run_of_step hnext]
  have hwithout : (Progress.start d.parts.nextCycle (.empty d.log.enabled)).run d.legal
      (Pair.all (Pair.cut window before p)) = m.run d.legal after := by
    rw [Pair.all_cut hr.pairs, hrun]
  have henabled : m.log.enabled = d.log.enabled := by
    rw [← Progress.enabled_run d.legal after m, ← hrun, Progress.enabled_run]
    rfl
  refine ⟨hsuits.layout ▸ htag, fun part => ?_, fun h => ?_⟩
  · rw [decode_eq_run, decode_eq_run, hwith, hwithout]
    exact congrArg (Parts.get · part) (hahead.run d.legal after).parts
  · have hmem : p.tag ∉ d.legal := hsuits.legal ▸ hlegal (hsuits.enabled.symm.trans h)
    have hinvalid : Fault.invalidTag p.tag ∈ (next.run d.legal after).log.faults := by
      obtain ⟨n, hlater⟩ := Progress.later_run after next
      refine hlater.faults ?_
      have hlogged := hfault (henabled.trans h)
      rwa [unclaimedFault, if_neg (by simpa using hmem)] at hlogged
    rw [decode_eq_run, hwith]
    refine Log.reason?_judge ?_ hinvalid _ _
    rw [← hwith, Progress.enabled_run]
    exact h

end MessageDecoder

end FixWire
