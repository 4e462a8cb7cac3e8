import FixWire.Proofs.Decoder.Reset
import FixWire.Proofs.RoundTrip.Cells

/-!
# Pairs with unknown tags

A pair whose tag belongs to nothing in a message is left out, wherever it stands : between fields, after a counter,
after a delimiter, or anywhere inside nested repetitions. Pairs like this can be inserted into a message before its
checksum and change nothing of what a decoder holds afterwards (`MessageDecoder.decode_inserted`).

Two decoders are followed, one of which is given the pairs that are inserted. They go on holding the same parts and the
same open groups (`Progress.Ahead`) : a pair that both are given takes both the same way, and one that is inserted
closes no group and opens no repetition, since the tags of all open groups are tags of the layout
(`Progress.Shows.ownerDepth?_eq_none`).
-/

namespace FixWire

open Decoder

/-! ## Tags at any depth -/

mutual

/-- Whether the tag is that of the member, or of one at any depth inside it. -/
def Member.mentions (tag : Tag) : Member → Bool
  | .field slot => slot.tag == tag
  | .group slot body => slot.tag == tag || mention tag body

/-- Whether the tag is that of one of the members, or of one at any depth inside them. -/
def mention (tag : Tag) : List Member → Bool
  | [] => false
  | m :: rest => m.mentions tag || mention tag rest

end

/-- Whether the message has the tag, in one of its parts or in a group at any depth. -/
def MessageLayout.mentions (l : MessageLayout) (tag : Tag) : Bool :=
  [Part.header, .body, .trailer].any fun part => mention tag (l.part part).members

theorem mention_of_mem {tag : Tag} {m : Member} (h : m.mentions tag) : ∀ {members : List Member}, m ∈ members →
    mention tag members
  | m' :: rest, hm => by
    rw [mention, Bool.or_eq_true]
    rcases List.mem_cons.1 hm with rfl | hm
    · exact .inl h
    · exact .inr (mention_of_mem h hm)

/-- A member mentions its own tag. -/
theorem Member.mentions_tag (m : Member) : m.mentions m.tag := by
  cases m <;> simp [mentions, tag]

/-- Members mention the tags that they have. -/
theorem mention_of_owns {tag : Tag} {members : List Member} (h : owns members tag) : mention tag members := by
  obtain ⟨m, hm, htag⟩ := List.any_eq_true.1 h
  obtain rfl := beq_iff_eq.1 htag
  exact mention_of_mem m.mentions_tag hm

/-- A layout mentions the tags of its parts. -/
theorem MessageLayout.mentions_of_mention {l : MessageLayout} {tag : Tag} {part : Part}
    (h : mention tag (l.part part).members) : l.mentions tag :=
  List.any_eq_true.2 ⟨part, by cases part <;> simp, h⟩

/-! ## Pairs as bytes -/

namespace Pair

/-- The bytes of the pair with the end of its field. -/
def bytes (p : Pair) : Bytes :=
  p.text ++ equalsSign :: p.value ++ [soh]

/-- The pair ends with the end of its field, which is not in its value, and there is no equals sign in the text of its
tag. -/
def Complete (p : Pair) : Prop :=
  equalsSign ∉ p.text ∧ soh ∉ p.value ∧ p.ended = true

instance (p : Pair) : Decidable p.Complete :=
  inferInstanceAs (Decidable (_ ∧ _))

/-- A complete pair is as wide as its bytes. -/
theorem Complete.length_bytes {p : Pair} (h : p.Complete) : p.bytes.length = p.width := by
  rw [bytes, width, h.2.2]
  simp
  omega

/-- The pairs are read back from their bytes. -/
theorem all_flatMap_bytes : ∀ {ps : List Pair}, (∀ p ∈ ps, p.Complete) → all (ps.flatMap bytes) = ps
  | [], _ => all_of_read?_eq_none rfl
  | p :: rest, h => by
    obtain ⟨hp, hrest⟩ := List.forall_mem_cons.1 h
    obtain ⟨text, value, ended⟩ := p
    obtain ⟨htext, hvalue, rfl⟩ := hp
    rw [List.flatMap_cons, bytes, all_of_read?_eq_some (read?_field htext hvalue _), all_flatMap_bytes hrest]

/-- The number of bytes that some pairs take up. -/
def widths : List Pair → Nat
  | [] => 0
  | p :: rest => p.width + widths rest

/-- Complete pairs are as wide as their bytes. -/
theorem length_flatMap_bytes : ∀ {ps : List Pair}, (∀ p ∈ ps, p.Complete) → (ps.flatMap bytes).length = widths ps
  | [], _ => rfl
  | p :: rest, h => by
    obtain ⟨hp, hrest⟩ := List.forall_mem_cons.1 h
    rw [List.flatMap_cons, List.length_append, hp.length_bytes, length_flatMap_bytes hrest, widths]

end Pair

/-! ## Inserted pairs -/

/-- The second pairs are the first ones with some inserted whose tags the message does not have. They are inserted
before the first checksum, or anywhere if there is no checksum. -/
inductive Inserted (l : MessageLayout) : List Pair → List Pair → Prop
  | done (ps : List Pair) : Inserted l ps ps
  | keep {p : Pair} {ps ps' : List Pair} (hsum : l.isSum .trailer p.tag = false) (h : Inserted l ps ps') :
    Inserted l (p :: ps) (p :: ps')
  | insert {p : Pair} {ps ps' : List Pair} (hp : l.mentions p.tag = false) (h : Inserted l ps ps') :
    Inserted l ps (p :: ps')

/-- Some pairs before the checksum are the same in both. -/
theorem Inserted.append {l : MessageLayout} {ps ps' : List Pair} (h : Inserted l ps ps') : ∀ {kept : List Pair},
    (∀ p ∈ kept, l.isSum .trailer p.tag = false) → Inserted l (kept ++ ps) (kept ++ ps')
  | [], _ => h
  | _ :: _, hsum => .keep (List.forall_mem_cons.1 hsum).1 (h.append (List.forall_mem_cons.1 hsum).2)

/-- No pair is lost where some are inserted. -/
theorem Inserted.subset {l : MessageLayout} {ps ps' : List Pair} (h : Inserted l ps ps') : ps ⊆ ps' := by
  induction h with
  | done => exact fun _ hp => hp
  | keep _ _ ih => exact List.cons_subset_cons _ ih
  | insert _ _ ih => exact fun _ hp => List.mem_cons_of_mem _ (ih hp)

namespace Decoder

/-! ## Tags of open groups -/

/-- The tags of an open group are tags of the part that the outermost one belongs to. -/
theorem Nested.mention {members : List Member} {frames : List Frame} {tag : Tag} (h : Nested members frames) :
    ∀ f ∈ frames, mention tag f.body → FixWire.mention tag members := by
  have hinner {f : Frame} {ms : List Member} (hm : memberOf? ms f.slot.tag = some f.member)
      (hf : FixWire.mention tag f.body) : FixWire.mention tag ms := by
    refine mention_of_mem ?_ (List.mem_of_find?_eq_some hm)
    rw [Frame.member, Member.mentions, hf, Bool.or_true]
  induction h with
  | nil => simp
  | outermost h => simpa using hinner h
  | inside h _ _ ih =>
    rw [List.forall_mem_cons] at ih ⊢
    exact ⟨fun hf => ih.1 (hinner h hf), List.forall_mem_cons.2 ih⟩

namespace Progress.Shows

variable {l : MessageLayout} {m : Progress} {s : Machine} {tag : Tag}

/-- No open group has a tag that the message does not have. -/
theorem ownerDepth?_eq_none (h : m.Shows l s) (htag : l.mentions tag = false) : m.ownerDepth? tag = none := by
  rw [h.ownerDepth?, Machine.ownerDepth?, List.findIdx?_eq_none_iff]
  intro f hf
  rw [Bool.eq_false_iff]
  intro ho
  have hmention := MessageLayout.mentions_of_mention (h.nested.mention f hf (mention_of_owns ho))
  rw [htag] at hmention
  cases hmention

/-- Neither has a part. -/
theorem owner?_eq_none (h : m.Shows l s) (htag : l.mentions tag = false) : m.parts.owner? tag = none := by
  rw [h.owner?, MessageLayout.owner?, List.find?_eq_none]
  intro part _ ho
  have hmention := MessageLayout.mentions_of_mention (mention_of_owns ho)
  rw [htag] at hmention
  cases hmention

end Progress.Shows

/-! ## Two decoders -/

namespace Progress

/-- The second decoder has read `n` bytes more than the first, and differs from it in nothing else but its log. -/
def Ahead (n : Nat) (m m' : Progress) : Prop :=
  ∃ log, m' = { m with log, consumed := m.consumed + n }

namespace Ahead

variable {n : Nat} {m m' : Progress}

/-- No progress is ahead of itself. -/
theorem refl (m : Progress) : m.Ahead 0 m :=
  ⟨m.log, rfl⟩

/-- Being ahead adds up. -/
theorem trans {n' : Nat} {m'' : Progress} (h : m.Ahead n m') (h' : m'.Ahead n' m'') : m.Ahead (n + n') m'' := by
  obtain ⟨log, rfl⟩ := h
  obtain ⟨log', rfl⟩ := h'
  exact ⟨log', by simp only [Nat.add_assoc]⟩

theorem parts (h : m.Ahead n m') : m'.parts = m.parts := by
  obtain ⟨log, rfl⟩ := h
  rfl

theorem opened (h : m.Ahead n m') : m'.opened = m.opened := by
  obtain ⟨log, rfl⟩ := h
  rfl

theorem summed (h : m.Ahead n m') : m'.summed = m.summed := by
  obtain ⟨log, rfl⟩ := h
  rfl

theorem consumed (h : m.Ahead n m') : m'.consumed = m.consumed + n := by
  obtain ⟨log, rfl⟩ := h
  rfl

/-- Groups are open as deep in both. -/
theorem ownerDepth? (h : m.Ahead n m') (tag : Tag) : m'.ownerDepth? tag = m.ownerDepth? tag := by
  rw [Progress.ownerDepth?, h.opened, Progress.ownerDepth?]

/-- The innermost group may be closed in both. -/
theorem closeInner (h : m.Ahead n m') : m.closeInner.Ahead n m'.closeInner := by
  obtain ⟨log, rfl⟩ := h
  obtain ⟨parts, opened, base, summed, log', consumed⟩ := m
  rcases opened with _ | ⟨g, _ | ⟨outer, rest⟩⟩ <;> exact ⟨_, rfl⟩

theorem close : ∀ (k : Nat) {m m' : Progress}, m.Ahead n m' → (m.close k).Ahead n (m'.close k)
  | 0, _, _, h => h
  | k + 1, _, _, h => close k h.closeInner

/-- All groups may be closed in both. -/
theorem closeAll (h : m.Ahead n m') : m.closeAll.Ahead n m'.closeAll := by
  obtain ⟨log, rfl⟩ := h
  exact close _ ⟨log, rfl⟩

/-- A pair may be stored in the innermost group in both. -/
theorem storeInGroup (h : m.Ahead n m') (p : Pair) : (m.storeInGroup p).Ahead n (m'.storeInGroup p) := by
  obtain ⟨log, rfl⟩ := h
  obtain ⟨parts, opened, base, summed, log', consumed⟩ := m
  cases opened <;> exact ⟨_, rfl⟩

/-- A pair may be stored in a part in both. -/
theorem storeInPart (h : m.Ahead n m') (part : Part) (p : Pair) :
    (m.storeInPart part p).Ahead n (m'.storeInPart part p) := by
  obtain ⟨log, rfl⟩ := h
  exact ⟨_, rfl⟩

/-- A pair may be left out in both. -/
theorem leaveOut (h : m.Ahead n m') (legal : List Tag) (p : Pair) :
    (m.leaveOut legal p).Ahead n (m'.leaveOut legal p) := by
  obtain ⟨log, rfl⟩ := h
  exact ⟨_, rfl⟩

/-- As many bytes may be taken in both. -/
theorem advance (h : m.Ahead n m') (k : Nat) :
    Ahead n { m with consumed := m.consumed + k } { m' with consumed := m'.consumed + k } := by
  obtain ⟨log, rfl⟩ := h
  exact ⟨log, by simp only [Nat.add_right_comm]⟩

/-- A pair that both are given leads both on or ends the message for both. -/
theorem step (h : m.Ahead n m') (legal : List Tag) (p : Pair) :
    Option.Rel (Ahead n) (m.step legal p) (m'.step legal p) := by
  unfold Progress.step
  rw [h.ownerDepth?, h.parts, h.opened, h.summed]
  cases m.ownerDepth? p.tag with
  | some depth => exact .some ((h.close depth).storeInGroup p |>.advance _)
  | none =>
    cases m.parts.owner? p.tag with
    | some part =>
      dsimp only
      split_ifs
      · exact .none
      · exact .some (h.closeAll.storeInPart part p |>.advance _)
    | none =>
      dsimp only
      split_ifs
      · exact .none
      · exact .some (h.leaveOut legal p |>.advance _)

/-- A run keeps one progress ahead of the other. -/
theorem run (legal : List Tag) : ∀ (ps : List Pair) {m m' : Progress}, m.Ahead n m' →
    (m.run legal ps).Ahead n (m'.run legal ps)
  | [], _, _, h => h.closeAll
  | p :: rest, m, m', h => by
    have hstep := h.step legal p
    rw [Progress.run, Progress.run]
    revert hstep
    generalize m.step legal p = next, m'.step legal p = next'
    rintro (h' | _)
    · exact run legal rest h'
    · exact h.closeAll

end Ahead

/-! ## Before the checksum -/

/-- Closing groups reads no checksum. -/
theorem summed_close : ∀ (n : Nat) (m : Progress), (m.close n).summed = m.summed
  | 0, _ => rfl
  | n + 1, m => (summed_close n m.closeInner).trans m.summed_closeInner

/-- Storing in a group reads no checksum. -/
theorem summed_storeInGroup (m : Progress) (p : Pair) : (m.storeInGroup p).summed = m.summed := by
  unfold storeInGroup
  split <;> rfl

variable {l : MessageLayout} {legal : List Tag} {m : Progress} {s : Machine} {p : Pair}

/-- Before the checksum a message does not end, and a pair that is not the checksum does not change that. -/
theorem exists_step (legal : List Tag) (hs : m.Shows l s) (hsummed : m.summed = false) (hsum : l.isSum .trailer p.tag = false) :
    ∃ next : Progress, m.step legal p = some next ∧ next.summed = false ∧ ∃ s', next.Shows l s' := by
  have hnone (part : Part) : l.isSum part p.tag = false := by
    cases part with
    | trailer => exact hsum
    | header => rfl
    | body => rfl
  obtain ⟨next, hnext, hfalse⟩ : ∃ next, m.step legal p = some next ∧ next.summed = false := by
    unfold step
    cases m.ownerDepth? p.tag with
    | some depth => exact ⟨_, rfl, by dsimp only; rw [summed_storeInGroup, summed_close, hsummed]⟩
    | none =>
      cases m.parts.owner? p.tag with
      | some part =>
        have hclosed := (Shows.simulation l legal).closeAll hs
        simp only [hsummed, Bool.false_and, Bool.false_eq_true, if_false]
        refine ⟨_, rfl, ?_⟩
        rw [storeInPart, hclosed.isSum, hnone, Bool.or_false]
        exact (summed_close _ m).trans hsummed
      | none =>
        simp only [hsummed, Bool.false_and, Bool.false_eq_true, if_false]
        exact ⟨_, rfl, hsummed⟩
  have hstep := (Shows.simulation l legal).step hs p
  rw [hnext] at hstep
  generalize s.step l p = next' at hstep
  cases hstep with
  | some hshows => exact ⟨next, hnext, hfalse, _, hshows⟩

/-- A pair with a tag that the message does not have is left out : nothing changes but the log and the number of bytes
that have been read. -/
theorem ahead_step (legal : List Tag) (hs : m.Shows l s) (hsummed : m.summed = false) (htag : l.mentions p.tag = false) :
    ∃ next, m.step legal p = some next ∧ m.Ahead p.width next := by
  unfold step
  rw [hs.ownerDepth?_eq_none htag, hs.owner?_eq_none htag]
  simp only [hsummed, Bool.false_and, Bool.false_eq_true, if_false]
  exact ⟨_, rfl, _, by rw [leaveOut]⟩

/-- A run begins with its first step. -/
theorem run_of_step {m next : Progress} (h : m.step legal p = some next) (ps : List Pair) :
    m.run legal (p :: ps) = next.run legal ps := by
  rw [run, h]

/-- Whatever is inserted, the same is read, and as many bytes more as are inserted. -/
theorem run_inserted (legal : List Tag) {ps ps' : List Pair} (h : Inserted l ps ps') : ∀ {n : Nat} {m m' : Progress} {s : Machine},
    m.Shows l s → m.summed = false → m.Ahead n m' →
      ∃ n', (m.run legal ps).Ahead n' (m'.run legal ps') ∧ n' + Pair.widths ps = n + Pair.widths ps' := by
  induction h with
  | done ps => exact fun _ _ ha => ⟨_, ha.run legal ps, rfl⟩
  | @keep p ps ps' hsum _ ih =>
    intro n m m' s hs hsummed ha
    obtain ⟨next, hnext, hfalse, s', hs'⟩ := exists_step legal hs hsummed hsum
    have hstep := ha.step legal p
    rw [hnext] at hstep
    generalize hnext' : m'.step legal p = step' at hstep
    cases hstep with
    | some ha' =>
      obtain ⟨n', hahead, hwidth⟩ := ih hs' hfalse ha'
      rw [run_of_step hnext, run_of_step hnext']
      refine ⟨n', hahead, ?_⟩
      rw [Pair.widths, Pair.widths]
      omega
  | @insert p ps ps' htag _ ih =>
    intro n m m' s hs hsummed ha
    -- The second decoder holds the same parts and open groups as the first, so it shows the same machine but for the
    -- number of bytes, and leaves the pair out.
    have hs' : m'.Shows l { s with consumed := m'.consumed } := by
      obtain ⟨log, rfl⟩ := ha
      exact ⟨hs.fit, hs.parts, hs.opened, hs.nested, hs.base, hs.summed, rfl⟩
    obtain ⟨next, hnext, ha'⟩ := ahead_step legal hs' (ha.summed.trans hsummed) htag
    obtain ⟨n', hahead, hwidth⟩ := ih hs hsummed (ha.trans ha')
    refine ⟨n', ?_, ?_⟩
    · rwa [run_of_step hnext]
    · rw [Pair.widths]
      omega

end Progress

end Decoder

/-! ## Decoding -/

/-- A pair of two texts. -/
def Sample.pair (text value : String) : Pair :=
  ⟨Bytes.ofString text, Bytes.ofString value, true⟩

namespace MessageDecoder

variable {capacity : Nat} {layout : MessageLayout} {legal order : List Tag} {validating : Bool} {d : MessageDecoder}
  {ps ps' : List Pair}

/-- Pairs with unknown tags make no difference. If such pairs are inserted into a message before its checksum, wherever
that is, a decoder holds the same parts afterwards, with all values, counters and repetitions, and takes up exactly as
many bytes more as there are more. The decoder may be new or used. -/
theorem decode_inserted (hd : Used (.stocked capacity layout legal order validating) d)
    (hcomplete : ∀ p ∈ ps', p.Complete) (h : Inserted layout ps ps') :
    let window := ps.flatMap Pair.bytes
    let window' := ps'.flatMap Pair.bytes
    (∀ part, (d.decode window').1.part part = (d.decode window).1.part part) ∧
      (d.decode window').2 + window.length = (d.decode window).2 + window'.length := by
  intro window window'
  have hcomplete₀ : ∀ p ∈ ps, p.Complete := fun p hp => hcomplete p (h.subset hp)
  have hfit : d.parts.Fit layout := (hd.suits (fit_stocked _ _ _ _ _)).fit
  have hstart := hfit.nextCycle.shows_start (.empty d.log.enabled)
  obtain ⟨n, hahead, hwidth⟩ := Progress.run_inserted d.legal h hstart rfl (.refl _)
  rw [d.decode_eq_run, d.decode_eq_run, Pair.all_flatMap_bytes hcomplete, Pair.all_flatMap_bytes hcomplete₀,
    Pair.length_flatMap_bytes hcomplete, Pair.length_flatMap_bytes hcomplete₀]
  refine ⟨fun part => congrArg (Parts.get · part) hahead.parts, ?_⟩
  have hconsumed := hahead.consumed
  dsimp only
  omega

/-- A message with a group in a group, into which pairs are inserted before its first field, after either counter, after
a delimiter, and before its checksum. One of them has no number as its tag, and one has an equals sign in its value. -/
theorem decode_inserted_sample :
    let d := stocked 1 Sample.layout Sample.codecs.legalTags Sample.codecs.order true
    let start := [Sample.pair "8" "FIX.4.4", Sample.pair "9" "5", Sample.pair "35" "S", Sample.pair "555" "1"]
    let leg := [Sample.pair "602" "B", Sample.pair "604" "1"]
    let last := [Sample.pair "605" "X", Sample.pair "55" "E"]
    let ps := start ++ Sample.pair "600" "A" :: (leg ++ (last ++ [Sample.pair "10" "000"]))
    let ps' := Sample.pair "x" "" :: (start ++ Sample.pair "5000" "a=b" :: Sample.pair "600" "A" ::
      Sample.pair "5001" "c" :: (leg ++ Sample.pair "5002" "" :: (last ++ [Sample.pair "99999999999" "d",
        Sample.pair "10" "000"])))
    let window := ps.flatMap Pair.bytes
    let window' := ps'.flatMap Pair.bytes
    (∀ p ∈ ps', p.Complete) ∧ Inserted Sample.layout ps ps' ∧
      (∀ part, (d.decode window').1.part part = (d.decode window).1.part part) ∧
      (d.decode window').2 + window.length = (d.decode window).2 + window'.length := by
  intro d start leg last ps ps' window window'
  have hcomplete : ∀ p ∈ ps', p.Complete := by decide +kernel
  have hlast : Inserted Sample.layout (last ++ [Sample.pair "10" "000"])
      (last ++ [Sample.pair "99999999999" "d", Sample.pair "10" "000"]) :=
    Inserted.append (.insert (by decide +kernel) (.done _)) (by decide +kernel)
  have hleg : Inserted Sample.layout (leg ++ (last ++ [Sample.pair "10" "000"]))
      (leg ++ Sample.pair "5002" "" :: (last ++ [Sample.pair "99999999999" "d", Sample.pair "10" "000"])) :=
    Inserted.append (.insert (by decide +kernel) hlast) (by decide +kernel)
  have hinserted : Inserted Sample.layout ps ps' :=
    .insert (by decide +kernel) <| Inserted.append (.insert (by decide +kernel) <| .keep (by decide +kernel) <|
      .insert (by decide +kernel) hleg) (by decide +kernel)
  exact ⟨hcomplete, hinserted, decode_inserted .new hcomplete hinserted⟩

end MessageDecoder

end FixWire
