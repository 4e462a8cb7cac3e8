import FixWire.Proofs.Decoder.Spare
import FixWire.Proofs.RoundTrip.Messages
import Mathlib.Data.List.TakeWhile

/-!
# Messages in a stream

Nothing marks the end of a message but its checksum, and trailer fields may come after that. In a stream the next
message follows at once, and begins with a tag of the header. A decoder stops there : it takes up just the bytes of the
first message, and what it holds then is what it holds after the first message alone (`MessageEncoder.decode_append`).

The entries of groups need not have their delimiters here, so what is read is not always what was written. It is read as
if it were alone all the same (`Cell.ReadsAlone`) : up to what follows, and without regard to what that is. This is
shown for a cell along what is inside it, and then for the parts of the message one after another.
-/

namespace FixWire

open Decoder (Fault Log OpenGroup Parts Reading Unclaimed readGroup readPair readParts repetitionCycle)

/-- Without an equals sign there is no pair. -/
theorem Pair.read?_eq_none {bytes : Bytes} (h : equalsSign ∉ bytes) : read? bytes = none := by
  have hall : bytes.takeWhile (· != equalsSign) = bytes :=
    List.takeWhile_eq_self_iff.2 fun b hb => by simpa using fun heq : b = equalsSign => h (heq ▸ hb)
  simp [read?, hall]

namespace Decoder

/-- Storing a pair of a member changes the cell of that member. -/
theorem Fit.store {members : List Member} {cells : List Cell} {p : Pair} {m : Member} (h : Fit members cells)
    (hm : memberOf? members p.tag = some m) (cycle : UInt32) :
    ∃ c : Cell, c.Fits m ∧
      Decoder.store cycle p cells = (Decoder.put (c.store cycle p.value).1 cells, (c.store cycle p.value).2) ∧
        Fit members (Decoder.put (c.store cycle p.value).1 cells) := by
  obtain ⟨c, hfind, hc⟩ := h.find?_some hm
  have hstored := hc.store cycle p.value
  exact ⟨c, hc, store_of_find? hfind, h.put (hstored.tag_eq ▸ memberOf?_tag hm) hstored⟩

/-- A counter opens its group. -/
theorem Cell.Fits.exists_opened {slot : GroupSlot} {body : List Member} {c : Cell} (h : c.Fits (.group slot body))
    (cycle : UInt32) (value : Bytes) :
    ∃ (g : OpenGroup) (faults : List Fault), (c.store cycle value).2 = (some g, faults) ∧ g.Fit ∧ g.slot = slot ∧
      g.body = body := by
  cases h with
  | group h => exact ⟨_, _, rfl, by simpa [OpenGroup.Fit] using h, rfl, rfl⟩

end Decoder

namespace Encoder

/-! ## Cells -/

/-- What is written for the cell is read up to what follows, into any cells among which is one of its member. What is
read depends on those cells only : not on what follows, and not on what is around either. -/
def Cell.ReadsAlone (scope : List Tag) (c : Cell) : Prop :=
  ∀ (cycle : UInt32) (members : List Member) (cells : List Decoder.Cell), Decoder.Fit members cells →
    memberOf? members c.tag = some c.member → ∃ cells', Decoder.Fit members cells' ∧
      ∀ (unclaimed : Unclaimed) (around : List Tag) (log : Log), ∃ log', ∀ tail, Follows unclaimed around scope tail →
        (readPair unclaimed around cycle (.written c.tag c.value) cells log (c.entries ++ tail)).result =
          (cells', log', tail)

/-- The tags inside the groups of the cell are not among those of what is around them, and every value is read as it was
written. -/
inductive Cell.Separate : List Tag → Cell → Prop
  | field {scope : List Tag} {slot : FieldSlot} {value : Option Bytes} (h : Legible (.field slot value)) :
    Separate scope (.field slot value)
  | group {scope : List Tag} {slot : GroupSlot} {body : List Member} {live spare : List (List Cell)}
    (h : Legible (.group slot body live spare)) (apart : ∀ tag ∈ body.map Member.tag, tag ∉ scope)
    (members : ∀ cells ∈ live, ∀ c ∈ cells, memberOf? body c.tag = some c.member)
    (inner : ∀ cells ∈ live, ∀ c ∈ cells, Separate (body.map Member.tag ++ scope) c) :
    Separate scope (.group slot body live spare)

theorem Cell.Separate.legible {scope : List Tag} {c : Cell} (h : c.Separate scope) : c.Legible := by
  cases h with
  | field h => exact h
  | group h => exact h

theorem mem_map_tag_of_memberOf? {members : List Member} {tag : Tag} {m : Member}
    (h : memberOf? members tag = some m) : tag ∈ members.map Member.tag :=
  List.mem_map.2 ⟨m, List.mem_of_find?_eq_some h, by simpa using List.find?_some h⟩

/-- The entries of a group are written as their cells are. -/
theorem entriesWritten_eq (entries : List (List Cell)) : entriesWritten entries = written entries.flatten := by
  induction entries with
  | nil => rfl
  | cons cells rest ih => rw [entriesWritten, ih, List.flatten_cons, written_append]

/-! ## Groups -/

section Groups

variable {scope : List Tag} {g : OpenGroup}

theorem tags_advance (g : OpenGroup) (tag : Tag) : (g.advance tag).tags = g.tags := by
  rw [OpenGroup.tags, OpenGroup.body_advance, OpenGroup.tags]

/-- One cell of a group. -/
theorem readGroup_alone_cell {c : Cell} (hg : g.Fit) (hlegible : c.Legible)
    (hmem : memberOf? g.body c.tag = some c.member) (hreads : c.ReadsAlone (g.tags ++ scope)) :
    ∃ g', g'.Fit ∧ g'.slot = g.slot ∧ g'.body = g.body ∧
      ∀ (unclaimed : Unclaimed) (around : List Tag) (log : Log), ∃ log', ∀ after,
        Follows unclaimed (g.tags ++ around) (g.tags ++ scope) after →
          (readGroup unclaimed around g log (c.written ++ after)).result =
            (readGroup unclaimed around g' log' after).result := by
  cases hw : c.isWritten with
  | false =>
    refine ⟨g, hg, rfl, rfl, fun unclaimed around log => ⟨log, fun after _ => ?_⟩⟩
    rw [c.written_eq_nil hw]
    rfl
  | true =>
    obtain ⟨cells, hcells⟩ := Option.isSome_iff_exists.1 (g.isSome_current_advance c.tag)
    have hadvance := hg.advance c.tag
    have hbody : (g.advance c.tag).body = g.body := OpenGroup.body_advance g c.tag
    obtain ⟨cells', hcells', hread⟩ := hreads repetitionCycle g.body cells (hbody ▸ hadvance.current hcells) hmem
    refine ⟨{ g.advance c.tag with current := some cells' }, hadvance.setCurrent (hbody.symm ▸ hcells'),
      OpenGroup.slot_advance g c.tag, hbody, fun unclaimed around log => ?_⟩
    obtain ⟨log', hread⟩ := hread unclaimed (g.tags ++ around) log
    refine ⟨log', fun after hfollows => ?_⟩
    have hinner : (readPair unclaimed ((g.advance c.tag).tags ++ around) repetitionCycle (.written c.tag c.value)
        ((g.advance c.tag).current.getD []) log (c.entries ++ after)).result = (cells', log', after) := by
      rw [hcells, tags_advance]
      exact hread after hfollows
    rw [c.written_of_isWritten hw, List.append_assoc]
    exact Decoder.result_readGroup_owned (Pair.read?_fieldBytes hlegible.value c.tag _)
      (Pair.tag_written hlegible.tag c.value) rfl (mem_map_tag_of_memberOf? hmem) hinner

/-- The cells of a group, whichever of its entries they are of. -/
theorem readGroup_alone : ∀ (cells : List Cell) {g : OpenGroup}, g.Fit →
    (∀ c ∈ cells, c.Legible ∧ memberOf? g.body c.tag = some c.member ∧ c.ReadsAlone (g.tags ++ scope)) →
      ∃ g', g'.Fit ∧ g'.slot = g.slot ∧ g'.body = g.body ∧
        ∀ (unclaimed : Unclaimed) (around : List Tag) (log : Log), ∃ log', ∀ after,
          Follows unclaimed (g.tags ++ around) (g.tags ++ scope) after →
            (readGroup unclaimed around g log (written cells ++ after)).result =
              (readGroup unclaimed around g' log' after).result
  | [], g, hg, _ => ⟨g, hg, rfl, rfl, fun _ _ log => ⟨log, fun _ _ => rfl⟩⟩
  | c :: rest, g, hg, hcells => by
    rw [List.forall_mem_cons] at hcells
    obtain ⟨⟨hlegible, hmember, hreads⟩, hrest⟩ := hcells
    obtain ⟨g₁, hg₁, hslot₁, hbody₁, hread₁⟩ := readGroup_alone_cell hg hlegible hmember hreads
    have htags₁ : g₁.tags = g.tags := congrArg (List.map Member.tag) hbody₁
    obtain ⟨g₂, hg₂, hslot₂, hbody₂, hread₂⟩ := readGroup_alone rest hg₁ (by rwa [hbody₁, htags₁])
    refine ⟨g₂, hg₂, hslot₂.trans hslot₁, hbody₂.trans hbody₁, fun unclaimed around log => ?_⟩
    obtain ⟨log₁, hread₁⟩ := hread₁ unclaimed around log
    obtain ⟨log₂, hread₂⟩ := hread₂ unclaimed around log₁
    refine ⟨log₂, fun after hfollows => ?_⟩
    rw [written, List.append_assoc, hread₁, hread₂]
    · rwa [htags₁]
    · refine follows_written (fun c hc => ⟨(hrest c hc).1, ?_, ?_⟩) hfollows <;>
        exact List.mem_append_left _ (mem_map_tag_of_memberOf? (hrest c hc).2.1)

end Groups

/-- A cell whose groups are apart from what is around them is read as if it were alone. -/
theorem Cell.Separate.readsAlone {scope : List Tag} {c : Cell} (h : c.Separate scope) : c.ReadsAlone scope := by
  induction h with
  | @field scope slot value h =>
    intro cycle members cells hfit hmem
    rw [← Pair.tag_written h.tag (Cell.field slot value).value] at hmem
    obtain ⟨c', hc', hstore, hfit'⟩ := hfit.store hmem cycle
    cases hc' with
    | field =>
      exact ⟨_, hfit', fun unclaimed around log =>
        ⟨_, fun tail _ => congrArg Reading.result (Decoder.readPair_field hstore)⟩⟩
  | @group scope slot body live spare h apart members inner ih =>
    intro cycle all cells hfit hmem
    rw [← Pair.tag_written h.tag (Cell.group slot body live spare).value] at hmem
    obtain ⟨c', hc', hstore, hfit'⟩ := hfit.store hmem cycle
    obtain ⟨g, faults, hopened, hg, hslot, hbody⟩ := hc'.exists_opened cycle
      (Pair.written (Cell.group slot body live spare).tag (Cell.group slot body live spare).value).value
    rw [hopened] at hstore
    have htags : g.tags = body.map Member.tag := congrArg (List.map Member.tag) hbody
    obtain ⟨g', hg', hslot', hbody', hread⟩ := readGroup_alone live.flatten hg fun c hc => by
        obtain ⟨entry, hentry, hc⟩ := List.mem_flatten.1 hc
        rw [hbody, htags]
        exact ⟨(inner entry hentry c hc).legible, members entry hentry c hc, ih entry hentry c hc⟩
    have hcell : g'.toCell.Fits (.group slot body) := by
      have hfits := hg'.toCell
      rwa [hslot', hbody', hslot, hbody] at hfits
    refine ⟨_, hfit'.put (hcell.tag_eq ▸ Decoder.memberOf?_tag hmem) hcell, fun unclaimed around log => ?_⟩
    obtain ⟨log', hread⟩ := hread unclaimed around (log.add faults)
    refine ⟨log'.add g'.countFaults, fun tail hfollows => Decoder.result_readPair_group hstore ?_⟩
    rw [Cell.entries, entriesWritten_eq, hread tail (hfollows.inside _)]
    refine readGroup_of_follows hfollows fun tag htag => apart tag ?_
    rwa [OpenGroup.tags, hbody', hbody] at htag

/-! ## Reading into cells -/

/-- Cells of a decoder into which what is written for the cell has been read, with nothing around it. -/
def Cell.takenIn (cycle : UInt32) (held : List Decoder.Cell) (c : Cell) : List Decoder.Cell :=
  if c.isWritten then (readPair .stop [] cycle (.written c.tag c.value) held (.empty false) c.entries).value else held

/-- Cells of a decoder into which what is written for some cells has been read. -/
def takenIn (cycle : UInt32) (held : List Decoder.Cell) (cells : List Cell) : List Decoder.Cell :=
  cells.foldl (Cell.takenIn cycle) held

section ReadInto

variable {scope : List Tag} {c : Cell} {members : List Member} {held : List Decoder.Cell}

/-- Whatever is around a cell and follows it, it is read in the same way. -/
theorem Cell.ReadsAlone.takenIn (h : c.ReadsAlone scope) (hw : c.isWritten = true) (cycle : UInt32)
    (hfit : Decoder.Fit members held) (hmem : memberOf? members c.tag = some c.member) :
    Decoder.Fit members (c.takenIn cycle held) ∧
      ∀ (unclaimed : Unclaimed) (around : List Tag) (log : Log), ∃ log', ∀ tail, Follows unclaimed around scope tail →
        (readPair unclaimed around cycle (.written c.tag c.value) held log (c.entries ++ tail)).result =
          (c.takenIn cycle held, log', tail) := by
  obtain ⟨cells', hfit', hread⟩ := h cycle members held hfit hmem
  obtain ⟨log', hself⟩ := hread .stop [] (.empty false)
  have hresult := hself [] follows_nil
  rw [List.append_nil] at hresult
  have hvalue : c.takenIn cycle held = cells' := by
    rw [Cell.takenIn, if_pos hw]
    exact congrArg Prod.fst hresult
  rw [hvalue]
  exact ⟨hfit', hread⟩

theorem Cell.ReadsAlone.fit_takenIn (h : c.ReadsAlone scope) (cycle : UInt32) (hfit : Decoder.Fit members held)
    (hmem : memberOf? members c.tag = some c.member) : Decoder.Fit members (c.takenIn cycle held) := by
  cases hw : c.isWritten with
  | false => rwa [Cell.takenIn, hw, if_neg (by decide)]
  | true => exact (h.takenIn hw cycle hfit hmem).1

end ReadInto

/-- The member with the tag of a cell is that of the cell, where tags do not repeat. -/
theorem Fit.memberOf? {members : List Member} {cells : List Cell} (h : Fit members cells)
    (hnodup : (members.map Member.tag).Nodup) {c : Cell} (hc : c ∈ cells) :
    FixWire.memberOf? members c.tag = some c.member := by
  rw [← h.map_member] at hnodup ⊢
  obtain ⟨before, after, rfl⟩ := List.append_of_mem hc
  rw [List.map_append, List.map_append, List.map_cons, List.map_cons, c.tag_member] at hnodup
  rw [FixWire.memberOf?, List.map_append, List.map_cons, List.find?_append, List.find?_eq_none.2, List.find?_cons,
    c.tag_member, beq_self_eq_true]
  · rfl
  · intro m hm ht
    exact (List.nodup_append.1 hnodup).2.2 _ (List.mem_map_of_mem hm) _ List.mem_cons_self (eq_of_beq ht)

/-- A cell of a sound layout whose groups are apart from what is around them is so itself. -/
theorem separate_of_plain {c : Cell} (hplain : c.Everywhere Cell.Plain) : ∀ {m : Member} {scope : List Tag},
    c.Fits m → m.Sound → m.Apart scope → c.Separate scope := by
  induction hplain with
  | field h =>
    intro m scope hfits hsound _
    cases hfits
    cases hsound with
    | field htag => exact .field ⟨htag, h⟩
  | @group slot body live spare _ _ ih =>
    intro m scope hfits hsound hapart
    cases hfits with
    | group hfits =>
    cases hsound with
    | group htag hnodup _ hsound =>
    cases hapart with
    | group hdisjoint hapart =>
    have hlive : ∀ cells ∈ live, Fit body cells := fun cells hcells => hfits cells (List.mem_append_left _ hcells)
    refine .group ⟨htag, soh_notMem_digits _⟩ hdisjoint
      (fun cells hcells c hc => (hlive cells hcells).memberOf? hnodup hc) fun cells hcells c hc => ?_
    obtain ⟨m, hm, hc'⟩ := (hlive cells hcells).exists_member hc
    exact ih cells hcells c hc hc' (hsound m hm) (hapart m hm)

end Encoder

/-! ## Parts -/

namespace MessageLayout

/-- The tags of all members of the message. -/
def allMemberTags (l : MessageLayout) : List Tag :=
  l.tags .header ++ l.tags .body ++ l.tags .trailer

theorem mem_allMemberTags {l : MessageLayout} {part : Part} {tag : Tag} (h : tag ∈ l.tags part) :
    tag ∈ l.allMemberTags := by
  rw [allMemberTags, List.mem_append, List.mem_append]
  cases part with
  | header => exact .inl (.inl h)
  | body => exact .inl (.inr h)
  | trailer => exact .inr h

end MessageLayout

namespace Decoder.Parts

variable {l : MessageLayout} {ps : Parts}

theorem Fit.setCells (h : ps.Fit l) {part : Part} {cells : List Cell}
    (hc : Decoder.Fit (l.part part).members cells) : (ps.setCells part cells).Fit l := by
  intro part'
  by_cases hp : part' = part
  · subst hp
    rwa [get_setCells]
  · rw [get_setCells_of_ne _ _ hp]
    exact h part'

theorem Fit.tags_get (h : ps.Fit l) (part : Part) : (ps.get part).tags = l.tags part := by
  rw [Aggregate.tags, MessageLayout.tags, ← List.forall₂_eq_eq_eq, List.forall₂_map_left_iff, List.forall₂_map_right_iff]
  exact (h part).flip.imp fun _ _ hc => hc.tag_eq

theorem Fit.tags (h : ps.Fit l) : ps.tags = l.allMemberTags :=
  congrArg₂ (· ++ ·) (congrArg₂ (· ++ ·) (h.tags_get .header) (h.tags_get .body)) (h.tags_get .trailer)

theorem Fit.owns (h : ps.Fit l) (part : Part) (tag : Tag) : (ps.get part).owns tag = (l.tags part).contains tag := by
  rw [Aggregate.owns_eq, h.tags_get]

theorem Fit.owner? (h : ps.Fit l) (hapart : l.Apart) {part : Part} {tag : Tag} (ht : tag ∈ l.tags part) :
    ps.owner? tag = some part := by
  refine owner?_of_owns ?_ fun part' hp => ?_
  · rw [h.owns]
    exact List.contains_iff_mem.2 ht
  · rw [h.owns, List.contains_eq_mem, decide_eq_false_iff_not]
    exact hapart.parts part part' hp.symm tag ht

end Decoder.Parts

namespace Encoder

section Parts

variable {legal : List Tag} {l : MessageLayout} {part : Part}

/-- The cells of a part are read as if they were alone. -/
def PartReadsAlone (l : MessageLayout) (part : Part) (cells : List Cell) : Prop :=
  ∀ c ∈ cells, c.Legible ∧ memberOf? (l.part part).members c.tag = some c.member ∧ c.ReadsAlone l.allMemberTags

/-- One cell of a part. -/
theorem readParts_alone_cell (legal : List Tag) {c : Cell} {ps : Parts} {summed : Bool} (log : Log)
    (hapart : l.Apart) (hfit : ps.Fit l) (hsummed : summed = true → part = .trailer) (hlegible : c.Legible)
    (hmem : memberOf? (l.part part).members c.tag = some c.member) (hreads : c.ReadsAlone l.allMemberTags) :
    ∃ log', ∀ after, Follows (.skip legal) l.allMemberTags l.allMemberTags after →
      (readParts legal summed ps log (c.written ++ after)).result =
        (readParts legal (summed || holdsSum part [c])
          (ps.setCells part (c.takenIn (ps.get part).stamp (ps.get part).cells)) log' after).result := by
  cases hw : c.isWritten with
  | false =>
    refine ⟨log, fun after _ => ?_⟩
    rw [c.written_eq_nil hw, Cell.takenIn, hw, if_neg (by decide), Decoder.Parts.setCells_get]
    simp [holdsSum, hw]
  | true =>
    obtain ⟨-, hread⟩ := hreads.takenIn hw (ps.get part).stamp (hfit part) hmem
    obtain ⟨log', hread⟩ := hread (.skip legal) l.allMemberTags (log.see c.tag)
    refine ⟨log', fun after hfollows => ?_⟩
    have howner : ps.owner? c.tag = some part := hfit.owner? hapart (mem_map_tag_of_memberOf? hmem)
    obtain ⟨c', hfind, hc'⟩ := (hfit part).find?_some hmem
    have hderived : c'.isDerived .checkSum = c.isDerived .checkSum := by
      cases c <;> cases hc' <;> rfl
    have hopen : ¬(summed && !ps.trailer.owns c.tag) := by
      intro hclosed
      obtain ⟨hs, hnot⟩ := Bool.and_eq_true_iff.1 hclosed
      obtain rfl := hsummed hs
      rw [show ps.trailer.owns c.tag = true from Decoder.Parts.owns_of_owner? howner] at hnot
      exact Bool.noConfusion hnot
    have hinner := hread after hfollows
    rw [← hfit.tags] at hinner
    have hstep := Decoder.result_readParts_owned (Pair.read?_fieldBytes hlegible.value c.tag _)
      (Pair.tag_written hlegible.tag c.value) hopen howner hinner
    rw [Decoder.Parts.isSum_eq hfind, hderived] at hstep
    rw [c.written_of_isWritten hw, List.append_assoc, hstep]
    simp [holdsSum, hw]

/-- Cells of a part can follow anything that has the tags of the part in scope. -/
theorem PartReadsAlone.follows {unclaimed : Unclaimed} {scope : List Tag} {cells : List Cell} {tail : Bytes}
    (h : PartReadsAlone l part cells) (hscope : ∀ tag ∈ l.tags part, tag ∈ scope)
    (hfollows : Follows unclaimed scope scope tail) : Follows unclaimed scope scope (written cells ++ tail) := by
  refine follows_written (fun c hc => ?_) hfollows
  have hmem : c.tag ∈ scope := hscope _ (mem_map_tag_of_memberOf? (h c hc).2.1)
  exact ⟨(h c hc).1, hmem, hmem⟩

theorem PartReadsAlone.fit_takenIn (cycle : UInt32) : ∀ {cells : List Cell} {held : List Decoder.Cell},
    PartReadsAlone l part cells → Decoder.Fit (l.part part).members held →
      Decoder.Fit (l.part part).members (takenIn cycle held cells)
  | [], _, _, hfit => hfit
  | c :: rest, _, h, hfit => by
    obtain ⟨-, hmem, hreads⟩ := h c List.mem_cons_self
    have hrest : PartReadsAlone l part rest := fun c hc => h c (List.mem_cons_of_mem _ hc)
    exact hrest.fit_takenIn cycle (hreads.fit_takenIn cycle hfit hmem)

/-- The cells of a part. -/
theorem readParts_alone (legal : List Tag) (hapart : l.Apart) : ∀ (cells : List Cell) (summed : Bool) {ps : Parts}
    (log : Log), PartReadsAlone l part cells → ps.Fit l → (summed = true → part = .trailer) →
      ∃ log', ∀ after, Follows (.skip legal) l.allMemberTags l.allMemberTags after →
        (readParts legal summed ps log (written cells ++ after)).result =
          (readParts legal (summed || holdsSum part cells)
            (ps.setCells part (takenIn (ps.get part).stamp (ps.get part).cells cells)) log' after).result
  | [], summed, ps, log, _, _, _ => ⟨log, fun _ _ => by
      rw [takenIn, List.foldl_nil, Decoder.Parts.setCells_get]
      simp [written, holdsSum]⟩
  | c :: rest, summed, ps, log, hcells, hfit, hsummed => by
    have hrest : PartReadsAlone l part rest := fun c hc => hcells c (List.mem_cons_of_mem _ hc)
    obtain ⟨hlegible, hmem, hreads⟩ := hcells c List.mem_cons_self
    obtain ⟨log₁, hread₁⟩ := readParts_alone_cell legal log hapart hfit hsummed hlegible hmem hreads
    have hsummed' : (summed || holdsSum part [c]) = true → part = .trailer := by
      rw [Bool.or_eq_true]
      exact fun hs => hs.elim hsummed eq_trailer_of_holdsSum
    obtain ⟨log₂, hread₂⟩ := readParts_alone legal hapart rest _ log₁ hrest
      (hfit.setCells (hreads.fit_takenIn _ (hfit part) hmem)) hsummed'
    refine ⟨log₂, fun after hfollows => ?_⟩
    rw [written, List.append_assoc, hread₁ _ (hrest.follows (fun _ => MessageLayout.mem_allMemberTags) hfollows), hread₂ after hfollows,
      Bool.or_assoc, ← holdsSum_cons, Decoder.Parts.get_setCells, Decoder.Parts.setCells_setCells]
    rfl

end Parts

/-- Setting a computed field sets one of that kind, if there is any. -/
theorem exists_setFirst {d : Derived} (value : Bytes) : ∀ {cells : List Cell}, (∃ c ∈ cells, c.isDerived d = true) →
    ∃ c ∈ setFirst (Cell.isDerived d) value cells, c.isWritten = true ∧ c.isDerived d = true
  | [], h => by simp at h
  | c :: rest, h => by
    cases hc : c.isDerived d with
    | true =>
      cases c with
      | field slot old =>
        rw [setFirst, if_pos hc]
        exact ⟨_, List.mem_cons_self, rfl, hc⟩
      | group => simp at hc
    | false =>
      obtain ⟨c', hc', hd⟩ := h
      have hrest : c' ∈ rest := (List.mem_cons.1 hc').resolve_left fun heq => by simp [← heq, hd] at hc
      obtain ⟨c'', hin, hspec⟩ := exists_setFirst value ⟨c', hrest, hd⟩
      rw [setFirst_of_not hc]
      exact ⟨c'', List.mem_cons_of_mem _ hin, hspec⟩

end Encoder

/-! ## Messages -/

namespace MessageEncoder

open Encoder

variable {e e₀ : MessageEncoder} {l : MessageLayout}

/-- The parts of an encoder are read as if they were alone. -/
theorem partReadsAlone (hsound : l.Sound) (hapart : l.Apart) (hfit : ∀ part, Fit (l.part part).members (e.part part))
    (hplain : e.Everywhere Cell.Plain) (part : Part) : PartReadsAlone l part (e.part part) := by
  intro c hc
  obtain ⟨m, hm, hc'⟩ := (hfit part).exists_member hc
  have hseparate : c.Separate l.allMemberTags :=
    separate_of_plain (hplain part c hc) hc' (hsound.members part m hm) (hapart.groups part m hm)
  exact ⟨hseparate.legible, (hfit part).memberOf? (hsound.nodup part) hc, hseparate.readsAlone⟩

/-- The parts of a decoder into which what is written for the parts of the encoder has been read. -/
def takenIn (e : MessageEncoder) (ps : Parts) : Parts :=
  ⟨{ ps.header with cells := Encoder.takenIn ps.header.stamp ps.header.cells e.header },
    { ps.body with cells := Encoder.takenIn ps.body.stamp ps.body.cells e.body },
    { ps.trailer with cells := Encoder.takenIn ps.trailer.stamp ps.trailer.cells e.trailer }⟩

theorem get_takenIn (e : MessageEncoder) (ps : Parts) (part : Part) : (e.takenIn ps).get part =
    { ps.get part with cells := Encoder.takenIn (ps.get part).stamp (ps.get part).cells (e.part part) } := by
  cases part <;> rfl

theorem fit_takenIn {ps : Parts} (halone : ∀ part, PartReadsAlone l part (e.part part)) (hfit : ps.Fit l) :
    (e.takenIn ps).Fit l := by
  intro part
  rw [get_takenIn]
  exact (halone part).fit_takenIn _ (hfit part)

/-- All parts are read up to what follows them. -/
theorem readParts_all_alone {ps : Parts} (legal : List Tag) (log : Log) (hapart : l.Apart)
    (halone : ∀ part, PartReadsAlone l part (e.part part)) (hfit : ps.Fit l) :
    ∃ log', ∀ rest, Follows (.skip legal) l.allMemberTags l.allMemberTags rest →
      (readParts legal false ps log (written e.header ++ (written e.body ++ (written e.trailer ++ rest)))).result =
        (readParts legal (holdsSum .trailer e.trailer) (e.takenIn ps) log' rest).result := by
  have hfit₁ := hfit.setCells ((halone .header).fit_takenIn (ps.get .header).stamp (hfit .header))
  have hfit₂ := hfit₁.setCells ((halone .body).fit_takenIn (ps.get .body).stamp (hfit₁ .body))
  obtain ⟨log₁, hheader⟩ := readParts_alone legal hapart e.header false log (halone .header) hfit nofun
  obtain ⟨log₂, hbody⟩ := readParts_alone legal hapart e.body false log₁ (halone .body) hfit₁ nofun
  obtain ⟨log₃, htrailer⟩ := readParts_alone legal hapart e.trailer false log₂ (halone .trailer) hfit₂ fun _ => rfl
  refine ⟨log₃, fun rest hfollows => ?_⟩
  have hbody' := (halone .trailer).follows (fun _ => MessageLayout.mem_allMemberTags) hfollows
  refine (hheader _ ((halone .body).follows (fun _ => MessageLayout.mem_allMemberTags) hbody')).trans ?_
  refine (hbody _ hbody').trans ?_
  refine (htrailer rest hfollows).trans ?_
  rw [Bool.false_or]
  rfl

/-- All parts, with the checksum in the trailer, are read up to the first tag that the trailer does not have, whatever
comes then. -/
theorem exists_readParts {ps : Decoder.Parts} (legal : List Tag) (log : Log) (hapart : l.Apart)
    (halone : ∀ part, PartReadsAlone l part (e.part part)) (hsum : holdsSum .trailer e.trailer = true) (hfit : ps.Fit l) :
    ∃ ps' log', ∀ rest, (∀ p after, Pair.read? rest = some (p, after) → p.tag ∈ l.tags .header) →
      (readParts legal false ps log (written e.header ++ (written e.body ++ (written e.trailer ++ rest)))).result =
        (ps', log', rest) := by
  obtain ⟨log', hread⟩ := readParts_all_alone legal log hapart halone hfit
  refine ⟨e.takenIn ps, log', fun rest hrest => ?_⟩
  have hfollows : Follows (.skip legal) l.allMemberTags l.allMemberTags rest := fun p after hp =>
    have hmem := MessageLayout.mem_allMemberTags (hrest p after hp)
    ⟨hmem, .inl hmem⟩
  rw [hread rest hfollows, hsum]
  -- The next message begins with a tag of the header, which the trailer does not have.
  refine congrArg Reading.result (Decoder.readParts_over fun p after hp => ?_)
  have hnot : (e.takenIn ps).trailer.owns p.tag = false := by
    rw [show (e.takenIn ps).trailer.owns p.tag = (l.tags .trailer).contains p.tag from
      (fit_takenIn halone hfit).owns .trailer p.tag, List.contains_eq_mem, decide_eq_false_iff_not]
    exact hapart.parts .header .trailer nofun p.tag (hrest p after hp)
  rw [hnot]
  rfl

/-- The checksum is written if the layout has one. -/
theorem holdsSum_computed (hfit : Fit l.trailer.members e.trailer)
    (hsum : (l.trailer.derived? .checkSum).isSome = true) : holdsSum .trailer e.computed.trailer = true := by
  obtain ⟨slot, hslot⟩ := Option.isSome_iff_exists.1 hsum
  have hderived : slot.derived? = some .checkSum := by simpa using List.find?_some hslot
  obtain ⟨m, hm, hfield⟩ := List.mem_filterMap.1 (List.mem_of_find?_eq_some hslot)
  rw [← hfit.map_member, List.mem_map] at hm
  obtain ⟨c, hc, rfl⟩ := hm
  have hcell : c.isDerived .checkSum = true := by
    cases c with
    | field slot' value =>
      obtain rfl : slot' = slot := Option.some.inj hfield
      exact beq_iff_eq.2 hderived
    | group => cases hfield
  obtain ⟨c', hc', hw, hd⟩ := exists_setFirst (checksumText (checksum e.summed)) ⟨c, hc, hcell⟩
  have hany : e.computed.trailer.any (fun c => c.isWritten && c.isDerived .checkSum) = true :=
    List.any_eq_true.2 ⟨c', hc', by rw [hw, hd]; rfl⟩
  rw [holdsSum, hany]
  rfl

/-- Messages split correctly out of a stream : a message that an encoder has written is read by itself, whatever follows
it. What follows is a message, or anything else that begins with a pair of the header, or has no pair. The layout has a
checksum, no value has the byte that ends fields, and the encoder and the decoder have been used in any way. The decoder
takes up just the message, and is left as by the message alone, verdict included. -/
theorem decode_append {text type : String} {validating : Bool} {c : Codecs} {d₀ d : MessageDecoder}
    {buffer buffer' : Bytes} {offset n : Nat} {e' : MessageEncoder} {rest : Bytes}
    (hc : Codecs.ofDocument text validating = .ok c) (he₀ : c.encoder type = .ok e₀) (hd₀ : c.decoder type = .ok d₀)
    (hsum : (e₀.layout.trailer.derived? .checkSum).isSome = true) (hapart : e₀.layout.Apart) (hused : Used e₀ e)
    (hplain : e.Everywhere Cell.Plain) (hencode : e.encode buffer offset = (.ok n, e', buffer'))
    (hd : MessageDecoder.Used d₀ d)
    (hrest : equalsSign ∉ rest ∨ ∃ p after, Pair.read? rest = some (p, after) ∧ p.tag ∈ e₀.layout.tags .header) :
    let m := buffer'.window offset n
    m.length = n ∧ (d.decode (m ++ rest)).2 = n ∧ (d.decode (m ++ rest)).1 = (d.decode m).1 := by
  obtain ⟨l, hl, rfl⟩ := Codecs.encoder_eq_ok_iff.1 he₀
  obtain rfl := Codecs.decoder_of_require hl hd₀
  have hsound := Codecs.sound_of_require hc hl
  have hsuits := hused.suits (suits_make l c.dictionary.beginString)
  have hroom : e.encodedLength ≤ buffer.length - offset := by
    by_contra hroom
    rw [encode_of_no_room (Nat.lt_of_not_le hroom)] at hencode
    cases (Prod.mk.inj hencode).1
  rw [encode_of_room hroom] at hencode
  obtain ⟨hn, hrest'⟩ := Prod.mk.inj hencode
  obtain ⟨rfl, rfl⟩ := Prod.mk.inj hrest'
  obtain rfl := Except.ok.inj hn
  have hwindow : (buffer.overwrite offset e.wire).window offset e.encodedLength = e.wire := by
    rw [← length_wire] at hroom ⊢
    exact Bytes.window_overwrite hroom
  have halone := partReadsAlone hsound hapart hsuits.computed.fit
    (hplain.computed (fun _ => soh_notMem_digits _) fun _ => soh_notMem_checksumText _)
  have hfit : d.parts.nextCycle.Fit l := (hd.suits (MessageDecoder.fit_make l _ _ _)).fit.nextCycle
  obtain ⟨ps, log, hread⟩ := exists_readParts d.legal (.empty d.log.enabled) hapart halone
    (holdsSum_computed (hsuits.fit .trailer) hsum) hfit
  have hdecode : ∀ rest, (∀ p after, Pair.read? rest = some (p, after) → p.tag ∈ l.tags .header) →
      d.decode (e.wire ++ rest) = ({ d with parts := ps, log := log }, e.wire.length) := by
    intro rest hrest
    have hresult := hread rest hrest
    rw [← List.append_assoc, ← List.append_assoc] at hresult
    change (readParts d.legal false d.parts.nextCycle (.empty d.log.enabled) (e.wire ++ rest)).result = _ at hresult
    obtain ⟨hvalue, hlog, hleft⟩ := Reading.result_eq_iff.1 hresult
    rw [MessageDecoder.decode, hvalue, hlog, hleft, List.length_append, Nat.add_sub_cancel]
  have hnext : ∀ p after, Pair.read? rest = some (p, after) → p.tag ∈ l.tags .header := by
    intro p after hp
    rcases hrest with hnone | ⟨p', after', hp', htag⟩
    · rw [Pair.read?_eq_none hnone] at hp
      cases hp
    · obtain ⟨rfl, rfl⟩ := Prod.mk.inj (Option.some.inj (hp.symm.trans hp'))
      exact htag
  have hboth := hdecode rest hnext
  have hfirst := hdecode [] fun p after hp => by cases hp
  rw [List.append_nil] at hfirst
  dsimp only
  rw [hwindow, hboth, hfirst]
  exact ⟨e.length_wire, e.length_wire, rfl⟩

/-- A quote followed by another message, read by a decoder that has been used for that other one before. -/
theorem decode_append_quote :
    let d₀ := Sample.codecs.newDecoder Sample.layout
    let d := (d₀.decode Sample.window).1.reset
    Codecs.ofDocument Sample.document true = .ok Sample.codecs ∧ Used (make Sample.layout "FIX.4.4") quote ∧
      MessageDecoder.Used d₀ d ∧ ∃ buffer', quote.encode (List.replicate 100 0) 7 = (.ok 72, quote.computed, buffer') ∧
        let m := buffer'.window 7 72
        m.length = 72 ∧ (d.decode (m ++ Sample.window)).2 = 72 ∧ (d.decode (m ++ Sample.window)).1 = (d.decode m).1 := by
  intro d₀ d
  have hversion : Sample.codecs.dictionary.beginString = "FIX.4.4" := by decide +kernel
  have hencoder : Sample.codecs.encoder "S" = .ok (make Sample.layout "FIX.4.4") :=
    Codecs.encoder_eq_ok_iff.2 ⟨Sample.layout, Sample.require_layout, hversion ▸ rfl⟩
  have hdecoder : Sample.codecs.decoder "S" = .ok d₀ := by
    rw [Codecs.decoder, Sample.require_layout]
    rfl
  have hd : MessageDecoder.Used d₀ d := .reset (.decode .new Sample.window)
  have hencode : quote.encode (List.replicate 100 0) 7 = _ := encode_of_room (by decide +kernel)
  have hlength : quote.encodedLength = 72 := by decide +kernel
  rw [hlength] at hencode
  refine ⟨Sample.ofDocument_document, used_quote, hd, _, hencode, ?_⟩
  exact decode_append Sample.ofDocument_document hencoder hdecoder rfl apart_layout used_quote plain_quote hencode hd
    (.inr ⟨⟨Bytes.ofString "8", Bytes.ofString "FIX.4.4", true⟩, _, rfl, by decide⟩)

end MessageEncoder

end FixWire
