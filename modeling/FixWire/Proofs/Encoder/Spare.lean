import FixWire.Proofs.RoundTrip.Messages

/-!
# Spare entries

A group of an encoder keeps the entries that were removed, with whatever is in them, to use them again. A cell is `bare`
without them, at every depth. All that an encoder tells and writes is told and written by its bare cells, and what is
done to cells that differ at most in spare entries leaves such cells again (`Alike.map_apply`, `Alike.replaceAt`,
`MessageEncoder.Alike.encode`) : a spare entry is cleared before it is used, and then it is as good as a new one because
it has the cells of the members of its group.
-/

namespace FixWire

namespace Encoder

/-! ## Bare cells -/

mutual

/-- The cell without spare entries, inside it as well. -/
def Cell.bare : Cell → Cell
  | .field slot value => .field slot value
  | .group slot body live _ => .group slot body (bareLists live) []

/-- The cells without spare entries. -/
def bares : List Cell → List Cell
  | [] => []
  | c :: rest => c.bare :: bares rest

/-- The entries without spare ones inside them. -/
def bareLists : List (List Cell) → List (List Cell)
  | [] => []
  | cells :: rest => bares cells :: bareLists rest

end

theorem bares_eq_map (cells : List Cell) : bares cells = cells.map Cell.bare := by
  induction cells with
  | nil => rfl
  | cons c rest ih => exact congrArg _ ih

theorem bareLists_eq_map (entries : List (List Cell)) : bareLists entries = entries.map bares := by
  induction entries with
  | nil => rfl
  | cons cells rest ih => exact congrArg _ ih

namespace Cell

@[simp] theorem tag_bare (c : Cell) : c.bare.tag = c.tag := by
  cases c <;> rfl

@[simp] theorem isDerived_bare (d : Derived) (c : Cell) : c.bare.isDerived d = c.isDerived d := by
  cases c <;> rfl

@[simp] theorem isNamed_bare (name : String) (c : Cell) : c.bare.isNamed name = c.isNamed name := by
  cases c <;> rfl

theorem isPresent_bare (c : Cell) : c.bare.isPresent = c.isPresent := by
  rcases c with _ | ⟨slot, body, _ | _, spare⟩ <;> rfl

theorem bare_blank (m : Member) : (blank m).bare = blank m := by
  cases m <;> rfl

/-- A cell that is cleared is as good as a new one. -/
theorem Fits.bare_clear {m : Member} {c : Cell} (h : c.Fits m) : c.clear.bare = blank m := by
  cases h <;> rfl

end Cell

theorem bares_blank (members : List Member) : bares (blank members) = blank members := by
  rw [blank, bares_eq_map, List.map_map]
  exact List.map_congr_left fun m _ => Cell.bare_blank m

/-- A cell that is cleared is as good as a new one, for all cells of an aggregate. -/
theorem Fit.bares_clear {members : List Member} {cells : List Cell} (h : Fit members cells) :
    bares (Encoder.clear cells) = blank members := by
  induction h with
  | nil => rfl
  | cons hc _ ih => exact congrArg₂ _ hc.bare_clear ih

/-- The cell with a tag is found without spare entries as well. -/
theorem find?_bares (cells : List Cell) (tag : Tag) : find? (bares cells) tag = (find? cells tag).map Cell.bare := by
  rw [bares_eq_map, find?, List.find?_map]
  simp only [Function.comp_def, Cell.tag_bare]
  rfl

/-- A cell is put in its place whether there are spare entries or not. -/
theorem bares_put (c : Cell) (cells : List Cell) : bares (put c cells) = put c.bare (bares cells) := by
  induction cells with
  | nil => rfl
  | cons d rest ih =>
    rw [put, bares, put, Cell.tag_bare, Cell.tag_bare]
    split_ifs
    · rfl
    · rw [bares, ih]

/-- The first cell of a kind is set whether there are spare entries or not. -/
theorem bares_setFirst {p : Cell → Bool} (hp : ∀ c : Cell, p c.bare = p c) (value : Bytes) (cells : List Cell) :
    bares (setFirst p value cells) = setFirst p value (bares cells) := by
  induction cells with
  | nil => rfl
  | cons c rest ih =>
    cases hc : p c with
    | false => rw [setFirst_of_not hc, bares, bares, setFirst_of_not ((hp c).trans hc), ih]
    | true =>
      cases c with
      | field slot old =>
        rw [setFirst, if_pos hc, bares, bares, Cell.bare, Cell.bare, setFirst, if_pos hc]
      | group => exact congrArg _ ih

mutual

/-- Spare entries do not show in the text of a cell. -/
theorem Cell.outline?_bare : ∀ c : Cell, c.bare.outline? = c.outline?
  | .field _ _ => rfl
  | .group slot body live spare => by
    have hempty : (bareLists live).isEmpty = live.isEmpty := by cases live <;> rfl
    rw [Cell.bare, Cell.outline?, Cell.outline?, outlines_bareLists live, hempty]

/-- Bare cells are shown in the same way. -/
theorem outline_bares : ∀ cells : List Cell, outline (bares cells) = outline cells
  | [] => rfl
  | c :: rest => by rw [bares, outline, outline, Cell.outline?_bare c, outline_bares rest]

theorem outlines_bareLists : ∀ live : List (List Cell), outlines (bareLists live) = outlines live
  | [] => rfl
  | cells :: rest => by rw [bareLists, outlines, outlines, outline_bares cells, outlines_bareLists rest]

end

mutual

/-- Spare entries are not written. -/
theorem Cell.written_bare : ∀ c : Cell, c.bare.written = c.written
  | .field _ _ => rfl
  | .group slot body live spare => by
    have hempty : (bareLists live).isEmpty = live.isEmpty := by cases live <;> rfl
    have hlength : (bareLists live).length = live.length := by rw [bareLists_eq_map, List.length_map]
    rw [Cell.bare, Cell.written, Cell.written, entriesWritten_bareLists live, hempty, hlength]

/-- Bare cells are written in the same way. -/
theorem written_bares : ∀ cells : List Cell, written (bares cells) = written cells
  | [] => rfl
  | c :: rest => by rw [bares, written, written, Cell.written_bare c, written_bares rest]

theorem entriesWritten_bareLists : ∀ live : List (List Cell), entriesWritten (bareLists live) = entriesWritten live
  | [] => rfl
  | cells :: rest => by
    rw [bareLists, entriesWritten, entriesWritten, written_bares cells, entriesWritten_bareLists rest]

end

/-- Spare entries take no room. -/
theorem writtenLength_bares (cells : List Cell) : writtenLength (bares cells) = writtenLength cells := by
  rw [← length_written, written_bares, length_written]

/-- Whether there is a member with a tag does not depend on spare entries. -/
theorem has_bares (cells : List Cell) (tag : Tag) : has (bares cells) tag = has cells tag := by
  rw [has, has, find?_bares]
  cases find? cells tag with
  | none => rfl
  | some c => exact c.isPresent_bare

/-- A field is found, or the refusal is the same, without spare entries. -/
theorem field_bares (cells : List Cell) (tag : Tag) : field (bares cells) tag = field cells tag := by
  rw [field, field, find?_bares]
  rcases find? cells tag with _ | _ | _ <;> rfl

/-- The kind of a field is checked in the same way without spare entries. -/
theorem typed_bares (cells : List Cell) (tag : Tag) (kind : ValueKind) :
    typed (bares cells) tag kind = typed cells tag kind := by
  rw [typed, typed, field_bares]

/-! ## Groups -/

namespace GroupCell

/-- The group without spare entries. -/
def bare (g : GroupCell) : GroupCell :=
  ⟨g.slot, g.body, g.live.map bares, []⟩

/-- The cells of all entries, spare ones included, are those of the members of the group. -/
def Fit (g : GroupCell) : Prop :=
  ∀ cells ∈ g.live ++ g.spare, Encoder.Fit g.body cells

/-- What is in a group that is not spare. -/
theorem bare_eq_iff {g g' : GroupCell} :
    g.bare = g'.bare ↔ g.slot = g'.slot ∧ g.body = g'.body ∧ g.live.map bares = g'.live.map bares := by
  simp [bare]

/-- A group without spare entries is that of a cell without them. -/
theorem bare_toCell (g : GroupCell) : g.toCell.bare = g.bare.toCell := by
  rw [toCell, Cell.bare, bareLists_eq_map]
  rfl

variable {g : GroupCell}

/-- The cell of a group fits its member if the entries have the cells of the members. -/
theorem fits_toCell {m : Member} : g.toCell.Fits m ↔ .group g.slot g.body = m ∧ g.Fit := by
  constructor
  · rintro (_ | h)
    exact ⟨rfl, h⟩
  · rintro ⟨rfl, h⟩
    exact .group h

/-- A new entry has the cells of the members of the group, and nothing is set in it. -/
theorem Fit.exists_entry (h : g.Fit) : ∃ entry, g.next.live = g.live ++ [entry] ∧ Encoder.Fit g.body entry ∧
    bares entry = blank g.body := by
  obtain ⟨slot, body, live, spare⟩ := g
  cases spare with
  | nil => exact ⟨blank body, rfl, fit_blank body, bares_blank body⟩
  | cons used spare =>
    have hused : Encoder.Fit body used := h used (List.mem_append_right _ List.mem_cons_self)
    exact ⟨FixWire.Encoder.clear used, rfl, hused.clear, hused.bares_clear⟩

theorem body_next (g : GroupCell) : g.next.body = g.body := by
  unfold next
  cases g.spare <;> rfl

/-- A new entry is blank, whether it has been used before or not. -/
theorem Fit.bare_next (h : g.Fit) : g.next.bare = { g.bare with live := g.bare.live ++ [blank g.body] } := by
  obtain ⟨entry, hlive, -, hentry⟩ := h.exists_entry
  rw [bare, slot_next, body_next, hlive, List.map_append, List.map_singleton, hentry]
  rfl

end GroupCell

/-- A group is found, or the refusal is the same, without spare entries. -/
theorem group_bares (cells : List Cell) (tag : Tag) :
    group (bares cells) tag = (group cells tag).map GroupCell.bare := by
  rw [group, group, find?_bares]
  rcases find? cells tag with _ | _ | ⟨slot, body, live, spare⟩
  · rfl
  · rfl
  · rw [Option.map_some, Cell.bare, bareLists_eq_map]
    rfl

/-- The same entries are there without spare ones. -/
theorem at?_bares (path : List (Tag × Nat)) (cells : List Cell) :
    at? (bares cells) path = (at? cells path).map (Option.map bares) := by
  induction path generalizing cells with
  | nil => rfl
  | cons step path ih =>
    obtain ⟨tag, index⟩ := step
    rw [at?, at?, group_bares]
    cases group cells tag with
    | error cause => rfl
    | ok g =>
      dsimp only [Except.map, bind, Except.bind, GroupCell.bare]
      rw [List.getElem?_map]
      cases g.live[index]? with
      | none => rfl
      | some entry => exact ih entry

/-- Entries deep inside a message can be replaced with or without spare entries around. -/
theorem bares_replaceAt (path : List (Tag × Nat)) (cells new : List Cell) :
    bares (replaceAt cells path new) = replaceAt (bares cells) path (bares new) := by
  induction path generalizing cells with
  | nil => rfl
  | cons step path ih =>
    obtain ⟨tag, index⟩ := step
    rw [replaceAt, replaceAt, group_bares]
    cases group cells tag with
    | error cause => rfl
    | ok g =>
      dsimp only [Except.map, GroupCell.bare]
      rw [List.getElem?_map]
      cases g.live[index]? with
      | none => rfl
      | some entry =>
        dsimp only [Option.map_some]
        rw [bares_put, GroupCell.bare_toCell, GroupCell.bare, List.map_set, ih entry]

/-! ## Cells of members -/

namespace Fit

variable {members : List Member} {cells : List Cell}

/-- The cell with a tag is that of the member with the tag. -/
theorem find?_rel (h : Fit members cells) (tag : Tag) :
    Option.Rel Cell.Fits (members.find? fun m => m.tag == tag) (find? cells tag) := by
  induction h with
  | nil => exact .none
  | @cons m c members cells hc _ ih =>
    rw [find?, List.find?_cons, List.find?_cons, hc.tag_eq]
    cases m.tag == tag with
    | true => exact .some hc
    | false => exact ih

/-- Cells of some members include one for each of them. -/
theorem find?_some {m : Member} {tag : Tag} (h : Fit members cells)
    (hm : (members.find? fun m => m.tag == tag) = some m) : ∃ c, find? cells tag = some c ∧ c.Fits m := by
  have hrel := h.find?_rel tag
  rw [hm] at hrel
  cases hc : find? cells tag with
  | none => rw [hc] at hrel; cases hrel
  | some c => rw [hc] at hrel; cases hrel with | some h => exact ⟨c, rfl, h⟩

/-- The cells of a group are those of a member that is a group. -/
theorem group {tag : Tag} {g : GroupCell} (h : Fit members cells) (hg : group cells tag = .ok g) :
    (members.find? fun m => m.tag == tag) = some (.group g.slot g.body) ∧ g.Fit := by
  have hrel := h.find?_rel tag
  rw [find?_of_group hg] at hrel
  cases hm : members.find? fun m => m.tag == tag with
  | none => rw [hm] at hrel; cases hrel
  | some m =>
    rw [hm] at hrel
    cases hrel with
    | some hfits =>
      obtain ⟨rfl, hfit⟩ := GroupCell.fits_toCell.1 hfits
      exact ⟨rfl, hfit⟩

/-- The cells of an entry are those of the members of its group in the layout. -/
theorem descend {l : Layout} {path : List (Tag × Nat)} {entry : List Cell} (h : Fit l.members cells)
    (hat : at? cells path = .ok (some entry)) :
    ∃ inner, l.descend? (path.map Prod.fst) = some inner ∧ Fit inner.members entry := by
  induction path generalizing l cells with
  | nil =>
    cases hat
    exact ⟨l, rfl, h⟩
  | cons step path ih =>
    obtain ⟨tag, index⟩ := step
    rw [at?] at hat
    obtain ⟨g, hg, hinside⟩ := exists_of_bind hat
    cases hinner : g.live[index]? with
    | none =>
      rw [hinner] at hinside
      cases hinside
    | some inner =>
      rw [hinner] at hinside
      obtain ⟨hm, hfit⟩ := h.group hg
      have hin : Fit (Layout.mk g.slot.name g.body).members inner :=
        hfit inner (List.mem_append_left _ (List.mem_of_getElem? hinner))
      obtain ⟨last, hlast, hentry⟩ := ih hin hinside
      refine ⟨last, ?_, hentry⟩
      rw [List.map_cons, Layout.descend?, Layout.lookup?, hm]
      exact hlast

end Fit

/-! ## Cells that differ in spare entries -/

/-- Cells of the members that differ at most in their spare entries. -/
structure Alike (members : List Member) (cells cells' : List Cell) : Prop where
  left : Fit members cells
  right : Fit members cells'
  bare : bares cells = bares cells'

namespace Alike

variable {members : List Member} {cells cells' : List Cell}

/-- Fields are found in both or refused in both. -/
theorem field (h : Alike members cells cells') (tag : Tag) : field cells tag = Encoder.field cells' tag := by
  rw [← field_bares, h.bare, field_bares]

/-- The kinds of fields are checked in the same way in both. -/
theorem typed (h : Alike members cells cells') (tag : Tag) (kind : ValueKind) :
    typed cells tag kind = Encoder.typed cells' tag kind := by
  rw [← typed_bares, h.bare, typed_bares]

/-- Both have the same members. -/
theorem has (h : Alike members cells cells') (tag : Tag) : has cells tag = Encoder.has cells' tag := by
  rw [← has_bares, h.bare, has_bares]

/-- Both are shown in the same way. -/
theorem outline (h : Alike members cells cells') : outline cells = Encoder.outline cells' := by
  rw [← outline_bares, h.bare, outline_bares]

/-- Both are written in the same way. -/
theorem written (h : Alike members cells cells') : written cells = Encoder.written cells' := by
  rw [← written_bares, h.bare, written_bares]

/-- A group is in both or in neither. -/
theorem group (h : Alike members cells cells') (tag : Tag) :
    (∃ cause, group cells tag = .error cause ∧ Encoder.group cells' tag = .error cause) ∨
      ∃ g g', Encoder.group cells tag = .ok g ∧ Encoder.group cells' tag = .ok g' ∧ g.bare = g'.bare :=
  cases_of_map_eq (by rw [← group_bares, h.bare, group_bares])

/-- An entry is in both or in neither. -/
theorem at? (h : Alike members cells cells') (path : List (Tag × Nat)) :
    (∃ cause, at? cells path = .error cause ∧ Encoder.at? cells' path = .error cause) ∨
      ∃ entry entry', Encoder.at? cells path = .ok entry ∧ Encoder.at? cells' path = .ok entry' ∧
        entry.map bares = entry'.map bares :=
  cases_of_map_eq (by rw [← at?_bares, h.bare, at?_bares])

/-- The entries have the cells of one group. -/
theorem entry (h : Alike members cells cells') {path : List (Tag × Nat)} {entry entry' : List Cell}
    (hat : Encoder.at? cells path = .ok (some entry)) (hat' : Encoder.at? cells' path = .ok (some entry'))
    (hbare : bares entry = bares entry') : ∃ body, Alike body entry entry' := by
  obtain ⟨inner, hinner, hfit⟩ := Fit.descend (l := ⟨"", members⟩) h.left hat
  obtain ⟨inner', hinner', hfit'⟩ := Fit.descend (l := ⟨"", members⟩) h.right hat'
  obtain rfl := Option.some.inj (hinner.symm.trans hinner')
  exact ⟨inner.members, hfit, hfit', hbare⟩

/-- A change that stores a value in a field does the same to both. -/
theorem map_put (h : Alike members cells cells') {x x' : Except FieldError FieldSlot} (hx : x = x') (value : Bytes) :
    (x >>= fun slot => pure (put (.field slot (some value)) cells)).map bares =
      (x' >>= fun slot => pure (put (.field slot (some value)) cells')).map bares := by
  subst hx
  cases x with
  | error cause => rfl
  | ok slot =>
    refine congrArg Except.ok ?_
    rw [bares_put, bares_put, h.bare]

/-- A change that puts another group in the place of one does the same to both. -/
theorem map_group (h : Alike members cells cells') (tag : Tag) {f : GroupCell → GroupCell}
    (hf : ∀ g g' : GroupCell, g.Fit → g'.Fit → g.bare = g'.bare → (f g).bare = (f g').bare) :
    (Encoder.group cells tag >>= fun g => pure (put (f g).toCell cells)).map bares =
      (Encoder.group cells' tag >>= fun g => pure (put (f g).toCell cells')).map bares := by
  rcases h.group tag with ⟨cause, hg, hg'⟩ | ⟨g, g', hg, hg', hbare⟩
  · rw [hg, hg']
    rfl
  · rw [hg, hg']
    refine congrArg Except.ok ?_
    rw [bares_put, bares_put, h.bare, GroupCell.bare_toCell, GroupCell.bare_toCell,
      hf g g' (h.left.group hg).2 (h.right.group hg').2 hbare]

/-- A change is refused for both, or does the same to both. -/
theorem map_apply (h : Alike members cells cells') (change : Change) :
    (change.apply cells).map bares = (change.apply cells').map bares := by
  cases change with
  | int tag n => exact h.map_put (h.typed tag .int) _
  | decimal tag d => exact h.map_put (h.typed tag .decimal) _
  | char tag b => exact h.map_put (h.typed tag .char) _
  | bool tag b => exact h.map_put (h.typed tag .bool) _
  | text tag content => exact h.map_put (h.typed tag .string) _
  | timestamp tag millis =>
    rw [Change.apply, Change.apply, setTimestamp, setTimestamp]
    cases Timestamp.text? millis with
    | some value => exact h.map_put (h.typed tag .timestamp) value
    | none =>
      rw [h.typed]
  | bytes tag value => exact h.map_put (h.field tag) value
  | nextEntry tag =>
    refine h.map_group tag fun g g' hg hg' hbare => ?_
    have hbody : g.body = g'.body := (GroupCell.bare_eq_iff.1 hbare).2.1
    rw [hg.bare_next, hg'.bare_next, hbare, hbody]
  | clearGroup tag =>
    exact h.map_group tag fun g g' _ _ hbare => congrArg (fun g => GroupCell.mk g.slot g.body [] []) hbare
  | clear => exact congrArg Except.ok (h.left.bares_clear.trans h.right.bares_clear.symm)

/-- Cells that differ at most in spare entries still do so after a change. -/
theorem apply (h : Alike members cells cells') (change : Change) :
    (∃ cause, change.apply cells = .error cause ∧ change.apply cells' = .error cause) ∨
      ∃ new new', change.apply cells = .ok new ∧ change.apply cells' = .ok new' ∧ Alike members new new' := by
  rcases cases_of_map_eq (h.map_apply change) with hrefused | ⟨new, new', hnew, hnew', hbare⟩
  · exact .inl hrefused
  · exact .inr ⟨new, new', hnew, hnew', (changed_of_apply hnew).fit h.left, (changed_of_apply hnew').fit h.right, hbare⟩

/-- Cells still differ at most in spare entries if an entry inside is replaced by such ones. -/
theorem replaceAt (h : Alike members cells cells') {path : List (Tag × Nat)} {entry entry' : List Cell}
    (hat : Encoder.at? cells path = .ok (some entry)) (hat' : Encoder.at? cells' path = .ok (some entry'))
    {body : List Member} (hentry : Alike body entry entry') {new new' : List Cell} (hnew : Alike body new new') :
    Alike members (replaceAt cells path new) (Encoder.replaceAt cells' path new') := by
  refine ⟨h.left.replaceAt hat fun body' hbody => ?_, h.right.replaceAt hat' fun body' hbody => ?_, ?_⟩
  · exact (hentry.left.map_member.symm.trans hbody.map_member) ▸ hnew.left
  · exact (hentry.right.map_member.symm.trans hbody.map_member) ▸ hnew.right
  · rw [bares_replaceAt, bares_replaceAt, h.bare, hnew.bare]

/-- Cleared cells differ at most in their spare entries too. -/
theorem clear (h : Alike members cells cells') : Alike members (clear cells) (Encoder.clear cells') :=
  ⟨h.left.clear, h.right.clear, h.left.bares_clear.trans h.right.bares_clear.symm⟩

/-- The first cell of a kind may be set in both. -/
theorem setFirst (h : Alike members cells cells') {p : Cell → Bool} (hp : ∀ c : Cell, p c.bare = p c) (value : Bytes) :
    Alike members (setFirst p value cells) (Encoder.setFirst p value cells') :=
  ⟨h.left.setFirst, h.right.setFirst, by rw [bares_setFirst hp, bares_setFirst hp, h.bare]⟩

end Alike

end Encoder

/-! ## Encoders that differ in spare entries -/

open Encoder

namespace MessageEncoder

/-- The encoder without spare entries. -/
def bare (e : MessageEncoder) : MessageEncoder :=
  { e with header := bares e.header, body := bares e.body, trailer := bares e.trailer }

/-- What stands around a computed field is bare if the cells are. -/
theorem split_bares (d : Derived) (cells : List Cell) : split d (bares cells) =
    (bares (split d cells).1, (split d cells).2.1, bares (split d cells).2.2) := by
  induction cells with
  | nil => rfl
  | cons c rest ih =>
    cases hc : c.isDerived d with
    | true => rw [bares, split_of_derived ((c.isDerived_bare d).trans hc), split_of_derived hc, c.tag_bare, bares]
    | false => rw [bares, split_of_not ((c.isDerived_bare d).trans hc), split_of_not hc, ih, bares]

/-- The announced length does not count spare entries. -/
theorem bodyLength_bare (e : MessageEncoder) : e.bare.bodyLength = e.bodyLength := by
  simp only [bodyLength, bare, split_bares, writtenLength_bares]

/-- The length of the message does not count spare entries. -/
theorem encodedLength_bare (e : MessageEncoder) : e.bare.encodedLength = e.encodedLength := by
  rw [encodedLength_eq, encodedLength_eq, bodyLength_bare]
  simp only [bare, split_bares, writtenLength_bares]

/-- The checksum does not count spare entries. -/
theorem summed_bare (e : MessageEncoder) : e.bare.summed = e.summed := by
  simp only [summed, measured, bodyLength_bare]
  simp only [bare, split_bares, written_bares, ← bares_setFirst (Cell.isDerived_bare .bodyLength)]

/-- Encoders with the cells of one layout that differ at most in their spare entries. -/
structure Alike (e e' : MessageEncoder) : Prop where
  layout : e.layout = e'.layout
  beginString : e.beginString = e'.beginString
  parts : ∀ part, Encoder.Alike (e.layout.part part).members (e.part part) (e'.part part)

namespace Alike

variable {e e' : MessageEncoder}

theorem bare (h : e.Alike e') : e.bare = e'.bare := by
  have hbares (part : Part) : bares (e.part part) = bares (e'.part part) := (h.parts part).bare
  rw [MessageEncoder.bare, MessageEncoder.bare, h.layout, h.beginString]
  exact congr (congrArg₂ _ (hbares .header) (hbares .body)) (hbares .trailer)

/-- Replacing the cells of a part in both encoders leaves them alike. -/
theorem setPart (h : e.Alike e') (part : Part) {cells cells' : List Cell}
    (hc : Encoder.Alike (e.layout.part part).members cells cells') :
    (e.setPart part cells).Alike (e'.setPart part cells') := by
  refine ⟨?_, ?_, fun part' => ?_⟩
  · cases part <;> exact h.layout
  · cases part <;> exact h.beginString
  · have hlayout : (e.setPart part cells).layout = e.layout := by cases part <;> rfl
    rw [part_setPart, part_setPart, hlayout]
    split_ifs with hp
    · exact hp ▸ hc
    · exact h.parts part'

/-- Both encoders are given the version and the message type. -/
theorem identify (h : e.Alike e') : e.identify.Alike e'.identify := by
  refine ⟨h.layout, h.beginString, fun part => ?_⟩
  cases part with
  | header =>
    have hversion := (h.parts .header).setFirst (Cell.isNamed_bare "BeginString") (Bytes.ofString e.beginString)
    have htype := hversion.setFirst (Cell.isNamed_bare "MsgType") e.layout.typeBytes
    rw [MessageEncoder.identify, MessageEncoder.identify, ← h.layout, ← h.beginString]
    exact htype
  | body => exact h.parts .body
  | trailer => exact h.parts .trailer

/-- Both encoders are reset. -/
theorem reset (h : e.Alike e') : e.reset.Alike e'.reset := by
  refine identify ⟨h.layout, h.beginString, fun part => ?_⟩
  cases part <;> exact (h.parts _).clear

/-- Both encoders compute the same length and the same checksum. -/
theorem computed (h : e.Alike e') : e.computed.Alike e'.computed := by
  have hlength : e.bodyLength = e'.bodyLength := by rw [← bodyLength_bare, h.bare, bodyLength_bare]
  have hsummed : e.summed = e'.summed := by rw [← summed_bare, h.bare, summed_bare]
  refine ⟨h.layout, h.beginString, fun part => ?_⟩
  rw [MessageEncoder.computed, MessageEncoder.computed, measured, measured, hlength, hsummed]
  cases part with
  | header => exact (h.parts .header).setFirst (Cell.isDerived_bare .bodyLength) _
  | body => exact h.parts .body
  | trailer => exact (h.parts .trailer).setFirst (Cell.isDerived_bare .checkSum) _

/-- Both encoders announce the same length. -/
theorem encodedLength (h : e.Alike e') : e.encodedLength = e'.encodedLength := by
  rw [← encodedLength_bare, h.bare, encodedLength_bare]

/-- Both encoders write the same bytes. -/
theorem wire (h : e.Alike e') : e.wire = e'.wire := by
  have hwritten (part : Part) : written (e.computed.part part) = written (e'.computed.part part) :=
    (h.computed.parts part).written
  rw [MessageEncoder.wire, MessageEncoder.wire]
  exact congrArg₂ _ (congrArg₂ _ (hwritten .header) (hwritten .body)) (hwritten .trailer)

/-- The same bytes are written, or none. -/
theorem encode (h : e.Alike e') (buffer : Bytes) (offset : Nat) :
    (e.encode buffer offset).1 = (e'.encode buffer offset).1 ∧
      (e.encode buffer offset).2.1.Alike (e'.encode buffer offset).2.1 ∧
      (e.encode buffer offset).2.2 = (e'.encode buffer offset).2.2 := by
  by_cases hroom : e.encodedLength ≤ buffer.length - offset
  · rw [encode_of_room hroom, encode_of_room (h.encodedLength ▸ hroom), h.encodedLength, h.wire]
    exact ⟨rfl, h.computed, rfl⟩
  · have hroom' := Nat.lt_of_not_le hroom
    rw [encode_of_no_room hroom', encode_of_no_room (h.encodedLength ▸ hroom'), h.encodedLength]
    exact ⟨rfl, h, rfl⟩

/-- Both encoders show the same text. -/
theorem render (h : e.Alike e') : e.render = e'.render := by
  have houtline (part : Part) : outline (e.part part) = outline (e'.part part) := (h.parts part).outline
  rw [MessageEncoder.render, MessageEncoder.render, h.layout]
  exact congr (congrArg₂ _ (houtline .header) (houtline .body)) (houtline .trailer)

end Alike

end MessageEncoder

end FixWire
