import FixWire.Proofs.Encoder.Framing
import Mathlib.Data.List.Forall2

/-!
# Encoders in use

What a user does to the cells of an aggregate is one of a few changes (`Change`), made to a part of the message or
to an entry somewhere inside it. Whatever is done to an encoder, written and reset in between, its cells stay those
of the members of its layout, those of entries included that are kept to be used again (`MessageEncoder.Used.suits`).
-/

namespace FixWire

namespace Encoder

/-! ## Changes -/

/-- What can be done to the cells of an aggregate. -/
inductive Change where
  | int (tag : Tag) (n : Int)
  | decimal (tag : Tag) (d : Decimal)
  | char (tag : Tag) (b : UInt8)
  | bool (tag : Tag) (b : Bool)
  | text (tag : Tag) (content : String)
  | timestamp (tag : Tag) (millis : Int)
  | bytes (tag : Tag) (value : Bytes)
  | nextEntry (tag : Tag)
  | clearGroup (tag : Tag)
  | clear

/-- The cells after a change, if it is not refused. -/
def Change.apply (cells : List Cell) : Change → Except FieldError (List Cell)
  | .int tag n => setInt cells tag n
  | .decimal tag d => setDecimal cells tag d
  | .char tag b => setChar cells tag b
  | .bool tag b => setBool cells tag b
  | .text tag content => setText cells tag content
  | .timestamp tag millis => setTimestamp cells tag millis
  | .bytes tag value => setBytes cells tag value
  | .nextEntry tag => FixWire.Encoder.nextEntry cells tag
  | .clearGroup tag => FixWire.Encoder.clearGroup cells tag
  | .clear => .ok (FixWire.Encoder.clear cells)

/-! ## Cells that fit a layout -/

/-- The cell is that of the member, and so are the cells of its entries. -/
inductive Cell.Fits : Member → Cell → Prop
  | field {slot : FieldSlot} {value : Option Bytes} : Fits (.field slot) (.field slot value)
  | group {slot : GroupSlot} {body : List Member} {live spare : List (List Cell)}
    (h : ∀ cells ∈ live ++ spare, List.Forall₂ Fits body cells) :
    Fits (.group slot body) (.group slot body live spare)

/-- The cells are those of the members. -/
abbrev Fit (members : List Member) (cells : List Cell) : Prop :=
  List.Forall₂ Cell.Fits members cells

namespace Cell

variable {m : Member} {c : Cell}

theorem Fits.tag_eq (h : c.Fits m) : c.tag = m.tag := by
  cases h <;> rfl

theorem fits_blank (m : Member) : Fits m (blank m) := by
  cases m with
  | field slot => exact .field
  | group slot body => exact .group (by simp)

theorem Fits.clear (h : Fits m c) : Fits m c.clear := by
  cases h with
  | field => exact .field
  | group h => exact .group (by simpa using h)

end Cell

theorem fit_blank (members : List Member) : Fit members (blank members) := by
  rw [Fit, blank, List.forall₂_map_right_iff, List.forall₂_same]
  exact fun m _ => Cell.fits_blank m

namespace Fit

variable {members : List Member} {cells : List Cell}

theorem clear (h : Fit members cells) : Fit members (clear cells) := by
  rw [Fit, Encoder.clear, List.forall₂_map_right_iff]
  exact h.imp fun _ _ hc => hc.clear

/-- A cell can take the place of another one that is for the same member. -/
theorem put {c new : Cell} (h : Fit members cells) (hc : find? cells new.tag = some c)
    (hnew : ∀ m, c.Fits m → new.Fits m) : Fit members (put new cells) := by
  induction h with
  | nil => exact .nil
  | @cons m d members cells hd hrest ih =>
    rw [find?, List.find?_cons] at hc
    rw [Encoder.put]
    by_cases ht : d.tag = new.tag
    · simp only [ht, beq_self_eq_true, Option.some.injEq] at hc
      rw [if_pos ht]
      exact .cons (hnew m (hc ▸ hd)) hrest
    · rw [beq_eq_false_iff_ne.2 ht] at hc
      rw [if_neg ht]
      exact .cons hd (ih hc)

theorem setFirst {p : Cell → Bool} {value : Bytes} (h : Fit members cells) :
    Fit members (setFirst p value cells) := by
  induction h with
  | nil => exact .nil
  | @cons m d members cells hd hrest ih =>
    cases hd with
    | field =>
      rw [Encoder.setFirst]
      split_ifs
      · exact .cons .field hrest
      · exact .cons .field ih
    | group hd => exact .cons (.group hd) ih

end Fit

/-! ## What a change does -/

/-- A group that is found is the cell of its tag. -/
theorem find?_of_group {cells : List Cell} {tag : Tag} {g : GroupCell} (h : group cells tag = .ok g) :
    find? cells tag = some g.toCell := by
  unfold group at h
  split at h
  · rename_i hf
    cases h
    exact hf
  · cases h

/-- A field that is found is the cell of its tag. -/
theorem find?_of_field {cells : List Cell} {tag : Tag} {slot : FieldSlot} (h : field cells tag = .ok slot) :
    ∃ value, find? cells tag = some (.field slot value) := by
  unfold field at h
  split at h
  · rename_i hf
    cases h
    exact ⟨_, hf⟩
  · cases h

theorem find?_tag {cells : List Cell} {tag : Tag} {c : Cell} (h : find? cells tag = some c) : c.tag = tag := by
  simpa using List.find?_some h

/-- A field of a given type is a field. -/
theorem field_of_typed {cells : List Cell} {tag : Tag} {kind : ValueKind} {slot : FieldSlot}
    (h : typed cells tag kind = .ok slot) : field cells tag = .ok slot := by
  obtain ⟨slot', hslot, h⟩ := exists_of_bind h
  dsimp only at h
  split_ifs at h
  · cases h
  · cases h
    exact hslot

/-- What a change that is not refused has done : it has set a field, added an entry to a group or removed those of
a group, or cleared all cells. -/
inductive Changed (cells : List Cell) : List Cell → Prop
  | set {slot : FieldSlot} {old : Option Bytes} (value : Bytes)
    (h : find? cells slot.tag = some (.field slot old)) : Changed cells (put (.field slot (some value)) cells)
  | next {g : GroupCell} (h : find? cells g.slot.tag = some g.toCell) : Changed cells (put g.next.toCell cells)
  | clearGroup {g : GroupCell} (h : find? cells g.slot.tag = some g.toCell) :
    Changed cells (put g.clear.toCell cells)
  | clear : Changed cells (clear cells)

/-- A change that is not refused has done one of these. -/
theorem changed_of_apply {cells cells' : List Cell} {change : Change} (h : change.apply cells = .ok cells') :
    Changed cells cells' := by
  have hset {tag : Tag} {slot : FieldSlot} (hslot : field cells tag = .ok slot) (value : Bytes) :
      Changed cells (put (.field slot (some value)) cells) := by
    obtain ⟨old, hf⟩ := find?_of_field hslot
    exact .set value (find?_tag hf ▸ hf)
  have htyped {tag : Tag} {kind : ValueKind} {value : Bytes} (h : setTyped cells tag kind value = .ok cells') :
      Changed cells cells' := by
    obtain ⟨slot, hslot, h⟩ := exists_of_bind h
    cases h
    exact hset (field_of_typed hslot) value
  cases change with
  | int tag n => exact htyped h
  | decimal tag d => exact htyped h
  | char tag b => exact htyped h
  | bool tag b => exact htyped h
  | text tag content => exact htyped h
  | timestamp tag millis =>
    obtain ⟨slot, hslot, h⟩ := exists_of_bind h
    split at h
    · cases h
      exact hset (field_of_typed hslot) _
    · cases h
  | bytes tag value =>
    obtain ⟨slot, hslot, h⟩ := exists_of_bind h
    cases h
    exact hset hslot value
  | nextEntry tag =>
    obtain ⟨g, hg, h⟩ := exists_of_bind h
    cases h
    have hf := find?_of_group hg
    obtain rfl : g.slot.tag = tag := find?_tag hf
    exact .next hf
  | clearGroup tag =>
    obtain ⟨g, hg, h⟩ := exists_of_bind h
    cases h
    have hf := find?_of_group hg
    obtain rfl : g.slot.tag = tag := find?_tag hf
    exact .clearGroup hf
  | clear =>
    cases h
    exact .clear

/-! ## What a change keeps -/

theorem GroupCell.slot_next (g : GroupCell) : g.next.slot = g.slot := by
  unfold next
  cases g.spare <;> rfl

/-- A group with one more entry is still the group of its member. -/
theorem GroupCell.fits_next {m : Member} {g : GroupCell} (h : g.toCell.Fits m) : g.next.toCell.Fits m := by
  obtain ⟨slot, body, live, spare⟩ := g
  cases h with
  | group h =>
    cases spare with
    | nil =>
      refine .group fun cells hcells => ?_
      change cells ∈ live ++ [blank body] ++ [] at hcells
      rw [List.append_nil, List.mem_append, List.mem_singleton] at hcells
      rcases hcells with hcells | rfl
      · exact h cells (List.mem_append_left _ hcells)
      · exact fit_blank body
    | cons used spare =>
      refine .group fun cells hcells => ?_
      change cells ∈ live ++ [FixWire.Encoder.clear used] ++ spare at hcells
      rw [List.mem_append, List.mem_append, List.mem_singleton] at hcells
      rcases hcells with (hcells | rfl) | hcells
      · exact h cells (List.mem_append_left _ hcells)
      · exact Fit.clear (h used (List.mem_append_right _ List.mem_cons_self))
      · exact h cells (List.mem_append_right _ (List.mem_cons_of_mem _ hcells))

/-- A change keeps the cells those of the layout. -/
theorem Changed.fit {members : List Member} {cells cells' : List Cell} (h : Changed cells cells')
    (hfit : Fit members cells) : Fit members cells' := by
  cases h with
  | set value h =>
    refine hfit.put h fun m hm => ?_
    cases hm
    exact .field
  | @next g h =>
    refine hfit.put (c := g.toCell) ?_ fun m hm => GroupCell.fits_next hm
    change find? cells g.next.slot.tag = _
    rwa [g.slot_next]
  | clearGroup h =>
    refine hfit.put h fun m hm => ?_
    cases hm with
    | group hm => exact .group (by simpa [GroupCell.clear] using hm)
  | clear => exact hfit.clear

/-- Cells inside which those of an entry have been changed still fit. -/
theorem Fit.replaceAt : ∀ {path : List (Tag × Nat)} {members : List Member} {cells entry new : List Cell},
    Fit members cells → at? cells path = .ok (some entry) → (∀ body, Fit body entry → Fit body new) →
      Fit members (replaceAt cells path new)
  | [], members, cells, entry, new, hfit, hat, hnew => by
    rw [at?] at hat
    cases hat
    exact hnew members hfit
  | (tag, index) :: path, members, cells, entry, new, hfit, hat, hnew => by
    rw [at?] at hat
    obtain ⟨g, hg, hinside⟩ := exists_of_bind hat
    split at hinside
    · rename_i inner hinner
      have hf := find?_of_group hg
      obtain rfl : g.slot.tag = tag := find?_tag hf
      rw [Encoder.replaceAt, hg]
      dsimp only
      rw [hinner]
      refine hfit.put hf fun m hm => ?_
      cases hm with
      | group hm =>
        refine .group fun cells hcells => ?_
        rcases List.mem_append.1 hcells with hlive | hspare
        · rcases List.mem_or_eq_of_mem_set hlive with hlive | rfl
          · exact hm cells (List.mem_append_left _ hlive)
          · exact Fit.replaceAt (hm inner (List.mem_append_left _ (List.mem_of_getElem? hinner))) hinside hnew
        · exact hm cells (List.mem_append_right _ hspare)
    · cases hinside

end Encoder

/-! ## Encoders -/

open Encoder

namespace MessageEncoder

/-- The encoders that become of an encoder by using it : by changes to a part or to an entry inside it, by writing,
and by resetting. -/
inductive Used (e₀ : MessageEncoder) : MessageEncoder → Prop
  | new : Used e₀ e₀
  | change {e : MessageEncoder} {entry entry' : List Cell} (h : Used e₀ e) (part : Part) (path : List (Tag × Nat))
    (change : Change) (hat : at? (e.part part) path = .ok (some entry)) (hc : change.apply entry = .ok entry') :
    Used e₀ (e.setPart part (replaceAt (e.part part) path entry'))
  | encode {e : MessageEncoder} (h : Used e₀ e) (buffer : Bytes) (offset : Nat) : Used e₀ (e.encode buffer offset).2.1
  | reset {e : MessageEncoder} (h : Used e₀ e) : Used e₀ e.reset

/-- What stays the same of an encoder while it is used. -/
structure Suits (e₀ e : MessageEncoder) : Prop where
  layout : e.layout = e₀.layout
  beginString : e.beginString = e₀.beginString
  fit : ∀ part, Fit (e₀.layout.part part).members (e.part part)

variable {e e₀ : MessageEncoder}

theorem part_setPart (e : MessageEncoder) (part part' : Part) (cells : List Cell) :
    (e.setPart part cells).part part' = if part' = part then cells else e.part part' := by
  cases part <;> cases part' <;> rfl

/-- A message is refused as a whole, and leaves the encoder as it is then. -/
theorem encode_of_no_room {buffer : Bytes} {offset : Nat} (h : buffer.length - offset < e.encodedLength) :
    e.encode buffer offset = (.error (.bufferTooShort e.encodedLength (buffer.length - offset)), e, buffer) := by
  have hensure : (Cursor.start buffer offset).ensure e.encodedLength =
      .error (.bufferTooShort e.encodedLength (buffer.length - offset)) := if_pos h
  rw [encode, hensure]

theorem Suits.identify (h : e₀.Suits e) : e₀.Suits e.identify := by
  refine ⟨h.layout, h.beginString, fun part => ?_⟩
  cases part with
  | header => exact (h.fit .header).setFirst.setFirst
  | body => exact h.fit .body
  | trailer => exact h.fit .trailer

theorem Suits.computed (h : e₀.Suits e) : e₀.Suits e.computed := by
  refine ⟨h.layout, h.beginString, fun part => ?_⟩
  cases part with
  | header => exact (h.fit .header).setFirst
  | body => exact h.fit .body
  | trailer => exact (h.fit .trailer).setFirst

/-- A new encoder has the cells of its layout. -/
theorem suits_make (layout : MessageLayout) (beginString : String) :
    (make layout beginString).Suits (make layout beginString) := by
  have hblank : (make layout beginString).Suits ⟨layout, beginString, blank layout.header.members,
      blank layout.body.members, blank layout.trailer.members⟩ := by
    refine ⟨rfl, rfl, fun part => ?_⟩
    cases part <;> exact fit_blank _
  exact hblank.identify

/-- An encoder in use has the cells of its layout. -/
theorem Used.suits (h : Used e₀ e) (h₀ : e₀.Suits e₀) : e₀.Suits e := by
  induction h with
  | new => exact h₀
  | @change e entry entry' _ part path change hat hc ih =>
    refine ⟨?_, ?_, fun part' => ?_⟩
    · cases part <;> exact ih.layout
    · cases part <;> exact ih.beginString
    · rw [part_setPart]
      split_ifs with hp
      · subst hp
        exact (ih.fit part').replaceAt hat fun body => (changed_of_apply hc).fit
      · exact ih.fit part'
  | @encode e _ buffer offset ih =>
    by_cases hroom : e.encodedLength ≤ buffer.length - offset
    · rw [encode_of_room hroom]
      exact ih.computed
    · rw [encode_of_no_room (Nat.lt_of_not_le hroom)]
      exact ih
  | @reset e _ ih =>
    refine Suits.identify ⟨ih.layout, ih.beginString, fun part => ?_⟩
    cases part with
    | header => exact (ih.fit .header).clear
    | body => exact (ih.fit .body).clear
    | trailer => exact (ih.fit .trailer).clear

end MessageEncoder

end FixWire
