import FixWire.Proofs.Decoder.Machine
import FixWire.Proofs.Decoder.Stack
import Mathlib.Data.List.Forall2

/-!
# Cells that fit a layout

The cells of a decoder are those of the members of its layout, in order, and the same holds inside every
repetition, those included that are kept to be used again. Nothing that a decoder does to its cells changes
this, so the cell with a tag is always that of the member with the tag.
-/

namespace FixWire.Decoder

/-- The cell is that of the member, and so are the cells of its repetitions. -/
inductive Cell.Fits : Member → Cell → Prop
  | field {slot : FieldSlot} {value : Value} {stamp : UInt32} :
    Fits (.field slot) (.field slot value stamp)
  | group {slot : GroupSlot} {body : List Member} {counter : Counter} {live spare : List (List Cell)}
    (h : ∀ cells ∈ live ++ spare, List.Forall₂ Fits body cells) :
    Fits (.group slot body) (.group slot body counter live spare)

/-- The cells are those of the members. -/
abbrev Fit (members : List Member) (cells : List Cell) : Prop :=
  List.Forall₂ Cell.Fits members cells

namespace Cell

theorem Fits.tag_eq {m : Member} {c : Cell} (h : Fits m c) : c.tag = m.tag := by
  cases h <;> rfl

theorem Fits.isDerived_eq {m : Member} {c : Cell} (h : Fits m c) (d : Derived) :
    c.isDerived d = m.isDerived d := by
  cases h <;> rfl

theorem fits_blank (m : Member) : Fits m (blank m) := by
  cases m with
  | field slot => exact .field
  | group slot body => exact .group (by simp)

theorem Fits.clear {m : Member} {c : Cell} (h : Fits m c) : Fits m c.clear := by
  cases h with
  | field => exact .field
  | group h => exact .group (by simpa using h)

/-- A cell that has taken a value is still that of its member. -/
theorem Fits.store {m : Member} {c : Cell} (h : Fits m c) (cycle : UInt32) (value : Bytes) :
    Fits m (c.store cycle value).1 := by
  cases h with
  | field => exact .field
  | group h => exact .group (by simpa using h)

end Cell

/-! ## The cells of an aggregate -/

theorem isSome_memberOf? (members : List Member) (tag : Tag) :
    (memberOf? members tag).isSome = owns members tag := by
  rw [memberOf?, owns, Bool.eq_iff_iff, List.find?_isSome, List.any_eq_true]

/-- Blank cells are those of the members that they are made of. -/
theorem fit_blank (members : List Member) : Fit members (members.map Cell.blank) := by
  rw [Fit, List.forall₂_map_right_iff, List.forall₂_same]
  exact fun m _ => Cell.fits_blank m

namespace Fit

variable {members : List Member} {cells : List Cell}

theorem clear (h : Fit members cells) : Fit members (cells.map Cell.clear) := by
  rw [Fit, List.forall₂_map_right_iff]
  exact h.imp fun _ _ hc => hc.clear

/-- The cell with a tag is that of the member with the tag. -/
theorem find?_rel (h : Fit members cells) (tag : Tag) :
    Option.Rel Cell.Fits (memberOf? members tag) (find? cells tag) := by
  induction h with
  | nil => exact .none
  | @cons m c members cells hc _ ih =>
    rw [memberOf?, find?, List.find?_cons, List.find?_cons, hc.tag_eq]
    cases m.tag == tag with
    | true => exact .some hc
    | false => exact ih

/-- There is a cell for each member, which is found by its tag. -/
theorem find?_some {m : Member} {tag : Tag} (h : Fit members cells) (hm : memberOf? members tag = some m) :
    ∃ c, find? cells tag = some c ∧ c.Fits m := by
  have := h.find?_rel tag
  rw [hm] at this
  cases hc : find? cells tag with
  | none => rw [hc] at this; cases this
  | some c => rw [hc] at this; cases this with | some h => exact ⟨c, rfl, h⟩

/-- The layout and the cells own the same tags. -/
theorem owns_eq (h : Fit members cells) (tag : Tag) : owns members tag = (find? cells tag).isSome := by
  rw [← isSome_memberOf?]
  have := h.find?_rel tag
  revert this
  generalize memberOf? members tag = m, find? cells tag = c
  rintro (_ | _) <;> rfl

/-- A cell of the member with its tag can be put in the place of the one that is there. -/
theorem put {m : Member} {c : Cell} (h : Fit members cells) (hm : memberOf? members c.tag = some m)
    (hc : c.Fits m) : Fit members (put c cells) := by
  induction h with
  | nil => exact .nil
  | @cons m' c' members cells hc' hrest ih =>
    rw [memberOf?, List.find?_cons] at hm
    rw [Decoder.put, hc'.tag_eq]
    by_cases ht : m'.tag = c.tag
    · rw [if_pos ht]
      simp only [ht, beq_self_eq_true, Option.some.injEq] at hm
      exact .cons (hm ▸ hc) hrest
    · rw [if_neg ht]
      rw [beq_eq_false_iff_ne.2 ht] at hm
      exact .cons hc' (ih hm)

end Fit

/-! ## Storing a pair -/

theorem find?_tag {cells : List Cell} {tag : Tag} {c : Cell} (h : find? cells tag = some c) :
    c.tag = tag := by
  simpa using List.find?_some h

/-- Storing a pair changes the cell with its tag. -/
theorem store_of_find? {cycle : UInt32} {p : Pair} {c : Cell} :
    ∀ {cells : List Cell}, find? cells p.tag = some c →
      store cycle p cells = (put (c.store cycle p.value).1 cells, (c.store cycle p.value).2)
  | [], h => by simp [find?] at h
  | c' :: rest, h => by
    rw [find?, List.find?_cons] at h
    rw [store, put, tag_store]
    by_cases ht : c'.tag = p.tag
    · simp only [ht, beq_self_eq_true, Option.some.injEq] at h
      subst h
      rw [if_pos ht, if_pos rfl]
    · rw [beq_eq_false_iff_ne.2 ht] at h
      rw [if_neg ht, if_neg (find?_tag h ▸ ht), store_of_find? h]

end FixWire.Decoder
