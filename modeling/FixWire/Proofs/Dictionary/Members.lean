import FixWire.Proofs.Dictionary.Ways

/-!
# Members of a layout

Of several members with one tag a layout keeps the first, so that every tag stands for one member
(`nodup_layoutOf`). In a dictionary without faults the entries of a group lead to a field, and they do so by the
first of their ways : that field, or the counter of that group, is the delimiter, and it comes first among the
members of a repetition (`head_layoutOf_group`).

`Member.Sound` collects this for a member and whatever is inside it, together with the size of tags.
-/

namespace FixWire

/-- Tags are numbers of 32 bits, and inside a group they differ and the delimiter comes first. -/
inductive Member.Sound : Member → Prop
  | field {slot : FieldSlot} (h : slot.tag < tagLimit) : Sound (.field slot)
  | group {slot : GroupSlot} {body : List Member} (h : slot.tag < tagLimit) (nodup : (body.map Member.tag).Nodup)
    (head : (body.map Member.tag).head? = some slot.delimiter) (inner : ∀ m ∈ body, Sound m) :
    Sound (.group slot body)

theorem nodup_addMember {members : List Member} (h : (members.map Member.tag).Nodup) (m : Member) :
    ((addMember members m).map Member.tag).Nodup := by
  unfold addMember
  split_ifs with hm
  · exact h
  · have : m.tag ∉ members.map Member.tag := by
      intro hin
      obtain ⟨m', hm', ht⟩ := List.mem_map.1 hin
      exact hm (List.any_eq_true.2 ⟨m', hm', beq_iff_eq.2 ht⟩)
    rw [List.map_append, List.nodup_append]
    refine ⟨h, List.nodup_cons.2 ⟨List.not_mem_nil, List.nodup_nil⟩, ?_⟩
    rintro t ht _ hs rfl
    exact this (List.mem_singleton.1 hs ▸ ht)

namespace Dictionary

variable {d : Dictionary} {h : Holder}

/-- The field is the counter of a group, or an entry points at it. -/
def Uses (d : Dictionary) (f : Field) : Prop :=
  (∃ h, ∃ e ∈ d.entriesOf h, e.item = .field f) ∨ ∃ g ∈ d.groups, g.counter = f

/-- The members of a layout have different tags. -/
theorem nodup_layoutOf (ha : d.Acyclic) (h : Holder) :
    ((d.layoutOf h).members.map Member.tag).Nodup := by
  have hfold : ∀ ms members : List Member, (members.map Member.tag).Nodup →
      ((ms.foldl addMember members).map Member.tag).Nodup := by
    intro ms
    induction ms with
    | nil => exact fun _ hn => hn
    | cons m rest ih => exact fun members hn => ih _ (nodup_addMember hn m)
  have hways := flatten_eq_ways [] true [] (Nat.le_refl _) (ha.height h)
  rw [relax_nil] at hways
  rw [layoutOf, hways]
  exact hfold _ _ List.nodup_nil

/-- The last entry of a way is somewhere in the dictionary. -/
theorem exists_last_mem : ∀ {n : Nat} {h : Holder} {w : Way}, w ∈ d.ways n (d.entriesOf h) →
    ∃ h', w.last ∈ d.entriesOf h'
  | 0, _, _, hw => by simp [ways] at hw
  | n + 1, h, w, hw => by
    rw [ways, List.mem_flatMap] at hw
    obtain ⟨e, he, hw⟩ := hw
    cases hi : e.item with
    | component name =>
      rw [hi] at hw
      obtain ⟨w', hw', rfl⟩ := List.mem_map.1 hw
      obtain ⟨h', hlast⟩ := exists_last_mem hw'
      exact ⟨h', hlast⟩
    | _ =>
      rw [hi] at hw
      obtain rfl := List.mem_singleton.1 hw
      exact ⟨h, he⟩

/-- The field that some entries lead to is at the end of the first way. -/
theorem ways_of_leadingField? : ∀ (k : Nat) {n : Nat} {h : Holder} {f : Field}, d.Height n h →
    d.leadingField? k (d.entriesOf h) = some f →
      ∃ w rest, d.ways n (d.entriesOf h) = w :: rest ∧ d.tagOf? w = some f.number
  | k, n, h, f, hheight, hf => by
    cases he : d.entriesOf h with
    | nil => simp [he, leadingField?] at hf
    | cons e rest =>
      obtain ⟨m, rfl⟩ : ∃ m, n = m + 1 := by
        cases n with
        | zero => exact absurd (he.symm.trans hheight) (List.cons_ne_nil _ _)
        | succ m => exact ⟨m, rfl⟩
      have hmem : e ∈ d.entriesOf h := he ▸ List.mem_cons_self
      rw [he, leadingField?.eq_def] at hf
      rw [ways, List.flatMap_cons]
      cases hi : e.item with
      | field f' =>
        simp only [hi, Option.some.injEq] at hf
        exact ⟨⟨[], e⟩, _, rfl, by simp [tagOf?, hi, hf]⟩
      | group index =>
        simp only [hi] at hf
        obtain ⟨g, hg, rfl⟩ := Option.map_eq_some_iff.1 hf
        exact ⟨⟨[], e⟩, _, rfl, by simp [tagOf?, hi, hg]⟩
      | component name =>
        cases k with
        | zero => simp [hi] at hf
        | succ k =>
          simp only [hi] at hf
          obtain ⟨w, rest', hw, ht⟩ := ways_of_leadingField? k (hheight _ (inside_of_component hmem hi)) hf
          simp only [hw, List.map_cons, List.cons_append]
          exact ⟨⟨e :: w.via, w.last⟩, _, rfl, ht⟩

/-- The first member of a repetition is the delimiter. -/
theorem head_layoutOf_group (ha : d.Acyclic) {index : Nat} {f : Field} (hf : d.delimiter? index = some f) :
    ((d.layoutOf (.group index)).members.map Member.tag).head? = some f.number := by
  obtain ⟨w, rest, hw, ht⟩ := ways_of_leadingField? d.components.length (ha.height (.group index)) hf
  have hkept : d.keptWays (.group index) = w :: d.firstWays [f.number] rest := by
    rw [keptWays, hw, firstWays, ht]
    rfl
  have hmembers := members_layoutOf ha [] (h := .group index) rfl
  rw [relax_nil] at hmembers
  have hm := tag_memberAt? d (Way.requiredOutside [] false w.entries) w
  rw [ht] at hm
  obtain ⟨m, hm, htag⟩ := Option.map_eq_some_iff.1 hm
  rw [hmembers, hkept, List.filterMap_cons, hm, List.map_cons, List.head?_cons, htag]

/-- If no group is without a delimiter, every group has one. -/
theorem exists_delimiter? (h : d.groupFault? = none) {index : Nat} (hi : index < d.groups.length) :
    ∃ f, d.delimiter? index = some f := by
  rw [groupFault?, List.findSome?_eq_none_iff] at h
  have hnone := h index (List.mem_range.2 hi)
  cases hd : d.delimiter? index with
  | none => simp [hd] at hnone
  | some f => exact ⟨f, rfl⟩

/-- The members of a layout are sound. -/
theorem sound_layoutOf (ha : d.Acyclic) (hdelimiter : d.groupFault? = none)
    (htags : ∀ f, d.Uses f → f.number < tagLimit) (hh : h.isAggregate = true) :
    ∀ m ∈ (d.layoutOf h).members, m.Sound := by
  refine ha.aggregate_induction (P := fun h => ∀ m ∈ (d.layoutOf h).members, m.Sound) (fun h hh ih m hm => ?_) h hh
  have hmembers := members_layoutOf ha [] hh
  rw [relax_nil] at hmembers
  rw [hmembers] at hm
  obtain ⟨w, hw, hm⟩ := List.mem_filterMap.1 hm
  rw [memberAt?] at hm
  cases hi : w.last.item with
  | field f =>
    obtain ⟨h', hlast⟩ := exists_last_mem (mem_firstWays hw).1
    simp only [hi, Option.some.injEq] at hm
    subst hm
    exact .field (htags f (.inl ⟨h', w.last, hlast, hi⟩))
  | group index =>
    simp only [hi] at hm
    obtain ⟨slot, hslot, rfl⟩ := Option.map_eq_some_iff.1 hm
    obtain ⟨g, hg, rfl⟩ := Option.map_eq_some_iff.1 hslot
    obtain ⟨f, hf⟩ := exists_delimiter? hdelimiter (List.getElem?_eq_some_iff.1 hg).1
    refine .group (htags g.counter (.inr ⟨g, List.mem_of_getElem? hg, rfl⟩)) (nodup_layoutOf ha _) ?_
      (ih w hw index hi)
    rw [head_layoutOf_group ha hf, hf]
    rfl
  | component name => simp [hi] at hm

end Dictionary

end FixWire
