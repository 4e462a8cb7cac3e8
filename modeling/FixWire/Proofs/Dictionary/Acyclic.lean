import FixWire.Dictionary.Check
import FixWire.Layout.Flatten
import Mathlib.Data.List.Perm.Subperm
import Mathlib.Logic.Relation
import Mathlib.Order.RelClasses

/-!
# Dictionaries in which no aggregate is inside itself

Walks through a dictionary are bounded by a number of steps that is fixed beforehand. In an acyclic dictionary
the bound is never reached : a walk cannot come twice upon the same component or group, so it is over after as
many steps as there are of them (`Acyclic.rank`). A bound that suffices can be replaced by any larger one.

`acyclic_of_cycle?` : the search for an aggregate inside itself finds one if there is any.
-/

namespace FixWire.Dictionary

/-- The second holder is directly inside the first one. -/
def Inside (d : Dictionary) (h h' : Holder) : Prop :=
  h' ∈ d.inside h

/-- No holder is inside itself. -/
def Acyclic (d : Dictionary) : Prop :=
  ∀ h, ¬Relation.TransGen d.Inside h h

/-! ## What can be inside something -/

/-- The declared components and groups. -/
def nested (d : Dictionary) : List Holder :=
  d.components.map (fun c => .component c.name) ++ (List.range d.groups.length).map .group

theorem depth_eq (d : Dictionary) : d.depth = d.nested.length + 1 := by
  simp [depth, nested]

theorem component?_eq_none {d : Dictionary} {name : String} (h : Holder.component name ∉ d.nested) :
    d.component? name = none := by
  rw [component?, List.find?_eq_none]
  intro c hc hname
  refine h (List.mem_append_left _ (List.mem_map.2 ⟨c, hc, ?_⟩))
  rw [eq_of_beq hname]

theorem groups_eq_none {d : Dictionary} {index : Nat} (h : Holder.group index ∉ d.nested) :
    d.groups[index]? = none := by
  rw [List.getElem?_eq_none_iff]
  by_contra hlt
  refine h (List.mem_append_right _ (List.mem_map.2 ⟨index, ?_, rfl⟩))
  simpa using hlt

theorem mem_inside {d : Dictionary} {h h' : Holder} (hin : h' ∈ d.inside h) :
    (∃ index, h' = .group index) ∨ ∃ name, h' = .component name := by
  obtain ⟨e, -, he⟩ := List.mem_filterMap.1 hin
  cases hi : e.item with
  | field f => simp [hi] at he
  | group index => exact .inl ⟨index, by simpa [hi] using he.symm⟩
  | component name => exact .inr ⟨name, by simpa [hi] using he.symm⟩

theorem inside_of_group {d : Dictionary} {h : Holder} {e : Entry} {index : Nat} (he : e ∈ d.entriesOf h)
    (hi : e.item = .group index) : d.Inside h (.group index) :=
  List.mem_filterMap.2 ⟨e, he, by rw [hi]⟩

theorem inside_of_component {d : Dictionary} {h : Holder} {e : Entry} {name : String}
    (he : e ∈ d.entriesOf h) (hi : e.item = .component name) : d.Inside h (.component name) :=
  List.mem_filterMap.2 ⟨e, he, by rw [hi]⟩

/-- Something that is not declared holds nothing. -/
theorem entriesOf_eq_nil {d : Dictionary} {h h' : Holder} (hin : d.Inside h h') (hn : h' ∉ d.nested) :
    d.entriesOf h' = [] := by
  rcases mem_inside hin with ⟨index, rfl⟩ | ⟨name, rfl⟩
  · rw [entriesOf, groups_eq_none hn]
    rfl
  · rw [entriesOf, component?_eq_none hn]
    rfl

/-! ## Rank -/

section Rank

variable {d : Dictionary} {P : Nat → Holder → Prop}

/-- What holds of holders by induction on the declared ones that have not been passed yet. `path` are those
that have been. -/
theorem Acyclic.rank_path (ha : d.Acyclic) {declared : List Holder}
    (leaf : ∀ n h, h ∉ declared → P n h)
    (node : ∀ n h, h ∈ declared → (∀ h', d.Inside h h' → P n h') → P (n + 1) h) :
    ∀ (n : Nat) (path : List Holder) (h : Holder), path.Nodup → path ⊆ declared →
      (∀ p ∈ path, Relation.TransGen d.Inside p h) → declared.length ≤ path.length + n → P n h := by
  intro n
  induction n with
  | zero =>
    intro path h hnodup hsub hpath hlen
    refine leaf 0 h fun hh => ?_
    have hnew : h ∉ path := fun hp => ha h (hpath h hp)
    have := (List.subperm_of_subset (List.nodup_cons.2 ⟨hnew, hnodup⟩)
      (List.cons_subset.2 ⟨hh, hsub⟩)).length_le
    rw [List.length_cons] at this
    omega
  | succ n ih =>
    intro path h hnodup hsub hpath hlen
    by_cases hh : h ∈ declared
    · have hnew : h ∉ path := fun hp => ha h (hpath h hp)
      refine node n h hh fun h' hin => ih (h :: path) h' (List.nodup_cons.2 ⟨hnew, hnodup⟩)
        (List.cons_subset.2 ⟨hh, hsub⟩) ?_ (by rw [List.length_cons]; omega)
      intro p hp
      rcases List.mem_cons.1 hp with rfl | hp
      · exact .single hin
      · exact (hpath p hp).tail hin
    · exact leaf (n + 1) h hh

/-- What holds of holders by induction on the declared ones holds at their number. -/
theorem Acyclic.rank (ha : d.Acyclic) (declared : List Holder)
    (leaf : ∀ n h, h ∉ declared → P n h)
    (node : ∀ n h, h ∈ declared → (∀ h', d.Inside h h' → P n h') → P (n + 1) h) (h : Holder) :
    P declared.length h :=
  ha.rank_path leaf node declared.length [] h List.nodup_nil (List.nil_subset _) nofun (by simp)

end Rank

/-! ## Layouts -/

section Height

variable {d : Dictionary} {h h' : Holder}

/-- What is inside the holder is over after so many steps. -/
def Height (d : Dictionary) : Nat → Holder → Prop
  | 0, h => d.entriesOf h = []
  | n + 1, h => ∀ h', d.Inside h h' → d.Height n h'

theorem height_of_nil (he : d.entriesOf h = []) : ∀ n, d.Height n h
  | 0 => he
  | n + 1 => by
    intro h' hin
    rw [Inside, inside, he] at hin
    simp at hin

theorem Height.succ : ∀ {n : Nat} {h : Holder}, d.Height n h → d.Height (n + 1) h
  | 0, _, he => height_of_nil he 1
  | _ + 1, _, hh => fun h' hin => (hh h' hin).succ

theorem Acyclic.height (ha : d.Acyclic) (h : Holder) : d.Height d.depth h := by
  rw [depth_eq]
  intro h' hin
  refine ha.rank (P := fun n h' => (∃ h, d.Inside h h') → d.Height n h') d.nested ?_ ?_ h' ⟨h, hin⟩
  · rintro n h' hn ⟨h, hin⟩
    exact height_of_nil (entriesOf_eq_nil hin hn) n
  · intro n h' _ ih _ h'' hin
    exact ih h'' hin ⟨h', hin⟩

/-- A walk through what is inside a holder needs no more steps than that. -/
theorem flatten_of_height : ∀ {n k : Nat} {h : Holder} (required : Bool) (members : List Member),
    d.Height n h → n ≤ k →
      d.flatten k required members (d.entriesOf h) = d.flatten n required members (d.entriesOf h)
  | 0, k, h, required, members, he, _ => by
    rw [show d.entriesOf h = [] from he]
    cases k <;> rfl
  | n + 1, k + 1, h, required, members, hh, hk => by
    rw [flatten, flatten]
    refine List.foldl_ext _ _ _ fun members e he => ?_
    cases hi : e.item with
    | field f => rfl
    | component name =>
      exact flatten_of_height _ _ (hh _ (inside_of_component he hi)) (Nat.le_of_succ_le_succ hk)
    | group index =>
      dsimp only
      rw [flatten_of_height true [] (hh _ (inside_of_group he hi)) (Nat.le_of_succ_le_succ hk)]

end Height

/-! ## Delimiters -/

section Leading

variable {d : Dictionary} {h : Holder}

/-- What the component leads to is found after following so many components. -/
def Leads (d : Dictionary) : Nat → String → Prop
  | 0, name => d.entriesOf (.component name) = []
  | n + 1, name => ∀ name', d.Inside (.component name) (.component name') → d.Leads n name'

theorem leads_of_nil {name : String} (he : d.entriesOf (.component name) = []) : ∀ n, d.Leads n name
  | 0 => he
  | n + 1 => by
    intro name' hin
    rw [Inside, inside, he] at hin
    simp at hin

theorem Acyclic.leads (ha : d.Acyclic) {name : String} (hin : d.Inside h (.component name)) :
    d.Leads d.components.length name := by
  have := ha.rank
    (P := fun n h' => ∀ name, h' = .component name → (∃ h, d.Inside h h') → d.Leads n name)
    (d.components.map fun c => .component c.name) ?_ ?_ (.component name) name rfl ⟨h, hin⟩
  · rwa [List.length_map] at this
  · rintro n _ hn name rfl ⟨h, hin⟩
    refine leads_of_nil (entriesOf_eq_nil hin fun hm => ?_) n
    rcases List.mem_append.1 hm with hm | hm
    · exact hn hm
    · simp at hm
  · rintro n _ _ ih name rfl _ name' hin
    exact ih _ hin name' rfl ⟨_, hin⟩

end Leading

/-! ## The search for an aggregate inside itself -/

section Search

variable {d : Dictionary}

/-- What is inside the holder ends : there is no way further and further into it. -/
def Ends (d : Dictionary) : Holder → Prop :=
  Acc fun h' h => d.Inside h h'

theorem mem_holders_of_inside {h h' : Holder} (hin : d.Inside h h') :
    h' ∈ d.holders ∨ d.entriesOf h' = [] := by
  refine or_iff_not_imp_right.2 fun he => ?_
  by_contra hh
  refine he (entriesOf_eq_nil hin fun hn => hh ?_)
  rcases List.mem_append.1 hn with hn | hn
  · exact List.mem_append_left _ (List.mem_append_left _ hn)
  · exact List.mem_append_right _ hn

/-- What has been visited one after the other. -/
theorem foldlM_visit {visit : List Holder → Holder → Except (List Holder) (List Holder)} :
    ∀ {hs done done' : List Holder},
      (∀ h ∈ hs, ∀ done done', (∀ x ∈ done, d.Ends x) → visit done h = .ok done' →
        (∀ x ∈ done', d.Ends x) ∧ d.Ends h) →
      (∀ x ∈ done, d.Ends x) → hs.foldlM visit done = .ok done' →
      (∀ x ∈ done', d.Ends x) ∧ ∀ h ∈ hs, d.Ends h
  | [], done, done', _, hdone, hok => by
    cases hok
    exact ⟨hdone, nofun⟩
  | h :: hs, done, done', hvisit, hdone, hok => by
    rw [List.foldlM_cons] at hok
    cases hv : visit done h with
    | error path => simp [hv, bind, Except.bind] at hok
    | ok middle =>
      obtain ⟨hmiddle, hh⟩ := hvisit h (by simp) done middle hdone hv
      simp only [hv, bind, Except.bind] at hok
      obtain ⟨hdone', hhs⟩ := foldlM_visit (fun h hh => hvisit h (List.mem_cons_of_mem _ hh)) hmiddle hok
      exact ⟨hdone', List.forall_mem_cons.2 ⟨hh, hhs⟩⟩

/-- Whatever has been visited without finding an aggregate inside itself ends. The path has no holder twice, so
the bound on the visits is not reached. -/
theorem ends_of_visit : ∀ (n : Nat) (path done done' : List Holder) (h : Holder),
    path.Nodup → path ⊆ d.holders → d.holders.length + 1 ≤ path.length + n →
      (h ∈ d.holders ∨ d.entriesOf h = []) → (∀ x ∈ done, d.Ends x) →
      d.visit n path done h = .ok done' → (∀ x ∈ done', d.Ends x) ∧ d.Ends h := by
  intro n
  induction n with
  | zero =>
    intro path done done' h hnodup hsub hlen
    have := (List.subperm_of_subset hnodup hsub).length_le
    omega
  | succ n ih =>
    intro path done done' h hnodup hsub hlen hh hdone hok
    rw [visit] at hok
    split_ifs at hok with hd hp
    · cases hok
      exact ⟨hdone, hdone h hd⟩
    · cases hf : (d.inside h).foldlM (d.visit n (h :: path)) done with
      | error path => simp [hf, bind, Except.bind] at hok
      | ok middle =>
        simp only [hf, bind, Except.bind, pure, Except.pure, Except.ok.injEq] at hok
        obtain rfl := hok
        rcases hh with hh | he
        · obtain ⟨hmiddle, hin⟩ := foldlM_visit (fun h' hin done done' => ih (h :: path) done done' h'
            (List.nodup_cons.2 ⟨hp, hnodup⟩) (List.cons_subset.2 ⟨hh, hsub⟩)
            (by rw [List.length_cons]; omega) (mem_holders_of_inside hin)) hdone hf
          have hends : d.Ends h := .intro h hin
          exact ⟨List.forall_mem_cons.2 ⟨hends, hmiddle⟩, hends⟩
        · have hnil : d.inside h = [] := by
            rw [inside, he, List.filterMap_nil]
          rw [hnil, List.foldlM_nil] at hf
          cases hf
          have hends : d.Ends h := .intro h fun h' hin => by
            rw [Inside, hnil] at hin
            simp at hin
          exact ⟨List.forall_mem_cons.2 ⟨hends, hdone⟩, hends⟩

/-- If no aggregate is found inside itself, then none is. -/
theorem acyclic_of_cycle? (h : d.cycle? = none) : d.Acyclic := by
  rw [cycle?] at h
  split at h
  · rename_i done hok
    have hholders := (foldlM_visit (fun h hh done done' => ends_of_visit (d.holders.length + 1) [] done done' h
      List.nodup_nil (List.nil_subset _) (by simp) (.inl hh)) (by simp) hok).2
    have hends : ∀ h h', d.Inside h h' → d.Ends h' := by
      intro h h' hin
      rcases mem_holders_of_inside hin with hh | he
      · exact hholders h' hh
      · refine .intro h' fun h'' hin' => ?_
        rw [Inside, inside, he] at hin'
        simp at hin'
    have hwf : WellFounded fun h' h => d.Inside h h' := ⟨fun h => .intro h fun h' hin => hends h h' hin⟩
    intro h hh
    have hswap := Relation.transGen_swap.1 hh
    exact hwf.transGen.asymmetric h h hswap hswap
  · exact absurd h (Option.some_ne_none _)

end Search

end FixWire.Dictionary
