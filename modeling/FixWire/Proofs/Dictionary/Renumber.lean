import FixWire.Proofs.Dictionary.Members
import FixWire.Proofs.Refusal
import Mathlib.Logic.Equiv.Defs

/-!
# Other numbers for the groups

Groups are numbered in the order in which they are laid out, so the same declarations in another order give the groups
other numbers. Entries that are laid out after other groups are the same up to the numbers of their groups
(`layOut_renumber`). Two dictionaries are the same in this sense if some permutation of the numbers turns the one into
the other (`Dictionary.Renumbered`). The order of components does not count then, because they are found by name.

Splicing components out keeps dictionaries the same (`Renumbered.normalize`). Layouts do not tell the numbers of groups,
so they are equal (`Renumbered.messageLayouts`), and both dictionaries have a fault or neither has
(`Renumbered.fault?`), because a cycle is found if and only if there is one (`cycle?_eq_none_iff`).
-/

namespace FixWire

/-! ## Entries with other numbers -/

/-- The item with other numbers for the groups. -/
def Item.renumber (φ : Nat → Nat) : Item → Item
  | .field f => .field f
  | .group index => .group (φ index)
  | .component name => .component name

/-- The entry with other numbers for the groups. -/
def Entry.renumber (φ : Nat → Nat) (e : Entry) : Entry :=
  { e with item := e.item.renumber φ }

/-- The group with other numbers for the groups in it. -/
def Group.renumber (φ : Nat → Nat) (g : Group) : Group :=
  { g with entries := g.entries.map (Entry.renumber φ) }

/-- The component with other numbers for the groups in it. -/
def Component.renumber (φ : Nat → Nat) (c : Component) : Component :=
  { c with entries := c.entries.map (Entry.renumber φ) }

/-- The message with other numbers for the groups in it. -/
def Message.renumber (φ : Nat → Nat) (m : Message) : Message :=
  { m with entries := m.entries.map (Entry.renumber φ) }

/-- The holder under its other number. -/
def Holder.renumber (φ : Nat → Nat) : Holder → Holder
  | .group index => .group (φ index)
  | h => h

theorem Entry.renumber_id : Entry.renumber id = id := by
  funext e
  obtain ⟨required, _ | _ | _⟩ := e <;> rfl

theorem Group.renumber_id : Group.renumber id = id := by
  funext g
  rw [renumber, Entry.renumber_id, List.map_id]
  rfl

theorem Component.renumber_id : Component.renumber id = id := by
  funext c
  rw [renumber, Entry.renumber_id, List.map_id]
  rfl

theorem Message.renumber_id : Message.renumber id = id := by
  funext m
  rw [renumber, Entry.renumber_id, List.map_id]
  rfl

section Renumber

variable (φ ψ : Nat → Nat)

/-- Numbers may be changed twice. -/
theorem Entry.renumber_comp : Entry.renumber ψ ∘ Entry.renumber φ = Entry.renumber (ψ ∘ φ) := by
  funext e
  obtain ⟨required, _ | _ | _⟩ := e <;> rfl

theorem Group.renumber_comp : Group.renumber ψ ∘ Group.renumber φ = Group.renumber (ψ ∘ φ) := by
  funext g
  rw [Function.comp, renumber, renumber, List.map_map, Entry.renumber_comp]
  rfl

theorem Component.renumber_comp : Component.renumber ψ ∘ Component.renumber φ = Component.renumber (ψ ∘ φ) := by
  funext c
  rw [Function.comp, renumber, renumber, List.map_map, Entry.renumber_comp]
  rfl

theorem Message.renumber_comp : Message.renumber ψ ∘ Message.renumber φ = Message.renumber (ψ ∘ φ) := by
  funext m
  rw [Function.comp, renumber, renumber, List.map_map, Entry.renumber_comp]
  rfl

end Renumber

/-! ## Laying out after other groups -/

mutual

/-- The number of groups declared in an entry. -/
def Declaration.groupCount : Declaration → Nat
  | .field _ _ => 0
  | .group _ _ members => FixWire.groupCount members + 1
  | .component _ _ => 0

/-- The number of groups declared in some entries. -/
def groupCount : List Declaration → Nat
  | [] => 0
  | d :: rest => d.groupCount + groupCount rest

end

/-- So many groups have been added at the end of the groups so far, and the same groups with other numbers in them at
the end of other groups. -/
def Added (φ : Nat → Nat) (count : Nat) (groups groups₁ groups' groups₁' : List Group) : Prop :=
  ∃ new : List Group, new.length = count ∧ groups₁ = groups ++ new ∧ groups₁' = groups' ++ new.map (Group.renumber φ)

/-- Groups that are added after the one list of groups have the numbers of those that are added after the other one. -/
def Follow (φ : Nat → Nat) (count : Nat) (groups groups' : List Group) : Prop :=
  ∀ i < count, φ (groups.length + i) = groups'.length + i

section LayOut

variable {φ : Nat → Nat} {m n : Nat} {groups groups₁ groups₂ groups' groups₁' groups₂' : List Group}

theorem Added.none (φ : Nat → Nat) (groups groups' : List Group) : Added φ 0 groups groups groups' groups' :=
  ⟨[], rfl, by simp, by simp⟩

/-- Groups that are added in two goes are added. -/
theorem Added.trans (h : Added φ m groups groups₁ groups' groups₁') (h₁ : Added φ n groups₁ groups₂ groups₁' groups₂') :
    Added φ (m + n) groups groups₂ groups' groups₂' := by
  obtain ⟨new, rfl, rfl, rfl⟩ := h
  obtain ⟨more, rfl, rfl, rfl⟩ := h₁
  exact ⟨new ++ more, by simp, by simp, by simp⟩

/-- As many groups are added on both sides. -/
theorem Added.length (h : Added φ m groups groups₁ groups' groups₁') :
    groups₁.length = groups.length + m ∧ groups₁'.length = groups'.length + m := by
  obtain ⟨new, rfl, rfl, rfl⟩ := h
  simp

/-- The numbers of the first groups follow those before. -/
theorem Follow.left (h : Follow φ (m + n) groups groups') : Follow φ m groups groups' :=
  fun i hi => h i (Nat.lt_of_lt_of_le hi (Nat.le_add_right m n))

/-- The numbers of the last groups follow those of the first ones. -/
theorem Follow.right (h : Follow φ (m + n) groups groups') (ha : Added φ m groups groups₁ groups' groups₁') :
    Follow φ n groups₁ groups₁' := by
  intro i hi
  rw [ha.length.1, ha.length.2, Nat.add_assoc, Nat.add_assoc]
  exact h (m + i) (Nat.add_lt_add_left hi m)

mutual

/-- The entries of a declaration are laid out after other groups with the numbers that follow those. -/
theorem Declaration.layOut_renumber : ∀ (d : Declaration) (groups groups' : List Group),
    Follow φ d.groupCount groups groups' →
      Added φ d.groupCount groups (d.layOut groups).1 groups' (d.layOut groups').1 ∧
        (d.layOut groups').2 = (d.layOut groups).2.renumber φ
  | .field required field, groups, groups', _ => ⟨.none φ groups groups', rfl⟩
  | .component required name, groups, groups', _ => ⟨.none φ groups groups', rfl⟩
  | .group required counter members, groups, groups', h => by
    obtain ⟨hadded, hentries⟩ := FixWire.layOut_renumber members groups groups' h.left
    have hlast := h.right hadded 0 Nat.one_pos
    rw [Nat.add_zero, Nat.add_zero] at hlast
    refine ⟨hadded.trans ⟨[_], rfl, rfl, ?_⟩, congrArg (fun index => Entry.mk required (.group index)) hlast.symm⟩
    change (layOut groups' members).1 ++ [⟨_, counter, (layOut groups' members).2⟩] = _
    rw [hentries]
    rfl

/-- Entries that are laid out after other groups are the same up to the numbers of their groups. -/
theorem layOut_renumber : ∀ (ds : List Declaration) (groups groups' : List Group),
    Follow φ (groupCount ds) groups groups' →
      Added φ (groupCount ds) groups (layOut groups ds).1 groups' (layOut groups' ds).1 ∧
        (layOut groups' ds).2 = (layOut groups ds).2.map (Entry.renumber φ)
  | [], groups, groups', _ => ⟨.none φ groups groups', rfl⟩
  | d :: rest, groups, groups', h => by
    obtain ⟨hfirst, hentry⟩ := Declaration.layOut_renumber d groups groups' h.left
    obtain ⟨hrest, hentries⟩ := layOut_renumber rest _ _ (h.right hfirst)
    exact ⟨hfirst.trans hrest, congrArg₂ List.cons hentry hentries⟩

end

/-- The number of groups declared in some components. -/
def componentsCount : List DeclaredComponent → Nat
  | [] => 0
  | c :: rest => groupCount c.members + componentsCount rest

/-- The number of groups declared in some messages. -/
def messagesCount : List DeclaredMessage → Nat
  | [] => 0
  | m :: rest => groupCount m.members + messagesCount rest

/-- So are those of declared components, one after another. -/
theorem layOutComponents_renumber : ∀ (cs : List DeclaredComponent) (groups groups' : List Group),
    Follow φ (componentsCount cs) groups groups' →
      Added φ (componentsCount cs) groups (layOutComponents groups cs).1 groups' (layOutComponents groups' cs).1 ∧
        (layOutComponents groups' cs).2 = (layOutComponents groups cs).2.map (Component.renumber φ)
  | [], groups, groups', _ => ⟨.none φ groups groups', rfl⟩
  | c :: rest, groups, groups', h => by
    obtain ⟨hfirst, hentries⟩ := layOut_renumber c.members groups groups' h.left
    obtain ⟨hrest, hothers⟩ := layOutComponents_renumber rest _ _ (h.right hfirst)
    exact ⟨hfirst.trans hrest, congrArg₂ List.cons (congrArg (Component.mk c.name) hentries) hothers⟩

/-- So are those of declared messages. -/
theorem layOutMessages_renumber : ∀ (ms : List DeclaredMessage) (groups groups' : List Group),
    Follow φ (messagesCount ms) groups groups' →
      Added φ (messagesCount ms) groups (layOutMessages groups ms).1 groups' (layOutMessages groups' ms).1 ∧
        (layOutMessages groups' ms).2 = (layOutMessages groups ms).2.map (Message.renumber φ)
  | [], groups, groups', _ => ⟨.none φ groups groups', rfl⟩
  | m :: rest, groups, groups', h => by
    obtain ⟨hfirst, hentries⟩ := layOut_renumber m.members groups groups' h.left
    obtain ⟨hrest, hothers⟩ := layOutMessages_renumber rest _ _ (h.right hfirst)
    exact ⟨hfirst.trans hrest, congrArg₂ List.cons (congrArg (Message.mk m.name m.type m.category) hentries) hothers⟩

end LayOut

namespace Dictionary

/-! ## Dictionaries with other numbers -/

/-- The second dictionary is the first one with other numbers for the groups. Components are found by name, wherever
they are declared. -/
structure Renumbered (φ : Equiv.Perm Nat) (d d' : Dictionary) : Prop where
  major : d'.major = d.major
  minor : d'.minor = d.minor
  fields : d'.fields = d.fields
  groups : ∀ index, d'.groups[φ index]? = d.groups[index]?.map (Group.renumber φ)
  groups_length : d'.groups.length = d.groups.length
  components : ∀ name, d'.component? name = (d.component? name).map (Component.renumber φ)
  components_length : d'.components.length = d.components.length
  spliced : ∀ name, name ∈ d'.spliced ↔ name ∈ d.spliced
  messages : d'.messages = d.messages.map (Message.renumber φ)
  header : d'.header = d.header.map (Entry.renumber φ)
  trailer : d'.trailer = d.trailer.map (Entry.renumber φ)

/-! ## Components in the table -/

/-- A component is in the table if it is in the dictionary and still listed. -/
theorem tableComponent?_eq (d : Dictionary) (name : String) :
    d.tableComponent? name = if d.inTable name then d.component? name else none := by
  rw [tableComponent?, table, List.find?_filter, component?]
  split_ifs with htable
  · refine congrArg (List.find? · _) (funext fun c => ?_)
    by_cases hname : c.name = name
    · simp [hname, htable]
    · simp [hname]
  · rw [List.find?_eq_none]
    intro c _ hc
    have hc := of_decide_eq_true hc
    exact htable (beq_iff_eq.1 hc.2 ▸ hc.1)

/-- Whether a component is nothing but a group does not depend on the numbers. -/
theorem onlyGroup?_renumber (φ : Nat → Nat) (es : List Entry) :
    onlyGroup? (es.map (Entry.renumber φ)) = (onlyGroup? es).map φ := by
  match es with
  | [] => rfl
  | ⟨_, .field _⟩ :: _ => rfl
  | ⟨_, .component _⟩ :: _ => rfl
  | [⟨_, .group _⟩] => rfl
  | ⟨_, .group _⟩ :: _ :: _ => rfl

/-- Splicing redirects the entries of every component. -/
theorem component?_splice (d : Dictionary) (name : String) :
    d.splice.component? name = (d.component? name).map fun c => { c with entries := c.entries.map d.redirect } := by
  simp only [component?, splice, mapEntries, List.find?_map, Function.comp_def]

/-- A splice takes out the components that stand for groups. -/
theorem mem_spliced_splice {d : Dictionary} {name : String} :
    name ∈ d.splice.spliced ↔ name ∈ d.spliced ∨ (d.groupOf? name).isSome := by
  change name ∈ d.spliced ++ _ ↔ _
  rw [List.mem_append, List.mem_map]
  refine or_congr_right ⟨?_, fun hg => ?_⟩
  · rintro ⟨c, hc, rfl⟩
    exact (List.mem_filter.1 hc).2
  · obtain ⟨index, hindex⟩ := Option.isSome_iff_exists.1 hg
    obtain ⟨c, hc, -⟩ := Option.bind_eq_some_iff.1 hindex
    have hname : c.name = name := by simpa using List.find?_some hc
    exact ⟨c, List.mem_filter.2 ⟨List.mem_of_find?_eq_some hc, hname ▸ hg⟩, hname⟩

/-! ## Faults -/

/-- Where no holder is inside itself, a visit comes to an end without a report. -/
theorem visit_eq_ok_of_acyclic {d : Dictionary} (ha : d.Acyclic) : ∀ (n : Nat) (path done : List Holder) (h : Holder),
    (∀ p ∈ path, Relation.TransGen d.Inside p h) → ∃ done', d.visit n path done h = .ok done'
  | 0, _, done, _, _ => ⟨done, rfl⟩
  | n + 1, path, done, h, hpath => by
    rw [visit]
    split_ifs with hd hp
    · exact ⟨done, rfl⟩
    · exact absurd (hpath h hp) (ha h)
    · obtain ⟨done', hdone'⟩ := foldlM_eq_ok (d.visit n (h :: path)) (d.inside h) done
        fun done h' hin => visit_eq_ok_of_acyclic ha n (h :: path) done h' <| List.forall_mem_cons.2
          ⟨.single hin, fun p hp => (hpath p hp).tail hin⟩
      exact ⟨h :: done', by rw [hdone']; rfl⟩

/-- The search finds an aggregate inside itself only if there is one. -/
theorem cycle?_eq_none_iff {d : Dictionary} : d.cycle? = none ↔ d.Acyclic := by
  refine ⟨acyclic_of_cycle?, fun ha => ?_⟩
  obtain ⟨done, hdone⟩ := foldlM_eq_ok (d.visit (d.holders.length + 1) []) d.holders []
    fun done h _ => visit_eq_ok_of_acyclic ha _ [] done h nofun
  rw [cycle?, hdone]

/-- What it takes for a dictionary to have no fault. -/
theorem fault?_eq_none_iff {d : Dictionary} :
    d.fault? = none ↔ d.fields.findSome? Field.fault? = none ∧ d.groupFault? = none ∧ d.Acyclic := by
  rw [fault?, Option.or_eq_none_iff, Option.or_eq_none_iff, Option.map_eq_none_iff, cycle?_eq_none_iff]

namespace Renumbered

variable {φ ψ : Equiv.Perm Nat} {d d' d'' : Dictionary}

/-- A dictionary is itself with the same numbers. -/
theorem refl (d : Dictionary) : Renumbered (.refl Nat) d d where
  major := rfl
  minor := rfl
  fields := rfl
  groups index := by
    rw [Equiv.coe_refl, Group.renumber_id, Option.map_id]
    rfl
  groups_length := rfl
  components name := by
    rw [Equiv.coe_refl, Component.renumber_id, Option.map_id]
    rfl
  components_length := rfl
  spliced _ := Iff.rfl
  messages := by rw [Equiv.coe_refl, Message.renumber_id, List.map_id]
  header := by rw [Equiv.coe_refl, Entry.renumber_id, List.map_id]
  trailer := by rw [Equiv.coe_refl, Entry.renumber_id, List.map_id]

/-- The old numbers can be given back. -/
theorem symm (h : Renumbered φ d d') : Renumbered φ.symm d' d where
  major := h.major.symm
  minor := h.minor.symm
  fields := h.fields.symm
  groups index := by
    have hindex := h.groups (φ.symm index)
    rw [φ.apply_symm_apply] at hindex
    rw [hindex, Option.map_map, Group.renumber_comp, φ.symm_comp_self, Group.renumber_id, Option.map_id]
    rfl
  groups_length := h.groups_length.symm
  components name := by
    rw [h.components, Option.map_map, Component.renumber_comp, φ.symm_comp_self, Component.renumber_id, Option.map_id]
    rfl
  components_length := h.components_length.symm
  spliced name := (h.spliced name).symm
  messages := by
    rw [h.messages, List.map_map, Message.renumber_comp, φ.symm_comp_self, Message.renumber_id, List.map_id]
  header := by
    rw [h.header, List.map_map, Entry.renumber_comp, φ.symm_comp_self, Entry.renumber_id, List.map_id]
  trailer := by
    rw [h.trailer, List.map_map, Entry.renumber_comp, φ.symm_comp_self, Entry.renumber_id, List.map_id]

/-- Numbers may be given twice. -/
theorem trans (h : Renumbered φ d d') (h' : Renumbered ψ d' d'') : Renumbered (φ.trans ψ) d d'' where
  major := h'.major.trans h.major
  minor := h'.minor.trans h.minor
  fields := h'.fields.trans h.fields
  groups index := by
    rw [Equiv.trans_apply, h'.groups, h.groups, Option.map_map, Group.renumber_comp, Equiv.coe_trans]
  groups_length := h'.groups_length.trans h.groups_length
  components name := by
    rw [h'.components, h.components, Option.map_map, Component.renumber_comp, Equiv.coe_trans]
  components_length := h'.components_length.trans h.components_length
  spliced name := (h'.spliced name).trans (h.spliced name)
  messages := by
    rw [h'.messages, h.messages, List.map_map, Message.renumber_comp, Equiv.coe_trans]
  header := by
    rw [h'.header, h.header, List.map_map, Entry.renumber_comp, Equiv.coe_trans]
  trailer := by
    rw [h'.trailer, h.trailer, List.map_map, Entry.renumber_comp, Equiv.coe_trans]

/-! ## Looking things up -/

/-- The same components are in both tables. -/
theorem inTable (h : Renumbered φ d d') (name : String) : d'.inTable name = d.inTable name := by
  rw [Dictionary.inTable, Dictionary.inTable, Bool.eq_iff_iff]
  simp [h.spliced name]

/-- The components of the tables have the same entries, with other numbers. -/
theorem tableComponent? (h : Renumbered φ d d') (name : String) :
    d'.tableComponent? name = (d.tableComponent? name).map (Component.renumber φ) := by
  rw [tableComponent?_eq, tableComponent?_eq, h.inTable, h.components]
  split_ifs <;> rfl

/-- A component stands for the same group, with its other number. -/
theorem groupOf? (h : Renumbered φ d d') (name : String) : d'.groupOf? name = (d.groupOf? name).map φ := by
  rw [Dictionary.groupOf?, Dictionary.groupOf?, h.tableComponent?]
  cases d.tableComponent? name with
  | none => rfl
  | some c => exact onlyGroup?_renumber φ c.entries

/-- Entries are redirected alike, whatever the numbers of groups are. -/
theorem redirect (h : Renumbered φ d d') : d'.redirect ∘ Entry.renumber φ = Entry.renumber φ ∘ d.redirect := by
  funext e
  obtain ⟨required, f | index | name⟩ := e
  · rfl
  · rfl
  · change d'.redirect ⟨required, .component name⟩ = (d.redirect ⟨required, .component name⟩).renumber φ
    cases hg : d.groupOf? name with
    | none =>
      have hg' : d'.groupOf? name = none := by rw [h.groupOf?, hg, Option.map_none]
      rw [redirect_of_none rfl hg, redirect_of_none rfl hg']
      rfl
    | some index =>
      have hg' : d'.groupOf? name = some (φ index) := by rw [h.groupOf?, hg, Option.map_some]
      rw [redirect_of_groupOf? rfl hg, redirect_of_groupOf? rfl hg']
      rfl

/-- The entries of a holder are the same, with other numbers. -/
theorem entriesOf (h : Renumbered φ d d') (holder : Holder) :
    d'.entriesOf (holder.renumber φ) = (d.entriesOf holder).map (Entry.renumber φ) := by
  cases holder with
  | header => exact h.header
  | trailer => exact h.trailer
  | message index =>
    change (d'.messages[index]?.map Message.entries).getD [] = _
    rw [h.messages, List.getElem?_map, Dictionary.entriesOf]
    cases d.messages[index]? <;> rfl
  | group index =>
    change (d'.groups[φ index]?.map Group.entries).getD [] = _
    rw [h.groups, Dictionary.entriesOf]
    cases d.groups[index]? <;> rfl
  | component name =>
    change ((d'.component? name).map Component.entries).getD [] = _
    rw [h.components, Dictionary.entriesOf]
    cases d.component? name <;> rfl

/-- Holders keep their names. -/
theorem nameOf (h : Renumbered φ d d') (holder : Holder) : d'.nameOf (holder.renumber φ) = d.nameOf holder := by
  cases holder with
  | message index =>
    change (d'.messages[index]?.map Message.name).getD "" = _
    rw [h.messages, List.getElem?_map, Dictionary.nameOf]
    cases d.messages[index]? <;> rfl
  | group index =>
    change (d'.groups[φ index]?.map Group.name).getD "" = _
    rw [h.groups, Dictionary.nameOf]
    cases d.groups[index]? <;> rfl
  | _ => rfl

/-! ## Splicing -/

/-- Splicing goes by the names of components, and does the same to both dictionaries. -/
theorem splice (h : Renumbered φ d d') : Renumbered φ d.splice d'.splice where
  major := h.major
  minor := h.minor
  fields := h.fields
  groups index := by
    change (d'.groups.map _)[φ index]? = (d.groups.map _)[index]?.map (Group.renumber φ)
    rw [List.getElem?_map, List.getElem?_map, h.groups, Option.map_map, Option.map_map]
    refine congrArg (Option.map · _) (funext fun g => congrArg (Group.mk g.name g.counter) ?_)
    change (g.entries.map _).map _ = (g.entries.map _).map _
    rw [List.map_map, List.map_map, h.redirect]
  groups_length := by
    change (d'.groups.map _).length = (d.groups.map _).length
    rw [List.length_map, List.length_map, h.groups_length]
  components name := by
    rw [component?_splice, component?_splice, h.components, Option.map_map, Option.map_map]
    refine congrArg (Option.map · _) (funext fun c => congrArg (Component.mk c.name) ?_)
    change (c.entries.map _).map _ = (c.entries.map _).map _
    rw [List.map_map, List.map_map, h.redirect]
  components_length := by
    change (d'.components.map _).length = (d.components.map _).length
    rw [List.length_map, List.length_map, h.components_length]
  spliced name := by
    rw [mem_spliced_splice, mem_spliced_splice, h.spliced, h.groupOf?, Option.isSome_map]
  messages := by
    change d'.messages.map _ = (d.messages.map _).map _
    rw [h.messages, List.map_map, List.map_map]
    refine congrArg (List.map · _) (funext fun m => congrArg (Message.mk m.name m.type m.category) ?_)
    change (m.entries.map _).map _ = (m.entries.map _).map _
    rw [List.map_map, List.map_map, h.redirect]
  header := by
    change d'.header.map _ = (d.header.map _).map _
    rw [h.header, List.map_map, List.map_map, h.redirect]
  trailer := by
    change d'.trailer.map _ = (d.trailer.map _).map _
    rw [h.trailer, List.map_map, List.map_map, h.redirect]

/-- Splicing any number of times keeps the dictionaries the same but for the numbers. -/
theorem repeat_splice (h : Renumbered φ d d') : ∀ k : Nat,
    Renumbered φ (k.repeat Dictionary.splice d) (k.repeat Dictionary.splice d')
  | 0 => h
  | k + 1 => (h.repeat_splice k).splice

/-- So does splicing until nothing is left to splice. -/
theorem normalize (h : Renumbered φ d d') : Renumbered φ d.normalize d'.normalize := by
  rw [Dictionary.normalize, Dictionary.normalize, h.components_length]
  exact h.repeat_splice d.components.length

/-! ## Layouts -/

/-- Entries lead to the same field whatever the numbers of groups. -/
theorem leadingField? (h : Renumbered φ d d') : ∀ (n : Nat) (es : List Entry),
    d'.leadingField? n (es.map (Entry.renumber φ)) = d.leadingField? n es
  | _, [] => by
    rw [List.map_nil, Dictionary.leadingField?, Dictionary.leadingField?]
  | n, ⟨required, .field f⟩ :: rest => by
    rw [List.map_cons, Dictionary.leadingField?.eq_def, Dictionary.leadingField?.eq_def]
    rfl
  | n, ⟨required, .group index⟩ :: rest => by
    rw [List.map_cons, Dictionary.leadingField?.eq_def, Dictionary.leadingField?.eq_def]
    change d'.groups[φ index]?.map Group.counter = d.groups[index]?.map Group.counter
    rw [h.groups, Option.map_map]
    rfl
  | 0, ⟨required, .component name⟩ :: rest => by
    rw [List.map_cons, Dictionary.leadingField?.eq_def, Dictionary.leadingField?.eq_def]
    rfl
  | n + 1, ⟨required, .component name⟩ :: rest => by
    rw [List.map_cons, Dictionary.leadingField?.eq_def, Dictionary.leadingField?.eq_def]
    change d'.leadingField? n (d'.entriesOf (.component name)) = d.leadingField? n (d.entriesOf (.component name))
    rw [← h.leadingField? n (d.entriesOf (.component name)), ← h.entriesOf]
    rfl

/-- Groups keep their delimiters. -/
theorem delimiter? (h : Renumbered φ d d') (index : Nat) : d'.delimiter? (φ index) = d.delimiter? index := by
  rw [Dictionary.delimiter?, Dictionary.delimiter?, h.components_length, ← h.leadingField?, ← h.entriesOf]
  rfl

/-- Groups keep the slots that layouts have for them. -/
theorem groupSlot? (h : Renumbered φ d d') (index : Nat) (required : Bool) :
    d'.groupSlot? (φ index) required = d.groupSlot? index required := by
  rw [Dictionary.groupSlot?, Dictionary.groupSlot?, h.groups, h.delimiter?, Option.map_map]
  rfl

/-- A walk through the entries finds the same members. -/
theorem flatten (h : Renumbered φ d d') : ∀ (n : Nat) (required : Bool) (members : List Member) (es : List Entry),
    d'.flatten n required members (es.map (Entry.renumber φ)) = d.flatten n required members es
  | 0, _, _, _ => by rw [Dictionary.flatten, Dictionary.flatten]
  | n + 1, required, members, es => by
    have hinner (required : Bool) (members : List Member) (holder : Holder) :
        d'.flatten n required members (d'.entriesOf (holder.renumber φ)) =
          d.flatten n required members (d.entriesOf holder) := by
      rw [h.entriesOf, h.flatten n]
    rw [Dictionary.flatten, Dictionary.flatten, List.foldl_map]
    refine List.foldl_ext _ _ _ fun members e _ => ?_
    obtain ⟨r, f | index | name⟩ := e
    · rfl
    · have hbody : d'.flatten n true [] (d'.entriesOf (.group (φ index))) =
          d.flatten n true [] (d.entriesOf (.group index)) := hinner true [] (.group index)
      simp only [Entry.renumber, Item.renumber, h.groupSlot?, hbody]
    · exact hinner (required && r) members (.component name)

/-- Layouts do not show the numbers of groups. -/
theorem layoutOf (h : Renumbered φ d d') (holder : Holder) :
    d'.layoutOf (holder.renumber φ) = d.layoutOf holder := by
  have hdepth : d'.depth = d.depth := by rw [depth, depth, h.components_length, h.groups_length]
  rw [Dictionary.layoutOf, Dictionary.layoutOf, h.nameOf, h.entriesOf, h.flatten, hdepth]

/-- The layouts are the same : members are told apart by their tags, not by the numbers of groups. -/
theorem messageLayouts (h : Renumbered φ d d') : d'.messageLayouts = d.messageLayouts := by
  have hheader : d'.layoutOf .header = d.layoutOf .header := h.layoutOf .header
  have htrailer : d'.layoutOf .trailer = d.layoutOf .trailer := h.layoutOf .trailer
  have hmessage (index : Nat) : d'.layoutOf (.message index) = d.layoutOf (.message index) :=
    h.layoutOf (.message index)
  refine List.ext_getElem? fun index => ?_
  rw [Dictionary.messageLayouts, Dictionary.messageLayouts, List.getElem?_mapIdx, List.getElem?_mapIdx, h.messages,
    List.getElem?_map, Option.map_map, hheader, htrailer, hmessage]
  rfl

/-! ## Faults -/

/-- A fault of a group shows with any numbers. -/
theorem groupFault? (h : Renumbered φ d d') (hd : d.groupFault? = none) : d'.groupFault? = none := by
  rw [Dictionary.groupFault?, List.findSome?_eq_none_iff]
  intro index hindex
  obtain ⟨index, rfl⟩ := φ.surjective index
  have hlt : index < d.groups.length := by
    have hsome := List.getElem?_eq_getElem (List.mem_range.1 hindex)
    rw [h.groups] at hsome
    obtain ⟨g, hg, -⟩ := Option.map_eq_some_iff.1 hsome
    exact (List.getElem?_eq_some_iff.1 hg).1
  obtain ⟨f, hf⟩ := exists_delimiter? hd hlt
  rw [h.delimiter?, hf]

/-- A holder is inside another with any numbers. -/
theorem inside (h : Renumbered φ d d') {holder holder' : Holder} (hin : d.Inside holder holder') :
    d'.Inside (holder.renumber φ) (holder'.renumber φ) := by
  obtain ⟨e, he, hi⟩ := List.mem_filterMap.1 hin
  have he' : e.renumber φ ∈ d'.entriesOf (holder.renumber φ) := by
    rw [h.entriesOf]
    exact List.mem_map_of_mem he
  obtain ⟨required, f | index | name⟩ := e
  · cases hi
  · cases hi
    exact inside_of_group he' rfl
  · cases hi
    exact inside_of_component he' rfl

/-- No holder is inside itself with other numbers if none was with the old ones. -/
theorem acyclic (h : Renumbered φ d d') (ha : d.Acyclic) : d'.Acyclic := fun _ hcycle =>
  ha _ (hcycle.lift _ fun _ _ hin => h.symm.inside hin)

/-- A dictionary has a fault if it has one under other numbers. The fault need not be the same : which is found first
depends on the order. -/
theorem fault? (h : Renumbered φ d d') : d'.fault? = none ↔ d.fault? = none := by
  have himp {φ : Equiv.Perm Nat} {d d' : Dictionary} (h : Renumbered φ d d') (hd : d.fault? = none) :
      d'.fault? = none := by
    rw [fault?_eq_none_iff] at hd ⊢
    exact ⟨h.fields ▸ hd.1, h.groupFault? hd.2.1, h.acyclic hd.2.2⟩
  exact ⟨himp h.symm, himp h⟩

end Renumbered

end Dictionary

end FixWire
