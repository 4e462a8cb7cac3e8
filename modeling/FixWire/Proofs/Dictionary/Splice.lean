import FixWire.Dictionary.Compile
import FixWire.Proofs.Dictionary.Acyclic

/-!
# Splicing components out

A component whose only entry is a group is spliced out : what points at it points at the group instead. The
entry of the group itself drops out of all layouts then, and whether the group is required is left to what has
pointed at the component. So a layout after splicing is the layout before it in a dictionary where the entries
of spliced components are all required (`layoutOf_normalize`).
-/

namespace FixWire

/-- The entry as a required one. -/
def Entry.relaxed (e : Entry) : Entry :=
  { e with required := true }

/-- The component with its entries required, if its name is one of the given. -/
def Component.relax (names : List String) (c : Component) : Component :=
  if c.name ∈ names then { c with entries := c.entries.map Entry.relaxed } else c

/-- Whether the holder is a component whose name is one of the given. -/
def Holder.isOneOf (names : List String) : Holder → Bool
  | .component name => names.contains name
  | _ => false

theorem Component.name_relax (names : List String) (c : Component) : (c.relax names).name = c.name := by
  unfold Component.relax
  split_ifs <;> rfl

namespace Dictionary

/-- The dictionary with the entries of some components required. -/
def relax (names : List String) (d : Dictionary) : Dictionary :=
  { d with components := d.components.map (Component.relax names) }

variable {d : Dictionary} {names : List String}

/-! ## What is relaxed -/

/-- Of the components with the given names the entries become required, and of the other holders they stay. -/
theorem entriesOf_relax (d : Dictionary) (names : List String) (h : Holder) :
    (d.relax names).entriesOf h =
      if h.isOneOf names then (d.entriesOf h).map Entry.relaxed else d.entriesOf h := by
  cases h with
  | component name =>
    have hfind : (d.relax names).component? name = (d.component? name).map (Component.relax names) := by
      simp only [component?, relax, List.find?_map, Function.comp_def, Component.name_relax]
    rw [entriesOf, entriesOf, hfind, Holder.isOneOf]
    cases hc : d.component? name with
    | none => simp
    | some c =>
      have hname : c.name = name := by simpa using List.find?_some hc
      simp [Component.relax, hname, apply_ite Component.entries]
  | _ => rfl

/-- Relaxing changes nothing of an entry but whether it is required. -/
theorem map_item_relax (d : Dictionary) (names : List String) (h : Holder) :
    ((d.relax names).entriesOf h).map Entry.item = (d.entriesOf h).map Entry.item := by
  rw [entriesOf_relax]
  split_ifs
  · simp [Entry.relaxed]
  · rfl

/-- What is required does not matter to what is inside what. -/
theorem inside_relax (d : Dictionary) (names : List String) (h : Holder) :
    (d.relax names).inside h = d.inside h := by
  have hinside (d : Dictionary) : d.inside h = ((d.entriesOf h).map Entry.item).filterMap fun item =>
      item.casesOn (fun _ => none) (fun index => some (.group index)) fun name => some (.component name) := by
    rw [inside, List.filterMap_map]
    refine congrArg (List.filterMap · _) (funext fun e => ?_)
    rw [Function.comp]
    cases e.item <;> rfl
  rw [hinside, hinside, map_item_relax]

/-- What is required does not matter to how high a holder is. -/
theorem height_relax : ∀ {n : Nat} {h : Holder}, d.Height n h → (d.relax names).Height n h
  | 0, h, he => by
    have := map_item_relax d names h
    rwa [show d.entriesOf h = [] from he, List.map_nil, List.map_eq_nil_iff] at this
  | n + 1, h, hh => fun h' hin => height_relax (hh h' (by rwa [Inside, inside_relax] at hin))

/-- What some entries lead to does not depend on whether they are required. -/
theorem leadingField?_relax (d : Dictionary) (names : List String) :
    ∀ (n : Nat) (entries entries' : List Entry), entries'.map Entry.item = entries.map Entry.item →
      (d.relax names).leadingField? n entries' = d.leadingField? n entries := by
  intro n
  induction n with
  | zero =>
    intro entries entries' hi
    cases entries with
    | nil =>
      obtain rfl := List.map_eq_nil_iff.1 hi
      simp [leadingField?]
    | cons e rest =>
      obtain ⟨e', rest', rfl, he, -⟩ := List.map_eq_cons_iff.1 hi
      rw [leadingField?.eq_def, leadingField?.eq_def d]
      dsimp only
      rw [he]
      cases e.item <;> rfl
  | succ n ih =>
    intro entries entries' hi
    cases entries with
    | nil =>
      obtain rfl := List.map_eq_nil_iff.1 hi
      simp [leadingField?]
    | cons e rest =>
      obtain ⟨e', rest', rfl, he, -⟩ := List.map_eq_cons_iff.1 hi
      rw [leadingField?.eq_def, leadingField?.eq_def d]
      dsimp only
      rw [he]
      cases e.item with
      | field f => rfl
      | group index => rfl
      | component name => exact ih _ _ (map_item_relax d names _)

/-- The slots of groups do not depend on what components require. -/
theorem groupSlot?_relax (d : Dictionary) (names : List String) (index : Nat) (required : Bool) :
    (d.relax names).groupSlot? index required = d.groupSlot? index required := by
  have : (d.relax names).delimiter? index = d.delimiter? index := by
    rw [delimiter?, delimiter?, leadingField?_relax d names _ _ _ (map_item_relax d names _)]
    simp [relax]
  rw [groupSlot?, groupSlot?, this]
  rfl

/-! ## One splice -/

/-- A splice redirects the entries of every holder. -/
theorem entriesOf_splice (d : Dictionary) (h : Holder) :
    d.splice.entriesOf h = (d.entriesOf h).map d.redirect := by
  cases h with
  | message index =>
    simp only [entriesOf, splice, mapEntries, List.getElem?_map]
    cases d.messages[index]? <;> rfl
  | group index =>
    simp only [entriesOf, splice, mapEntries, List.getElem?_map]
    cases d.groups[index]? <;> rfl
  | component name =>
    simp only [entriesOf, component?, splice, mapEntries, List.find?_map, Function.comp_def]
    cases d.components.find? fun c => c.name == name <;> rfl
  | _ => rfl

theorem nameOf_splice (d : Dictionary) (h : Holder) : d.splice.nameOf h = d.nameOf h := by
  cases h with
  | message index =>
    simp only [nameOf, splice, mapEntries, List.getElem?_map]
    cases d.messages[index]? <;> rfl
  | group index =>
    simp only [nameOf, splice, mapEntries, List.getElem?_map]
    cases d.groups[index]? <;> rfl
  | _ => rfl

theorem depth_splice (d : Dictionary) : d.splice.depth = d.depth := by
  simp [depth, splice, mapEntries]

theorem counter_splice (d : Dictionary) (index : Nat) :
    d.splice.groups[index]?.map Group.counter = d.groups[index]?.map Group.counter := by
  simp only [splice, mapEntries, List.getElem?_map]
  cases d.groups[index]? <;> rfl

/-- A component in the table that stands for a group has that group as its only entry. -/
theorem entriesOf_of_groupOf? {name : String} {index : Nat} (h : d.groupOf? name = some index) :
    ∃ required, d.entriesOf (.component name) = [⟨required, .group index⟩] := by
  obtain ⟨c, hc, hg⟩ := Option.bind_eq_some_iff.1 h
  have hname : c.name = name := by simpa using List.find?_some hc
  have htable : d.inTable name := by
    have := List.mem_of_find?_eq_some hc
    rw [table, List.mem_filter] at this
    exact hname ▸ this.2
  have hcomponent : d.component? name = some c := by
    rw [tableComponent?, table, List.find?_filter] at hc
    rw [component?, ← hc]
    congr 1
    funext c
    by_cases hn : c.name = name
    · simp [hn, htable]
    · simp [hn]
  rw [entriesOf, hcomponent]
  obtain ⟨cname, entries⟩ := c
  cases entries with
  | nil => cases hg
  | cons e rest =>
    obtain ⟨required, field | i | component⟩ := e
    · cases hg
    · cases rest with
      | nil =>
        obtain rfl : i = index := Option.some.inj hg
        exact ⟨required, rfl⟩
      | cons e' rest => cases hg
    · cases hg

theorem redirect_of_groupOf? {e : Entry} {name : String} {index : Nat} (hi : e.item = .component name)
    (hg : d.groupOf? name = some index) : d.redirect e = { e with item := .group index } := by
  rw [redirect, hi]
  dsimp only
  rw [hg]

theorem redirect_of_none {e : Entry} {name : String} (hi : e.item = .component name)
    (hg : d.groupOf? name = none) : d.redirect e = e := by
  rw [redirect, hi]
  dsimp only
  rw [hg]

theorem redirect_of_ne {e : Entry} (hi : ∀ name, e.item ≠ .component name) : d.redirect e = e := by
  rw [redirect]
  split
  · rename_i name h
    exact absurd h (hi name)
  · rfl

/-- Whether an entry is required does not matter to where it is redirected. -/
theorem redirect_relaxed (d : Dictionary) (e : Entry) : d.redirect e.relaxed = (d.redirect e).relaxed := by
  cases hi : e.item with
  | component name =>
    cases hg : d.groupOf? name with
    | none => rw [redirect_of_none hi hg, redirect_of_none (by exact hi) hg]
    | some index =>
      rw [redirect_of_groupOf? hi hg, redirect_of_groupOf? (e := e.relaxed) (by exact hi) hg]
      rfl
  | _ => rw [redirect_of_ne (e := e.relaxed) (by simp [Entry.relaxed, hi]), redirect_of_ne (by simp [hi])]

/-- A splice redirects the entries alike whether they have become required or not. -/
theorem entriesOf_relax_splice (d : Dictionary) (names : List String) (h : Holder) :
    (d.splice.relax names).entriesOf h = ((d.relax names).entriesOf h).map d.redirect := by
  rw [entriesOf_relax, entriesOf_relax, entriesOf_splice]
  split_ifs
  · simp [redirect_relaxed]
  · rfl

/-- What is directly inside a holder after splicing was inside it before. -/
theorem transGen_of_inside_splice {h h' : Holder} (hin : d.splice.Inside h h') :
    Relation.TransGen d.Inside h h' := by
  obtain ⟨e', he', hitem⟩ := List.mem_filterMap.1 hin
  rw [entriesOf_splice] at he'
  obtain ⟨e, he, rfl⟩ := List.mem_map.1 he'
  cases hi : e.item with
  | field f =>
    rw [redirect_of_ne (by simp [hi]), hi] at hitem
    simp at hitem
  | group index =>
    rw [redirect_of_ne (by simp [hi]), hi] at hitem
    obtain rfl := Option.some.inj hitem
    exact .single (inside_of_group he hi)
  | component name =>
    cases hg : d.groupOf? name with
    | none =>
      rw [redirect_of_none hi hg, hi] at hitem
      obtain rfl := Option.some.inj hitem
      exact .single (inside_of_component he hi)
    | some index =>
      rw [redirect_of_groupOf? hi hg] at hitem
      obtain rfl := Option.some.inj hitem
      obtain ⟨required, hentries⟩ := entriesOf_of_groupOf? hg
      exact .tail (.single (inside_of_component he hi))
        (inside_of_group (by rw [hentries]; exact List.mem_singleton_self _) rfl)

/-- A splice makes no cycle. -/
theorem Acyclic.splice (ha : d.Acyclic) : d.splice.Acyclic := by
  intro h hh
  exact ha h (Relation.TransGen.lift' id (fun _ _ => transGen_of_inside_splice) h h hh)

/-- The repetitions of a group start with the same field after splicing. -/
theorem leadingField?_splice : ∀ {n : Nat} {h : Holder},
    (∀ name, d.Inside h (.component name) → d.Leads n name) →
      d.splice.leadingField? n (d.splice.entriesOf h) = d.leadingField? n (d.entriesOf h) := by
  intro n
  induction n with
  | zero =>
    intro h hl
    rw [entriesOf_splice]
    cases he : d.entriesOf h with
    | nil => simp [leadingField?]
    | cons e rest =>
      rw [List.map_cons, leadingField?.eq_def, leadingField?.eq_def d]
      cases hi : e.item with
      | field f => simp [redirect_of_ne, hi]
      | group index => simp [redirect_of_ne, hi, counter_splice]
      | component name =>
        have hnil : d.entriesOf (.component name) = [] :=
          hl name (inside_of_component (by rw [he]; exact List.mem_cons_self) hi)
        cases hg : d.groupOf? name with
        | none => simp [redirect_of_none hi hg, hi]
        | some index =>
          obtain ⟨_, hentries⟩ := entriesOf_of_groupOf? hg
          simp [hnil] at hentries
  | succ n ih =>
    intro h hl
    rw [entriesOf_splice]
    cases he : d.entriesOf h with
    | nil => simp [leadingField?]
    | cons e rest =>
      rw [List.map_cons, leadingField?.eq_def, leadingField?.eq_def d]
      cases hi : e.item with
      | field f => simp [redirect_of_ne, hi]
      | group index => simp [redirect_of_ne, hi, counter_splice]
      | component name =>
        have hin : d.Inside h (.component name) :=
          inside_of_component (by rw [he]; exact List.mem_cons_self) hi
        cases hg : d.groupOf? name with
        | none =>
          simp only [redirect_of_none hi hg, hi]
          exact ih (hl name hin)
        | some index =>
          obtain ⟨_, hentries⟩ := entriesOf_of_groupOf? hg
          simp only [redirect_of_groupOf? hi hg, hi, hentries]
          rw [leadingField?.eq_def d n]
          exact counter_splice d index

/-- A splice does not change the slots of groups. -/
theorem groupSlot?_splice (ha : d.Acyclic) (index : Nat) (required : Bool) :
    d.splice.groupSlot? index required = d.groupSlot? index required := by
  have hdelimiter : d.splice.delimiter? index = d.delimiter? index := by
    have hlen : d.splice.components.length = d.components.length := by
      simp [Dictionary.splice, mapEntries]
    rw [delimiter?, delimiter?, hlen]
    exact leadingField?_splice fun name hin => ha.leads hin
  rw [groupSlot?, groupSlot?, hdelimiter]
  simp only [Dictionary.splice, mapEntries, List.getElem?_map]
  cases d.groups[index]? <;> rfl

/-- A walk through the spliced dictionary finds what a walk through the original finds, once the entries of the
components that are spliced out are required. -/
theorem flatten_relax_splice (ha : d.Acyclic) (hnames : d.splice.spliced ⊆ names) :
    ∀ {n : Nat} {h : Holder} (required : Bool) (members : List Member), d.Height n h →
      (d.splice.relax names).flatten n required members ((d.splice.relax names).entriesOf h) =
        (d.relax names).flatten n required members ((d.relax names).entriesOf h) := by
  intro n
  induction n with
  | zero =>
    intro h required members _
    rw [flatten, flatten]
  | succ n ih =>
    intro h required members hh
    rw [entriesOf_relax_splice, flatten, flatten, List.foldl_map]
    refine List.foldl_ext _ _ _ fun members e he => ?_
    have hin {h' : Holder} (hi : (d.relax names).Inside h h') : d.Height n h' :=
      hh h' (by rwa [Inside, inside_relax] at hi)
    cases hi : e.item with
    | field f =>
      rw [redirect_of_ne (by simp [hi])]
      simp only [hi]
    | group index =>
      rw [redirect_of_ne (by simp [hi])]
      simp only [hi, groupSlot?_relax, groupSlot?_splice ha, ih _ _ (hin (inside_of_group he hi))]
    | component name =>
      have hname := hin (inside_of_component he hi)
      cases hg : d.groupOf? name with
      | none =>
        rw [redirect_of_none hi hg]
        simp only [hi, ih _ _ hname]
      | some index =>
        obtain ⟨r, hentries⟩ := entriesOf_of_groupOf? hg
        have hmem : name ∈ names := by
          refine hnames (List.mem_append_right _ ?_)
          obtain ⟨c, hc, -⟩ := Option.bind_eq_some_iff.1 hg
          have hcname : c.name = name := by simpa using List.find?_some hc
          refine List.mem_map.2 ⟨c, List.mem_filter.2 ⟨List.mem_of_find?_eq_some hc, ?_⟩, hcname⟩
          rw [hcname, hg]
          rfl
        have hrelaxed : (d.relax names).entriesOf (.component name) = [⟨true, .group index⟩] := by
          rw [entriesOf_relax, hentries]
          simp [Holder.isOneOf, hmem, Entry.relaxed]
        cases n with
        | zero => simp [show d.entriesOf (.component name) = [] from hname] at hentries
        | succ n =>
          have hgroup : d.Height n (.group index) :=
            hname _ (inside_of_group (by rw [hentries]; exact List.mem_singleton_self _) rfl)
          rw [redirect_of_groupOf? hi hg]
          simp only [hrelaxed, groupSlot?_relax, groupSlot?_splice ha, ih _ _ hgroup.succ,
            flatten_of_height true [] (height_relax hgroup) (Nat.le_succ n)]
          rw [flatten, List.foldl_cons, List.foldl_nil]
          simp only [Bool.and_true, groupSlot?_relax]

/-! ## All splices -/

/-- What every splice keeps holds after some of them. -/
theorem repeat_splice_induction {P : Dictionary → Prop} (hd : P d) (h : ∀ d, P d → P d.splice) : ∀ k : Nat,
    P (k.repeat splice d)
  | 0 => hd
  | k + 1 => h _ (repeat_splice_induction hd h k)

/-- Nothing points at a component that has been spliced out. -/
def Detached (d : Dictionary) : Prop :=
  ∀ h e name, e ∈ d.entriesOf h → e.item = .component name → name ∉ d.spliced

/-- A splice leaves the groups detached. -/
theorem Detached.splice (hd : d.Detached) : d.splice.Detached := by
  intro h e' name he' hi' hname
  rw [entriesOf_splice] at he'
  obtain ⟨e, he, rfl⟩ := List.mem_map.1 he'
  cases hi : e.item with
  | component name' =>
    cases hg : d.groupOf? name' with
    | some index =>
      rw [redirect_of_groupOf? hi hg] at hi'
      simp at hi'
    | none =>
      rw [redirect_of_none hi hg, hi, Item.component.injEq] at hi'
      subst hi'
      rcases List.mem_append.1 hname with hname | hname
      · exact hd h e name' he hi hname
      · obtain ⟨c, hc, rfl⟩ := List.mem_map.1 hname
        have := (List.mem_filter.1 hc).2
        simp [hg] at this
  | _ =>
    rw [redirect_of_ne (by simp [hi]), hi] at hi'
    simp at hi'

/-- Where nothing points at a component that is relaxed, relaxing does not matter. -/
theorem flatten_relax_of_detached (hd : ∀ h e name, e ∈ d.entriesOf h → e.item = .component name → name ∉ names) :
    ∀ (n : Nat) {h : Holder} (required : Bool) (members : List Member), h.isOneOf names = false →
      (d.relax names).flatten n required members ((d.relax names).entriesOf h) =
        d.flatten n required members (d.entriesOf h) := by
  intro n
  induction n with
  | zero =>
    intro h required members _
    rw [flatten, flatten]
  | succ n ih =>
    intro h required members hh
    rw [entriesOf_relax, hh, if_neg (by simp), flatten, flatten]
    refine List.foldl_ext _ _ _ fun members e he => ?_
    cases hi : e.item with
    | field f => rfl
    | group index => simp only [groupSlot?_relax, ih _ _ (show (Holder.group index).isOneOf names = false from rfl)]
    | component name =>
      have hname : (Holder.component name).isOneOf names = false := by
        simpa [Holder.isOneOf] using hd h e name he hi
      simp only [ih _ _ hname]

/-- What holds of a dictionary before and after some splices. -/
theorem repeat_splice (ha : d.Acyclic) (hd : d.Detached) : ∀ k : Nat,
    (k.repeat splice d).Acyclic ∧ (k.repeat splice d).Detached ∧
      (∀ h, (k.repeat splice d).nameOf h = d.nameOf h) ∧ (k.repeat splice d).depth = d.depth
  | 0 => ⟨ha, hd, fun _ => rfl, rfl⟩
  | k + 1 => by
    obtain ⟨hak, hdk, hname, hdepth⟩ := repeat_splice ha hd k
    exact ⟨hak.splice, hdk.splice, fun h => (nameOf_splice _ h).trans (hname h),
      (depth_splice _).trans hdepth⟩

/-- With the entries of the spliced components required, flattening gives the same after any number of splices as
before. -/
theorem flatten_relax_repeat (ha : d.Acyclic) (hd : d.Detached) (required : Bool) (members : List Member)
    (h : Holder) : ∀ k : Nat, (k.repeat splice d).spliced ⊆ names →
      ((k.repeat splice d).relax names).flatten d.depth required members
          (((k.repeat splice d).relax names).entriesOf h) =
        (d.relax names).flatten d.depth required members ((d.relax names).entriesOf h)
  | 0, _ => rfl
  | k + 1, hnames => by
    obtain ⟨hak, -, -, hdepth⟩ := repeat_splice ha hd k
    rw [← flatten_relax_repeat ha hd required members h k fun name hm => hnames (List.mem_append_left _ hm)]
    exact flatten_relax_splice hak hnames required members (hdepth ▸ hak.height h)

/-- A layout after splicing is the layout before it in the dictionary where the entries of the components that
are spliced out are all required. -/
theorem layoutOf_normalize (ha : d.Acyclic) (hd : d.Detached) {h : Holder}
    (hh : h.isOneOf d.normalize.spliced = false) :
    d.normalize.layoutOf h = (d.relax d.normalize.spliced).layoutOf h := by
  obtain ⟨-, hdn, hname, hdepth⟩ : d.normalize.Acyclic ∧ d.normalize.Detached ∧
      (∀ h, d.normalize.nameOf h = d.nameOf h) ∧ d.normalize.depth = d.depth :=
    repeat_splice ha hd d.components.length
  have hflatten := flatten_relax_repeat ha hd true [] h d.components.length (List.Subset.refl _)
  have hnameOf : (d.relax d.normalize.spliced).nameOf h = d.nameOf h := by
    cases h <;> rfl
  have hrelax : (d.relax d.normalize.spliced).depth = d.depth := by
    simp [depth, relax]
  rw [layoutOf, layoutOf, hname, hnameOf, hdepth, hrelax, ← flatten_relax_of_detached hdn _ _ _ hh]
  exact congrArg (Layout.mk _) hflatten

end Dictionary

end FixWire
