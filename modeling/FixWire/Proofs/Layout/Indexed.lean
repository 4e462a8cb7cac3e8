import FixWire.Proofs.Dictionary.Declared

/-!
# Layouts in tables

A layout can be kept in tables : its fields, its groups, the order of both, and a table from tags to the places of
members. An `IndexedLayout` grows by one member at a time, all tables in step, and a member whose tag has a place
already is left out. If the members have different tags the tables agree with each other (`Layout.exact_indexed`).

`Dictionary.Collects` tells how the entries of an aggregate are collected in such tables, without a bound on how often
this goes from one aggregate into another. It comes to an end only if there is a derivation. In a closed dictionary
where no aggregate is inside itself there is one for every holder, and the outcome is the layout of the holder in tables
(`Dictionary.builds_iff`).
-/

namespace FixWire

/-- Where a member stands among the fields or among the groups of a layout. -/
inductive Place where
  | field (index : Nat)
  | group (index : Nat)
  deriving DecidableEq, Repr

/-- A layout in tables. -/
structure IndexedLayout where
  name : String
  fields : List FieldSlot
  groups : List (GroupSlot × IndexedLayout)
  order : List Place
  dispatch : List (Tag × Place)

namespace IndexedLayout

/-- Tables without members. -/
def empty (name : String) : IndexedLayout :=
  ⟨name, [], [], [], []⟩

/-- The place of the member with the tag. -/
def lookup? (l : IndexedLayout) (tag : Tag) : Option Place :=
  l.dispatch.lookup tag

/-- Whether a member has the tag. -/
def contains (l : IndexedLayout) (tag : Tag) : Bool :=
  (l.lookup? tag).isSome

/-- The tags of the fields, and of the groups after them. -/
def allTags (l : IndexedLayout) : List Tag :=
  l.fields.map FieldSlot.tag ++ l.groups.map fun g => g.1.tag

/-- The tag of the member at the place. -/
def tagAt? (l : IndexedLayout) : Place → Option Tag
  | .field index => l.fields[index]?.map FieldSlot.tag
  | .group index => l.groups[index]?.map fun g => g.1.tag

/-- The tag of the first member. -/
def firstTag? (l : IndexedLayout) : Option Tag :=
  l.order.head?.bind l.tagAt?

/-- The tables with one more field, unless its tag has a place. -/
def addField (l : IndexedLayout) (slot : FieldSlot) : IndexedLayout :=
  if l.contains slot.tag then l
  else
    { l with
      fields := l.fields ++ [slot]
      order := l.order ++ [.field l.fields.length]
      dispatch := l.dispatch ++ [(slot.tag, .field l.fields.length)] }

/-- The tables with one more group. -/
def addGroup (l : IndexedLayout) (slot : GroupSlot) (body : IndexedLayout) : IndexedLayout :=
  { l with
    groups := l.groups ++ [(slot, body)]
    order := l.order ++ [.group l.groups.length]
    dispatch := l.dispatch ++ [(slot.tag, .group l.groups.length)] }

/-- All places in the tables : those of the fields, and those of the groups after them. -/
def allPlaces (l : IndexedLayout) : List Place :=
  (List.range l.fields.length).map .field ++ (List.range l.groups.length).map .group

/-- The tables agree with each other : the order lists every place once, the tags of members are different, each leads
to the place where it is found, and the delimiter of a group is the tag of its first member. -/
structure Agree (l : IndexedLayout) : Prop where
  order : l.order.Perm l.allPlaces
  nodup : l.allTags.Nodup
  lookup?_iff : ∀ tag place, l.lookup? tag = some place ↔ l.tagAt? place = some tag
  mem_allTags_iff : ∀ tag, tag ∈ l.allTags ↔ l.contains tag = true
  delimiters : ∀ g ∈ l.groups, g.2.firstTag? = some g.1.delimiter

/-- The tables agree with each other, and so do those of all groups in them. -/
inductive Exact : IndexedLayout → Prop
  | intro {l : IndexedLayout} (h : l.Agree) (bodies : ∀ g ∈ l.groups, Exact g.2) : Exact l

end IndexedLayout

/-! ## The tables of a layout -/

/-- The places of some members after so many fields and so many groups. -/
def places (fields groups : Nat) : List Member → List Place
  | [] => []
  | .field _ :: rest => .field fields :: places (fields + 1) groups rest
  | .group _ _ :: rest => .group groups :: places fields (groups + 1) rest

mutual

/-- The group with its body in tables, if the member is one. -/
def Member.indexed? : Member → Option (GroupSlot × IndexedLayout)
  | .field _ => none
  | .group slot body => some (slot, ⟨slot.name, body.filterMap Member.field?, indexedGroups body, places 0 0 body,
      (body.map Member.tag).zip (places 0 0 body)⟩)

/-- The groups among some members, with their bodies in tables. -/
def indexedGroups : List Member → List (GroupSlot × IndexedLayout)
  | [] => []
  | m :: rest => m.indexed?.toList ++ indexedGroups rest

end

/-- The layout in tables. -/
def Layout.indexed (l : Layout) : IndexedLayout :=
  ⟨l.name, l.fields, indexedGroups l.members, places 0 0 l.members, (l.members.map Member.tag).zip (places 0 0 l.members)⟩

theorem Member.indexed?_group (slot : GroupSlot) (body : List Member) :
    Member.indexed? (.group slot body) = some (slot, Layout.indexed ⟨slot.name, body⟩) :=
  rfl

theorem indexedGroups_eq (ms : List Member) : indexedGroups ms = ms.filterMap Member.indexed? := by
  induction ms with
  | nil => rfl
  | cons m rest ih =>
    rw [indexedGroups, List.filterMap_cons, ih]
    cases m.indexed? <;> rfl

theorem map_indexedGroups (ms : List Member) :
    (indexedGroups ms).map Prod.fst = (ms.filterMap Member.group?).map Prod.fst := by
  rw [indexedGroups_eq, List.map_filterMap, List.map_filterMap]
  refine List.filterMap_congr fun m _ => ?_
  cases m <;> rfl

theorem length_places : ∀ (fields groups : Nat) (ms : List Member), (places fields groups ms).length = ms.length
  | _, _, [] => rfl
  | fields, groups, .field _ :: rest => congrArg (· + 1) (length_places (fields + 1) groups rest)
  | fields, groups, .group _ _ :: rest => congrArg (· + 1) (length_places fields (groups + 1) rest)

theorem places_append : ∀ (fields groups : Nat) (ms ms' : List Member),
    places fields groups (ms ++ ms') = places fields groups ms ++
      places (fields + (ms.filterMap Member.field?).length) (groups + (indexedGroups ms).length) ms'
  | _, _, [], _ => rfl
  | fields, groups, .field slot :: rest, ms' => by
    have ih := places_append (fields + 1) groups rest ms'
    rw [Nat.add_right_comm] at ih
    exact congrArg (Place.field fields :: ·) ih
  | fields, groups, .group slot body :: rest, ms' => by
    have ih := places_append fields (groups + 1) rest ms'
    rw [Nat.add_right_comm groups] at ih
    exact congrArg (Place.group groups :: ·) ih

namespace Layout

/-- A tag has a place if one of the members has it. -/
theorem contains_indexed (l : Layout) (tag : Tag) : l.indexed.contains tag = owns l.members tag := by
  refine (isSome_lookup_zip tag ?_).trans List.any_map
  rw [length_places, List.length_map]

/-- One more member, and one more row in each table. -/
theorem indexed_concat (name : String) (ms : List Member) (m : Member) :
    indexed ⟨name, ms ++ [m]⟩ =
      { indexed ⟨name, ms⟩ with
        fields := ms.filterMap Member.field? ++ m.field?.toList
        groups := indexedGroups ms ++ m.indexed?.toList
        order := places 0 0 ms ++ places (ms.filterMap Member.field?).length (indexedGroups ms).length [m]
        dispatch := (ms.map Member.tag).zip (places 0 0 ms) ++
          [m.tag].zip (places (ms.filterMap Member.field?).length (indexedGroups ms).length [m]) } := by
  have hfields : [m].filterMap Member.field? = m.field?.toList := by
    rw [List.filterMap_cons]
    cases m.field? <;> rfl
  have hgroups : [m].filterMap Member.indexed? = m.indexed?.toList := by
    rw [List.filterMap_cons]
    cases m.indexed? <;> rfl
  simp only [indexed, fields, indexedGroups_eq, List.filterMap_append, places_append, List.map_append, Nat.zero_add,
    hfields, hgroups]
  rw [List.zip_append (by rw [length_places, List.length_map])]
  rfl

theorem indexed_addField (name : String) (ms : List Member) (slot : FieldSlot) :
    (indexed ⟨name, ms⟩).addField slot = indexed ⟨name, addMember ms (.field slot)⟩ := by
  rw [IndexedLayout.addField, contains_indexed, addMember]
  change (if owns ms slot.tag then _ else _) = indexed ⟨name, if owns ms slot.tag then ms else _⟩
  split_ifs
  · rfl
  · rw [indexed_concat]
    simp only [Member.indexed?, Option.toList_none, List.append_nil]
    rfl

theorem indexed_addGroup (name : String) (ms : List Member) (slot : GroupSlot) (body : List Member) :
    (indexed ⟨name, ms⟩).addGroup slot (indexed ⟨slot.name, body⟩) = indexed ⟨name, ms ++ [.group slot body]⟩ := by
  rw [indexed_concat, Member.indexed?_group]
  simp only [Member.field?, Option.toList_none, List.append_nil]
  rfl

end Layout

/-- The places of some members are all that come after so many fields and so many groups. -/
theorem perm_places : ∀ (fields groups : Nat) (ms : List Member), (places fields groups ms).Perm
    ((List.range' fields (ms.filterMap Member.field?).length).map .field ++
      (List.range' groups (indexedGroups ms).length).map .group)
  | _, _, [] => .refl _
  | fields, groups, .field slot :: rest => by
    have ih := (perm_places (fields + 1) groups rest).cons (.field fields)
    rwa [← List.cons_append, ← List.map_cons, ← List.range'_succ] at ih
  | fields, groups, .group slot body :: rest => by
    have ih := ((perm_places fields (groups + 1) rest).cons (.group groups)).trans List.perm_middle.symm
    rwa [← List.map_cons, ← List.range'_succ] at ih

/-- The tags at the places of some members are those of the members. `fields` and `groups` come before them. -/
theorem map_tagAt?_places (name : String) (order : List Place) (dispatch : List (Tag × Place)) :
    ∀ (fields : List FieldSlot) (groups : List (GroupSlot × IndexedLayout)) (ms : List Member),
      (places fields.length groups.length ms).map
          (IndexedLayout.tagAt? ⟨name, fields ++ ms.filterMap Member.field?, groups ++ indexedGroups ms, order, dispatch⟩) =
        (ms.map Member.tag).map some
  | _, _, [] => rfl
  | fields, groups, .field slot :: rest => by
    have ih := map_tagAt?_places name order dispatch (fields ++ [slot]) groups rest
    rw [List.length_append, List.append_assoc] at ih
    rw [places, List.map_cons, List.map_cons, List.map_cons]
    refine congrArg₂ List.cons ?_ ih
    change (fields ++ slot :: _)[fields.length]?.map FieldSlot.tag = _
    rw [List.getElem?_append_right (Nat.le_refl _), Nat.sub_self]
    rfl
  | fields, groups, .group slot body :: rest => by
    have ih := map_tagAt?_places name order dispatch fields
      (groups ++ [(slot, Layout.indexed ⟨slot.name, body⟩)]) rest
    rw [List.length_append, List.append_assoc] at ih
    rw [places, List.map_cons, List.map_cons, List.map_cons]
    refine congrArg₂ List.cons ?_ ih
    change (groups ++ (slot, _) :: _)[groups.length]?.map (fun g => g.1.tag) = _
    rw [List.getElem?_append_right (Nat.le_refl _), Nat.sub_self]
    rfl

/-- The tables of the group, if the member is one, are exact, and its delimiter is the tag of its first member. -/
def Member.Exact (m : Member) : Prop :=
  ∀ g, m.indexed? = some g → g.2.firstTag? = some g.1.delimiter ∧ g.2.Exact

namespace Layout

variable {l : Layout}

/-- The tags of the members, in another order. -/
theorem perm_allTags (l : Layout) : l.allTags.Perm (l.members.map Member.tag) := by
  obtain ⟨name, ms⟩ := l
  induction ms with
  | nil => exact .refl _
  | cons m rest ih =>
    cases m with
    | field slot => exact ih.cons slot.tag
    | group slot body => exact List.perm_middle.trans (ih.cons slot.tag)

theorem allTags_indexed (l : Layout) : l.indexed.allTags = l.allTags := by
  have hgroups := congrArg (List.map GroupSlot.tag) (map_indexedGroups l.members)
  rw [List.map_map, List.map_map] at hgroups
  exact congrArg (l.fields.map FieldSlot.tag ++ ·) hgroups

theorem map_tagAt?_indexed (l : Layout) : l.indexed.order.map l.indexed.tagAt? = (l.members.map Member.tag).map some :=
  map_tagAt?_places l.name l.indexed.order l.indexed.dispatch [] [] l.members

theorem firstTag?_indexed (l : Layout) : l.indexed.firstTag? = (l.members.map Member.tag).head? := by
  have hhead := congrArg List.head? l.map_tagAt?_indexed
  rw [List.head?_map, List.head?_map] at hhead
  rw [IndexedLayout.firstTag?]
  cases ho : l.indexed.order.head? with
  | none =>
    rw [ho, Option.map_none] at hhead
    rw [Option.bind_none, Option.map_eq_none_iff.1 hhead.symm]
  | some place =>
    rw [ho, Option.map_some] at hhead
    obtain ⟨tag, htag, hplace⟩ := Option.map_eq_some_iff.1 hhead.symm
    rw [Option.bind_some, ← hplace, htag]

theorem perm_order (l : Layout) : l.indexed.order.Perm l.indexed.allPlaces := by
  rw [IndexedLayout.allPlaces, List.range_eq_range', List.range_eq_range']
  exact perm_places 0 0 l.members

/-- A tag that is found at a place is paired with it. -/
theorem lookup?_indexed_iff (h : (l.members.map Member.tag).Nodup) (tag : Tag) (place : Place) :
    l.indexed.lookup? tag = some place ↔ l.indexed.tagAt? place = some tag := by
  rw [IndexedLayout.lookup?]
  refine (lookup_zip_eq_some_iff h).trans ?_
  change (tag, place) ∈ (l.members.map Member.tag).zip l.indexed.order ↔ _
  have htags := l.map_tagAt?_indexed
  rw [List.mem_iff_getElem?]
  constructor
  · rintro ⟨i, hi⟩
    obtain ⟨htag, hplace⟩ := List.getElem?_zip_eq_some.1 hi
    have hat := congrArg (·[i]?) htags
    simpa only [List.getElem?_map, htag, hplace, Option.map_some, Option.some.injEq] using hat
  · intro hat
    have hmem : place ∈ l.indexed.order := l.perm_order.symm.subset <| by
      cases place with
      | field index =>
        obtain ⟨slot, hslot, -⟩ := Option.map_eq_some_iff.1 hat
        exact List.mem_append_left _ (List.mem_map.2 ⟨index, List.mem_range.2 (List.getElem?_eq_some_iff.1 hslot).1, rfl⟩)
      | group index =>
        obtain ⟨g, hg, -⟩ := Option.map_eq_some_iff.1 hat
        exact List.mem_append_right _ (List.mem_map.2 ⟨index, List.mem_range.2 (List.getElem?_eq_some_iff.1 hg).1, rfl⟩)
    obtain ⟨i, hi⟩ := List.mem_iff_getElem?.1 hmem
    have htag := congrArg (·[i]?) htags
    simp only [List.getElem?_map, hi, Option.map_some, hat] at htag
    obtain ⟨tag', htag', hsome⟩ := Option.map_eq_some_iff.1 htag.symm
    obtain rfl := Option.some.inj hsome
    exact ⟨i, List.getElem?_zip_eq_some.2 ⟨by rwa [List.getElem?_map], hi⟩⟩

/-- Members with different tags make exact tables if the tables of the groups among them are exact. -/
theorem exact_indexed (h : (l.members.map Member.tag).Nodup) (hms : ∀ m ∈ l.members, m.Exact) : l.indexed.Exact := by
  have hgroups : ∀ g ∈ l.indexed.groups, g.2.firstTag? = some g.1.delimiter ∧ g.2.Exact := by
    intro g hg
    rw [show l.indexed.groups = indexedGroups l.members from rfl, indexedGroups_eq, List.mem_filterMap] at hg
    obtain ⟨m, hm, hg⟩ := hg
    exact hms m hm g hg
  refine .intro ⟨l.perm_order, ?_, lookup?_indexed_iff h, fun tag => ?_, fun g hg => (hgroups g hg).1⟩
    fun g hg => (hgroups g hg).2
  · rw [allTags_indexed]
    exact l.perm_allTags.nodup_iff.2 h
  · rw [allTags_indexed, l.perm_allTags.mem_iff, contains_indexed]
    simp [owns]

end Layout

namespace Dictionary

/-! ## Collecting entries -/

/-- The entries are collected in the tables. `required` tells whether they have been reached through required components
only. -/
inductive Collects (d : Dictionary) : Bool → List Entry → IndexedLayout → IndexedLayout → Prop
  /-- There are no entries left. -/
  | nil {required : Bool} {l : IndexedLayout} : Collects d required [] l l
  /-- A field is added. -/
  | field {required needed : Bool} {f : Field} {rest : List Entry} {l l' : IndexedLayout}
    (h : Collects d required rest (l.addField ⟨f, required && needed⟩) l') :
    Collects d required (⟨needed, .field f⟩ :: rest) l l'
  /-- A group whose counter has a place is left out. -/
  | repeated {required needed : Bool} {index : Nat} {rest : List Entry} {slot : GroupSlot} {l l' : IndexedLayout}
    (hslot : d.groupSlot? index (required && needed) = some slot) (hplace : l.contains slot.tag = true)
    (h : Collects d required rest l l') : Collects d required (⟨needed, .group index⟩ :: rest) l l'
  /-- Another group is collected in tables of its own, and added. -/
  | group {required needed : Bool} {index : Nat} {rest : List Entry} {slot : GroupSlot} {l l' body : IndexedLayout}
    (hslot : d.groupSlot? index (required && needed) = some slot) (hplace : l.contains slot.tag = false)
    (hbody : Collects d true (d.entriesOf (.group index)) (.empty (d.nameOf (.group index))) body)
    (h : Collects d required rest (l.addGroup slot body) l') :
    Collects d required (⟨needed, .group index⟩ :: rest) l l'
  /-- What is in a component is collected in its place. -/
  | component {required needed : Bool} {name : String} {rest : List Entry} {c : Component} {l l₁ l' : IndexedLayout}
    (hc : d.component? name = some c) (hinner : Collects d (required && needed) c.entries l l₁)
    (h : Collects d required rest l₁ l') : Collects d required (⟨needed, .component name⟩ :: rest) l l'

/-- What the holder holds is collected in the tables. -/
def Builds (d : Dictionary) (h : Holder) (l : IndexedLayout) : Prop :=
  d.Collects true (d.entriesOf h) (.empty (d.nameOf h)) l

variable {d : Dictionary}

/-- There is one outcome at most. -/
theorem Collects.unique {required : Bool} {entries : List Entry} {l l₁ l₂ : IndexedLayout}
    (h₁ : d.Collects required entries l l₁) (h₂ : d.Collects required entries l l₂) : l₁ = l₂ := by
  induction h₁ generalizing l₂ with
  | nil =>
    cases h₂
    rfl
  | field _ ih =>
    cases h₂ with
    | field h => exact ih h
  | repeated hslot hplace _ ih =>
    cases h₂ with
    | repeated _ _ h => exact ih h
    | group hslot' hplace' =>
      obtain rfl := Option.some.inj (hslot.symm.trans hslot')
      exact absurd (hplace.symm.trans hplace') Bool.noConfusion
  | group hslot hplace _ _ ihbody ih =>
    cases h₂ with
    | repeated hslot' hplace' =>
      obtain rfl := Option.some.inj (hslot.symm.trans hslot')
      exact absurd (hplace.symm.trans hplace') Bool.noConfusion
    | group hslot' _ hbody' h =>
      obtain rfl := Option.some.inj (hslot.symm.trans hslot')
      obtain rfl := ihbody hbody'
      exact ih h
  | component hc _ _ ihinner ih =>
    cases h₂ with
    | component hc' hinner' h =>
      obtain rfl := Option.some.inj (hc.symm.trans hc')
      obtain rfl := ihinner hinner'
      exact ih h

theorem entriesOf_of_component? {name : String} {c : Component} (hc : d.component? name = some c) :
    d.entriesOf (.component name) = c.entries := by
  rw [entriesOf, hc]
  rfl

theorem Closed.exists_groupSlot? (hd : d.Closed) {h : Holder} {e : Entry} (he : e ∈ d.entriesOf h) {index : Nat}
    (hi : e.item = .group index) (required : Bool) :
    ∃ slot, d.groupSlot? index required = some slot ∧ d.nameOf (.group index) = slot.name := by
  obtain ⟨g, hg⟩ := hd.exists_group he hi
  exact ⟨_, by rw [groupSlot?, hg]; rfl, by rw [nameOf, hg]; rfl⟩

/-- What is inside a holder is collected after as many steps as there are inside it, and the outcome is that of a walk
with a bound. -/
theorem Closed.collects_of_height (hd : d.Closed) (name : String) : ∀ {n : Nat} {h : Holder} (required : Bool)
    (members : List Member), d.Height n h →
      d.Collects required (d.entriesOf h) (Layout.indexed ⟨name, members⟩)
        (Layout.indexed ⟨name, d.flatten n required members (d.entriesOf h)⟩) := by
  intro n
  induction n generalizing name with
  | zero =>
    intro h required members hh
    rw [show d.entriesOf h = [] from hh]
    exact .nil
  | succ n ih =>
    intro h required members hh
    rw [flatten]
    -- Entry by entry : what is inside each one is collected after at most `n` steps.
    obtain ⟨entries, heq⟩ : ∃ entries, d.entriesOf h = entries := ⟨_, rfl⟩
    have hentries : ∀ e ∈ entries, e ∈ d.entriesOf h := fun _ he => heq ▸ he
    rw [heq]
    clear heq
    induction entries generalizing members with
    | nil => exact .nil
    | cons e rest ihrest =>
      obtain ⟨he, hrest⟩ := List.forall_mem_cons.1 hentries
      rw [List.foldl_cons]
      obtain ⟨needed, f | index | component⟩ := e
      · refine .field ?_
        rw [Layout.indexed_addField]
        exact ihrest _ hrest
      · obtain ⟨slot, hslot, hname⟩ := hd.exists_groupSlot? he rfl (required && needed)
        have hbody := ih slot.name true [] (hh _ (inside_of_group he rfl))
        rw [← hname] at hbody
        simp only [hslot]
        unfold addMember
        split_ifs with howns
        · exact .repeated hslot ((Layout.contains_indexed _ _).trans howns) (ihrest _ hrest)
        · refine .group hslot ((Layout.contains_indexed _ _).trans (Bool.eq_false_iff.2 howns)) hbody ?_
          rw [hname, Layout.indexed_addGroup]
          exact ihrest _ hrest
      · obtain ⟨c, hc⟩ := hd.exists_component he rfl
        have hinner := ih name (required && needed) members (hh _ (inside_of_component he rfl))
        nth_rewrite 1 [entriesOf_of_component? hc] at hinner
        exact .component hc hinner (ihrest _ hrest)

/-- In a closed dictionary without cycles the tables of every holder can be built, in one way : they are those of its
layout. -/
theorem builds_iff (ha : d.Acyclic) (hd : d.Closed) {h : Holder} {l : IndexedLayout} :
    d.Builds h l ↔ l = (d.layoutOf h).indexed := by
  have hbuilds : d.Builds h (d.layoutOf h).indexed := hd.collects_of_height (d.nameOf h) true [] (ha.height h)
  constructor
  · intro hl
    exact hl.unique hbuilds
  · rintro rfl
    exact hbuilds

end Dictionary

end FixWire
