import FixWire.Proofs.Dictionary.Arena
import FixWire.Proofs.Dictionary.NormalForm

/-!
# Compiled dictionaries are well-formed

The components that hold only a group can be spliced out in place : each entry that points at one is changed where it is
in the list of all entries, and all aggregates keep the numbers that they have. Such a sweep of an arena comes to the
same as one of the dictionary that it shows (`Arena.Shows.sweep`), so the arena of a compiled dictionary is that of its
document after some sweeps.

In this arena all numbers are in range and every entry is listed once, and in a compiled dictionary names, numbers and
message types are different (`Dictionary.compile_wellFormed`).
-/

namespace FixWire

/-! ## Sweeps in place -/

/-- The number of the group, if the link points at one. -/
def Link.group? : Link → Option Nat
  | .group index => some index
  | _ => none

/-- The number of the only entry. -/
def onlyEntry? : List Nat → Option Nat
  | [id] => some id
  | _ => none

/-- A component in the table that holds only a group. -/
structure Standing where
  name : String
  component : Nat
  group : Nat

/-- The link, at the group if it has been at the component. -/
def Standing.relink (s : Standing) (link : Link) : Link :=
  if link = .component s.component then .group s.group else link

/-- The link after one component has been spliced out after the other. -/
def relinkAll (ss : List Standing) (link : Link) : Link :=
  ss.foldl (fun link s => s.relink link) link

namespace Arena

/-- The group, if the component holds only one. -/
def onlyGroup? (a : Arena) (index : Nat) : Option Nat := do
  let c ← a.components[index]?
  let id ← onlyEntry? c.entries
  let e ← a.entries[id]?
  e.link.group?

/-- The components in the table that hold only a group. -/
def found (a : Arena) : List Standing :=
  a.table.filterMap fun p => (a.onlyGroup? p.2).map fun group => ⟨p.1, p.2, group⟩

/-- Splices a component out, in whatever list its number is. -/
def inline (a : Arena) (s : Standing) : Arena :=
  { a with
    entries := a.entries.map fun e => { e with link := s.relink e.link }
    table := a.table.filter fun p => p.1 ≠ s.name }

/-- Splices out the components that hold only a group, one after the other. -/
def sweep (a : Arena) : Arena :=
  a.found.foldl inline a

/-- Sweeps are made until a sweep would find nothing, and they lead to the second arena. -/
inductive Settles : Arena → Arena → Prop
  | stop {a : Arena} (h : a.found = []) : Settles a a
  | sweep {a a' : Arena} (h : a.found ≠ []) (rest : Settles a.sweep a') : Settles a a'

/-- All that a sweep changes is what entries point at, and the table. -/
theorem foldl_inline : ∀ (ss : List Standing) (a : Arena), ss.foldl inline a =
    { a with
      entries := a.entries.map fun e => { e with link := relinkAll ss e.link }
      table := a.table.filter fun p => ss.all fun s => p.1 ≠ s.name }
  | [], a => by
    simp [relinkAll]
  | s :: ss, a => by
    rw [List.foldl_cons, foldl_inline ss]
    simp [inline, relinkAll, List.filter_filter, Bool.and_comm]

theorem sweep_eq (a : Arena) : a.sweep =
    { a with
      entries := a.entries.map fun e => { e with link := relinkAll a.found e.link }
      table := a.table.filter fun p => a.found.all fun s => p.1 ≠ s.name } :=
  foldl_inline a.found a

theorem mem_found_iff {a : Arena} {s : Standing} :
    s ∈ a.found ↔ (s.name, s.component) ∈ a.table ∧ a.onlyGroup? s.component = some s.group := by
  rw [found, List.mem_filterMap]
  constructor
  · rintro ⟨⟨name, component⟩, hmem, hs⟩
    obtain ⟨group, hgroup, rfl⟩ := Option.map_eq_some_iff.1 hs
    exact ⟨hmem, hgroup⟩
  · rintro ⟨hmem, hgroup⟩
    exact ⟨_, hmem, by rw [hgroup]; rfl⟩

end Arena

theorem relinkAll_of_ne : ∀ {ss : List Standing} {link : Link}, (∀ s ∈ ss, link ≠ .component s.component) →
    relinkAll ss link = link
  | [], _, _ => rfl
  | s :: ss, link, h => by
    rw [List.forall_mem_cons] at h
    rw [relinkAll, List.foldl_cons, Standing.relink, if_neg h.1]
    exact relinkAll_of_ne h.2

/-- An entry that points at a component that is spliced out points at its group. -/
theorem relinkAll_component {component group : Nat} : ∀ {ss : List Standing},
    (∀ s ∈ ss, s.component = component → s.group = group) → (∃ s ∈ ss, s.component = component) →
      relinkAll ss (.component component) = .group group
  | [], _, hex => by
    obtain ⟨s, hs, -⟩ := hex
    cases hs
  | s :: ss, hall, hex => by
    rw [List.forall_mem_cons] at hall
    rw [relinkAll, List.foldl_cons, Standing.relink]
    by_cases hs : s.component = component
    · rw [hs, if_pos rfl, hall.1 hs]
      exact relinkAll_of_ne fun _ _ => Link.noConfusion
    · rw [if_neg fun heq => hs (Link.component.inj heq).symm]
      refine relinkAll_component hall.2 ?_
      obtain ⟨s', hs', hcomponent⟩ := hex
      rcases List.mem_cons.1 hs' with rfl | hs'
      · exact absurd hcomponent hs
      · exact ⟨s', hs', hcomponent⟩

/-! ## Sweeps of what is shown -/

theorem Dictionary.onlyGroup?_eq_some {es : List Entry} {index : Nat} (h : onlyGroup? es = some index) :
    ∃ required, es = [⟨required, .group index⟩] := by
  unfold onlyGroup? at h
  split at h
  · cases h
    exact ⟨_, rfl⟩
  · cases h

namespace Arena

variable {a : Arena} {d : Dictionary}

theorem Shows.getElem?_components (h : a.Shows d) {index : Nat} {c : Component} (hc : d.components[index]? = some c) :
    ∃ c', a.components[index]? = some c' ∧ a.ShowsComponent d c' c := by
  refine exists_getElem?_of_forall₂ h.components ?_
  rw [List.getElem?_append_left (List.getElem?_eq_some_iff.1 hc).1, hc]

/-- A component in the arena holds only a group if the component that it shows does. -/
theorem Shows.onlyGroup?_eq (h : a.Shows d) {index : Nat} {c : Component} (hc : d.components[index]? = some c) :
    a.onlyGroup? index = Dictionary.onlyGroup? c.entries := by
  obtain ⟨⟨name, ids⟩, hc', -, hentries⟩ := h.getElem?_components hc
  obtain ⟨cname, es⟩ := c
  rw [onlyGroup?, hc']
  cases hentries with
  | nil => rfl
  | @cons id e ids es hshows hrest =>
    cases hrest with
    | nil =>
      obtain ⟨link, hid, hlink⟩ := hshows
      obtain ⟨required, item⟩ := e
      change (a.entries[id]?).bind _ = _
      rw [hid]
      cases hlink <;> rfl
    | cons =>
      obtain ⟨required, f | g | component⟩ := e <;> rfl

section Names

variable (h : a.Shows d) (hnames : (d.components.map Component.name).Nodup) {index : Nat} {c : Component}
  (hc : d.components[index]? = some c)
include h hnames hc

/-- What a component stands for is found in the arena. -/
theorem Shows.groupOf?_eq_some_iff {group : Nat} :
    d.groupOf? c.name = some group ↔ ⟨c.name, index, group⟩ ∈ a.found := by
  have hfind : d.component? c.name = some c := (find?_key_eq_some_iff hnames).2 ⟨List.mem_of_getElem? hc, rfl⟩
  rw [mem_found_iff, h.table, h.onlyGroup?_eq hc, Dictionary.groupOf?, Dictionary.tableComponent?_eq, hfind]
  by_cases htable : d.inTable c.name = true
  · rw [if_pos htable, Option.bind_some]
    exact ⟨fun hgroup => ⟨⟨c, hc, rfl, htable⟩, hgroup⟩, fun hboth => hboth.2⟩
  · rw [if_neg htable, Option.bind_none]
    refine ⟨fun hnone => absurd hnone.symm (Option.some_ne_none group), ?_⟩
    rintro ⟨⟨-, -, -, htable'⟩, -⟩
    exact absurd htable' htable

/-- What is found about the component with the number is about its name. -/
theorem Shows.eq_of_mem_found {s : Standing} (hs : s ∈ a.found) (hcomponent : s.component = index) :
    d.groupOf? c.name = some s.group := by
  obtain ⟨name, component, group⟩ := s
  obtain rfl : component = index := hcomponent
  obtain ⟨c', hc', hname, -⟩ := (h.table _ _).1 (mem_found_iff.1 hs).1
  obtain rfl := Option.some.inj (hc.symm.trans hc')
  obtain rfl : c.name = name := hname
  exact (h.groupOf?_eq_some_iff hnames hc).2 hs

end Names

/-- A component that stands for a group is in the list of components. -/
theorem exists_of_groupOf? {name : String} {group : Nat} (h : d.groupOf? name = some group) :
    ∃ (index : Nat) (c : Component), d.components[index]? = some c ∧ c.name = name := by
  obtain ⟨c, hc, -⟩ := Option.bind_eq_some_iff.1 h
  have hname : c.name = name := by simpa using List.find?_some hc
  have hmem : c ∈ d.components := List.mem_of_mem_filter (List.mem_of_find?_eq_some hc)
  obtain ⟨index, hindex⟩ := List.getElem?_of_mem hmem
  exact ⟨index, c, hindex, hname⟩

/-- A link is redirected as the entry that it shows is. -/
theorem Shows.showsLink (h : a.Shows d) (hnames : (d.components.map Component.name).Nodup) {required : Bool} {link : Link}
    {item : Item} (hlink : a.ShowsLink d link item) :
    a.sweep.ShowsLink d.splice (relinkAll a.found link) (d.redirect ⟨required, item⟩).item := by
  have hfields : a.sweep.fields = a.fields := by rw [sweep_eq]
  have hgroups : a.sweep.groups = a.groups := by rw [sweep_eq]
  cases hlink with
  | field hf =>
    rw [relinkAll_of_ne fun _ _ => Link.noConfusion, Dictionary.redirect_of_ne fun _ => Item.noConfusion]
    exact .field (by rwa [hfields])
  | group hg =>
    rw [relinkAll_of_ne fun _ _ => Link.noConfusion, Dictionary.redirect_of_ne fun _ => Item.noConfusion]
    exact .group (by rwa [hgroups])
  | @component index c hc =>
    cases hg : d.groupOf? c.name with
    | none =>
      have hnot : ∀ s ∈ a.found, Link.component index ≠ .component s.component := fun s hs heq =>
        absurd ((h.eq_of_mem_found hnames hc hs (Link.component.inj heq).symm).symm.trans hg) (Option.some_ne_none _)
      have hc' : d.splice.components[index]? = some { c with entries := c.entries.map d.redirect } := by
        change (d.components.map _)[index]? = _
        rw [List.getElem?_map, hc]
        rfl
      rw [relinkAll_of_ne hnot, Dictionary.redirect_of_none rfl hg]
      exact (ShowsLink.component hc' :)
    | some group =>
      have hmem := (h.groupOf?_eq_some_iff hnames hc).1 hg
      have hall : ∀ s ∈ a.found, s.component = index → s.group = group := fun s hs hcomponent =>
        Option.some.inj ((h.eq_of_mem_found hnames hc hs hcomponent).symm.trans hg)
      rw [relinkAll_component hall ⟨_, hmem, rfl⟩, Dictionary.redirect_of_groupOf? rfl hg]
      refine .group ?_
      -- The group is in range because the component has had an entry that points at it.
      obtain ⟨required, hentries⟩ :=
        Dictionary.onlyGroup?_eq_some ((h.onlyGroup?_eq hc).symm.trans (mem_found_iff.1 hmem).2)
      obtain ⟨⟨_, ids⟩, -, -, hshows⟩ := h.getElem?_components hc
      rw [hentries] at hshows
      cases hshows with
      | cons hshows =>
        obtain ⟨link, -, hlink⟩ := hshows
        cases hlink with
        | group hlt => rwa [hgroups]

/-- A component leaves the table in a sweep of the arena if it does so in one of the dictionary. -/
theorem Shows.mem_table_sweep (h : a.Shows d) (hnames : (d.components.map Component.name).Nodup) {name : String}
    {index : Nat} : (name, index) ∈ a.sweep.table ↔
      ∃ c, d.splice.components[index]? = some c ∧ c.name = name ∧ d.splice.inTable name = true := by
  -- It leaves the table if it has been found, and it has been found if it stands for a group.
  have hout {c : Component} (hc : d.components[index]? = some c) :
      (∃ s ∈ a.found, s.name = c.name) ↔ (d.groupOf? c.name).isSome = true := by
    rw [Option.isSome_iff_exists]
    constructor
    · rintro ⟨s, hs, hname⟩
      obtain ⟨c', hc', hname', -⟩ := (h.table _ _).1 (mem_found_iff.1 hs).1
      have hgroup := h.eq_of_mem_found hnames hc' hs rfl
      rw [hname', hname] at hgroup
      exact ⟨s.group, hgroup⟩
    · rintro ⟨group, hg⟩
      exact ⟨_, (h.groupOf?_eq_some_iff hnames hc).1 hg, rfl⟩
  have htable : d.splice.inTable name = true ↔ d.inTable name = true ∧ ¬(d.groupOf? name).isSome = true := by
    rw [Dictionary.inTable_iff, Dictionary.inTable_iff, Dictionary.mem_spliced_splice, not_or]
  have hfilter : (name, index) ∈ a.sweep.table ↔ (name, index) ∈ a.table ∧ ¬∃ s ∈ a.found, s.name = name := by
    rw [sweep_eq]
    change (name, index) ∈ a.table.filter _ ↔ _
    rw [List.mem_filter, List.all_eq_true]
    refine and_congr_right fun _ => ⟨fun hall hex => ?_, fun hnot s hs => ?_⟩
    · obtain ⟨s, hs, hname⟩ := hex
      exact of_decide_eq_true (hall s hs) hname.symm
    · exact decide_eq_true fun hname => hnot ⟨s, hs, hname.symm⟩
  have hget : d.splice.components[index]? =
      d.components[index]?.map fun c => ⟨c.name, c.entries.map d.redirect⟩ := List.getElem?_map
  rw [hfilter, h.table, hget, htable]
  constructor
  · rintro ⟨⟨c, hc, rfl, hin⟩, hnot⟩
    exact ⟨⟨c.name, c.entries.map d.redirect⟩, by rw [hc]; rfl, rfl, hin, mt (hout hc).2 hnot⟩
  · rintro ⟨c', hc', rfl, hin, hnot⟩
    obtain ⟨c, hc, rfl⟩ := Option.map_eq_some_iff.1 hc'
    exact ⟨⟨c, hc, rfl, hin⟩, mt (hout hc).1 hnot⟩

/-- A sweep of an arena shows the sweep of the dictionary. -/
theorem Shows.sweep (h : a.Shows d) (hnames : (d.components.map Component.name).Nodup) : a.sweep.Shows d.splice := by
  have hentries {ids : List Nat} {es : List Entry} (hes : List.Forall₂ (a.ShowsEntry d) ids es) :
      List.Forall₂ (a.sweep.ShowsEntry d.splice) ids (es.map d.redirect) := by
    refine List.forall₂_map_right_iff.2 (hes.imp fun id e hshows => ?_)
    obtain ⟨link, hid, hlink⟩ := hshows
    refine ⟨relinkAll a.found link, ?_, h.showsLink hnames hlink⟩
    rw [sweep_eq, Dictionary.required_redirect]
    change (a.entries.map _)[id]? = _
    rw [List.getElem?_map, hid]
    rfl
  have hsame : a.sweep.fields = a.fields ∧ a.sweep.groups = a.groups ∧ a.sweep.components = a.components ∧
      a.sweep.messages = a.messages ∧ a.sweep.header = a.header ∧ a.sweep.trailer = a.trailer := by
    rw [sweep_eq]
    exact ⟨rfl, rfl, rfl, rfl, rfl, rfl⟩
  obtain ⟨hfields, hgroups, hcomponents, hmessages, hheader, htrailer⟩ := hsame
  have hlength : d.splice.components.length = d.components.length := List.length_map _
  constructor
  case fields => exact hfields.trans h.fields
  case groups =>
    rw [hgroups]
    refine List.forall₂_map_right_iff.2 (h.groups.imp fun g g' hg => ?_)
    exact ⟨hg.1, by rw [hfields]; exact hg.2.1, hentries hg.2.2⟩
  case components =>
    have hmap : d.splice.components ++ ([⟨"Header", d.splice.header⟩, ⟨"Trailer", d.splice.trailer⟩] : List Component) =
        (d.components ++ ([⟨"Header", d.header⟩, ⟨"Trailer", d.trailer⟩] : List Component)).map
          fun c => ⟨c.name, c.entries.map d.redirect⟩ := by
      rw [List.map_append]
      rfl
    rw [hcomponents, hmap]
    refine List.forall₂_map_right_iff.2 (h.components.imp fun c c' hc => ?_)
    exact ⟨hc.1, hentries hc.2⟩
  case messages =>
    rw [hmessages]
    refine List.forall₂_map_right_iff.2 (h.messages.imp fun m m' hm => ?_)
    exact ⟨hm.1, hm.2.1, hm.2.2.1, hentries hm.2.2.2⟩
  case table => exact fun name index => h.mem_table_sweep hnames
  case header => exact (hheader.trans h.header).trans hlength.symm
  case trailer => exact (htrailer.trans h.trailer).trans (congrArg (· + 1) hlength.symm)

theorem Shows.found_eq_nil_iff (h : a.Shows d) (hnames : (d.components.map Component.name).Nodup) :
    a.found = [] ↔ d.groupOnly = [] := by
  rw [Dictionary.groupOnly_eq_nil_iff, List.eq_nil_iff_forall_not_mem]
  constructor
  · intro hfound name
    refine Option.eq_none_iff_forall_ne_some.2 fun group hg => ?_
    obtain ⟨index, c, hc, rfl⟩ := exists_of_groupOf? hg
    exact hfound _ ((h.groupOf?_eq_some_iff hnames hc).1 hg)
  · intro hnone s hs
    obtain ⟨c, hc, -⟩ := (h.table _ _).1 (mem_found_iff.1 hs).1
    exact absurd ((h.eq_of_mem_found hnames hc hs rfl).symm.trans (hnone c.name)) (Option.some_ne_none _)

/-- Sweeps of the dictionary are sweeps of the arena. -/
theorem Shows.settles {n : Nat} {d' : Dictionary} (hsweeps : d.Sweeps n d') :
    ∀ {a : Arena}, a.Shows d → (d.components.map Component.name).Nodup → ∃ a', a.Settles a' ∧ a'.Shows d' := by
  induction hsweeps with
  | stop hnone => exact fun {a} h hnames => ⟨a, .stop ((h.found_eq_nil_iff hnames).2 hnone), h⟩
  | @sweep d _ _ hsome _ ih =>
    intro a h hnames
    obtain ⟨a', hsettles, h'⟩ := ih (h.sweep hnames) ((Dictionary.names_splice d).symm ▸ hnames)
    exact ⟨a', .sweep (mt (h.found_eq_nil_iff hnames).1 hsome) hsettles, h'⟩

/-- Sweeps leave all lists of numbers as they are, and the numbers of groups. -/
theorem Settles.listed_eq {a' : Arena} (h : a.Settles a') :
    a'.listed = a.listed ∧ a'.entries.length = a.entries.length ∧ a'.groups = a.groups := by
  induction h with
  | stop => exact ⟨rfl, rfl, rfl⟩
  | @sweep a _ _ _ ih =>
    have hsweep : a.sweep.listed = a.listed ∧ a.sweep.entries.length = a.entries.length ∧ a.sweep.groups = a.groups := by
      rw [sweep_eq]
      exact ⟨rfl, List.length_map _, rfl⟩
    exact ⟨ih.1.trans hsweep.1, ih.2.1.trans hsweep.2.1, ih.2.2.trans hsweep.2.2⟩

/-! ## Well-formed arenas -/

/-- What the link points at is there. -/
def InRange (a : Arena) : Link → Prop
  | .field index => index < a.fields.length
  | .group index => index < a.groups.length
  | .component index => index < a.components.length

/-- All numbers are those of what is there, and every entry is listed once, by one aggregate. -/
structure WellFormed (a : Arena) : Prop where
  links : ∀ e ∈ a.entries, a.InRange e.link
  counters : ∀ g ∈ a.groups, g.counter < a.fields.length
  listed : a.listed.Perm (List.range a.entries.length)
  table : ∀ p ∈ a.table, p.2 < a.components.length
  header : a.header < a.components.length
  trailer : a.trailer < a.components.length

/-- The second group is declared directly in the first one. -/
def Declares (a : Arena) (outer inner : Nat) : Prop :=
  ∃ g, a.groups[outer]? = some g ∧ ∃ id ∈ g.entries, ∃ required, a.entries[id]? = some ⟨required, .group inner⟩

theorem Shows.length_components (h : a.Shows d) : a.components.length = d.components.length + 2 :=
  h.components.length_eq.trans List.length_append

/-- What an entry that is listed points at is there. -/
theorem Shows.inRange (h : a.Shows d) {id : Nat} (hid : id ∈ a.listed) {e : LinkedEntry} (he : a.entries[id]? = some e) :
    a.InRange e.link := by
  have hshown : ∃ e', a.ShowsEntry d id e' := by
    rw [listed, List.mem_append, List.mem_append, List.mem_flatMap, List.mem_flatMap, List.mem_flatMap] at hid
    rcases hid with (⟨m, hm, hid⟩ | ⟨g, hg, hid⟩) | ⟨c, hc, hid⟩
    · obtain ⟨m', -, hm'⟩ := exists_of_mem_left h.messages hm
      exact (exists_of_mem_left hm'.2.2.2 hid).imp fun _ => And.right
    · obtain ⟨g', -, hg'⟩ := exists_of_mem_left h.groups hg
      exact (exists_of_mem_left hg'.2.2 hid).imp fun _ => And.right
    · obtain ⟨c', -, hc'⟩ := exists_of_mem_left h.components hc
      exact (exists_of_mem_left hc'.2 hid).imp fun _ => And.right
  obtain ⟨⟨_, item⟩, link, hlink, hshows⟩ := hshown
  obtain rfl := Option.some.inj (he.symm.trans hlink)
  cases hshows with
  | field hf => exact (List.getElem?_eq_some_iff.1 hf).1
  | group hlt => exact hlt
  | component hc =>
    refine Nat.lt_of_lt_of_le (List.getElem?_eq_some_iff.1 hc).1 ?_
    rw [h.length_components]
    exact Nat.le_add_right _ 2

/-- An arena that lists every entry once and shows a dictionary is well-formed. -/
theorem Shows.wellFormed (h : a.Shows d) (hlisted : a.listed.Perm (List.range a.entries.length)) : a.WellFormed where
  links e he := by
    obtain ⟨id, hid⟩ := List.getElem?_of_mem he
    exact h.inRange (hlisted.mem_iff.2 (List.mem_range.2 (List.getElem?_eq_some_iff.1 hid).1)) hid
  counters g hg := by
    obtain ⟨g', -, -, hcounter, -⟩ := exists_of_mem_left h.groups hg
    exact (List.getElem?_eq_some_iff.1 hcounter).1
  listed := hlisted
  table p hp := by
    obtain ⟨c, hc, -⟩ := (h.table p.1 p.2).1 hp
    refine Nat.lt_of_lt_of_le (List.getElem?_eq_some_iff.1 hc).1 ?_
    rw [h.length_components]
    exact Nat.le_add_right _ 2
  header := by
    rw [h.header, h.length_components]
    exact Nat.lt_add_of_pos_right (Nat.succ_pos 1)
  trailer := by
    rw [h.trailer, h.length_components]
    exact Nat.lt_succ_self _

/-- A group has a larger number than those declared in it. -/
theorem Shows.lt_of_declares (h : a.Shows d) {names : List String} (hd : Arranged names d.groups) {outer inner : Nat}
    (hin : Relation.TransGen a.Declares outer inner) : inner < outer := by
  have hstep {outer inner : Nat} (hin : a.Declares outer inner) : inner < outer := by
    obtain ⟨g, hg, id, hid, required, hentry⟩ := hin
    obtain ⟨g', hg', -, -, hentries⟩ := exists_getElem?_of_forall₂ (List.Forall₂.flip (R := flip _) h.groups) hg
    obtain ⟨e, he, link, hlink, hshows⟩ := exists_of_mem_left hentries hid
    obtain ⟨-, rfl⟩ := LinkedEntry.mk.inj (Option.some.inj (hentry.symm.trans hlink))
    obtain ⟨_, item⟩ := e
    cases hshows
    exact hd outer g' hg' _ he
  induction hin with
  | single hin => exact hstep hin
  | tail _ hin ih => exact Nat.lt_trans (hstep hin) ih

end Arena

namespace Dictionary

variable {d : Dictionary}

/-! ## Message types -/

/-- The first message type that is declared again, with the names of both messages. `seen` are the types before, with
names. -/
def sharedType? : List (String × String) → List Message → Option (String × String × String)
  | _, [] => none
  | seen, m :: rest =>
    (seen.lookup m.type).elim (sharedType? ((m.type, m.name) :: seen) rest) fun first => some (m.type, first, m.name)

/-- Different types are not shared. -/
theorem sharedType?_eq_none : ∀ {ms : List Message} {seen : List (String × String)}, (ms.map Message.type).Nodup →
    (∀ m ∈ ms, seen.lookup m.type = none) → sharedType? seen ms = none
  | [], _, _, _ => rfl
  | m :: rest, seen, hnodup, hseen => by
    obtain ⟨hnew, hrest⟩ := List.nodup_cons.1 hnodup
    rw [List.forall_mem_cons] at hseen
    rw [sharedType?, hseen.1]
    refine sharedType?_eq_none hrest fun m' hm' => ?_
    have hne : (m'.type == m.type) = false := beq_eq_false_iff_ne.2 fun heq => hnew (heq ▸ List.mem_map_of_mem hm')
    rw [List.lookup_cons, hne]
    exact hseen.2 m' hm'

/-- Why a dictionary does not pass all checks, that of the message types included. -/
inductive CheckError where
  /-- No codecs can be made from it. -/
  | schema (cause : SchemaError)
  /-- Two messages have the same type. -/
  | sharedType (type first second : String)

/-- The first fault of a dictionary, message types being checked after fields. -/
def check? (d : Dictionary) : Option CheckError :=
  ((d.fields.findSome? Field.fault?).map .schema).or <|
    ((sharedType? [] d.messages).map fun s => .sharedType s.1 s.2.1 s.2.2).or <|
      (d.groupFault?.map .schema).or <| d.cycle?.map fun path => .schema (.circular (path.map d.nameOf))

theorem check?_eq (h : (d.messages.map Message.type).Nodup) : d.check? = d.fault?.map .schema := by
  rw [check?, sharedType?_eq_none h fun _ _ => rfl, fault?]
  cases d.fields.findSome? Field.fault? with
  | some cause => rfl
  | none =>
    cases d.groupFault? with
    | some cause => rfl
    | none => cases d.cycle? <;> rfl

/-! ## Compiled dictionaries -/

theorem types_repeat_splice (d : Dictionary) (k : Nat) :
    (k.repeat splice d).messages.map Message.type = d.messages.map Message.type :=
  repeat_splice_induction (P := fun d' => d'.messages.map Message.type = d.messages.map Message.type) rfl
    (fun d' h => (by simp [splice, mapEntries] : d'.splice.messages.map Message.type = _).trans h) k

/-- A position is that of the name if the field there has the name, and no other field has. -/
theorem fieldIndex?_eq_some_iff (h : (d.fields.map Field.name).Nodup) {name : String} {index : Nat} :
    d.fieldIndex? name = some index ↔ ∃ f, d.fields[index]? = some f ∧ f.name = name := by
  rw [fieldIndex?, List.findIdx?_eq_some_iff_getElem]
  constructor
  · rintro ⟨hlt, hname, -⟩
    exact ⟨d.fields[index], List.getElem?_eq_getElem hlt, eq_of_beq hname⟩
  · rintro ⟨f, hf, rfl⟩
    obtain ⟨hlt, rfl⟩ := List.getElem?_eq_some_iff.1 hf
    refine ⟨hlt, beq_self_eq_true _, fun j hj heq => ?_⟩
    have hj' : j < d.fields.length := Nat.lt_trans hj hlt
    have hsame : (d.fields.map Field.name)[j]? = (d.fields.map Field.name)[index]? := by
      rw [List.getElem?_map, List.getElem?_map, List.getElem?_eq_getElem hj', hf]
      exact congrArg some (eq_of_beq heq)
    exact Nat.ne_of_lt hj ((List.getElem?_inj (by rwa [List.length_map]) h).1 hsame)

/-- A compiled dictionary is well-formed. Its fields have different names and numbers and are found by them, and its
messages have different types. In lists that know each other by number it is what its document declares after some
sweeps, and there all numbers are in range, every entry is listed once, and a group comes after the groups declared in
it. The check of message types finds nothing. -/
theorem compile_wellFormed {text : String} (h : compile text = .ok d) :
    ((d.fields.map Field.name).Nodup ∧ (d.fields.map Field.number).Nodup ∧ (d.messages.map Message.type).Nodup) ∧
      ((∀ name f, d.fieldNamed? name = some f ↔ f ∈ d.fields ∧ f.name = name) ∧
        (∀ number f, d.fieldNumbered? number = some f ↔ f ∈ d.fields ∧ f.number = number) ∧
        ∀ name index, d.fieldIndex? name = some index ↔ ∃ f, d.fields[index]? = some f ∧ f.name = name) ∧
      (∃ declared a₀ a, Declarations.ofDocument text = .ok declared ∧ declared.arena = .ok a₀ ∧ a₀.Settles a ∧
        a.Shows d ∧ a.WellFormed ∧ a.groups = a₀.groups ∧
        ∀ outer inner, Relation.TransGen a₀.Declares outer inner → inner < outer) ∧
      sharedType? [] d.messages = none ∧ d.check? = d.fault?.map .schema := by
  obtain ⟨declared, hdeclared, hresolved, rfl⟩ := exists_ofDocument h
  obtain ⟨root, hroot⟩ := Declarations.exists_ofRoot hdeclared
  have hdistinct := Declarations.distinct_of_ofDocument hdeclared
  obtain ⟨a₀, ha₀, hshows, hlisted⟩ := Declarations.exists_arena hresolved hdistinct (within_ofRoot hroot).1
  have hfields : (ofDeclarations declared).normalize.fields = declared.fields := fields_repeat_splice _ _
  have hnames := hdistinct.names
  have hnumbers := hdistinct.numbers
  rw [← hfields] at hnames hnumbers
  have htypes : ((ofDeclarations declared).normalize.messages.map Message.type).Nodup :=
    (types_repeat_splice (ofDeclarations declared) _).symm ▸ hdistinct.types_ofDeclarations
  obtain ⟨n, -, hsweeps⟩ := exists_sweeps (ofDeclarations declared)
  obtain ⟨a, hsettles, hshows'⟩ := Arena.Shows.settles hsweeps hshows hdistinct.names_ofDeclarations
  obtain ⟨hsame, hlength, hgroups⟩ := hsettles.listed_eq
  refine ⟨⟨hnames, hnumbers, htypes⟩, ⟨fun name f => find?_key_eq_some_iff hnames,
    fun number f => find?_key_eq_some_iff hnumbers, fun name index => fieldIndex?_eq_some_iff hnames⟩,
    ⟨declared, a₀, a, hdeclared, ha₀, hsettles, hshows', hshows'.wellFormed (by rwa [hsame, hlength]), hgroups,
      fun outer inner => hshows.lt_of_declares (arranged_ofDeclarations hresolved).1⟩,
    sharedType?_eq_none htypes fun _ _ => rfl, check?_eq htypes⟩

end Dictionary

/-! ## A sample -/

namespace Sample

set_option maxRecDepth 8000 in
/-- There are nine entries, and at first one component that holds only a group. -/
theorem arena_winding : ((Declarations.ofDocument winding).toOption.bind fun declared =>
    declared.arena.toOption.map fun a => (a.entries.length, a.found.length)) = some (9, 1) := by
  change ((Declarations.ofDocument (String.ofList _)).toOption.bind _) = _
  rw [Declarations.ofDocument, Xml.root?_ofList]
  decide +kernel

end Sample

namespace Dictionary

/-- A sample : its arena is swept more than once, and its two components that are inside each other are no fault of the
arena. -/
theorem compile_wellFormed_winding : compile Sample.winding = .ok Sample.windingDictionary ∧
    Sample.windingDictionary.fieldNamed? "Text" = some ⟨58, "Text", .string, []⟩ ∧
    (∃ declared a₀ a, Declarations.ofDocument Sample.winding = .ok declared ∧ declared.arena = .ok a₀ ∧
      a₀.entries.length = 9 ∧ a₀.found.length = 1 ∧ a₀.Settles a ∧ a.Shows Sample.windingDictionary ∧ a.WellFormed) ∧
    Sample.windingDictionary.check? = Sample.windingDictionary.fault?.map .schema := by
  obtain ⟨-, ⟨hnamed, -, -⟩, ⟨declared, a₀, a, hdeclared, ha₀, hsettles, hshows, hwellFormed, -, -⟩, -, hcheck⟩ :=
    compile_wellFormed Sample.compile_winding
  have harena := Sample.arena_winding
  rw [hdeclared] at harena
  simp only [Except.toOption, Option.bind_some, ha₀, Option.map_some, Option.some.injEq, Prod.mk.injEq] at harena
  refine ⟨Sample.compile_winding, (hnamed _ _).2 (by decide +kernel), ?_, hcheck⟩
  exact ⟨declared, a₀, a, hdeclared, ha₀, harena.1, harena.2, hsettles, hshows, hwellFormed⟩

end Dictionary

end FixWire
