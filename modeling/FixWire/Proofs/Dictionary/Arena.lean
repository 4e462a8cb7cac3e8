import FixWire.Proofs.Dictionary.Binding
import FixWire.Proofs.Dictionary.Declared
import Mathlib.Data.List.Flatten

/-!
# A dictionary in lists that know each other by number

In an `Arena` an aggregate does not hold its entries. All entries are in one list, aggregates have their numbers, and
entries point at fields, groups and components by number, so that an entry can be changed in one place. The header and
the trailer are components as well.

The arena of a document is what a `Binder` has read, once no entry is open. Whenever an entry is read its number goes to
the aggregate that is being read, and nowhere else (`Binder.lists_members`), so every entry is listed exactly once. The
arena shows the dictionary with the declarations as they are (`Declarations.exists_arena`).
-/

namespace FixWire

/-- What an entry points at, by number. -/
inductive Link where
  | field (index : Nat)
  | group (index : Nat)
  | component (index : Nat)
  deriving DecidableEq

/-- An entry that points at something by number. -/
structure LinkedEntry where
  required : Bool
  link : Link

/-- A group with the numbers of its counter and of its entries. -/
structure LinkedGroup where
  name : String
  counter : Nat
  entries : List Nat

/-- A dictionary in lists. `table` has the numbers of the components that have not been spliced out, and `header` and
`trailer` are the numbers of two components that are not in it. -/
structure Arena where
  fields : List Field
  entries : List LinkedEntry
  groups : List LinkedGroup
  components : List BoundComponent
  table : List (String × Nat)
  messages : List BoundMessage
  header : Nat
  trailer : Nat

/-- What an entry points at, a field being known by its number among the given ones. -/
def Target.link (fields : List Field) : Target → Link
  | .field f => .field (fields.findIdx fun f' => f'.name == f.name)
  | .group index => .group index
  | .component index => .component index

/-- The entry, if it is not open. -/
def OpenEntry.linked? (fields : List Field) (e : OpenEntry) : Option LinkedEntry :=
  e.target.map fun t => ⟨e.required, t.link fields⟩

/-- The group, with the number of its counter. -/
def BoundGroup.linked (fields : List Field) (g : BoundGroup) : LinkedGroup :=
  ⟨g.name, fields.findIdx fun f => f.name == g.counter.name, g.entries⟩

/-- The arena of what has been read and bound. -/
def ReadDocument.arena (r : ReadDocument) (b : Binder) (fields : List Field) : Arena where
  fields := fields
  entries := b.entries.filterMap (OpenEntry.linked? fields)
  groups := b.groups.map (BoundGroup.linked fields)
  components := b.components ++ [⟨"Header", r.header⟩, ⟨"Trailer", r.trailer⟩]
  table := b.components.mapIdx fun index c => (c.name, index)
  messages := r.messages
  header := b.components.length
  trailer := b.components.length + 1

/-- The arena with the declarations as they are, names being bound in one pass. -/
def Declarations.arena (d : Declarations) : Except BindError Arena := do
  let r := ReadDocument.ofDeclarations d
  let b ← r.binder.resolve r.binder.pending
  b.firstOpen?.elim (.ok (r.arena b d.fields)) fun entry => .error (.leftOpen entry)

namespace Binder

/-! ## Every entry is listed once -/

variable {b : Binder} {more : List Nat}

/-- The numbers of the entries of groups and components. -/
def listed (b : Binder) : List Nat :=
  b.groups.flatMap BoundGroup.entries ++ b.components.flatMap BoundComponent.entries

/-- Every entry so far is listed once : in a group, in a component, or among the given numbers, which are those of
aggregates that have no list yet. -/
def Lists (b : Binder) (more : List Nat) : Prop :=
  (b.listed ++ more).Perm (List.range b.entries.length)

/-- A new entry is listed by its number. -/
theorem Lists.concat {b' : Binder} (h : b.Lists more) (hlisted : b'.listed = b.listed)
    (hlength : b'.entries.length = b.entries.length + 1) : b'.Lists (more ++ [b.entries.length]) := by
  rw [Lists, hlisted, hlength, List.range_succ, ← List.append_assoc]
  exact List.Perm.append_right [b.entries.length] h

theorem Lists.push (h : b.Lists more) (required : Bool) (target : Option Target) :
    (b.push required target).1.Lists (more ++ [(b.push required target).2]) :=
  h.concat rfl List.length_append

theorem Lists.leaveOpen (h : b.Lists more) (required : Bool) (name : String) :
    (b.leaveOpen required name).1.Lists (more ++ [(b.leaveOpen required name).2]) :=
  h.concat rfl List.length_append

/-- The entries of a group are listed in it. -/
theorem Lists.addGroup {ids : List Nat} (h : b.Lists (more ++ ids)) (counter : Field) :
    (b.addGroup counter ids).Lists more := by
  refine List.Perm.trans (List.perm_iff_count.2 fun id => ?_) h
  simp only [listed, Binder.addGroup, List.flatMap_append, List.flatMap_singleton, List.count_append]
  omega

/-- The entries of a component are listed in it. -/
theorem Lists.addComponent {ids : List Nat} (h : b.Lists (more ++ ids)) (name : String) :
    (b.addComponent name ids).Lists more := by
  refine List.Perm.trans (List.perm_iff_count.2 fun id => ?_) h
  simp only [listed, Binder.addComponent, List.flatMap_append, List.flatMap_singleton, List.count_append]
  omega

mutual

theorem lists_member : ∀ (d : Declaration) {b : Binder} {more : List Nat}, b.Lists more →
    (b.member d).1.Lists (more ++ [(b.member d).2])
  | .field required f, b, more, h => by
    rw [member]
    exact h.push required (some (.field f))
  | .component required name, b, more, h => by
    rw [member]
    cases b.find? name with
    | some index => exact h.push required (some (.component index))
    | none => exact h.leaveOpen required name
  | .group required counter ds, b, more, h => by
    rw [member]
    exact ((lists_members ds h).addGroup counter).push required _

/-- The entries that are read are listed by their numbers. -/
theorem lists_members : ∀ (ds : List Declaration) {b : Binder} {more : List Nat}, b.Lists more →
    (b.members ds).1.Lists (more ++ (b.members ds).2)
  | [], b, more, h => by rwa [members, List.append_nil]
  | d :: rest, b, more, h => by
    have hrest := lists_members rest (lists_member d h)
    rw [List.append_assoc] at hrest
    exact hrest

end

theorem lists_readComponents : ∀ (cs : List DeclaredComponent) {b : Binder}, b.Lists more →
    (b.readComponents cs).Lists more
  | [], _, h => h
  | c :: rest, _, h => lists_readComponents rest ((lists_members c.members h).addComponent c.name)

theorem lists_readMessages : ∀ (ms : List DeclaredMessage) {b : Binder} {more : List Nat}, b.Lists more →
    (b.readMessages ms).1.Lists (more ++ (b.readMessages ms).2.flatMap BoundMessage.entries)
  | [], b, more, h => by rwa [readMessages, List.flatMap_nil, List.append_nil]
  | m :: rest, b, more, h => by
    have hrest := lists_readMessages rest (lists_members m.members h)
    rw [List.append_assoc] at hrest
    exact hrest

/-- Binding open entries brings in no new ones. -/
theorem length_of_resolve : ∀ {ps : List (Nat × String)} {b b' : Binder}, b.resolve ps = .ok b' →
    b'.entries.length = b.entries.length
  | [], b, b', h => by
    cases h
    rfl
  | (entry, name) :: rest, b, b', h => by
    rw [resolve] at h
    cases hname : b.find? name with
    | none => simp [hname] at h
    | some index =>
      simp only [hname] at h
      rw [length_of_resolve h, close, List.length_modify]

end Binder

/-! ## Lists side by side -/

section SideBySide

variable {α β : Type} {R S : α → β → Prop}

theorem exists_getElem?_of_forall₂ : ∀ {as : List α} {bs : List β}, List.Forall₂ R as bs → ∀ {i : Nat} {b : β},
    bs[i]? = some b → ∃ a, as[i]? = some a ∧ R a b
  | [], [], .nil, _, _, hb => nomatch hb
  | a :: _, _ :: _, .cons hab _, 0, _, hb => ⟨a, rfl, Option.some.inj hb ▸ hab⟩
  | _ :: _, _ :: _, .cons _ hrest, _ + 1, _, hb => exists_getElem?_of_forall₂ hrest hb

theorem exists_of_mem_left {as : List α} {bs : List β} (h : List.Forall₂ R as bs)
    {x : α} (hx : x ∈ as) : ∃ b ∈ bs, R x b := by
  obtain ⟨i, hi⟩ := List.getElem?_of_mem hx
  obtain ⟨b, hb, hR⟩ := exists_getElem?_of_forall₂ (List.Forall₂.flip (R := flip R) h) hi
  exact ⟨b, List.mem_of_getElem? hb, hR⟩

/-- What stands side by side does so in another way if what is on the right allows it. -/
theorem forall₂_imp_of_right {p : β → Prop} (hS : ∀ a b, R a b → p b → S a b) {as : List α} {bs : List β}
    (h : List.Forall₂ R as bs) (hp : ∀ b ∈ bs, p b) : List.Forall₂ S as bs := by
  induction h with
  | nil => exact .nil
  | cons hab _ ih =>
    rw [List.forall_mem_cons] at hp
    exact .cons (hS _ _ hab hp.1) (ih hp.2)

/-- A list stands side by side with what is made of it, if something is made of each element. -/
theorem forall₂_filterMap {f : α → Option β} : ∀ {as : List α}, (∀ a ∈ as, (f a).isSome = true) →
    List.Forall₂ (fun b a => f a = some b) (as.filterMap f) as
  | [], _ => .nil
  | a :: rest, h => by
    rw [List.forall_mem_cons] at h
    obtain ⟨b, hb⟩ := Option.isSome_iff_exists.1 h.1
    rw [List.filterMap_cons_some hb]
    exact .cons hb (forall₂_filterMap h.2)

end SideBySide

/-! ## What an arena shows -/

namespace Arena

/-- The link points at the item. -/
inductive ShowsLink (a : Arena) (d : Dictionary) : Link → Item → Prop
  | field {index : Nat} {f : Field} (h : a.fields[index]? = some f) : ShowsLink a d (.field index) (.field f)
  | group {index : Nat} (h : index < a.groups.length) : ShowsLink a d (.group index) (.group index)
  | component {index : Nat} {c : Component} (h : d.components[index]? = some c) :
    ShowsLink a d (.component index) (.component c.name)

/-- The entry with the number is the given one. -/
def ShowsEntry (a : Arena) (d : Dictionary) (id : Nat) (e : Entry) : Prop :=
  ∃ link, a.entries[id]? = some ⟨e.required, link⟩ ∧ a.ShowsLink d link e.item

/-- The group is the given one. -/
def ShowsGroup (a : Arena) (d : Dictionary) (g : LinkedGroup) (g' : Group) : Prop :=
  g.name = g'.name ∧ a.fields[g.counter]? = some g'.counter ∧ List.Forall₂ (a.ShowsEntry d) g.entries g'.entries

/-- The component is the given one. -/
def ShowsComponent (a : Arena) (d : Dictionary) (c : BoundComponent) (c' : Component) : Prop :=
  c.name = c'.name ∧ List.Forall₂ (a.ShowsEntry d) c.entries c'.entries

/-- The message is the given one. -/
def ShowsMessage (a : Arena) (d : Dictionary) (m : BoundMessage) (m' : Message) : Prop :=
  m.name = m'.name ∧ m.type = m'.type ∧ m.category = m'.category ∧
    List.Forall₂ (a.ShowsEntry d) m.entries m'.entries

/-- The arena is the dictionary in lists, the header and the trailer being the last two components. -/
structure Shows (a : Arena) (d : Dictionary) : Prop where
  fields : a.fields = d.fields
  groups : List.Forall₂ (a.ShowsGroup d) a.groups d.groups
  components : List.Forall₂ (a.ShowsComponent d) a.components
    (d.components ++ [⟨"Header", d.header⟩, ⟨"Trailer", d.trailer⟩])
  messages : List.Forall₂ (a.ShowsMessage d) a.messages d.messages
  table : ∀ name index, (name, index) ∈ a.table ↔
    ∃ c, d.components[index]? = some c ∧ c.name = name ∧ d.inTable name = true
  header : a.header = d.components.length
  trailer : a.trailer = d.components.length + 1

/-- The numbers of the entries of all aggregates. -/
def listed (a : Arena) : List Nat :=
  a.messages.flatMap BoundMessage.entries ++ a.groups.flatMap LinkedGroup.entries ++
    a.components.flatMap BoundComponent.entries

end Arena

/-! ## The arena of a document -/

theorem getElem?_findIdx_name {fields : List Field} (hnames : (fields.map Field.name).Nodup) {f : Field} (hf : f ∈ fields) :
    fields[fields.findIdx fun f' => f'.name == f.name]? = some f := by
  rw [← List.find?_eq_getElem?_findIdx]
  exact (find?_key_eq_some_iff hnames).2 ⟨hf, rfl⟩

namespace Dictionary

/-- What holds of all entries of all holders holds of the entries in all lists of the dictionary. -/
theorem forall_mem_entries {d : Dictionary} (hnames : (d.components.map Component.name).Nodup) {p : Entry → Prop}
    (h : ∀ holder, ∀ e ∈ d.entriesOf holder, p e) :
    (∀ g ∈ d.groups, ∀ e ∈ g.entries, p e) ∧ (∀ c ∈ d.components, ∀ e ∈ c.entries, p e) ∧
      ∀ m ∈ d.messages, ∀ e ∈ m.entries, p e := by
  refine ⟨fun g hg e he => ?_, fun c hc e he => ?_, fun m hm e he => ?_⟩
  · obtain ⟨index, hindex⟩ := List.getElem?_of_mem hg
    exact h (.group index) e (by rwa [entriesOf, hindex])
  · have hc : d.component? c.name = some c := (find?_key_eq_some_iff hnames).2 ⟨hc, rfl⟩
    exact h (.component c.name) e (by rwa [entriesOf, hc])
  · obtain ⟨index, hindex⟩ := List.getElem?_of_mem hm
    exact h (.message index) e (by rwa [entriesOf, hindex])

end Dictionary

namespace ReadDocument

variable {r : ReadDocument} {b : Binder} {d : Dictionary} {fields : List Field}

theorem listed_arena (r : ReadDocument) (b : Binder) (fields : List Field) : (r.arena b fields).listed =
    r.messages.flatMap BoundMessage.entries ++ b.groups.flatMap BoundGroup.entries ++
      (b.components.flatMap BoundComponent.entries ++ (r.header ++ r.trailer)) := by
  change _ ++ (b.groups.map _).flatMap _ ++ (b.components ++ [_, _]).flatMap _ = _
  rw [List.flatMap_map, List.flatMap_append, List.flatMap_cons, List.flatMap_singleton]
  rfl

/-- What an entry stands for is what it is in the arena, once it is bound. -/
theorem showsEntry_of_stands (hbound : ∀ e ∈ b.entries, (e.linked? fields).isSome = true) (hp : b.pending = [])
    (hnames : (fields.map Field.name).Nodup) (hgroups : b.HasGroups d.groups)
    (hcomponents : List.Forall₂ b.StandsComponent b.components d.components) {id : Nat} {e : Entry}
    (h : b.Stands id e) (he : e.Within fields ∧ e.Known d.groups.length (d.components.map Component.name)) :
    (r.arena b fields).ShowsEntry d id e := by
  have hentry {required : Bool} {t : Target} (h : b.entries[id]? = some ⟨required, some t⟩) :
      (r.arena b fields).entries[id]? = some ⟨required, t.link fields⟩ := by
    obtain ⟨e', he', hlinked⟩ := exists_getElem?_of_forall₂ (forall₂_filterMap hbound) h
    cases hlinked
    exact he'
  cases h with
  | field h => exact ⟨_, hentry h, .field (getElem?_findIdx_name hnames (he.1 _ rfl))⟩
  | group h =>
    refine ⟨_, hentry h, .group ?_⟩
    change _ < (b.groups.map _).length
    rw [List.length_map, hgroups.length_eq]
    exact he.2
  | component h hc =>
    obtain ⟨c', hc', hname, -⟩ := exists_getElem?_of_forall₂ (List.Forall₂.flip hcomponents) hc
    rw [hname]
    exact ⟨_, hentry h, .component hc'⟩
  | pending h hmem =>
    rw [hp] at hmem
    cases hmem

/-- The arena of what has been read shows what it stands for. -/
theorem shows_arena (hbound : ∀ e ∈ b.entries, (e.linked? fields).isSome = true) (hp : b.pending = [])
    (hnames : (fields.map Field.name).Nodup) (hcnames : (d.components.map Component.name).Nodup)
    (hfields : d.fields = fields) (hspliced : d.spliced = []) (hclosed : d.Closed) (hwithin : d.Within fields)
    (h : (ReadDocument.mk b r.messages r.header r.trailer).Stands d) : (r.arena b fields).Shows d := by
  have hall : ∀ holder, ∀ e ∈ d.entriesOf holder,
      e.Within fields ∧ e.Known d.groups.length (d.components.map Component.name) :=
    fun holder e he => ⟨hwithin.entries holder e he, hclosed holder e he⟩
  have hshows {ids : List Nat} {es : List Entry} (hids : List.Forall₂ b.Stands ids es)
      (hes : ∀ e ∈ es, e.Within fields ∧ e.Known d.groups.length (d.components.map Component.name)) :
      List.Forall₂ ((r.arena b fields).ShowsEntry d) ids es :=
    forall₂_imp_of_right (S := (r.arena b fields).ShowsEntry d)
      (fun _ _ => showsEntry_of_stands hbound hp hnames h.groups h.components) hids hes
  obtain ⟨hg, hc, hm⟩ := Dictionary.forall_mem_entries hcnames hall
  constructor
  case fields => exact hfields.symm
  case groups =>
    refine List.forall₂_map_left_iff.2 (forall₂_imp_of_right (fun g g' hstands hg' => ?_) h.groups
      fun g' hg' => And.intro (hwithin.groups g' hg').1 (hg g' hg'))
    obtain ⟨hname, hcounter, hentries⟩ := hstands
    refine ⟨hname, ?_, hshows hentries hg'.2⟩
    change fields[fields.findIdx fun f => f.name == g.counter.name]? = _
    rw [hcounter]
    exact getElem?_findIdx_name hnames hg'.1
  case components =>
    have hdeclared : List.Forall₂ ((r.arena b fields).ShowsComponent d) b.components d.components :=
      forall₂_imp_of_right (fun c c' hstands hc' => ⟨hstands.1, hshows hstands.2 hc'⟩) h.components hc
    exact List.rel_append hdeclared
      (.cons ⟨rfl, hshows h.header (hall .header)⟩ (.cons ⟨rfl, hshows h.trailer (hall .trailer)⟩ .nil))
  case messages =>
    exact forall₂_imp_of_right (fun m m' hstands hm' =>
      ⟨hstands.1, hstands.2.1, hstands.2.2.1, hshows hstands.2.2.2 hm'⟩) h.messages hm
  case table =>
    intro name index
    change (name, index) ∈ b.components.mapIdx _ ↔ _
    have htable (name : String) : d.inTable name = true := by rw [Dictionary.inTable, hspliced]; rfl
    rw [List.mem_mapIdx]
    constructor
    · rintro ⟨i, hi, heq⟩
      obtain ⟨rfl, rfl⟩ := Prod.mk.inj heq
      obtain ⟨c', hc', hname, -⟩ := exists_getElem?_of_forall₂ (List.Forall₂.flip h.components)
        (List.getElem?_eq_getElem hi)
      exact ⟨c', hc', hname.symm, htable _⟩
    · rintro ⟨c', hc', rfl, -⟩
      obtain ⟨c, hc, hname, -⟩ := exists_getElem?_of_forall₂ h.components hc'
      obtain ⟨hlt, rfl⟩ := List.getElem?_eq_some_iff.1 hc
      exact ⟨index, hlt, by rw [hname]⟩
  case header => exact h.components.length_eq
  case trailer => exact congrArg (· + 1) h.components.length_eq

end ReadDocument

/-- Whatever a document declares has an arena if all components that are mentioned are declared. The arena shows the
dictionary with the declarations as they are, and lists every entry once. -/
theorem Declarations.exists_arena {d : Declarations} (hresolved : d.unresolved? = none) (hdistinct : d.Distinct)
    (hwithin : (Dictionary.ofDeclarations d).Within d.fields) :
    ∃ a, d.arena = .ok a ∧ a.Shows (.ofDeclarations d) ∧ a.listed.Perm (List.range a.entries.length) := by
  have hfirst := ReadDocument.find?_pending d
  rw [hresolved, Option.map_eq_none_iff] at hfirst
  have hstands := ReadDocument.stands_ofDeclarations d
  have hlists : (ReadDocument.ofDeclarations d).binder.Lists
      ([] ++ (ReadDocument.ofDeclarations d).messages.flatMap BoundMessage.entries ++
        (ReadDocument.ofDeclarations d).header ++ (ReadDocument.ofDeclarations d).trailer) :=
    Binder.lists_members d.trailer (Binder.lists_members d.header (Binder.lists_readMessages d.messages
      (Binder.lists_readComponents d.components (.refl _))))
  obtain ⟨b, hok, hgrows, hsound, hp, hgroups, hcomponents⟩ := Binder.resolve_eq_ok hstands.sound rfl hfirst
  have hopen := Binder.firstOpen?_eq_none hsound hp
  have hbound : ∀ e ∈ b.entries, (e.linked? d.fields).isSome = true := by
    intro e he
    rw [OpenEntry.linked?, Option.isSome_map, Option.isSome_iff_ne_none, ne_eq, ← Option.isNone_iff_eq_none]
    exact Bool.eq_false_iff.1 (List.findIdx?_eq_none_iff.1 hopen e he)
  refine ⟨(ReadDocument.ofDeclarations d).arena b d.fields, ?_, ?_, ?_⟩
  · rw [arena, hok]
    change b.firstOpen?.elim _ _ = _
    rw [hopen]
    rfl
  · refine ReadDocument.shows_arena hbound hp hdistinct.names hdistinct.names_ofDeclarations rfl rfl
      (Dictionary.arranged_ofDeclarations hresolved).2 hwithin
      ⟨hsound, ?_, ?_, hstands.messages.imp fun _ _ => hgrows.message, hgrows.stands hstands.header,
        hgrows.stands hstands.trailer⟩
    · rw [Binder.HasGroups, hgroups]
      exact hstands.groups.imp fun _ _ => hgrows.group
    · rw [hcomponents]
      exact hstands.components.imp fun _ _ => hgrows.component
  · have hlength : ((ReadDocument.ofDeclarations d).arena b d.fields).entries.length =
        (ReadDocument.ofDeclarations d).binder.entries.length :=
      (forall₂_filterMap hbound).length_eq.trans (Binder.length_of_resolve hok)
    rw [hlength]
    refine List.Perm.trans (List.perm_iff_count.2 fun id => ?_) hlists
    rw [ReadDocument.listed_arena, hgroups, hcomponents]
    simp only [Binder.listed, List.count_append, List.nil_append]
    omega

end FixWire
