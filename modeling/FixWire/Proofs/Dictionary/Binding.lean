import FixWire.Dictionary.Compile
import FixWire.Proofs.Refusal
import Mathlib.Data.List.Forall2
import Mathlib.Data.List.Nodup

/-!
# Binding names in one pass

An entry that mentions a component can be bound as soon as it is read if the component has been read before. Otherwise
it is left open and noted down, and the notes are worked off once everything is read. A `Binder` does this, with
entries, groups and components in lists of their own that know each other by number.

Both ways of binding come to the same (`Declarations.bind_eq`) : the outcome is the dictionary with the declarations as
they are, no entry is left open, and the first note that cannot be worked off is the first mention of a component that
is not declared. `Binder.Stands` tells what an entry stands for while names are being bound, be it bound or only noted
down. What it stands for never changes, neither when more is read nor when a note is worked off.
-/

namespace FixWire

/-- Why names cannot be bound. -/
inductive BindError where
  /-- No component has the name. -/
  | unresolved (name : String)
  /-- The entry with the number has been left open. -/
  | leftOpen (entry : Nat)
  deriving DecidableEq, Repr

/-- What an entry points at once it is bound. A component is known by its number here. -/
inductive Target where
  | field (f : Field)
  | group (index : Nat)
  | component (index : Nat)

/-- An entry that may be open. -/
structure OpenEntry where
  required : Bool
  target : Option Target

/-- A group with the numbers of its entries. -/
structure BoundGroup where
  name : String
  counter : Field
  entries : List Nat

/-- A component with the numbers of its entries. -/
structure BoundComponent where
  name : String
  entries : List Nat

/-- A message with the numbers of its entries. -/
structure BoundMessage where
  name : String
  type : String
  category : Category
  entries : List Nat

/-- What has been read so far, and the notes : open entries with the components that they mention. -/
structure Binder where
  entries : List OpenEntry
  groups : List BoundGroup
  components : List BoundComponent
  pending : List (Nat × String)

namespace Binder

/-- The number of the component with the name. -/
def find? (b : Binder) (name : String) : Option Nat :=
  b.components.findIdx? fun c => c.name == name

/-- One more entry, and its number. -/
def push (b : Binder) (required : Bool) (target : Option Target) : Binder × Nat :=
  ({ b with entries := b.entries ++ [⟨required, target⟩] }, b.entries.length)

/-- One more group. -/
def addGroup (b : Binder) (counter : Field) (entries : List Nat) : Binder :=
  { b with groups := b.groups ++ [⟨Group.nameOfCounter counter.name, counter, entries⟩] }

/-- One more component. -/
def addComponent (b : Binder) (name : String) (entries : List Nat) : Binder :=
  { b with components := b.components ++ [⟨name, entries⟩] }

/-- One more open entry with its note, and its number. -/
def leaveOpen (b : Binder) (required : Bool) (name : String) : Binder × Nat :=
  ({ b with entries := b.entries ++ [⟨required, none⟩], pending := b.pending ++ [(b.entries.length, name)] },
    b.entries.length)

mutual

/-- Reads a declared entry. -/
def member (b : Binder) : Declaration → Binder × Nat
  | .field required f => b.push required (some (.field f))
  | .group required counter ds =>
    let (b, entries) := b.members ds
    (b.addGroup counter entries).push required (some (.group b.groups.length))
  | .component required name =>
    match b.find? name with
    | some index => b.push required (some (.component index))
    | none => b.leaveOpen required name

/-- Reads some declared entries. -/
def members (b : Binder) : List Declaration → Binder × List Nat
  | [] => (b, [])
  | d :: rest =>
    let (b, entry) := b.member d
    let (b, entries) := b.members rest
    (b, entry :: entries)

end

/-- Reads some components. A component can be found by its name once its entries are read. -/
def readComponents (b : Binder) : List DeclaredComponent → Binder
  | [] => b
  | c :: rest =>
    let (b, entries) := b.members c.members
    (b.addComponent c.name entries).readComponents rest

/-- Reads some messages. -/
def readMessages (b : Binder) : List DeclaredMessage → Binder × List BoundMessage
  | [] => (b, [])
  | m :: rest =>
    let (b, entries) := b.members m.members
    let (b, messages) := b.readMessages rest
    (b, ⟨m.name, m.type, m.category, entries⟩ :: messages)

/-- Binds an open entry to the component with the number, with so many notes left. -/
def close (b : Binder) (entry index : Nat) (pending : List (Nat × String)) : Binder :=
  { b with
    entries := b.entries.modify entry fun e => { e with target := some (.component index) }
    pending }

/-- Works off the notes. -/
def resolve (b : Binder) : List (Nat × String) → Except BindError Binder
  | [] => .ok b
  | (entry, name) :: rest =>
    match b.find? name with
    | some index => (b.close entry index rest).resolve rest
    | none => .error (.unresolved name)

/-- The entry with the number, once it is bound. -/
def bound? (b : Binder) (entry : Nat) : Option Entry := do
  let e ← b.entries[entry]?
  match ← e.target with
  | .field f => some ⟨e.required, .field f⟩
  | .group index => some ⟨e.required, .group index⟩
  | .component index => b.components[index]?.map fun c => ⟨e.required, .component c.name⟩

/-- The entries with the numbers. -/
def entriesAt (b : Binder) (entries : List Nat) : List Entry :=
  entries.filterMap b.bound?

/-- The group, its entries being bound. -/
def group (b : Binder) (g : BoundGroup) : Group :=
  ⟨g.name, g.counter, b.entriesAt g.entries⟩

/-- The component, its entries being bound. -/
def component (b : Binder) (c : BoundComponent) : Component :=
  ⟨c.name, b.entriesAt c.entries⟩

/-- The message, its entries being bound. -/
def message (b : Binder) (m : BoundMessage) : Message :=
  ⟨m.name, m.type, m.category, b.entriesAt m.entries⟩

/-- The number of the first entry that is open. -/
def firstOpen? (b : Binder) : Option Nat :=
  b.entries.findIdx? fun e => e.target.isNone

end Binder

/-- All that has been read of a document, before the notes are worked off. -/
structure ReadDocument where
  binder : Binder
  messages : List BoundMessage
  header : List Nat
  trailer : List Nat

/-- Reads all declarations. -/
def ReadDocument.ofDeclarations (d : Declarations) : ReadDocument :=
  let b := Binder.readComponents ⟨[], [], [], []⟩ d.components
  let (b, messages) := b.readMessages d.messages
  let (b, header) := b.members d.header
  let (b, trailer) := b.members d.trailer
  ⟨b, messages, header, trailer⟩

/-- The dictionary with the declarations as they are, names being bound in one pass. -/
def Declarations.bind (d : Declarations) : Except BindError Dictionary :=
  let read := ReadDocument.ofDeclarations d
  match read.binder.resolve read.binder.pending with
  | .error cause => .error cause
  | .ok b =>
    match b.firstOpen? with
    | some entry => .error (.leftOpen entry)
    | none => .ok
      { major := d.major
        minor := d.minor
        fields := d.fields
        groups := b.groups.map b.group
        components := b.components.map b.component
        spliced := []
        messages := read.messages.map b.message
        header := b.entriesAt read.header
        trailer := b.entriesAt read.trailer }

namespace Binder

variable {b b' b'' : Binder} {groups : List Group}

/-! ## What entries stand for -/

/-- What the entry with the number stands for : what it is bound to, or the component that is noted down for it. -/
inductive Stands (b : Binder) (entry : Nat) : Entry → Prop
  | field {required : Bool} {f : Field} (h : b.entries[entry]? = some ⟨required, some (.field f)⟩) :
    Stands b entry ⟨required, .field f⟩
  | group {required : Bool} {index : Nat} (h : b.entries[entry]? = some ⟨required, some (.group index)⟩) :
    Stands b entry ⟨required, .group index⟩
  | component {required : Bool} {index : Nat} {c : BoundComponent}
    (h : b.entries[entry]? = some ⟨required, some (.component index)⟩) (hc : b.components[index]? = some c) :
    Stands b entry ⟨required, .component c.name⟩
  | pending {required : Bool} {name : String} (h : b.entries[entry]? = some ⟨required, none⟩)
    (hp : (entry, name) ∈ b.pending) : Stands b entry ⟨required, .component name⟩

/-- What a group stands for. -/
def StandsGroup (b : Binder) (g : BoundGroup) (g' : Group) : Prop :=
  g.name = g'.name ∧ g.counter = g'.counter ∧ List.Forall₂ b.Stands g.entries g'.entries

/-- The groups stand for the given ones. -/
def HasGroups (b : Binder) (groups : List Group) : Prop :=
  List.Forall₂ b.StandsGroup b.groups groups

/-- What a component stands for. -/
def StandsComponent (b : Binder) (c : BoundComponent) (c' : Component) : Prop :=
  c.name = c'.name ∧ List.Forall₂ b.Stands c.entries c'.entries

/-- What a message stands for. -/
def StandsMessage (b : Binder) (m : BoundMessage) (m' : Message) : Prop :=
  m.name = m'.name ∧ m.type = m'.type ∧ m.category = m'.category ∧ List.Forall₂ b.Stands m.entries m'.entries

/-- The notes are about the open entries, one about each. -/
structure Sound (b : Binder) : Prop where
  noted : ∀ entry required, b.entries[entry]? = some ⟨required, none⟩ → ∃ name, (entry, name) ∈ b.pending
  opened : ∀ p ∈ b.pending, ∃ required, b.entries[p.1]? = some ⟨required, none⟩
  nodup : (b.pending.map Prod.fst).Nodup

/-- Whatever an entry stands for it stands for later. -/
def Grows (b b' : Binder) : Prop :=
  ∀ entry e, b.Stands entry e → b'.Stands entry e

/-- Growing twice is growing. -/
theorem Grows.trans (h : b.Grows b') (h' : b'.Grows b'') : b.Grows b'' :=
  fun entry e he => h' entry e (h entry e he)

/-- What entries stand for stays as it is when the binder grows. -/
theorem Grows.stands (h : b.Grows b') {entries : List Nat} {es : List Entry} (hes : List.Forall₂ b.Stands entries es) :
    List.Forall₂ b'.Stands entries es :=
  hes.imp fun entry e => h entry e

/-- So does what a group stands for. -/
theorem Grows.group (h : b.Grows b') {g : BoundGroup} {g' : Group} (hg : b.StandsGroup g g') : b'.StandsGroup g g' :=
  ⟨hg.1, hg.2.1, h.stands hg.2.2⟩

/-- So does what a component stands for. -/
theorem Grows.component (h : b.Grows b') {c : BoundComponent} {c' : Component} (hc : b.StandsComponent c c') :
    b'.StandsComponent c c' :=
  ⟨hc.1, h.stands hc.2⟩

/-- So does what a message stands for. -/
theorem Grows.message (h : b.Grows b') {m : BoundMessage} {m' : Message} (hm : b.StandsMessage m m') :
    b'.StandsMessage m m' :=
  ⟨hm.1, hm.2.1, hm.2.2.1, h.stands hm.2.2.2⟩

/-- An element of a list is at the same place of any list that goes on from it. -/
theorem getElem?_of_isPrefix {α : Type} {xs ys : List α} (h : xs <+: ys) {i : Nat} {x : α} (hx : xs[i]? = some x) :
    ys[i]? = some x := by
  obtain ⟨more, rfl⟩ := h
  rw [List.getElem?_append_left (List.getElem?_eq_some_iff.1 hx).1, hx]

/-- Adding at the end changes nothing about the entries that are there. -/
theorem grows_of_isPrefix (hentries : b.entries <+: b'.entries) (hcomponents : b.components <+: b'.components)
    (hpending : b.pending ⊆ b'.pending) : b.Grows b' := by
  intro entry e he
  cases he with
  | field h => exact .field (getElem?_of_isPrefix hentries h)
  | group h => exact .group (getElem?_of_isPrefix hentries h)
  | component h hc => exact .component (getElem?_of_isPrefix hentries h) (getElem?_of_isPrefix hcomponents hc)
  | pending h hp => exact .pending (getElem?_of_isPrefix hentries h) (hpending hp)

/-- A note is about an entry that there is. -/
theorem Sound.lt (hb : b.Sound) {p : Nat × String} (hp : p ∈ b.pending) : p.1 < b.entries.length := by
  obtain ⟨required, h⟩ := hb.opened p hp
  exact (List.getElem?_eq_some_iff.1 h).1

/-! ## Adding at the end -/

theorem getElem?_push (b : Binder) (required : Bool) (target : Option Target) :
    (b.push required target).1.entries[(b.push required target).2]? = some ⟨required, target⟩ := by
  rw [push, List.getElem?_append_right (Nat.le_refl _), Nat.sub_self]
  rfl

theorem grows_push (b : Binder) (required : Bool) (target : Option Target) : b.Grows (b.push required target).1 :=
  grows_of_isPrefix (List.prefix_append _ _) (List.prefix_refl _) (List.Subset.refl _)

theorem grows_leaveOpen (b : Binder) (required : Bool) (name : String) : b.Grows (b.leaveOpen required name).1 :=
  grows_of_isPrefix (List.prefix_append _ _) (List.prefix_refl _) (List.subset_append_left _ _)

theorem grows_addComponent (b : Binder) (name : String) (entries : List Nat) : b.Grows (b.addComponent name entries) :=
  grows_of_isPrefix (List.prefix_refl _) (List.prefix_append _ _) (List.Subset.refl _)

theorem grows_addGroup (b : Binder) (counter : Field) (entries : List Nat) : b.Grows (b.addGroup counter entries) :=
  grows_of_isPrefix (List.prefix_refl _) (List.prefix_refl _) (List.Subset.refl _)

/-- An entry with a target may be added. -/
theorem Sound.push (hb : b.Sound) (required : Bool) (target : Target) : (b.push required (some target)).1.Sound where
  noted entry r h := by
    change (b.entries ++ [_])[entry]? = _ at h
    rw [List.getElem?_append] at h
    split_ifs at h with hlt
    · exact hb.noted entry r h
    · obtain ⟨_, h⟩ := List.getElem?_eq_some_iff.1 h
      simp at h
  opened p hp := by
    obtain ⟨r, h⟩ := hb.opened p hp
    exact ⟨r, getElem?_of_isPrefix (List.prefix_append _ _) h⟩
  nodup := hb.nodup

/-- An entry may be left open, with a note about it. -/
theorem Sound.leaveOpen (hb : b.Sound) (required : Bool) (name : String) : (b.leaveOpen required name).1.Sound where
  noted entry r h := by
    change (b.entries ++ [_])[entry]? = _ at h
    rw [List.getElem?_append] at h
    split_ifs at h with hlt
    · obtain ⟨name', hname⟩ := hb.noted entry r h
      exact ⟨name', List.mem_append_left _ hname⟩
    · obtain ⟨hlen, -⟩ := List.getElem?_eq_some_iff.1 h
      obtain rfl : entry = b.entries.length := by
        rw [List.length_singleton] at hlen
        omega
      exact ⟨name, List.mem_append_right _ (List.mem_singleton_self _)⟩
  opened p hp := by
    rcases List.mem_append.1 hp with hp | hp
    · obtain ⟨r, h⟩ := hb.opened p hp
      exact ⟨r, getElem?_of_isPrefix (List.prefix_append _ _) h⟩
    · obtain rfl := List.mem_singleton.1 hp
      exact ⟨required, getElem?_push b required none⟩
  nodup := by
    change ((b.pending ++ [_]).map Prod.fst).Nodup
    rw [List.map_append, List.nodup_append]
    refine ⟨hb.nodup, List.nodup_singleton _, ?_⟩
    rintro _ hentry _ hnew rfl
    obtain ⟨p, hp, rfl⟩ := List.mem_map.1 hentry
    exact Nat.ne_of_lt (hb.lt hp) (List.mem_singleton.1 hnew)

/-! ## Reading -/

/-- More has been read : entries stand for what they stood for, and the groups so far are the given ones. -/
structure Reads (b b' : Binder) (groups : List Group) : Prop where
  grows : b.Grows b'
  sound : b'.Sound
  components : b'.components = b.components
  groups : b'.HasGroups groups

/-- What is read in two goes is read. -/
theorem Reads.trans {groups' : List Group} (h : Reads b b' groups) (h' : Reads b' b'' groups') : Reads b b'' groups' :=
  ⟨h.grows.trans h'.grows, h'.sound, h'.components.trans h.components, h'.groups⟩

/-- A pushed entry is read, and no group with it. -/
theorem reads_push (hb : b.Sound) (hg : b.HasGroups groups) (required : Bool) (target : Target) :
    Reads b (b.push required (some target)).1 groups where
  grows := grows_push b required (some target)
  sound := hb.push required target
  components := rfl
  groups := hg.imp fun _ _ => (grows_push b required (some target)).group

/-- So is an entry that is left open. -/
theorem reads_leaveOpen (hb : b.Sound) (hg : b.HasGroups groups) (required : Bool) (name : String) :
    Reads b (b.leaveOpen required name).1 groups where
  grows := grows_leaveOpen b required name
  sound := hb.leaveOpen required name
  components := rfl
  groups := hg.imp fun _ _ => (grows_leaveOpen b required name).group

/-- A group is read once its entries stand for those of the declaration. -/
theorem reads_addGroup (hb : b.Sound) (hg : b.HasGroups groups) (counter : Field) {entries : List Nat} {es : List Entry}
    (hes : List.Forall₂ b.Stands entries es) :
    Reads b (b.addGroup counter entries) (groups ++ [⟨Group.nameOfCounter counter.name, counter, es⟩]) where
  grows := grows_addGroup b counter entries
  sound := ⟨hb.noted, hb.opened, hb.nodup⟩
  components := rfl
  groups := by
    have hgrows := grows_addGroup b counter entries
    exact List.rel_append (hg.imp fun _ _ => hgrows.group) (.cons ⟨rfl, rfl, hgrows.stands hes⟩ .nil)

theorem exists_of_find? {name : String} {index : Nat} (h : b.find? name = some index) :
    ∃ c, b.components[index]? = some c ∧ c.name = name := by
  obtain ⟨hlt, hname, -⟩ := List.findIdx?_eq_some_iff_getElem.1 h
  exact ⟨b.components[index], List.getElem?_eq_getElem hlt, eq_of_beq hname⟩

mutual

/-- Reading a member binds what the declaration of it is laid out to, groups inside it included. -/
theorem reads_member : ∀ (d : Declaration) {b : Binder} {groups : List Group}, b.Sound → b.HasGroups groups →
    Reads b (b.member d).1 (d.layOut groups).1 ∧ (b.member d).1.Stands (b.member d).2 (d.layOut groups).2
  | .field required f, b, groups, hb, hg => by
    rw [member]
    exact ⟨reads_push hb hg required (.field f), .field (getElem?_push b required _)⟩
  | .component required name, b, groups, hb, hg => by
    rw [member]
    cases hname : b.find? name with
    | some index =>
      obtain ⟨c, hc, rfl⟩ := exists_of_find? hname
      exact ⟨reads_push hb hg required (.component index), .component (getElem?_push b required _) hc⟩
    | none =>
      exact ⟨reads_leaveOpen hb hg required name,
        .pending (getElem?_push b required none) (List.mem_append_right _ (List.mem_singleton_self _))⟩
  | .group required counter ds, b, groups, hb, hg => by
    obtain ⟨hread, hentries⟩ := reads_members ds hb hg
    have hadded := reads_addGroup hread.sound hread.groups counter hentries
    -- The group gets the same number because as many groups have been read as have been laid out.
    have hnumber : (b.members ds).1.groups.length = (layOut groups ds).1.length := hread.groups.length_eq
    have hpushed := reads_push hadded.sound hadded.groups required (.group (b.members ds).1.groups.length)
    refine ⟨(hread.trans hadded).trans hpushed, ?_⟩
    change Stands _ _ ⟨required, .group (layOut groups ds).1.length⟩
    rw [← hnumber]
    exact .group (getElem?_push _ required _)

/-- The entries that are read stand for those that are laid out. -/
theorem reads_members : ∀ (ds : List Declaration) {b : Binder} {groups : List Group}, b.Sound → b.HasGroups groups →
    Reads b (b.members ds).1 (layOut groups ds).1 ∧
      List.Forall₂ (b.members ds).1.Stands (b.members ds).2 (layOut groups ds).2
  | [], b, groups, hb, hg => ⟨⟨fun _ _ h => h, hb, rfl, hg⟩, .nil⟩
  | d :: rest, b, groups, hb, hg => by
    obtain ⟨hfirst, hentry⟩ := reads_member d hb hg
    obtain ⟨hrest, hentries⟩ := reads_members rest hfirst.sound hfirst.groups
    exact ⟨hfirst.trans hrest, .cons (hrest.grows _ _ hentry) hentries⟩

end

/-- Reading declared components binds what they are laid out to, one after another. -/
theorem readComponents_stands : ∀ (cs : List DeclaredComponent) {b : Binder} {groups : List Group}
    {components : List Component}, b.Sound → b.HasGroups groups →
      List.Forall₂ b.StandsComponent b.components components →
        b.Grows (b.readComponents cs) ∧ (b.readComponents cs).Sound ∧
          (b.readComponents cs).HasGroups (layOutComponents groups cs).1 ∧
            List.Forall₂ (b.readComponents cs).StandsComponent (b.readComponents cs).components
              (components ++ (layOutComponents groups cs).2)
  | [], b, groups, components, hb, hg, hc => ⟨fun _ _ h => h, hb, hg, by rwa [layOutComponents, List.append_nil]⟩
  | c :: rest, b, groups, components, hb, hg, hc => by
    obtain ⟨hread, hentries⟩ := reads_members c.members hb hg
    have hgrows := grows_addComponent (b.members c.members).1 c.name (b.members c.members).2
    have hadded : List.Forall₂ ((b.members c.members).1.addComponent c.name (b.members c.members).2).StandsComponent
        ((b.members c.members).1.components ++ [⟨c.name, (b.members c.members).2⟩])
        (components ++ [⟨c.name, (layOut groups c.members).2⟩]) := by
      rw [hread.components]
      exact List.rel_append (hc.imp fun _ _ hc => hgrows.component (hread.grows.component hc))
        (.cons ⟨rfl, hgrows.stands hentries⟩ .nil)
    obtain ⟨hrest, hsound, hgroups, hcomponents⟩ := readComponents_stands rest
      (b := (b.members c.members).1.addComponent c.name (b.members c.members).2)
      ⟨hread.sound.noted, hread.sound.opened, hread.sound.nodup⟩ (hread.groups.imp fun _ _ => hgrows.group) hadded
    refine ⟨(hread.grows.trans hgrows).trans hrest, hsound, hgroups, ?_⟩
    rw [List.append_assoc] at hcomponents
    exact hcomponents

/-- Reading declared messages binds what they are laid out to. -/
theorem readMessages_stands : ∀ (ms : List DeclaredMessage) {b : Binder} {groups : List Group}, b.Sound →
    b.HasGroups groups →
      Reads b (b.readMessages ms).1 (layOutMessages groups ms).1 ∧
        List.Forall₂ (b.readMessages ms).1.StandsMessage (b.readMessages ms).2 (layOutMessages groups ms).2
  | [], b, groups, hb, hg => ⟨⟨fun _ _ h => h, hb, rfl, hg⟩, .nil⟩
  | m :: rest, b, groups, hb, hg => by
    obtain ⟨hfirst, hentries⟩ := reads_members m.members hb hg
    obtain ⟨hrest, hmessages⟩ := readMessages_stands rest hfirst.sound hfirst.groups
    exact ⟨hfirst.trans hrest, .cons ⟨rfl, rfl, rfl, hrest.grows.stands hentries⟩ hmessages⟩

/-! ## Working off the notes -/

section Close

variable {entry index : Nat} {name : String} {rest : List (Nat × String)}

/-- Closing an entry leaves the others as they are. -/
theorem getElem?_close_of_ne {other : Nat} (h : other ≠ entry) :
    (b.close entry index rest).entries[other]? = b.entries[other]? := by
  rw [close, List.getElem?_modify]
  simp only [if_neg h.symm]
  exact congrFun Option.map_id _

/-- A closed entry points at the component. -/
theorem getElem?_close {e : OpenEntry} (h : b.entries[entry]? = some e) :
    (b.close entry index rest).entries[entry]? = some { e with target := some (.component index) } := by
  rw [close, List.getElem?_modify, h]
  simp

/-- The first note is about an open entry, and no other one is about it. -/
theorem Sound.first (hb : b.Sound) (hp : b.pending = (entry, name) :: rest) :
    (∃ required, b.entries[entry]? = some ⟨required, none⟩) ∧ ∀ p ∈ rest, p.1 ≠ entry := by
  have hnodup := hb.nodup
  rw [hp, List.map_cons, List.nodup_cons] at hnodup
  exact ⟨hb.opened _ (hp ▸ List.mem_cons_self), fun p hrest heq => hnodup.1 (List.mem_map.2 ⟨p, hrest, heq⟩)⟩

/-- Once a note is worked off, the entry is bound to what it stood for. -/
theorem grows_close (hb : b.Sound) (hp : b.pending = (entry, name) :: rest) (hname : b.find? name = some index) :
    b.Grows (b.close entry index rest) := by
  obtain ⟨⟨required, hopen⟩, hothers⟩ := hb.first hp
  -- An entry that is bound already is another one than the one that is closed.
  have hbound {other : Nat} {e : OpenEntry} (he : b.entries[other]? = some e) (ht : e.target ≠ none) :
      (b.close entry index rest).entries[other]? = some e := by
    rw [getElem?_close_of_ne, he]
    rintro rfl
    exact ht (Option.some.inj (he.symm.trans hopen) ▸ rfl)
  intro other e he
  cases he with
  | field h => exact .field (hbound h (Option.some_ne_none _))
  | group h => exact .group (hbound h (Option.some_ne_none _))
  | component h hc => exact .component (hbound h (Option.some_ne_none _)) hc
  | pending h hmem =>
    rw [hp, List.mem_cons] at hmem
    rcases hmem with hmem | hmem
    · obtain ⟨rfl, rfl⟩ := Prod.mk.inj hmem
      obtain ⟨c, hc, rfl⟩ := exists_of_find? hname
      exact .component (getElem?_close h) hc
    · exact .pending (by rwa [getElem?_close_of_ne (hothers _ hmem)]) hmem

/-- The notes that are left are still about open entries. -/
theorem Sound.close (hb : b.Sound) (hp : b.pending = (entry, name) :: rest) : (b.close entry index rest).Sound := by
  obtain ⟨⟨required, hopen⟩, hothers⟩ := hb.first hp
  refine ⟨fun other r h => ?_, fun p hmem => ?_, ?_⟩
  · have hne : other ≠ entry := by
      rintro rfl
      rw [getElem?_close hopen] at h
      simp at h
    rw [getElem?_close_of_ne hne] at h
    obtain ⟨name', hmem⟩ := hb.noted other r h
    rw [hp, List.mem_cons] at hmem
    exact ⟨name', hmem.resolve_left fun heq => hne (Prod.mk.inj heq).1⟩
  · obtain ⟨r, h⟩ := hb.opened p (hp ▸ List.mem_cons_of_mem _ hmem)
    exact ⟨r, by rwa [getElem?_close_of_ne (hothers p hmem)]⟩
  · have hnodup := hb.nodup
    rw [hp, List.map_cons, List.nodup_cons] at hnodup
    exact hnodup.2

end Close

/-- The first note about a component that is not declared stops the work. -/
theorem resolve_eq_error : ∀ {ps : List (Nat × String)} {b : Binder} {p : Nat × String},
    ps.find? (fun p => (b.find? p.2).isNone) = some p → b.resolve ps = .error (.unresolved p.2)
  | (entry, name) :: rest, b, p, h => by
    rw [List.find?_cons] at h
    rw [resolve]
    cases hname : b.find? name with
    | none =>
      simp only [hname, Option.isNone_none, Option.some.injEq] at h
      rw [← h]
    | some index =>
      simp only [hname, Option.isNone_some] at h
      exact resolve_eq_error (b := b.close entry index rest) h

/-- All notes can be worked off if all components are declared. -/
theorem resolve_eq_ok : ∀ {ps : List (Nat × String)} {b : Binder}, b.Sound → b.pending = ps →
    ps.find? (fun p => (b.find? p.2).isNone) = none →
      ∃ b', b.resolve ps = .ok b' ∧ b.Grows b' ∧ b'.Sound ∧ b'.pending = [] ∧ b'.groups = b.groups ∧
        b'.components = b.components
  | [], b, hb, hp, _ => ⟨b, rfl, fun _ _ h => h, hb, hp, rfl, rfl⟩
  | (entry, name) :: rest, b, hb, hp, h => by
    rw [List.find?_cons] at h
    rw [resolve]
    cases hname : b.find? name with
    | none => simp [hname] at h
    | some index =>
      simp only [hname, Option.isNone_some] at h
      obtain ⟨b', hok, hgrows, hrest⟩ := resolve_eq_ok (b := b.close entry index rest) (hb.close hp) rfl h
      exact ⟨b', hok, (grows_close hb hp hname).trans hgrows, hrest⟩

/-- Without notes no entry is open. -/
theorem firstOpen?_eq_none (hb : b.Sound) (hp : b.pending = []) : b.firstOpen? = none := by
  rw [firstOpen?, List.findIdx?_eq_none_iff]
  rintro ⟨required, _ | target⟩ he
  · obtain ⟨entry, hentry⟩ := List.getElem?_of_mem he
    obtain ⟨name, hname⟩ := hb.noted entry required hentry
    rw [hp] at hname
    cases hname
  · rfl

/-- Without notes an entry is bound to what it stands for. -/
theorem bound?_of_stands (hp : b.pending = []) {entry : Nat} {e : Entry} (h : b.Stands entry e) :
    b.bound? entry = some e := by
  cases h with
  | field h => simp [bound?, h]
  | group h => simp [bound?, h]
  | component h hc => simp [bound?, h, hc]
  | pending h hmem =>
    rw [hp] at hmem
    cases hmem

/-- Once no note is left, entries are those that they stand for. -/
theorem entriesAt_of_stands (hp : b.pending = []) : ∀ {entries : List Nat} {es : List Entry},
    List.Forall₂ b.Stands entries es → b.entriesAt entries = es
  | [], [], .nil => rfl
  | entry :: entries, e :: es, .cons h hrest => by
    rw [entriesAt, List.filterMap_cons, bound?_of_stands hp h]
    exact congrArg (e :: ·) (entriesAt_of_stands hp hrest)

/-! ## Notes about components that are not declared -/

section Undeclared

variable {declared : String → Bool}

/-- The components that notes mention although they are not declared. -/
def undeclared (b : Binder) (declared : String → Bool) : List String :=
  (b.pending.map Prod.snd).filter fun name => !declared name

/-- All components so far are declared. -/
def Declared (b : Binder) (declared : String → Bool) : Prop :=
  ∀ c ∈ b.components, declared c.name = true

/-- More has been read, in which the names are mentioned : those that are not declared have been noted down. -/
structure Notes (declared : String → Bool) (b b' : Binder) (names : List String) : Prop where
  undeclared : b'.undeclared declared = b.undeclared declared ++ names.filter fun name => !declared name
  components : b'.components = b.components

/-- The components that have been read are declared, as they were before. -/
theorem Notes.keep_declared {names : List String} (h : Notes declared b b' names) (hb : b.Declared declared) :
    b'.Declared declared := by
  rwa [Declared, h.components]

/-- The notes of two goes are taken one after the other. -/
theorem Notes.trans {names names' : List String} (h : Notes declared b b' names) (h' : Notes declared b' b'' names') :
    Notes declared b b'' (names ++ names') := by
  refine ⟨?_, h'.components.trans h.components⟩
  rw [h'.undeclared, h.undeclared, List.filter_append, List.append_assoc]

theorem notes_nil (declared : String → Bool) (b : Binder) : Notes declared b b [] :=
  ⟨(List.append_nil _).symm, rfl⟩

mutual

/-- Reading a member leaves notes about the components that its declaration mentions. -/
theorem notes_member : ∀ (d : Declaration) {b : Binder}, b.Declared declared →
    Notes declared b (b.member d).1 d.mentions
  | .field required f, b, _ => by
    rw [member, Declaration.mentions]
    exact ⟨(List.append_nil _).symm, rfl⟩
  | .component required name, b, hb => by
    rw [member, Declaration.mentions]
    cases hname : b.find? name with
    | some index =>
      obtain ⟨c, hc, rfl⟩ := exists_of_find? hname
      refine ⟨?_, rfl⟩
      rw [List.filter_cons_of_neg (by simp [hb c (List.mem_of_getElem? hc)])]
      exact (List.append_nil _).symm
    | none =>
      refine ⟨?_, rfl⟩
      change ((b.pending ++ [_]).map Prod.snd).filter _ = _
      rw [List.map_append, List.filter_append]
      rfl
  | .group required counter ds, b, hb => by
    have h := notes_members ds hb
    rw [member, Declaration.mentions]
    exact ⟨h.undeclared, h.components⟩

/-- What has been read so far is declared, so a mention that is not declared is noted down. -/
theorem notes_members : ∀ (ds : List Declaration) {b : Binder}, b.Declared declared →
    Notes declared b (b.members ds).1 (allMentions ds)
  | [], b, _ => notes_nil declared b
  | d :: rest, _, hb =>
    have hfirst := notes_member d hb
    hfirst.trans (notes_members rest (hfirst.keep_declared hb))

end

/-- Reading declared messages leaves notes about the components that they mention. -/
theorem notes_readMessages : ∀ (ms : List DeclaredMessage) {b : Binder}, b.Declared declared →
    Notes declared b (b.readMessages ms).1 (ms.flatMap (allMentions ·.members))
  | [], b, _ => notes_nil declared b
  | m :: rest, _, hb =>
    have hfirst := notes_members m.members hb
    hfirst.trans (notes_readMessages rest (hfirst.keep_declared hb))

/-- Reading declared components leaves notes about the components that they mention and that are not declared. -/
theorem undeclared_readComponents : ∀ (cs : List DeclaredComponent) {b : Binder}, b.Declared declared →
    (∀ c ∈ cs, declared c.name = true) →
      (b.readComponents cs).undeclared declared =
          b.undeclared declared ++ (cs.flatMap (allMentions ·.members)).filter (fun name => !declared name) ∧
        (b.readComponents cs).components.map BoundComponent.name =
          b.components.map BoundComponent.name ++ cs.map DeclaredComponent.name
  | [], b, _, _ => by simp [readComponents]
  | c :: rest, b, hb, hcs => by
    have hfirst := notes_members c.members hb
    rw [List.forall_mem_cons] at hcs
    have hknown : ((b.members c.members).1.addComponent c.name (b.members c.members).2).Declared declared := by
      intro c' hc'
      rcases List.mem_append.1 hc' with hc' | hc'
      · exact hb c' (hfirst.components ▸ hc')
      · rw [List.mem_singleton.1 hc']
        exact hcs.1
    obtain ⟨hrest, hnames⟩ := undeclared_readComponents rest hknown hcs.2
    rw [List.flatMap_cons, List.filter_append, ← List.append_assoc, ← hfirst.undeclared]
    refine ⟨hrest, hnames.trans ?_⟩
    rw [addComponent, List.map_append, hfirst.components, List.append_assoc]
    rfl

end Undeclared

end Binder

/-! ## The outcome -/

/-- A relation that makes elements equal makes lists equal. -/
theorem map_eq_of_forall₂ {α β : Type} {R : α → β → Prop} {f : α → β} (hf : ∀ a b, R a b → f a = b) {as : List α}
    {bs : List β} (h : List.Forall₂ R as bs) : as.map f = bs := by
  rw [← List.forall₂_eq_eq_eq, List.forall₂_map_left_iff]
  exact h.imp hf

namespace Binder

variable {b : Binder}

/-- Once no note is left, a group is the one that it stands for. -/
theorem group_of_stands (hp : b.pending = []) (g : BoundGroup) (g' : Group) (h : b.StandsGroup g g') :
    b.group g = g' := by
  rw [group, h.1, h.2.1, entriesAt_of_stands hp h.2.2]

/-- So is a component. -/
theorem component_of_stands (hp : b.pending = []) (c : BoundComponent) (c' : Component) (h : b.StandsComponent c c') :
    b.component c = c' := by
  rw [component, h.1, entriesAt_of_stands hp h.2]

/-- So is a message. -/
theorem message_of_stands (hp : b.pending = []) (m : BoundMessage) (m' : Message) (h : b.StandsMessage m m') :
    b.message m = m' := by
  rw [message, h.1, h.2.1, h.2.2.1, entriesAt_of_stands hp h.2.2.2]

end Binder

namespace ReadDocument

/-- What is read stands for what is laid out. -/
structure Stands (r : ReadDocument) (d : Dictionary) : Prop where
  sound : r.binder.Sound
  groups : r.binder.HasGroups d.groups
  components : List.Forall₂ r.binder.StandsComponent r.binder.components d.components
  messages : List.Forall₂ r.binder.StandsMessage r.messages d.messages
  header : List.Forall₂ r.binder.Stands r.header d.header
  trailer : List.Forall₂ r.binder.Stands r.trailer d.trailer

/-- What binding while reading comes to stands for what laying out the declarations comes to. -/
theorem stands_ofDeclarations (d : Declarations) : (ofDeclarations d).Stands (.ofDeclarations d) := by
  obtain ⟨-, hsound, hgroups, hcomponents⟩ := Binder.readComponents_stands d.components (b := ⟨[], [], [], []⟩)
    ⟨nofun, nofun, List.nodup_nil⟩ .nil .nil
  obtain ⟨hmessages, hms⟩ := Binder.readMessages_stands d.messages hsound hgroups
  obtain ⟨hheader, hhs⟩ := Binder.reads_members d.header hmessages.sound hmessages.groups
  obtain ⟨htrailer, hts⟩ := Binder.reads_members d.trailer hheader.sound hheader.groups
  have hlater := hheader.grows.trans htrailer.grows
  refine ⟨htrailer.sound, htrailer.groups, ?_, hms.imp fun _ _ => hlater.message, htrailer.grows.stands hhs, hts⟩
  have hsame := (hmessages.trans (hheader.trans htrailer)).components
  change List.Forall₂ _ (Binder.members _ _).1.components _
  rw [hsame]
  exact hcomponents.imp fun _ _ => (hmessages.grows.trans hlater).component

/-- The first note about a component that is not declared is about the first one that is mentioned. -/
theorem find?_pending (d : Declarations) :
    ((ofDeclarations d).binder.pending.find? fun p => ((ofDeclarations d).binder.find? p.2).isNone).map Prod.snd =
      d.unresolved? := by
  let declared : String → Bool := fun name => d.components.any fun c => c.name == name
  have hdeclared : ∀ c ∈ d.components, declared c.name = true := fun c hc =>
    List.any_eq_true.2 ⟨c, hc, beq_self_eq_true _⟩
  obtain ⟨hcomponents, hnames⟩ := Binder.undeclared_readComponents d.components (b := ⟨[], [], [], []⟩) nofun hdeclared
  have hknown : (Binder.readComponents ⟨[], [], [], []⟩ d.components).Declared declared := by
    intro c hc
    have hname := List.mem_map_of_mem (f := BoundComponent.name) hc
    rw [hnames] at hname
    obtain ⟨c', hc', hname⟩ := List.mem_map.1 hname
    exact hname ▸ hdeclared c' hc'
  have hmessages := Binder.notes_readMessages d.messages hknown
  have hheader := hmessages.trans (Binder.notes_members d.header (hmessages.keep_declared hknown))
  have hall := hheader.trans (Binder.notes_members d.trailer (hheader.keep_declared hknown))
  have hundeclared : (ofDeclarations d).binder.undeclared declared = d.mentions.filter fun name => !declared name := by
    refine hall.undeclared.trans ?_
    simp only [hcomponents, Declarations.mentions, List.filter_append, List.append_assoc]
    rfl
  have hfind (name : String) : ((ofDeclarations d).binder.find? name).isNone = !declared name := by
    have hsame : (ofDeclarations d).binder.components.map BoundComponent.name =
        d.components.map DeclaredComponent.name := (congrArg _ hall.components).trans hnames
    have hany : (ofDeclarations d).binder.components.any (fun c => c.name == name) = declared name := by
      have := congrArg (List.any · (· == name)) hsame
      rwa [List.any_map, List.any_map] at this
    rw [← hany, ← Option.not_isSome, Binder.find?, List.findIdx?_isSome]
  have hnote : (fun p : Nat × String => ((ofDeclarations d).binder.find? p.2).isNone) =
      (fun name => !declared name) ∘ Prod.snd := funext fun p => hfind p.2
  rw [hnote, ← List.find?_map, ← List.head?_filter]
  change ((ofDeclarations d).binder.undeclared declared).head? = _
  rw [hundeclared, List.head?_filter]
  rfl

end ReadDocument

/-- Names can be bound in one pass if all components that are mentioned are declared, and the outcome is the dictionary
with the declarations as they are. No entry is left open. -/
theorem Declarations.bind_eq (d : Declarations) : d.bind = match d.unresolved? with
    | some name => .error (.unresolved name)
    | none => .ok (Dictionary.ofDeclarations d) := by
  have hfirst := ReadDocument.find?_pending d
  have hstands := ReadDocument.stands_ofDeclarations d
  rw [bind]
  cases hpending : (ReadDocument.ofDeclarations d).binder.pending.find?
    fun p => ((ReadDocument.ofDeclarations d).binder.find? p.2).isNone with
  | some p =>
    rw [← hfirst, hpending, Binder.resolve_eq_error hpending]
    rfl
  | none =>
    obtain ⟨b, hok, hgrows, hsound, hp, hgroups, hcomponents⟩ := Binder.resolve_eq_ok hstands.sound rfl hpending
    rw [← hfirst, hpending, hok]
    dsimp only [Option.map_none]
    rw [Binder.firstOpen?_eq_none hsound hp, hgroups, hcomponents]
    dsimp only
    rw [map_eq_of_forall₂ (Binder.group_of_stands hp) (hstands.groups.imp fun _ _ => hgrows.group),
      map_eq_of_forall₂ (Binder.component_of_stands hp) (hstands.components.imp fun _ _ => hgrows.component),
      map_eq_of_forall₂ (Binder.message_of_stands hp) (hstands.messages.imp fun _ _ => hgrows.message),
      Binder.entriesAt_of_stands hp (hgrows.stands hstands.header),
      Binder.entriesAt_of_stands hp (hgrows.stands hstands.trailer)]
    rfl

end FixWire
