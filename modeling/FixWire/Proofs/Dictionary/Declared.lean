import FixWire.Proofs.Dictionary.Fields
import FixWire.Proofs.Dictionary.Reading
import FixWire.Proofs.Keys

/-!
# What a compiled dictionary points at

Whatever has to be unique in a document is looked up before it is read, so fields, components and messages that have
been read have different names, numbers and types (`Declarations.distinct_of_ofDocument`).

A group gets its number after the groups declared in it, so it points at smaller numbers only, and all components that
are mentioned are declared (`closed_ofDeclarations`). Splicing brings in no other numbers and no other names, so in a
compiled dictionary nothing points outside of it (`Dictionary.closed_of_compile`).
-/

namespace FixWire

/-! ## What has to be unique -/

theorem Field.name_settled (f : Field) : f.settled.name = f.name := by
  unfold settled
  split_ifs <;> rfl

/-- A field that is read has a new name and a new number. -/
theorem new_of_readField {known : List Field} {e : Xml.Element} {f : Field} (h : readField known e = .ok f) :
    f.name ∉ known.map Field.name ∧ f.number ∉ known.map Field.number := by
  obtain ⟨number, -, h⟩ := exists_of_bind h
  obtain ⟨name, -, h⟩ := exists_of_bind h
  obtain ⟨typeName, -, h⟩ := exists_of_bind h
  split at h
  · obtain ⟨values, -, h⟩ := exists_of_bind h
    dsimp only at h
    split_ifs at h with hname hnumber hnumber <;> cases h
    rw [Field.name_settled, Field.number_settled]
    exact ⟨notMem_map_of_any hname, notMem_map_of_any hnumber⟩
  · cases h

/-- No two declared fields have the same name or the same number. -/
theorem nodup_of_readFields : ∀ {es : List Xml.Element} {known fields : List Field},
    readFields known es = .ok fields → (known.map Field.name).Nodup → (known.map Field.number).Nodup →
      (fields.map Field.name).Nodup ∧ (fields.map Field.number).Nodup
  | [], known, fields, h, hnames, hnumbers => by
    cases h
    exact ⟨hnames, hnumbers⟩
  | e :: rest, known, fields, h, hnames, hnumbers => by
    obtain ⟨f, hf, h⟩ := exists_of_bind h
    obtain ⟨hname, hnumber⟩ := new_of_readField hf
    exact nodup_of_readFields h (nodup_map_concat hnames hname) (nodup_map_concat hnumbers hnumber)

/-- No two declared messages have the same type. -/
theorem nodup_of_readMessages {fields : List Field} : ∀ {es : List Xml.Element} {known ms : List DeclaredMessage},
    readMessages fields known es = .ok ms → (known.map DeclaredMessage.type).Nodup →
      (ms.map DeclaredMessage.type).Nodup
  | [], known, ms, h, hknown => by
    cases h
    exact hknown
  | e :: rest, known, ms, h, hknown => by
    obtain ⟨name, -, h⟩ := exists_of_bind h
    obtain ⟨type, -, h⟩ := exists_of_bind h
    obtain ⟨categoryName, -, h⟩ := exists_of_bind h
    split at h
    · dsimp only at h
      split_ifs at h with htype
      · cases h
      · obtain ⟨members, -, h⟩ := exists_of_bind h
        exact nodup_of_readMessages h (nodup_map_concat hknown (notMem_map_of_any htype))
    · cases h

/-- What has to be unique is unique. -/
structure Declarations.Distinct (d : Declarations) : Prop where
  names : (d.fields.map Field.name).Nodup
  numbers : (d.fields.map Field.number).Nodup
  components : (d.components.map DeclaredComponent.name).Nodup
  types : (d.messages.map DeclaredMessage.type).Nodup

/-- What is read from a document is distinct. -/
theorem Declarations.distinct_of_read {root : Xml.Element} {d : Declarations} (h : read root = .ok d) : d.Distinct := by
  obtain ⟨-, -, -, hfields, hcomponents, hmessages, -, -⟩ := read_eq_ok_iff.1 h
  obtain ⟨hnames, hnumbers⟩ := nodup_of_readFields hfields List.nodup_nil List.nodup_nil
  obtain ⟨-, -, -, hnodup⟩ := (readComponents_eq_ok_iff [] List.nodup_nil).1 hcomponents
  exact ⟨hnames, hnumbers, hnodup, nodup_of_readMessages hmessages List.nodup_nil⟩

/-- What a document declares has been read from its root, and all components that are mentioned are declared. -/
theorem Declarations.exists_read {text : String} {d : Declarations} (h : ofDocument text = .ok d) :
    ∃ root, read root = .ok d ∧ d.unresolved? = none := by
  obtain ⟨root, hroot⟩ := exists_ofRoot h
  rw [ofRoot_eq] at hroot
  obtain ⟨d', hread, hroot⟩ := exists_of_bind hroot
  cases hd : d'.unresolved? with
  | some name => simp [hd] at hroot
  | none =>
    simp only [hd, Except.ok.injEq] at hroot
    exact hroot ▸ ⟨root, hread, hd⟩

/-- So is what is read from the text of a document. -/
theorem Declarations.distinct_of_ofDocument {text : String} {d : Declarations} (h : ofDocument text = .ok d) :
    d.Distinct := by
  obtain ⟨root, hread, -⟩ := exists_read h
  exact distinct_of_read hread

/-! ## What is laid out -/

/-- The entry points at a field, at a group with a smaller number than the given one, or at a component with one of the
names. -/
def Entry.Known (bound : Nat) (names : List String) (e : Entry) : Prop :=
  match e.item with
  | .field _ => True
  | .group index => index < bound
  | .component name => name ∈ names

/-- What an entry points at stays known when groups are added. -/
theorem Entry.Known.mono {m n : Nat} {names : List String} {e : Entry} (h : e.Known m names) (hle : m ≤ n) :
    e.Known n names := by
  unfold Known at h ⊢
  split at h
  · trivial
  · exact Nat.lt_of_lt_of_le h hle
  · exact h

/-- Each group points at groups before it only, and at components with the names. -/
def Arranged (names : List String) (groups : List Group) : Prop :=
  ∀ (index : Nat) (g : Group), groups[index]? = some g → ∀ e ∈ g.entries, e.Known index names

/-- Groups have been added, and the entries point at groups that are there. -/
structure Arranges (names : List String) (groups groups' : List Group) (entries : List Entry) : Prop where
  length_le : groups.length ≤ groups'.length
  groups : Arranged names groups'
  entries : ∀ e ∈ entries, e.Known groups'.length names

/-- What has been laid out stays so when more is laid out after it. -/
theorem Arranges.later {names : List String} {groups groups' groups'' : List Group} {entries entries' : List Entry}
    (h : Arranges names groups groups' entries) (h' : Arranges names groups' groups'' entries') :
    Arranges names groups groups'' entries where
  length_le := Nat.le_trans h.length_le h'.length_le
  groups := h'.groups
  entries e he := (h.entries e he).mono h'.length_le

section LayOut

variable {names : List String}

mutual

/-- A declaration is laid out to groups and an entry that are arranged. -/
theorem Declaration.arranges_layOut : ∀ {d : Declaration} {groups : List Group}, Arranged names groups →
    (∀ name ∈ d.mentions, name ∈ names) → Arranges names groups (d.layOut groups).1 [(d.layOut groups).2]
  | .field required field, groups, hgroups, _ =>
    ⟨Nat.le_refl _, hgroups, List.forall_mem_singleton.2 trivial⟩
  | .component required name, groups, hgroups, hd =>
    ⟨Nat.le_refl _, hgroups, List.forall_mem_singleton.2 (hd name (List.mem_singleton_self name))⟩
  | .group required counter members, groups, hgroups, hd => by
    have hinner : Arranges names groups (layOut groups members).1 (layOut groups members).2 :=
      FixWire.arranges_layOut hgroups hd
    refine ⟨?_, fun index g hg => ?_, List.forall_mem_singleton.2 ?_⟩
    · exact Nat.le_trans hinner.length_le (List.length_append ▸ Nat.le_add_right _ _)
    · change ((layOut groups members).1 ++ [_])[index]? = some g at hg
      rw [List.getElem?_append] at hg
      split_ifs at hg with hlt
      · exact hinner.groups index g hg
      -- The group itself : what is in it has been laid out before.
      · obtain ⟨hlen, rfl⟩ := List.getElem?_eq_some_iff.1 hg
        rw [List.getElem_singleton]
        exact fun e he => (hinner.entries e he).mono (Nat.le_of_not_lt hlt)
    · exact List.length_append ▸ Nat.lt_succ_self _

/-- Entries are laid out after the groups declared in them. -/
theorem arranges_layOut : ∀ {ds : List Declaration} {groups : List Group}, Arranged names groups →
    (∀ name ∈ allMentions ds, name ∈ names) → Arranges names groups (layOut groups ds).1 (layOut groups ds).2
  | [], groups, hgroups, _ => ⟨Nat.le_refl _, hgroups, nofun⟩
  | d :: rest, groups, hgroups, hds => by
    rw [allMentions, List.forall_mem_append] at hds
    have hfirst := Declaration.arranges_layOut hgroups hds.1
    have hrest := arranges_layOut hfirst.groups hds.2
    have hentry := (hfirst.later hrest).entries _ (List.mem_singleton_self _)
    exact ⟨Nat.le_trans hfirst.length_le hrest.length_le, hrest.groups, List.forall_mem_cons.2 ⟨hentry, hrest.entries⟩⟩

end

/-- Declared components are laid out to what is arranged. -/
theorem arranges_layOutComponents : ∀ {cs : List DeclaredComponent} {groups : List Group}, Arranged names groups →
    (∀ name ∈ cs.flatMap (allMentions ·.members), name ∈ names) →
      Arranges names groups (layOutComponents groups cs).1 ((layOutComponents groups cs).2.flatMap Component.entries)
  | [], groups, hgroups, _ => ⟨Nat.le_refl _, hgroups, nofun⟩
  | c :: rest, groups, hgroups, hcs => by
    rw [List.flatMap_cons, List.forall_mem_append] at hcs
    have hfirst := arranges_layOut hgroups hcs.1
    have hrest := arranges_layOutComponents hfirst.groups hcs.2
    refine ⟨Nat.le_trans hfirst.length_le hrest.length_le, hrest.groups, ?_⟩
    rw [layOutComponents, List.flatMap_cons, List.forall_mem_append]
    exact ⟨(hfirst.later hrest).entries, hrest.entries⟩

/-- Declared messages are laid out to what is arranged. -/
theorem arranges_layOutMessages : ∀ {ms : List DeclaredMessage} {groups : List Group}, Arranged names groups →
    (∀ name ∈ ms.flatMap (allMentions ·.members), name ∈ names) →
      Arranges names groups (layOutMessages groups ms).1 ((layOutMessages groups ms).2.flatMap Message.entries)
  | [], groups, hgroups, _ => ⟨Nat.le_refl _, hgroups, nofun⟩
  | m :: rest, groups, hgroups, hms => by
    rw [List.flatMap_cons, List.forall_mem_append] at hms
    have hfirst := arranges_layOut hgroups hms.1
    have hrest := arranges_layOutMessages hfirst.groups hms.2
    refine ⟨Nat.le_trans hfirst.length_le hrest.length_le, hrest.groups, ?_⟩
    rw [layOutMessages, List.flatMap_cons, List.forall_mem_append]
    exact ⟨(hfirst.later hrest).entries, hrest.entries⟩

end LayOut

/-- Components keep their names when they are laid out. -/
theorem names_layOutComponents : ∀ (cs : List DeclaredComponent) (groups : List Group),
    (layOutComponents groups cs).2.map Component.name = cs.map DeclaredComponent.name
  | [], _ => rfl
  | c :: rest, groups => congrArg (c.name :: ·) (names_layOutComponents rest (layOut groups c.members).1)

/-- Messages keep their types when they are laid out. -/
theorem types_layOutMessages : ∀ (ms : List DeclaredMessage) (groups : List Group),
    (layOutMessages groups ms).2.map Message.type = ms.map DeclaredMessage.type
  | [], _ => rfl
  | m :: rest, groups => congrArg (m.type :: ·) (types_layOutMessages rest (layOut groups m.members).1)

/-- The components that are laid out have different names. -/
theorem Declarations.Distinct.names_ofDeclarations {d : Declarations} (h : d.Distinct) :
    ((Dictionary.ofDeclarations d).components.map Component.name).Nodup := by
  change ((layOutComponents [] d.components).2.map Component.name).Nodup
  rw [names_layOutComponents]
  exact h.components

/-- The messages that are laid out have different types. -/
theorem Declarations.Distinct.types_ofDeclarations {d : Declarations} (h : d.Distinct) :
    ((Dictionary.ofDeclarations d).messages.map Message.type).Nodup := by
  change ((layOutMessages _ d.messages).2.map Message.type).Nodup
  rw [types_layOutMessages]
  exact h.types

namespace Dictionary

/-! ## Dictionaries that are closed -/

/-- Whatever an entry points at is in the dictionary. -/
def Closed (d : Dictionary) : Prop :=
  ∀ h, ∀ e ∈ d.entriesOf h, e.Known d.groups.length (d.components.map Component.name)

variable {d : Dictionary} {h : Holder} {e : Entry}

/-- A group that an entry points at is there. -/
theorem Closed.exists_group (hd : d.Closed) (he : e ∈ d.entriesOf h) {index : Nat} (hi : e.item = .group index) :
    ∃ g, d.groups[index]? = some g := by
  have hknown := hd h e he
  rw [Entry.Known, hi] at hknown
  exact ⟨_, List.getElem?_eq_getElem hknown⟩

/-- A component is found if it has one of the names. -/
theorem exists_component?_iff {name : String} :
    (∃ c, d.component? name = some c) ↔ name ∈ d.components.map Component.name := by
  rw [← Option.isSome_iff_exists, component?, List.find?_isSome]
  simp

/-- A component that an entry points at is there. -/
theorem Closed.exists_component (hd : d.Closed) (he : e ∈ d.entriesOf h) {name : String} (hi : e.item = .component name) :
    ∃ c, d.component? name = some c := by
  have hknown := hd h e he
  rw [Entry.Known, hi] at hknown
  exact exists_component?_iff.2 hknown

/-- What a holder holds is held in one of the lists of the dictionary. -/
theorem forall_entriesOf {p : Entry → Prop}
    (hgroups : ∀ (index : Nat) (g : Group), d.groups[index]? = some g → ∀ e ∈ g.entries, p e)
    (hcomponents : ∀ e ∈ d.components.flatMap Component.entries, p e)
    (hmessages : ∀ e ∈ d.messages.flatMap Message.entries, p e) (hheader : ∀ e ∈ d.header, p e)
    (htrailer : ∀ e ∈ d.trailer, p e) (h : Holder) : ∀ e ∈ d.entriesOf h, p e := by
  intro e he
  cases h with
  | header => exact hheader e he
  | trailer => exact htrailer e he
  | message index =>
    cases hm : d.messages[index]? with
    | none => simp [entriesOf, hm] at he
    | some m => exact hmessages e (List.mem_flatMap.2 ⟨m, List.mem_of_getElem? hm, by simpa [entriesOf, hm] using he⟩)
  | group index =>
    cases hg : d.groups[index]? with
    | none => simp [entriesOf, hg] at he
    | some g => exact hgroups index g hg e (by simpa [entriesOf, hg] using he)
  | component name =>
    cases hc : d.component? name with
    | none => simp [entriesOf, hc] at he
    | some c =>
      exact hcomponents e (List.mem_flatMap.2 ⟨c, List.mem_of_find?_eq_some hc, by simpa [entriesOf, hc] using he⟩)

/-- Each group points at groups before it only. -/
theorem arranged_ofDeclarations {d : Declarations} (h : d.unresolved? = none) :
    Arranged ((ofDeclarations d).components.map Component.name) (ofDeclarations d).groups ∧
      (ofDeclarations d).Closed := by
  have hmentions := Declarations.unresolved?_eq_none_iff.1 h
  rw [← names_layOutComponents d.components []] at hmentions
  simp only [Declarations.mentions, List.forall_mem_append] at hmentions
  obtain ⟨⟨⟨hcs, hms⟩, hhs⟩, hts⟩ := hmentions
  have hcomponents : Arranges _ [] _ _ := arranges_layOutComponents nofun hcs
  have hmessages := arranges_layOutMessages hcomponents.groups hms
  have hheader := arranges_layOut hmessages.groups hhs
  have htrailer := arranges_layOut hheader.groups hts
  refine ⟨htrailer.groups, forall_entriesOf (fun index g hg e he => ?_)
    (((hcomponents.later hmessages).later hheader).later htrailer).entries ((hmessages.later hheader).later htrailer).entries
    (hheader.later htrailer).entries htrailer.entries⟩
  exact (htrailer.groups index g hg e he).mono (Nat.le_of_lt (List.getElem?_eq_some_iff.1 hg).1)

/-- Splicing keeps the names of components. -/
theorem names_splice (d : Dictionary) :
    d.splice.components.map Component.name = d.components.map Component.name := by
  simp [splice, mapEntries]

theorem names_repeat_splice (d : Dictionary) (k : Nat) :
    (k.repeat splice d).components.map Component.name = d.components.map Component.name :=
  repeat_splice_induction (P := fun d' => d'.components.map Component.name = d.components.map Component.name) rfl
    (fun d' h => (names_splice d').trans h) k

/-- Splicing brings in no other groups and no other components. -/
theorem Closed.splice (hd : d.Closed) : d.splice.Closed := by
  intro h e' he'
  have hgroups : d.splice.groups.length = d.groups.length := by
    simp [Dictionary.splice, mapEntries]
  rw [hgroups, names_splice]
  rw [entriesOf_splice] at he'
  obtain ⟨e, he, rfl⟩ := List.mem_map.1 he'
  cases hi : e.item with
  | component name =>
    cases hg : d.groupOf? name with
    | none =>
      rw [redirect_of_none hi hg]
      exact hd h e he
    | some index =>
      obtain ⟨required, hentries⟩ := entriesOf_of_groupOf? hg
      rw [redirect_of_groupOf? hi hg]
      exact hd (.component name) ⟨required, .group index⟩ (by rw [hentries]; exact List.mem_singleton_self _)
  | _ =>
    rw [redirect_of_ne (by simp [hi])]
    exact hd h e he

/-- Splicing keeps a dictionary closed. -/
theorem Closed.repeat_splice (hd : d.Closed) (k : Nat) : (k.repeat Dictionary.splice d).Closed :=
  repeat_splice_induction hd (fun _ h => h.splice) k

/-- A compiled dictionary is made of the declarations of its document, which mention declared components only. -/
theorem exists_ofDocument {text : String} {d : Dictionary} (h : compile text = .ok d) :
    ∃ declared, Declarations.ofDocument text = .ok declared ∧ declared.unresolved? = none ∧
      (ofDeclarations declared).normalize = d := by
  obtain ⟨declared, hdeclared, h⟩ := exists_of_bind h
  cases h
  obtain ⟨-, -, hresolved⟩ := Declarations.exists_read hdeclared
  exact ⟨declared, hdeclared, hresolved, rfl⟩

/-- In a compiled dictionary nothing points outside of it. -/
theorem closed_of_compile {text : String} (h : compile text = .ok d) : d.Closed := by
  obtain ⟨declared, -, hresolved, rfl⟩ := exists_ofDocument h
  exact (arranged_ofDeclarations hresolved).2.repeat_splice _

end Dictionary

/-! ## Samples -/

namespace Sample

theorem compile_document : Dictionary.compile document = .ok dictionary := by
  obtain ⟨d, hd, -, -, hcodecs⟩ := Codecs.ofDocument_eq_ok_iff.1 ofDocument_document
  cases hcodecs
  exact hd

/-- A document in which one component stands for another, which stands for a group, and two components are inside each
other. -/
def winding : String :=
  "<fix major='4' minor='4'>
    <fields>
      <field number='35' name='MsgType' type='STRING'/>
      <field number='58' name='Text' type='STRING'/>
      <field number='448' name='PartyID' type='STRING'/>
      <field number='453' name='NoPartyIDs' type='NUMINGROUP'/>
    </fields>
    <header><field name='MsgType' required='Y'/></header>
    <trailer/>
    <components>
      <component name='Parties'><component name='PartyGroup' required='Y'/></component>
      <component name='PartyGroup'>
        <group name='NoPartyIDs'><field name='PartyID'/><component name='Ping'/></group>
      </component>
      <component name='Ping'><field name='Text'/><component name='Pong'/></component>
      <component name='Pong'><component name='Ping'/></component>
    </components>
    <messages>
      <message name='Heartbeat' msgtype='0' msgcat='admin'><component name='Parties' required='Y'/></message>
    </messages>
  </fix>"

/-- Its dictionary. -/
def windingDictionary : Dictionary where
  major := 4
  minor := 4
  fields := [⟨35, "MsgType", .string, []⟩, ⟨58, "Text", .string, []⟩, ⟨448, "PartyID", .string, []⟩,
    ⟨453, "NoPartyIDs", .numInGroup, []⟩]
  groups := [⟨"PartyIDs", ⟨453, "NoPartyIDs", .numInGroup, []⟩,
    [⟨false, .field ⟨448, "PartyID", .string, []⟩⟩, ⟨false, .component "Ping"⟩]⟩]
  components := [⟨"Parties", [⟨true, .group 0⟩]⟩, ⟨"PartyGroup", [⟨false, .group 0⟩]⟩,
    ⟨"Ping", [⟨false, .field ⟨58, "Text", .string, []⟩⟩, ⟨false, .component "Pong"⟩]⟩,
    ⟨"Pong", [⟨false, .component "Ping"⟩]⟩]
  spliced := ["PartyGroup", "Parties"]
  messages := [⟨"Heartbeat", "0", .admin, [⟨true, .group 0⟩]⟩]
  header := [⟨true, .field ⟨35, "MsgType", .string, []⟩⟩]
  trailer := []

set_option maxRecDepth 8000 in
theorem compile_winding : Dictionary.compile winding = .ok windingDictionary :=
  Dictionary.compile_ofList (by decide +kernel)

end Sample

end FixWire
