import FixWire.Proofs.Dictionary.Documents
import FixWire.Proofs.Dictionary.Members

/-!
# Fields of a compiled dictionary

An aggregate can mention declared fields only, and what is done to the declarations afterwards, laying them out and
splicing components out, brings in no other field. So the fields that a compiled dictionary uses are its own
(`mem_fields_of_uses`), and their numbers, read from the document, have at most 32 bits (`lt_tagLimit_of_compile`).
-/

namespace FixWire

/-! ## Declared fields -/

/-- A number that is read from a document is below the limit of tags. -/
theorem lt_tagLimit_of_unsigned? {cs : List Char} {n : Nat} (h : unsigned? cs = some n) : n < tagLimit := by
  unfold unsigned? at h
  dsimp only at h
  split_ifs at h with hd
  exact Option.some.inj h ▸ hd.2.2

/-- So is a required number. -/
theorem lt_tagLimit_of_requireNumber {e : Xml.Element} {name : String} {n : Nat} (h : e.requireNumber name = .ok n) :
    n < tagLimit := by
  obtain ⟨value, -, h⟩ := exists_of_bind h
  split at h
  · rename_i hn
    cases h
    exact lt_tagLimit_of_unsigned? hn
  · cases h

theorem Field.number_settled (f : Field) : f.settled.number = f.number := by
  unfold settled
  split_ifs <;> rfl

/-- A declared field has a number below the limit. -/
theorem lt_tagLimit_of_readField {known : List Field} {e : Xml.Element} {f : Field} (h : readField known e = .ok f) :
    f.number < tagLimit := by
  obtain ⟨number, hnumber, h⟩ := exists_of_bind h
  obtain ⟨name, -, h⟩ := exists_of_bind h
  obtain ⟨typeName, -, h⟩ := exists_of_bind h
  split at h
  · obtain ⟨values, -, h⟩ := exists_of_bind h
    dsimp only at h
    split_ifs at h <;> cases h
    rw [Field.number_settled]
    exact lt_tagLimit_of_requireNumber hnumber
  · cases h

/-- So have all declared fields. -/
theorem lt_tagLimit_of_readFields : ∀ {es : List Xml.Element} {known fields : List Field},
    readFields known es = .ok fields → (∀ f ∈ known, f.number < tagLimit) → ∀ f ∈ fields, f.number < tagLimit
  | [], known, fields, h, hknown => by
    cases h
    exact hknown
  | e :: rest, known, fields, h, hknown => by
    obtain ⟨field, hfield, h⟩ := exists_of_bind h
    refine lt_tagLimit_of_readFields h fun f hf => ?_
    rcases List.mem_append.1 hf with hf | hf
    · exact hknown f hf
    · exact List.mem_singleton.1 hf ▸ lt_tagLimit_of_readField hfield

/-! ## Mentioned fields -/

mutual

/-- The fields mentioned in a declared entry. -/
def Declaration.fields : Declaration → List Field
  | .field _ field => [field]
  | .group _ counter members => counter :: allFields members
  | .component _ _ => []

/-- The fields mentioned in some declared entries. -/
def allFields : List Declaration → List Field
  | [] => []
  | d :: rest => d.fields ++ allFields rest

end

/-- The fields of declarations are those of each. -/
theorem allFields_append : ∀ ds ds' : List Declaration, allFields (ds ++ ds') = allFields ds ++ allFields ds'
  | [], _ => rfl
  | d :: rest, ds' => by
    rw [List.cons_append, allFields, allFields, allFields_append rest, List.append_assoc]

/-- A mentioned field is a declared one. -/
theorem mem_of_mentionedField {fields : List Field} {name context : String} {f : Field}
    (h : mentionedField fields name context = .ok f) : f ∈ fields := by
  unfold mentionedField at h
  split at h
  · rename_i hf
    cases h
    exact List.mem_of_find?_eq_some hf
  · cases h

mutual

/-- The fields in a member are declared ones. -/
theorem mem_of_readMember {fields : List Field} {context : String} :
    ∀ {e : Xml.Element} {member : Option Declaration}, readMember fields context e = .ok member →
      ∀ f ∈ allFields member.toList, f ∈ fields
  | ⟨kind, attributes, children⟩, member, h => by
    rw [readMember] at h
    split_ifs at h
    · cases h
      simp [allFields]
    all_goals
      obtain ⟨name, -, h⟩ := exists_of_bind h
      dsimp only at h
      split_ifs at h
      · cases h
        simp [allFields]
    · obtain ⟨f, hf, h⟩ := exists_of_bind h
      cases h
      simpa [allFields, Declaration.fields] using mem_of_mentionedField hf
    · obtain ⟨counter, hcounter, h⟩ := exists_of_bind h
      obtain ⟨members, hmembers, h⟩ := exists_of_bind h
      cases h
      intro f hf
      rw [Option.toList_some, allFields, allFields, List.append_nil, Declaration.fields, List.mem_cons] at hf
      rcases hf with rfl | hf
      · exact mem_of_mentionedField hcounter
      · exact mem_of_readMembers hmembers f hf
    · cases h
      simp [allFields, Declaration.fields]

/-- Declared entries mention declared fields only. -/
theorem mem_of_readMembers {fields : List Field} {context : String} :
    ∀ {es : List Xml.Element} {members : List Declaration}, readMembers fields context es = .ok members →
      ∀ f ∈ allFields members, f ∈ fields
  | [], members, h => by
    cases h
    simp [allFields]
  | e :: rest, members, h => by
    obtain ⟨member, hmember, h⟩ := exists_of_bind h
    obtain ⟨others, hothers, h⟩ := exists_of_bind h
    cases h
    intro f hf
    rw [allFields_append, List.mem_append] at hf
    exact hf.elim (mem_of_readMember hmember f) (mem_of_readMembers hothers f)

end

/-- The fields in components are declared ones. -/
theorem mem_of_readComponents {fields : List Field} : ∀ {es : List Xml.Element} {known cs : List DeclaredComponent},
    readComponents fields known es = .ok cs → (∀ c ∈ known, ∀ f ∈ allFields c.members, f ∈ fields) →
      ∀ c ∈ cs, ∀ f ∈ allFields c.members, f ∈ fields
  | [], known, cs, h, hknown => by
    cases h
    exact hknown
  | e :: rest, known, cs, h, hknown => by
    obtain ⟨name, -, h⟩ := exists_of_bind h
    dsimp only at h
    split_ifs at h
    · cases h
    · obtain ⟨members, hmembers, h⟩ := exists_of_bind h
      refine mem_of_readComponents h fun c hc => ?_
      rcases List.mem_append.1 hc with hc | hc
      · exact hknown c hc
      · rw [List.mem_singleton.1 hc]
        exact mem_of_readMembers hmembers

/-- The fields in messages are declared ones. -/
theorem mem_of_readMessages {fields : List Field} : ∀ {es : List Xml.Element} {known ms : List DeclaredMessage},
    readMessages fields known es = .ok ms → (∀ m ∈ known, ∀ f ∈ allFields m.members, f ∈ fields) →
      ∀ m ∈ ms, ∀ f ∈ allFields m.members, f ∈ fields
  | [], known, ms, h, hknown => by
    cases h
    exact hknown
  | e :: rest, known, ms, h, hknown => by
    obtain ⟨name, -, h⟩ := exists_of_bind h
    obtain ⟨type, -, h⟩ := exists_of_bind h
    obtain ⟨categoryName, -, h⟩ := exists_of_bind h
    split at h
    · dsimp only at h
      split_ifs at h
      · cases h
      · obtain ⟨members, hmembers, h⟩ := exists_of_bind h
        refine mem_of_readMessages h fun m hm => ?_
        rcases List.mem_append.1 hm with hm | hm
        · exact hknown m hm
        · rw [List.mem_singleton.1 hm]
          exact mem_of_readMembers hmembers
    · cases h

/-- The fields in the header and in the trailer are declared ones. -/
theorem mem_of_readPart {fields : List Field} {context : String} {e : Option Xml.Element} {members : List Declaration}
    (h : readPart fields context e = .ok members) : ∀ f ∈ allFields members, f ∈ fields := by
  unfold readPart at h
  split at h
  · exact mem_of_readMembers h
  · cases h
    simp [allFields]

/-! ## Laid out fields -/

/-- All fields that the entries point at are among the given ones. -/
def Entry.Within (fields : List Field) (e : Entry) : Prop :=
  ∀ f, e.item = .field f → f ∈ fields

/-- All fields of the groups are among the given ones. -/
def GroupsWithin (fields : List Field) (groups : List Group) : Prop :=
  ∀ g ∈ groups, g.counter ∈ fields ∧ ∀ e ∈ g.entries, e.Within fields

section LayOut

variable {fields : List Field}

mutual

/-- A declaration is laid out to entries with its own fields. -/
theorem Declaration.within_layOut : ∀ {d : Declaration} {groups : List Group}, GroupsWithin fields groups →
    (∀ f ∈ d.fields, f ∈ fields) → GroupsWithin fields (d.layOut groups).1 ∧ (d.layOut groups).2.Within fields
  | .field required field, groups, hgroups, hd => by
    refine ⟨hgroups, fun f hf => hd f ?_⟩
    cases hf
    exact List.mem_singleton_self _
  | .component required name, groups, hgroups, _ => ⟨hgroups, fun f hf => nomatch hf⟩
  | .group required counter members, groups, hgroups, hd => by
    rw [Declaration.fields, List.forall_mem_cons] at hd
    obtain ⟨hinner, hentries⟩ := FixWire.within_layOut hgroups hd.2
    refine ⟨fun g hg => ?_, fun f hf => nomatch hf⟩
    rcases List.mem_append.1 hg with hg | hg
    · exact hinner g hg
    · obtain rfl := List.mem_singleton.1 hg
      exact ⟨hd.1, hentries⟩

/-- Laying declared entries out brings in no other fields. -/
theorem within_layOut : ∀ {ds : List Declaration} {groups : List Group}, GroupsWithin fields groups →
    (∀ f ∈ allFields ds, f ∈ fields) →
      GroupsWithin fields (layOut groups ds).1 ∧ ∀ e ∈ (layOut groups ds).2, e.Within fields
  | [], groups, hgroups, _ => ⟨hgroups, nofun⟩
  | d :: rest, groups, hgroups, hds => by
    rw [allFields, List.forall_mem_append] at hds
    obtain ⟨hfirst, hentry⟩ := Declaration.within_layOut hgroups hds.1
    obtain ⟨hrest, hentries⟩ := within_layOut hfirst hds.2
    exact ⟨hrest, List.forall_mem_cons.2 ⟨hentry, hentries⟩⟩

end

/-- Components are laid out to entries with their own fields. -/
theorem within_layOutComponents : ∀ {cs : List DeclaredComponent} {groups : List Group}, GroupsWithin fields groups →
    (∀ c ∈ cs, ∀ f ∈ allFields c.members, f ∈ fields) →
      GroupsWithin fields (layOutComponents groups cs).1 ∧
        ∀ c ∈ (layOutComponents groups cs).2, ∀ e ∈ c.entries, e.Within fields
  | [], groups, hgroups, _ => ⟨hgroups, nofun⟩
  | c :: rest, groups, hgroups, hcs => by
    rw [List.forall_mem_cons] at hcs
    obtain ⟨hfirst, hentries⟩ := within_layOut hgroups hcs.1
    obtain ⟨hrest, hothers⟩ := within_layOutComponents hfirst hcs.2
    exact ⟨hrest, List.forall_mem_cons.2 ⟨hentries, hothers⟩⟩

/-- Messages are laid out to entries with their own fields. -/
theorem within_layOutMessages : ∀ {ms : List DeclaredMessage} {groups : List Group}, GroupsWithin fields groups →
    (∀ m ∈ ms, ∀ f ∈ allFields m.members, f ∈ fields) →
      GroupsWithin fields (layOutMessages groups ms).1 ∧
        ∀ m ∈ (layOutMessages groups ms).2, ∀ e ∈ m.entries, e.Within fields
  | [], groups, hgroups, _ => ⟨hgroups, nofun⟩
  | m :: rest, groups, hgroups, hms => by
    rw [List.forall_mem_cons] at hms
    obtain ⟨hfirst, hentries⟩ := within_layOut hgroups hms.1
    obtain ⟨hrest, hothers⟩ := within_layOutMessages hfirst hms.2
    exact ⟨hrest, List.forall_mem_cons.2 ⟨hentries, hothers⟩⟩

end LayOut

/-! ## Compiled dictionaries -/

/-- A document that has declarations has a root. -/
theorem Declarations.exists_ofRoot {text : String} {d : Declarations} (h : ofDocument text = .ok d) :
    ∃ root, ofRoot root = .ok d := by
  unfold ofDocument at h
  split at h
  · cases h
  · cases h
  · exact ⟨_, h⟩

namespace Dictionary

/-- All fields that the dictionary uses are among the given ones. -/
structure Within (fields : List Field) (d : Dictionary) : Prop where
  groups : GroupsWithin fields d.groups
  entries : ∀ h, ∀ e ∈ d.entriesOf h, e.Within fields

/-- A dictionary has only declared fields if its parts have. -/
theorem within_of_parts {fields : List Field} {d : Dictionary} (hg : GroupsWithin fields d.groups)
    (hc : ∀ c ∈ d.components, ∀ e ∈ c.entries, e.Within fields)
    (hm : ∀ m ∈ d.messages, ∀ e ∈ m.entries, e.Within fields) (hh : ∀ e ∈ d.header, e.Within fields)
    (ht : ∀ e ∈ d.trailer, e.Within fields) : d.Within fields := by
  refine ⟨hg, fun h e he => ?_⟩
  cases h with
  | header => exact hh e he
  | trailer => exact ht e he
  | message index =>
    rw [entriesOf] at he
    cases hi : d.messages[index]? with
    | none => simp [hi] at he
    | some m => exact hm m (List.mem_of_getElem? hi) e (by simpa [hi] using he)
  | group index =>
    rw [entriesOf] at he
    cases hi : d.groups[index]? with
    | none => simp [hi] at he
    | some g => exact (hg g (List.mem_of_getElem? hi)).2 e (by simpa [hi] using he)
  | component name =>
    rw [entriesOf] at he
    cases hi : d.component? name with
    | none => simp [hi] at he
    | some c => exact hc c (List.mem_of_find?_eq_some hi) e (by simpa [hi] using he)

/-- A dictionary of declarations has only declared fields. -/
theorem within_ofDeclarations {d : Declarations}
    (hc : ∀ c ∈ d.components, ∀ f ∈ allFields c.members, f ∈ d.fields)
    (hm : ∀ m ∈ d.messages, ∀ f ∈ allFields m.members, f ∈ d.fields)
    (hh : ∀ f ∈ allFields d.header, f ∈ d.fields) (ht : ∀ f ∈ allFields d.trailer, f ∈ d.fields) :
    (ofDeclarations d).Within d.fields := by
  obtain ⟨hgroups, hcomponents⟩ := within_layOutComponents (fun g hg => absurd hg List.not_mem_nil) hc
  obtain ⟨hgroups, hmessages⟩ := within_layOutMessages hgroups hm
  obtain ⟨hgroups, hheader⟩ := within_layOut hgroups hh
  obtain ⟨hgroups, htrailer⟩ := within_layOut hgroups ht
  exact within_of_parts hgroups hcomponents hmessages hheader htrailer

/-- Redirecting an entry adds no field. -/
theorem within_redirect {fields : List Field} {e : Entry} (d : Dictionary) (h : e.Within fields) :
    (d.redirect e).Within fields := by
  intro f hf
  cases hi : e.item with
  | component name =>
    cases hg : d.groupOf? name with
    | none =>
      rw [redirect_of_none hi hg] at hf
      exact h f hf
    | some index =>
      rw [redirect_of_groupOf? hi hg] at hf
      cases hf
  | _ =>
    rw [redirect_of_ne (by simp [hi])] at hf
    exact h f hf

/-- Splicing brings in no other fields. -/
theorem Within.splice {fields : List Field} {d : Dictionary} (h : d.Within fields) : d.splice.Within fields := by
  refine ⟨fun g hg => ?_, fun holder e he => ?_⟩
  · obtain ⟨g', hg', rfl⟩ := List.mem_map.1 hg
    refine ⟨(h.groups g' hg').1, fun e he => ?_⟩
    obtain ⟨e', he', rfl⟩ := List.mem_map.1 he
    exact within_redirect d ((h.groups g' hg').2 e' he')
  · rw [entriesOf_splice] at he
    obtain ⟨e', he', rfl⟩ := List.mem_map.1 he
    exact within_redirect d (h.entries holder e' he')

/-- Splicing adds no field. -/
theorem Within.repeat_splice {fields : List Field} {d : Dictionary} (h : d.Within fields) : ∀ k : Nat,
    (k.repeat Dictionary.splice d).Within fields
  | 0 => h
  | k + 1 => (h.repeat_splice k).splice

/-- Splicing leaves the declared fields as they are. -/
theorem fields_repeat_splice (d : Dictionary) : ∀ k : Nat, (k.repeat splice d).fields = d.fields
  | 0 => rfl
  | k + 1 => fields_repeat_splice d k

/-- Declarations that have been read mention declared fields only. -/
theorem within_ofRoot {root : Xml.Element} {d : Declarations} (h : Declarations.ofRoot root = .ok d) :
    (ofDeclarations d).Within d.fields ∧ ∀ f ∈ d.fields, f.number < tagLimit := by
  unfold Declarations.ofRoot at h
  dsimp only at h
  split_ifs at h
  · cases h
  · obtain ⟨major, -, h⟩ := exists_of_bind h
    obtain ⟨minor, -, h⟩ := exists_of_bind h
    obtain ⟨fields, hfields, h⟩ := exists_of_bind h
    obtain ⟨components, hcomponents, h⟩ := exists_of_bind h
    obtain ⟨messages, hmessages, h⟩ := exists_of_bind h
    obtain ⟨header, hheader, h⟩ := exists_of_bind h
    obtain ⟨trailer, htrailer, h⟩ := exists_of_bind h
    split at h
    · cases h
    · cases h
      exact ⟨within_ofDeclarations (mem_of_readComponents hcomponents nofun) (mem_of_readMessages hmessages nofun)
        (mem_of_readPart hheader) (mem_of_readPart htrailer), lt_tagLimit_of_readFields hfields nofun⟩

/-- A compiled dictionary uses its own fields only. -/
theorem mem_fields_of_uses {text : String} {d : Dictionary} (h : compile text = .ok d) {f : Field} (hf : d.Uses f) :
    f ∈ d.fields := by
  obtain ⟨declared, hdeclared, h⟩ := exists_of_bind h
  cases h
  obtain ⟨root, hroot⟩ := Declarations.exists_ofRoot hdeclared
  have hwithin := (within_ofRoot hroot).1.repeat_splice (ofDeclarations declared).components.length
  rw [normalize, fields_repeat_splice]
  rcases hf with ⟨holder, e, he, hi⟩ | ⟨g, hg, rfl⟩
  · exact hwithin.entries holder e he f hi
  · exact (hwithin.groups g hg).1

/-- The numbers of declared fields have at most 32 bits. -/
theorem lt_tagLimit_of_compile {text : String} {d : Dictionary} (h : compile text = .ok d) {f : Field}
    (hf : f ∈ d.fields) : f.number < tagLimit := by
  obtain ⟨declared, hdeclared, h⟩ := exists_of_bind h
  cases h
  obtain ⟨root, hroot⟩ := Declarations.exists_ofRoot hdeclared
  rw [normalize, fields_repeat_splice] at hf
  exact (within_ofRoot hroot).2 f hf

/-- The layouts of messages are those of aggregates of the dictionary. -/
theorem eq_layoutOf_of_mem {d : Dictionary} {l : MessageLayout} (h : l ∈ d.messageLayouts) (part : Part) :
    ∃ holder : Holder, holder.isAggregate = true ∧ l.part part = d.layoutOf holder := by
  rw [messageLayouts, List.mem_mapIdx] at h
  obtain ⟨index, -, rfl⟩ := h
  cases part with
  | header => exact ⟨.header, rfl, rfl⟩
  | body => exact ⟨.message index, rfl, rfl⟩
  | trailer => exact ⟨.trailer, rfl, rfl⟩

end Dictionary

/-! ## Layouts of codecs -/

/-- The members of each part are sound and have different tags. -/
structure MessageLayout.Sound (l : MessageLayout) : Prop where
  members : ∀ part, ∀ m ∈ (l.part part).members, m.Sound
  nodup : ∀ part, ((l.part part).members.map Member.tag).Nodup

namespace Codecs

/-- A layout that is asked for is one of the codecs. -/
theorem mem_of_require {c : Codecs} {type : Bytes} {l : MessageLayout} (h : c.require type = .ok l) :
    l ∈ c.messages :=
  List.mem_of_find?_eq_some (require_eq_ok_iff.1 h).1

/-- Codecs are made for sound layouts only. -/
theorem sound_of_require {text : String} {validating : Bool} {c : Codecs} {type : Bytes} {l : MessageLayout}
    (h : ofDocument text validating = .ok c) (hl : c.require type = .ok l) : l.Sound := by
  obtain ⟨d, hd, hfault, -, rfl⟩ := ofDocument_eq_ok_iff.1 h
  rw [Dictionary.fault?, Option.or_eq_none_iff, Option.or_eq_none_iff, Option.map_eq_none_iff] at hfault
  obtain ⟨-, hdelimiter, hcycle⟩ := hfault
  have hacyclic := Dictionary.acyclic_of_cycle? hcycle
  have htags : ∀ f, d.Uses f → f.number < tagLimit := fun f hf =>
    Dictionary.lt_tagLimit_of_compile hd (Dictionary.mem_fields_of_uses hd hf)
  refine ⟨fun part => ?_, fun part => ?_⟩ <;>
    obtain ⟨holder, hh, hpart⟩ := Dictionary.eq_layoutOf_of_mem (mem_of_require hl) part
  · exact hpart ▸ Dictionary.sound_layoutOf hacyclic hdelimiter htags hh
  · exact hpart ▸ Dictionary.nodup_layoutOf hacyclic holder

end Codecs

end FixWire
