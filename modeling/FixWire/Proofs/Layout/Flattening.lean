import FixWire.Proofs.Dictionary.Renumber
import FixWire.Proofs.Layout.Indexed

/-!
# Layouts as flattened aggregates

`Dictionary.Walk` tells which members the entries of an aggregate lead to, without a bound and without tables : a
component is walked in its place, what is in it is required only if the component is, and a group has as its body the
members that its own entries lead to, the first of which gives the delimiter. Of several members with one tag `firsts`
keeps the first.

In a compiled dictionary without faults there is one walk through every holder, its layout is made of the members that
are kept, and the tables of the layout agree with each other (`layoutOf_exact`). The bounds of the walk that makes the
layout and of the search for the delimiter are not reached, and every group has a delimiter (`leadsTo_delimiter?`).
-/

namespace FixWire

/-- Of several members with one tag, the first. -/
def firsts : List Member → List Member
  | [] => []
  | m :: rest => m :: (firsts rest).filter fun m' => m'.tag ≠ m.tag

theorem firsts_subset (ms : List Member) : firsts ms ⊆ ms := by
  induction ms with
  | nil => exact List.Subset.refl _
  | cons m rest ih => exact List.cons_subset_cons m (List.Subset.trans List.filter_sublist.subset ih)

theorem nodup_firsts (ms : List Member) : ((firsts ms).map Member.tag).Nodup := by
  induction ms with
  | nil => exact List.nodup_nil
  | cons m rest ih =>
    refine List.nodup_cons.2 ⟨fun hm => ?_, ih.sublist (List.filter_sublist.map _)⟩
    obtain ⟨m', hm', htag⟩ := List.mem_map.1 hm
    exact absurd htag (by simpa using List.of_mem_filter hm')

/-- Adding members one by one leaves out those whose tag is there already. -/
theorem foldl_addMember_eq : ∀ ms members : List Member,
    ms.foldl addMember members = members ++ (firsts ms).filter fun m => !owns members m.tag
  | [], members => by
    rw [firsts, List.filter_nil, List.append_nil, List.foldl_nil]
  | m :: rest, members => by
    rw [List.foldl_cons, foldl_addMember_eq rest, addMember, firsts, List.filter_cons]
    by_cases hm : owns members m.tag = true
    · simp only [hm, if_true, Bool.not_true, if_false, Bool.false_eq_true, List.filter_filter]
      refine congrArg (members ++ ·) (List.filter_congr fun m' _ => ?_)
      by_cases htag : m'.tag = m.tag
      · simp [htag, hm]
      · simp [htag]
    · simp only [Bool.not_eq_true] at hm
      simp only [hm, if_false, Bool.false_eq_true, Bool.not_false, if_true, List.filter_filter, List.append_assoc,
        List.singleton_append]
      refine congrArg (members ++ m :: ·) (List.filter_congr fun m' _ => ?_)
      simp [owns, eq_comm, Bool.beq_eq_decide_eq]

namespace Dictionary

/-! ## Walks -/

/-- The entries lead to the members, one after the other. `required` tells whether they have been reached through
required components only. -/
inductive Walk (d : Dictionary) : Bool → List Entry → List Member → Prop
  /-- There are no entries left. -/
  | nil {required : Bool} : Walk d required [] []
  /-- A field is a member. -/
  | field {required needed : Bool} {f : Field} {rest : List Entry} {ms : List Member} (h : Walk d required rest ms) :
    Walk d required (⟨needed, .field f⟩ :: rest) (.field ⟨f, required && needed⟩ :: ms)
  /-- A group is a member. The members of a repetition are those that its entries lead to, and the first of them gives
  the delimiter. -/
  | group {required needed : Bool} {index : Nat} {g : Group} {rest : List Entry} {ms inner : List Member}
    {delimiter : Tag} (hg : d.groups[index]? = some g) (hinner : Walk d true g.entries inner)
    (hfirst : ((firsts inner).map Member.tag).head? = some delimiter) (h : Walk d required rest ms) :
    Walk d required (⟨needed, .group index⟩ :: rest)
      (.group ⟨g.name, g.counter, required && needed, delimiter⟩ (firsts inner) :: ms)
  /-- A component leads to what its entries lead to. -/
  | component {required needed : Bool} {name : String} {c : Component} {rest : List Entry} {ms inner : List Member}
    (hc : d.component? name = some c) (hinner : Walk d (required && needed) c.entries inner)
    (h : Walk d required rest ms) : Walk d required (⟨needed, .component name⟩ :: rest) (inner ++ ms)

variable {d : Dictionary}

/-- Entries lead to one list of members at most. -/
theorem Walk.unique {required : Bool} {entries : List Entry} {ms₁ ms₂ : List Member} (h₁ : d.Walk required entries ms₁)
    (h₂ : d.Walk required entries ms₂) : ms₁ = ms₂ := by
  induction h₁ generalizing ms₂ with
  | nil =>
    cases h₂
    rfl
  | field _ ih =>
    cases h₂ with
    | field h => rw [ih h]
  | group hg _ hfirst _ ihinner ih =>
    cases h₂ with
    | group hg' hinner' hfirst' h =>
      obtain rfl := Option.some.inj (hg.symm.trans hg')
      obtain rfl := ihinner hinner'
      obtain rfl := Option.some.inj (hfirst.symm.trans hfirst')
      rw [ih h]
  | component hc _ _ ihinner ih =>
    cases h₂ with
    | component hc' hinner' h =>
      obtain rfl := Option.some.inj (hc.symm.trans hc')
      rw [ihinner hinner', ih h]

/-- The tables of all groups that entries lead to are exact. -/
theorem Walk.exact {required : Bool} {entries : List Entry} {ms : List Member} (h : d.Walk required entries ms) :
    ∀ m ∈ ms, m.Exact := by
  induction h with
  | nil => exact nofun
  | field _ ih => exact List.forall_mem_cons.2 ⟨nofun, ih⟩
  | @group _ _ _ g _ _ inner _ _ _ hfirst _ ihinner ih =>
    refine List.forall_mem_cons.2 ⟨?_, ih⟩
    rintro _ ⟨⟩
    have hexact : (Layout.indexed ⟨g.name, firsts inner⟩).Exact :=
      Layout.exact_indexed (nodup_firsts inner) fun m hm => ihinner m (firsts_subset inner hm)
    exact ⟨(Layout.firstTag?_indexed ⟨g.name, firsts inner⟩).trans hfirst, hexact⟩
  | component _ _ _ ihinner ih => exact List.forall_mem_append.2 ⟨ihinner, ih⟩

theorem entriesOf_of_group {index : Nat} {g : Group} (hg : d.groups[index]? = some g) :
    d.entriesOf (.group index) = g.entries := by
  rw [entriesOf, hg]
  rfl

/-- Entries of a holder lead to the members that a bounded walk adds to what is there. -/
theorem exists_walk (ha : d.Acyclic) (hd : d.Closed) (hg : d.groupFault? = none) :
    ∀ {n : Nat} {h : Holder} (required : Bool), n ≤ d.depth → d.Height n h →
      ∃ ms, d.Walk required (d.entriesOf h) ms ∧
        ∀ members, d.flatten n required members (d.entriesOf h) = ms.foldl addMember members := by
  intro n
  induction n with
  | zero =>
    intro h required _ hh
    rw [show d.entriesOf h = [] from hh]
    exact ⟨[], .nil, fun _ => rfl⟩
  | succ n ih =>
    intro h required hn hh
    have hn' := Nat.le_of_succ_le hn
    simp only [flatten]
    -- Entry by entry : what is inside each one is walked in at most `n` steps.
    obtain ⟨entries, heq⟩ : ∃ entries, d.entriesOf h = entries := ⟨_, rfl⟩
    have hentries : ∀ e ∈ entries, e ∈ d.entriesOf h := fun _ he => heq ▸ he
    rw [heq]
    clear heq
    induction entries with
    | nil => exact ⟨[], .nil, fun _ => rfl⟩
    | cons e rest ihrest =>
      obtain ⟨he, hrest⟩ := List.forall_mem_cons.1 hentries
      obtain ⟨ms, hms, hfold⟩ := ihrest hrest
      obtain ⟨needed, f | index | name⟩ := e
      · exact ⟨_, .field hms, fun members => hfold _⟩
      · obtain ⟨g, hgroup⟩ := hd.exists_group he rfl
        have hheight := hh _ (inside_of_group he rfl)
        obtain ⟨inner, hinner, hbody⟩ := ih true hn' hheight
        obtain ⟨f, hf⟩ := exists_delimiter? hg (List.getElem?_eq_some_iff.1 hgroup).1
        have hbody : d.flatten n true [] (d.entriesOf (.group index)) = firsts inner := by
          rw [hbody, foldl_addMember_eq, List.nil_append]
          exact List.filter_eq_self.2 fun _ _ => rfl
        have hfirst : ((firsts inner).map Member.tag).head? = some f.number := by
          rw [← head_layoutOf_group ha hf, ← hbody, layoutOf, flatten_of_height true [] hheight hn']
        refine ⟨_, .group hgroup (entriesOf_of_group hgroup ▸ hinner) hfirst hms, fun members => ?_⟩
        rw [List.foldl_cons]
        simp only [groupSlot?, hgroup, hf, hbody]
        exact hfold _
      · obtain ⟨c, hc⟩ := hd.exists_component he rfl
        obtain ⟨inner, hinner, hfold'⟩ := ih (required && needed) hn' (hh _ (inside_of_component he rfl))
        refine ⟨_, .component hc (entriesOf_of_component? hc ▸ hinner) hms, fun members => ?_⟩
        rw [List.foldl_cons, List.foldl_append, ← hfold']
        exact hfold _

/-! ## Delimiters -/

/-- The entries lead to the field first : the first entry points at it, or at the group that it counts, or at a
component whose entries lead to it. -/
inductive LeadsTo (d : Dictionary) : List Entry → Field → Prop
  | field {needed : Bool} {f : Field} {rest : List Entry} : LeadsTo d (⟨needed, .field f⟩ :: rest) f
  | group {needed : Bool} {index : Nat} {g : Group} {rest : List Entry} (hg : d.groups[index]? = some g) :
    LeadsTo d (⟨needed, .group index⟩ :: rest) g.counter
  | component {needed : Bool} {name : String} {c : Component} {f : Field} {rest : List Entry}
    (hc : d.component? name = some c) (h : LeadsTo d c.entries f) : LeadsTo d (⟨needed, .component name⟩ :: rest) f

theorem LeadsTo.unique {entries : List Entry} {f₁ f₂ : Field} (h₁ : d.LeadsTo entries f₁) (h₂ : d.LeadsTo entries f₂) :
    f₁ = f₂ := by
  induction h₁ with
  | field =>
    cases h₂
    rfl
  | group hg =>
    cases h₂ with
    | group hg' =>
      obtain rfl := Option.some.inj (hg.symm.trans hg')
      rfl
  | component hc _ ih =>
    cases h₂ with
    | component hc' h =>
      obtain rfl := Option.some.inj (hc.symm.trans hc')
      exact ih h

/-- A field that is found within a bound is found without one. -/
theorem leadsTo_of_leadingField? : ∀ {n : Nat} {entries : List Entry} {f : Field},
    d.leadingField? n entries = some f → d.LeadsTo entries f
  | n, [], f, h => by
    rw [leadingField?] at h
    cases h
  | n, ⟨needed, .field f'⟩ :: rest, f, h => by
    rw [leadingField?.eq_def] at h
    obtain rfl := Option.some.inj h
    exact .field
  | n, ⟨needed, .group index⟩ :: rest, f, h => by
    rw [leadingField?.eq_def] at h
    obtain ⟨g, hg, rfl⟩ := Option.map_eq_some_iff.1 h
    exact .group hg
  | 0, ⟨needed, .component name⟩ :: rest, f, h => by
    rw [leadingField?.eq_def] at h
    cases h
  | n + 1, ⟨needed, .component name⟩ :: rest, f, h => by
    rw [leadingField?.eq_def] at h
    change d.leadingField? n (d.entriesOf (.component name)) = some f at h
    cases hc : d.component? name with
    | none =>
      rw [entriesOf, hc] at h
      change d.leadingField? n [] = some f at h
      rw [leadingField?] at h
      cases h
    | some c =>
      rw [entriesOf_of_component? hc] at h
      exact .component hc (leadsTo_of_leadingField? h)

/-- In a dictionary without faults every group has one field that its entries lead to first. It is found within the
bound, and gives the delimiter. -/
theorem leadsTo_delimiter? (hd : d.groupFault? = none) {index : Nat} {g : Group} (hg : d.groups[index]? = some g) :
    ∃ f, d.delimiter? index = some f ∧ (∀ f', d.LeadsTo g.entries f' ↔ f' = f) ∧
      ∀ required, d.groupSlot? index required = some ⟨g.name, g.counter, required, f.number⟩ := by
  obtain ⟨f, hf⟩ := exists_delimiter? hd (List.getElem?_eq_some_iff.1 hg).1
  have hleads : d.LeadsTo g.entries f := by
    rw [delimiter?, entriesOf_of_group hg] at hf
    exact leadsTo_of_leadingField? hf
  refine ⟨f, hf, fun f' => ⟨fun h => h.unique hleads, fun h => h ▸ hleads⟩, fun required => ?_⟩
  rw [groupSlot?, hg, hf]
  rfl

end Dictionary

/-! ## A sample -/

namespace Sample

/-- A document with a message that has a field twice : once in a component that need not be there, and once required.
The repetitions of its group start with what is in another component. -/
def layered : String :=
  "<fix major='4' minor='4'>
    <fields>
      <field number='35' name='MsgType' type='STRING'/>
      <field number='48' name='SecurityID' type='STRING'/>
      <field number='55' name='Symbol' type='STRING'/>
      <field number='555' name='NoLegs' type='NUMINGROUP'/>
      <field number='600' name='LegSymbol' type='STRING'/>
      <field number='602' name='LegSecurityID' type='STRING'/>
    </fields>
    <header><field name='MsgType' required='Y'/></header>
    <trailer/>
    <components>
      <component name='Instrument'><field name='Symbol' required='Y'/><field name='SecurityID'/></component>
      <component name='Leg'><field name='LegSymbol' required='Y'/><field name='LegSecurityID'/></component>
    </components>
    <messages>
      <message name='Quote' msgtype='S' msgcat='app'>
        <component name='Instrument'/>
        <field name='Symbol' required='Y'/>
        <group name='NoLegs' required='Y'><component name='Leg' required='Y'/></group>
      </message>
    </messages>
  </fix>"

/-- Its dictionary. -/
def layeredDictionary : Dictionary where
  major := 4
  minor := 4
  fields := [field 35 "MsgType", field 48 "SecurityID", field 55 "Symbol", counter 555 "NoLegs", field 600 "LegSymbol",
    field 602 "LegSecurityID"]
  groups := [⟨"Legs", counter 555 "NoLegs", [⟨true, .component "Leg"⟩]⟩]
  components := [
    ⟨"Instrument", [⟨true, .field (field 55 "Symbol")⟩, ⟨false, .field (field 48 "SecurityID")⟩]⟩,
    ⟨"Leg", [⟨true, .field (field 600 "LegSymbol")⟩, ⟨false, .field (field 602 "LegSecurityID")⟩]⟩]
  spliced := []
  messages := [⟨"Quote", "S", .app,
    [⟨false, .component "Instrument"⟩, ⟨true, .field (field 55 "Symbol")⟩, ⟨true, .group 0⟩]⟩]
  header := [⟨true, .field (field 35 "MsgType")⟩]
  trailer := []

set_option maxRecDepth 8000 in
theorem compile_layered : Dictionary.compile layered = .ok layeredDictionary :=
  Dictionary.compile_ofList (by decide +kernel)

/-- The members that the entries of a leg lead to. -/
def layeredLeg : List Member :=
  [.field ⟨field 600 "LegSymbol", true⟩, .field ⟨field 602 "LegSecurityID", false⟩]

/-- The members of the message. The field that comes twice is not required. -/
theorem layoutOf_layered : layeredDictionary.layoutOf (.message 0) = ⟨"Quote",
    [.field ⟨field 55 "Symbol", false⟩, .field ⟨field 48 "SecurityID", false⟩,
      .group ⟨"Legs", counter 555 "NoLegs", true, 600⟩ layeredLeg]⟩ :=
  rfl

end Sample

namespace Dictionary

variable {d : Dictionary}

/-! ## Layouts -/

/-- In a compiled dictionary without faults the layout of a holder keeps the first member for each tag of those that its
entries lead to in one walk without a bound. A member is found by its tag and by no other. The layout is what the
entries are collected in, table by table, and the tables agree with each other, in groups as well. Every group has one
field that its entries lead to first, which is found within the bound and gives the delimiter. -/
theorem layoutOf_exact {text : String} (hc : compile text = .ok d) (hd : d.fault? = none) :
    (∀ holder,
      (∃ ms, (∀ ms', d.Walk true (d.entriesOf holder) ms' ↔ ms' = ms) ∧
        d.layoutOf holder = ⟨d.nameOf holder, firsts ms⟩) ∧
      (∀ tag m, (d.layoutOf holder).lookup? tag = some m ↔ m ∈ (d.layoutOf holder).members ∧ m.tag = tag) ∧
      ((d.layoutOf holder).allTags.Nodup ∧
        ∀ tag, tag ∈ (d.layoutOf holder).allTags ↔ ((d.layoutOf holder).lookup? tag).isSome = true) ∧
      (∀ l, d.Builds holder l ↔ l = (d.layoutOf holder).indexed) ∧
      (d.layoutOf holder).indexed.Exact) ∧
    ∀ index g, d.groups[index]? = some g →
      ∃ f, d.delimiter? index = some f ∧ (∀ f', d.LeadsTo g.entries f' ↔ f' = f) ∧
        ∀ required, d.groupSlot? index required = some ⟨g.name, g.counter, required, f.number⟩ := by
  obtain ⟨-, hgroups, ha⟩ := fault?_eq_none_iff.1 hd
  have hclosed := closed_of_compile hc
  refine ⟨fun holder => ?_, fun index g => leadsTo_delimiter? hgroups⟩
  obtain ⟨ms, hwalk, hfold⟩ := exists_walk ha hclosed hgroups true (Nat.le_refl _) (ha.height holder)
  have hmembers : (d.layoutOf holder).members = firsts ms := by
    refine (hfold []).trans ((foldl_addMember_eq ms []).trans ?_)
    exact List.filter_eq_self.2 fun _ _ => rfl
  have hlayout : d.layoutOf holder = ⟨d.nameOf holder, firsts ms⟩ := congrArg (Layout.mk _) hmembers
  have hnodup := nodup_layoutOf ha holder
  refine ⟨⟨ms, fun ms' => ⟨fun h => h.unique hwalk, fun h => h ▸ hwalk⟩, hlayout⟩,
    fun tag m => find?_key_eq_some_iff hnodup, ⟨?_, fun tag => ?_⟩, fun l => builds_iff ha hclosed, ?_⟩
  · exact (Layout.perm_allTags _).nodup_iff.2 hnodup
  · rw [(Layout.perm_allTags _).mem_iff, Layout.lookup?, List.find?_isSome, List.mem_map]
    simp only [beq_iff_eq]
  · exact Layout.exact_indexed hnodup fun m hm => hwalk.exact m (firsts_subset ms (hmembers ▸ hm))

/-- A sample : the message keeps three of the four members that its entries lead to, and its group starts with a field
inside a component. -/
theorem layoutOf_exact_layered : compile Sample.layered = .ok Sample.layeredDictionary ∧
    Sample.layeredDictionary.fault? = none ∧
    (∃ ms, (∀ ms', Sample.layeredDictionary.Walk true (Sample.layeredDictionary.entriesOf (.message 0)) ms' ↔ ms' = ms) ∧
      firsts ms = [.field ⟨Sample.field 55 "Symbol", false⟩, .field ⟨Sample.field 48 "SecurityID", false⟩,
        .group ⟨"Legs", Sample.counter 555 "NoLegs", true, 600⟩ Sample.layeredLeg]) ∧
    (Sample.layeredDictionary.layoutOf (.message 0)).indexed.Exact ∧
    (Sample.layeredDictionary.layoutOf (.message 0)).indexed.lookup? 555 = some (.group 0) ∧
    ∃ f, Sample.layeredDictionary.delimiter? 0 = some f ∧
      ∀ f', Sample.layeredDictionary.LeadsTo [⟨true, .component "Leg"⟩] f' ↔ f' = f := by
  have hfault : Sample.layeredDictionary.fault? = none := by decide +kernel
  obtain ⟨hlayouts, hdelimiters⟩ := layoutOf_exact Sample.compile_layered hfault
  obtain ⟨⟨ms, hwalk, hms⟩, -, -, -, hexact⟩ := hlayouts (.message 0)
  obtain ⟨f, hf, hleads, -⟩ := hdelimiters 0 _ rfl
  have hfirsts := (Layout.mk.inj (hms.symm.trans Sample.layoutOf_layered)).2
  exact ⟨Sample.compile_layered, hfault, ⟨ms, hwalk, hfirsts⟩, hexact, by decide +kernel, f, hf, hleads⟩

end Dictionary

end FixWire
