import FixWire.Proofs.Dictionary.Declared
import FixWire.Proofs.Dictionary.Renumber

/-!
# The normal form of a dictionary

Components that hold only a group are spliced out in sweeps, until a sweep finds none. A sweep that finds one leaves a
smaller table, so the sweeps come to an end in every dictionary, and as many of them as there are components are enough
(`exists_sweeps`).

What a component stands for is followed from one component to the only one in it, and at last to a group
(`Dictionary.StandsFor`). A sweep makes these ways shorter, and leaves what is at their end as it is
(`standsFor_splice`). So in the end the components that stand for a group are those that are not in the table any more,
and whatever has pointed at one of them points at the group in its place (`compile_normalForm`).
-/

namespace FixWire

namespace Dictionary

variable {d : Dictionary}

/-! ## Sweeps -/

/-- The components in the table that hold only a group. -/
def groupOnly (d : Dictionary) : List Component :=
  d.table.filter fun c => (d.groupOf? c.name).isSome

/-- So many sweeps are made until no component in the table holds only a group, and they lead to the second
dictionary. -/
inductive Sweeps : Dictionary → Nat → Dictionary → Prop
  | stop {d : Dictionary} (h : d.groupOnly = []) : Sweeps d 0 d
  | sweep {d d' : Dictionary} {n : Nat} (h : d.groupOnly ≠ []) (rest : Sweeps d.splice n d') : Sweeps d (n + 1) d'

theorem groupOnly_eq_nil_iff : d.groupOnly = [] ↔ ∀ name, d.groupOf? name = none := by
  rw [groupOnly, List.filter_eq_nil_iff]
  constructor
  · intro h name
    refine Option.eq_none_iff_forall_ne_some.2 fun index hg => ?_
    obtain ⟨c, hc, -⟩ := Option.bind_eq_some_iff.1 hg
    have hname : c.name = name := by simpa using List.find?_some hc
    exact h c (List.mem_of_find?_eq_some hc) (by rw [hname, hg]; rfl)
  · intro h c _
    rw [h c.name]
    exact Bool.noConfusion

/-- If no component holds only a group, a sweep changes nothing. -/
theorem splice_of_groupOnly (h : d.groupOnly = []) : d.splice = d := by
  have hredirect : d.redirect = id := by
    funext e
    cases hi : e.item with
    | component name => exact redirect_of_none hi (groupOnly_eq_nil_iff.1 h name)
    | _ => exact redirect_of_ne (by simp [hi])
  change { d.mapEntries d.redirect with spliced := d.spliced ++ d.groupOnly.map Component.name } = d
  rw [hredirect, h]
  simp [mapEntries]

/-- A sweep that finds something takes it out of the table. -/
theorem tableSize_splice_lt (h : d.groupOnly ≠ []) : d.splice.tableSize < d.tableSize := by
  obtain ⟨c, hc⟩ := List.exists_mem_of_ne_nil _ h
  obtain ⟨htable, hgroup⟩ := List.mem_filter.1 hc
  have hlength : d.splice.tableSize = (d.table.filter fun c => !(d.groupOf? c.name).isSome).length := by
    rw [tableSize, table, table, List.filter_filter]
    change ((d.components.map _).filter _).length = _
    rw [List.filter_map, List.length_map]
    refine congrArg List.length (List.filter_congr fun c' _ => ?_)
    rw [Bool.eq_iff_iff]
    simp [inTable, mem_spliced_splice, and_comm]
  rw [hlength, tableSize]
  refine Nat.lt_of_le_of_ne (List.length_filter_le _ _) fun heq => ?_
  have hkept := List.length_filter_eq_length_iff.1 heq c htable
  rw [hgroup] at hkept
  exact Bool.noConfusion hkept

theorem repeat_succ {α : Type} (f : α → α) (a : α) : ∀ n : Nat, (n + 1).repeat f a = n.repeat f (f a)
  | 0 => rfl
  | n + 1 => congrArg f (repeat_succ f a n)

theorem repeat_of_fixed {α : Type} {f : α → α} {a : α} (h : f a = a) : ∀ n : Nat, n.repeat f a = a
  | 0 => rfl
  | n + 1 => (congrArg f (repeat_of_fixed h n)).trans h

/-- A number of sweeps that is not less than the size of the table leads where the sweeps come to an end. -/
theorem exists_sweeps_repeat : ∀ {k : Nat} {d : Dictionary}, d.tableSize ≤ k →
    ∃ n ≤ d.tableSize, d.Sweeps n (k.repeat splice d) := by
  intro k
  induction k with
  | zero =>
    intro d hk
    have htable : d.table = [] := List.eq_nil_of_length_eq_zero (Nat.le_zero.1 hk)
    exact ⟨0, Nat.zero_le _, .stop (by rw [groupOnly, htable]; rfl)⟩
  | succ k ih =>
    intro d hk
    by_cases h : d.groupOnly = []
    · rw [repeat_of_fixed (splice_of_groupOnly h)]
      exact ⟨0, Nat.zero_le _, .stop h⟩
    · have hlt := tableSize_splice_lt h
      obtain ⟨n, hn, hrest⟩ := ih (Nat.le_of_lt_succ (Nat.lt_of_lt_of_le hlt hk))
      rw [repeat_succ]
      exact ⟨n + 1, Nat.lt_of_le_of_lt hn hlt, .sweep h hrest⟩

/-- The sweeps come to an end in every dictionary, and lead to its normal form. -/
theorem exists_sweeps (d : Dictionary) : ∃ n ≤ d.tableSize, d.Sweeps n d.normalize :=
  exists_sweeps_repeat (List.length_filter_le _ _)

theorem Sweeps.groupOnly_eq_nil {n : Nat} {d' : Dictionary} (h : d.Sweeps n d') : d'.groupOnly = [] := by
  induction h with
  | stop h => exact h
  | sweep _ _ ih => exact ih

theorem groupOnly_normalize (d : Dictionary) : d.normalize.groupOnly = [] :=
  have ⟨_, _, h⟩ := d.exists_sweeps
  h.groupOnly_eq_nil

/-! ## What components stand for -/

/-- The only entry of the component points at the group, or at a component that stands for the group. -/
inductive StandsFor (d : Dictionary) : String → Nat → Prop
  | group {name : String} {needed : Bool} {index : Nat} (h : d.entriesOf (.component name) = [⟨needed, .group index⟩]) :
    StandsFor d name index
  | component {name inner : String} {needed : Bool} {index : Nat}
    (h : d.entriesOf (.component name) = [⟨needed, .component inner⟩]) (hinner : StandsFor d inner index) :
    StandsFor d name index

theorem StandsFor.unique {name : String} {i j : Nat} (hi : d.StandsFor name i) (hj : d.StandsFor name j) : i = j := by
  induction hi with
  | group h =>
    cases hj with
    | group h' =>
      cases h.symm.trans h'
      rfl
    | component h' => cases h.symm.trans h'
  | component h _ ih =>
    cases hj with
    | group h' => cases h.symm.trans h'
    | component h' hinner =>
      cases h.symm.trans h'
      exact ih hinner

theorem standsFor_of_groupOf? {name : String} {index : Nat} (h : d.groupOf? name = some index) : d.StandsFor name index :=
  have ⟨_, hentries⟩ := entriesOf_of_groupOf? h
  .group hentries

/-- The second entry is the first one, or points at the group that the component stands for at which the first one
points. -/
inductive Moved (d : Dictionary) : Entry → Entry → Prop
  | same (e : Entry) : Moved d e e
  | group {needed : Bool} {name : String} {index : Nat} (h : d.StandsFor name index) :
    Moved d ⟨needed, .component name⟩ ⟨needed, .group index⟩

theorem moved_redirect (d : Dictionary) (e : Entry) : d.Moved e (d.redirect e) := by
  obtain ⟨needed, f | index | name⟩ := e
  · exact .same _
  · exact .same _
  · cases hg : d.groupOf? name with
    | none =>
      rw [redirect_of_none rfl hg]
      exact .same _
    | some index =>
      rw [redirect_of_groupOf? rfl hg]
      exact .group (standsFor_of_groupOf? hg)

theorem required_redirect (d : Dictionary) (e : Entry) : (d.redirect e).required = e.required := by
  obtain ⟨needed, f | index | name⟩ := e
  · rfl
  · rfl
  · cases hg : d.groupOf? name with
    | none => rw [redirect_of_none rfl hg]
    | some index => rw [redirect_of_groupOf? rfl hg]

/-- The only entry of a component is moved if the component has been swept. -/
theorem exists_of_entriesOf_splice {h : Holder} {e' : Entry} (he : d.splice.entriesOf h = [e']) :
    ∃ e, d.entriesOf h = [e] ∧ d.Moved e e' := by
  rw [entriesOf_splice] at he
  obtain ⟨e, hentries, rfl⟩ := List.map_eq_singleton_iff.1 he
  exact ⟨e, hentries, moved_redirect d e⟩

/-- A sweep leaves what components stand for as it is. -/
theorem standsFor_splice {name : String} {index : Nat} : d.splice.StandsFor name index ↔ d.StandsFor name index := by
  constructor
  · intro h
    induction h with
    | group h =>
      obtain ⟨e, he, hmoved⟩ := exists_of_entriesOf_splice h
      cases hmoved with
      | same => exact .group he
      | group hinner => exact .component he hinner
    | component h _ ih =>
      obtain ⟨e, he, hmoved⟩ := exists_of_entriesOf_splice h
      cases hmoved
      exact .component he ih
  · intro h
    induction h with
    | @group name needed index h =>
      have hentries : d.splice.entriesOf (.component name) = [⟨needed, .group index⟩] := by
        rw [entriesOf_splice, h]
        rfl
      exact .group hentries
    | @component name inner needed index h hinner ih =>
      have hentries : d.splice.entriesOf (.component name) = [d.redirect ⟨needed, .component inner⟩] := by
        rw [entriesOf_splice, h]
        rfl
      cases hg : d.groupOf? inner with
      | none =>
        rw [redirect_of_none rfl hg] at hentries
        exact .component hentries ih
      | some j =>
        rw [redirect_of_groupOf? rfl hg] at hentries
        obtain rfl := (standsFor_of_groupOf? hg).unique hinner
        exact .group hentries

theorem standsFor_repeat_splice {name : String} {index : Nat} (k : Nat) :
    (k.repeat splice d).StandsFor name index ↔ d.StandsFor name index :=
  repeat_splice_induction (P := fun d' => d'.StandsFor name index ↔ d.StandsFor name index) Iff.rfl
    (fun _ h => standsFor_splice.trans h) k

theorem Moved.trans {e e' e'' : Entry} (h : d.Moved e e') (h' : d.Moved e' e'') : d.Moved e e'' := by
  cases h with
  | same => exact h'
  | group h =>
    cases h'
    exact .group h

/-- After so many sweeps each entry is where it has been, and has been moved if at all. -/
theorem moved_repeat_splice (h : Holder) : ∀ k : Nat,
    List.Forall₂ d.Moved (d.entriesOf h) ((k.repeat splice d).entriesOf h)
  | 0 => List.forall₂_same.2 fun e _ => .same e
  | k + 1 => by
    change List.Forall₂ d.Moved (d.entriesOf h) ((k.repeat splice d).splice.entriesOf h)
    rw [entriesOf_splice, List.forall₂_map_right_iff]
    refine (moved_repeat_splice h k).imp fun e e' hmoved => hmoved.trans ?_
    generalize hr : (k.repeat splice d).redirect e' = e''
    cases hr ▸ moved_redirect _ e' with
    | same => exact .same _
    | group h => exact .group ((standsFor_repeat_splice k).1 h)

/-! ## The normal form -/

/-- The second entry is the first one, which points at no component that stands for a group, or it points at the group
in place of such a component. -/
inductive Replaced (d : Dictionary) : Entry → Entry → Prop
  | kept {e : Entry} (h : ∀ name index, e.item = .component name → ¬d.StandsFor name index) : Replaced d e e
  | group {needed : Bool} {name : String} {index : Nat} (h : d.StandsFor name index) :
    Replaced d ⟨needed, .component name⟩ ⟨needed, .group index⟩

/-- The second dictionary is the normal form of the first one. -/
structure NormalForm (d₀ d : Dictionary) : Prop where
  /-- No component in the table holds only a group. -/
  table : ∀ c ∈ d.table, ∀ needed index, c.entries ≠ [⟨needed, .group index⟩]
  /-- Entries point at components in the table only. -/
  present : ∀ h, ∀ e ∈ d.entriesOf h, ∀ name, e.item = .component name → ∃ c, d.tableComponent? name = some c
  /-- Those that are not in the table stand for a group. -/
  absent_iff : ∀ name ∈ d₀.components.map Component.name,
    d.tableComponent? name = none ↔ ∃ index, d₀.StandsFor name index
  /-- Whatever has pointed at one of them points at the group in its place. -/
  replaced : ∀ h, List.Forall₂ d₀.Replaced (d₀.entriesOf h) (d.entriesOf h)

theorem inTable_iff {name : String} : d.inTable name = true ↔ name ∉ d.spliced := by
  simp [inTable]

/-- What has been spliced out stands for a group. -/
theorem exists_standsFor_of_spliced (h : d.spliced = []) {name : String} : ∀ {k : Nat},
    name ∈ (k.repeat splice d).spliced → ∃ index, d.StandsFor name index
  | 0, hname => absurd (h ▸ hname) List.not_mem_nil
  | k + 1, hname => by
    rcases mem_spliced_splice.1 hname with hname | hgroup
    · exact exists_standsFor_of_spliced h hname
    · obtain ⟨index, hindex⟩ := Option.isSome_iff_exists.1 hgroup
      exact ⟨index, (standsFor_repeat_splice k).1 (standsFor_of_groupOf? hindex)⟩

theorem exists_component?_of_ne_nil {name : String} (h : d.entriesOf (.component name) ≠ []) :
    ∃ c, d.component? name = some c ∧ c.entries = d.entriesOf (.component name) := by
  cases hc : d.component? name with
  | none => simp [entriesOf, hc] at h
  | some c => exact ⟨c, rfl, by rw [entriesOf, hc]; rfl⟩

/-- If no component in the table holds only a group, and nothing points at what is not in the table, then nothing in the
table stands for a group. -/
theorem StandsFor.spliced (hd : d.Detached) (hnone : d.groupOnly = []) {name : String} {index : Nat}
    (h : d.StandsFor name index) : name ∈ d.spliced := by
  induction h with
  | @group name needed index h =>
    by_contra hname
    obtain ⟨c, hc, hentries⟩ := exists_component?_of_ne_nil (h ▸ List.cons_ne_nil _ _)
    have htable : d.tableComponent? name = some c := by
      rw [tableComponent?_eq, if_pos (inTable_iff.2 hname), hc]
    have hgroup : d.groupOf? name = some index := by
      rw [groupOf?, htable, Option.bind_some, hentries, h]
      rfl
    exact absurd (hgroup.symm.trans (groupOnly_eq_nil_iff.1 hnone name)) (Option.some_ne_none index)
  | @component name inner needed index h _ ih =>
    exact absurd ih (hd (.component name) _ inner (h ▸ List.mem_singleton_self _) rfl)

/-- The sweeps lead to a normal form. -/
theorem normalForm_normalize (hd : d.Closed) (hnames : (d.components.map Component.name).Nodup)
    (hspliced : d.spliced = []) : d.NormalForm d.normalize := by
  have hdetached : d.normalize.Detached :=
    repeat_splice_induction (fun _ _ name _ _ => hspliced ▸ List.not_mem_nil) (fun _ h => h.splice) d.components.length
  have hclosed : d.normalize.Closed := hd.repeat_splice d.components.length
  have hnames' : d.normalize.components.map Component.name = d.components.map Component.name :=
    names_repeat_splice d d.components.length
  have hstands {name : String} {index : Nat} : d.normalize.StandsFor name index ↔ d.StandsFor name index :=
    standsFor_repeat_splice d.components.length
  have hout {name : String} {index : Nat} (h : d.StandsFor name index) : name ∈ d.normalize.spliced :=
    (hstands.2 h).spliced hdetached (groupOnly_normalize d)
  have hpresent : ∀ h, ∀ e ∈ d.normalize.entriesOf h, ∀ name, e.item = .component name →
      name ∉ d.normalize.spliced ∧ ∃ c, d.normalize.tableComponent? name = some c := by
    intro h e he name hi
    obtain ⟨c, hc⟩ := hclosed.exists_component he hi
    have hname := hdetached h e name he hi
    exact ⟨hname, c, by rw [tableComponent?_eq, if_pos (inTable_iff.2 hname), hc]⟩
  constructor
  case table =>
    intro c hc needed index hentries
    have hnodup : (d.normalize.table.map Component.name).Nodup := by
      rw [← hnames'] at hnames
      exact hnames.sublist (List.filter_sublist.map _)
    have hfind : d.normalize.tableComponent? c.name = some c := (find?_key_eq_some_iff hnodup).2 ⟨hc, rfl⟩
    have hgroup : d.normalize.groupOf? c.name = some index := by
      rw [groupOf?, hfind, Option.bind_some, hentries]
      rfl
    exact absurd (hgroup.symm.trans (groupOnly_eq_nil_iff.1 (groupOnly_normalize d) c.name)) (Option.some_ne_none index)
  case present => exact fun h e he name hi => (hpresent h e he name hi).2
  case absent_iff =>
    intro name hname
    obtain ⟨c, hc⟩ := exists_component?_iff.2 (hnames' ▸ hname)
    rw [tableComponent?_eq, hc]
    constructor
    · intro hnone
      have hmem : name ∈ d.normalize.spliced := by
        by_contra hnot
        rw [if_pos (inTable_iff.2 hnot)] at hnone
        exact absurd hnone (Option.some_ne_none c)
      exact exists_standsFor_of_spliced hspliced hmem
    · rintro ⟨index, hindex⟩
      exact if_neg fun htable => inTable_iff.1 htable (hout hindex)
  case replaced =>
    intro h
    -- What has been left as it is points at components in the table only.
    have hmoved := (List.forall₂_and_left _ _).2 ⟨hpresent h, (moved_repeat_splice h d.components.length).flip⟩
    refine (hmoved.imp fun e' e he => ?_).flip
    obtain ⟨he, hmove⟩ := he
    cases hmove with
    | same => exact .kept fun name index hi hs => (he name hi).1 (hout hs)
    | group hs => exact .group hs

/-- A compiled dictionary is the normal form of what its document declares : no component in its table holds only a
group, all entries point at components in the table, the components that are not in it any more are those that stand for
a group, and in place of each entry that has pointed at one there is an entry that points at the group. The sweeps that
lead there come to an end in every dictionary. -/
theorem compile_normalForm {text : String} (h : compile text = .ok d) :
    (∃ declared, Declarations.ofDocument text = .ok declared ∧ (ofDeclarations declared).normalize = d ∧
      (ofDeclarations declared).NormalForm d) ∧
      ∀ d' : Dictionary, ∃ n ≤ d'.tableSize, d'.Sweeps n d'.normalize := by
  refine ⟨?_, exists_sweeps⟩
  obtain ⟨declared, hdeclared, hresolved, rfl⟩ := exists_ofDocument h
  have hnames := (Declarations.distinct_of_ofDocument hdeclared).names_ofDeclarations
  exact ⟨declared, hdeclared, rfl, normalForm_normalize (arranged_ofDeclarations hresolved).2 hnames rfl⟩

/-- A sample : a component that holds only a component that holds only a group is spliced out after that one, the
message points at the group in its place, and the two components that are inside each other stay in the table. -/
theorem compile_normalForm_winding : compile Sample.winding = .ok Sample.windingDictionary ∧
    Sample.windingDictionary.table.map Component.name = ["Ping", "Pong"] ∧
    ∃ declared, Declarations.ofDocument Sample.winding = .ok declared ∧
      (∃ index, (ofDeclarations declared).StandsFor "Parties" index) ∧
      (¬∃ index, (ofDeclarations declared).StandsFor "Ping" index) ∧
      List.Forall₂ (ofDeclarations declared).Replaced ((ofDeclarations declared).entriesOf (.message 0))
        [⟨true, .group 0⟩] ∧
      ∃ n ≤ (ofDeclarations declared).tableSize, (ofDeclarations declared).Sweeps n Sample.windingDictionary := by
  obtain ⟨⟨declared, hdeclared, hnormalize, hform⟩, hsweeps⟩ := compile_normalForm Sample.compile_winding
  have hnames : Sample.windingDictionary.components.map Component.name =
      (ofDeclarations declared).components.map Component.name :=
    hnormalize ▸ names_repeat_splice (ofDeclarations declared) _
  have habsent : ∀ name ∈ Sample.windingDictionary.components.map Component.name,
      Sample.windingDictionary.tableComponent? name = none ↔ ∃ index, (ofDeclarations declared).StandsFor name index :=
    hnames ▸ hform.absent_iff
  refine ⟨Sample.compile_winding, by decide +kernel, declared, hdeclared, ?_, ?_, hform.replaced (.message 0),
    hnormalize ▸ hsweeps (ofDeclarations declared)⟩
  · exact (habsent "Parties" (by decide +kernel)).1 (by decide +kernel)
  · exact mt (habsent "Ping" (by decide +kernel)).2 (by decide +kernel)

end Dictionary

end FixWire
