import FixWire.Proofs.Dictionary.Splice

/-!
# Ways to a member

A member of a layout is reached from an aggregate by way of entries : one for each component on the way, and at
last one for the field or the group. It is required if all of them are. Splicing leaves the ways as they are, up
to the entries inside the components that it takes out, and of these it forgets whether they are required. So
the layouts keep their members, their tags, their bodies and their delimiters, and whether they keep what is
required can be read off the ways (`layoutOf_normalize_iff`).
-/

namespace FixWire

/-- The entries that lead from an aggregate to a field or a group : those that point at components, and the last
one. -/
structure Way where
  via : List Entry
  last : Entry

namespace Way

/-- All entries of the way. -/
def entries (w : Way) : List Entry :=
  w.via ++ [w.last]

/-- Whether all entries of the way are required. -/
def isRequired (w : Way) : Bool :=
  w.entries.all Entry.required

/-- Whether all entries are required but those inside the components with the given names. `inside` tells whether
the first one is inside such a component. -/
def requiredOutside (names : List String) : Bool → List Entry → Bool
  | _, [] => true
  | inside, e :: rest =>
    (inside || e.required) &&
      requiredOutside names (match e.item with
        | .component name => names.contains name
        | _ => false) rest

end Way

namespace Way

theorem requiredOutside_nil : ∀ entries : List Entry, requiredOutside [] false entries = entries.all Entry.required
  | [] => rfl
  | e :: rest => by
    have : (match e.item with
        | .component name => ([] : List String).contains name
        | _ => false) = false := by
      cases e.item <;> rfl
    rw [requiredOutside, this, requiredOutside_nil rest, Bool.false_or, List.all_cons]

/-- A way that is required is so outside some components. -/
theorem requiredOutside_of_all (names : List String) : ∀ (inside : Bool) {entries : List Entry},
    entries.all Entry.required = true → requiredOutside names inside entries = true
  | _, [], _ => rfl
  | inside, e :: rest, h => by
    rw [List.all_cons, Bool.and_eq_true] at h
    rw [requiredOutside, h.1, Bool.or_true, Bool.true_and]
    exact requiredOutside_of_all names _ h.2

end Way

/-- Whether layouts are made of the holder. -/
def Holder.isAggregate : Holder → Bool
  | .component _ => false
  | _ => true

namespace Dictionary

/-- The ways from some entries, in order, following at most `n` components. -/
def ways (d : Dictionary) : Nat → List Entry → List Way
  | 0, _ => []
  | n + 1, entries => entries.flatMap fun e =>
    match e.item with
    | .component name => (d.ways n (d.entriesOf (.component name))).map fun w => ⟨e :: w.via, w.last⟩
    | _ => [⟨[], e⟩]

/-- The tag of what a way leads to. -/
def tagOf? (d : Dictionary) (w : Way) : Option Tag :=
  match w.last.item with
  | .field f => some f.number
  | .group index => d.groups[index]?.map fun g => g.counter.number
  | .component _ => none

/-- Of several ways that lead to the same tag, the first. `seen` are tags to which no way is kept. -/
def firstWays (d : Dictionary) : List Tag → List Way → List Way
  | _, [] => []
  | seen, w :: rest =>
    match d.tagOf? w with
    | none => d.firstWays seen rest
    | some tag => if tag ∈ seen then d.firstWays seen rest else w :: d.firstWays (seen ++ [tag]) rest

/-- The ways to the members of a layout. -/
def keptWays (d : Dictionary) (h : Holder) : List Way :=
  d.firstWays [] (d.ways d.depth (d.entriesOf h))

/-- The member to which a way leads. -/
def memberAt? (d : Dictionary) (required : Bool) (w : Way) : Option Member :=
  match w.last.item with
  | .field f => some (.field ⟨f, required⟩)
  | .group index => (d.groupSlot? index required).map fun slot => .group slot (d.layoutOf (.group index)).members
  | .component _ => none

variable {d : Dictionary} {names : List String}

theorem tag_memberAt? (d : Dictionary) (required : Bool) (w : Way) :
    (d.memberAt? required w).map Member.tag = d.tagOf? w := by
  unfold memberAt? tagOf? groupSlot?
  cases w.last.item with
  | group index =>
    dsimp only
    cases d.groups[index]? <;> rfl
  | _ => rfl

/-! ## Layouts from ways -/

/-- Members are added once for each way that is kept. -/
theorem foldl_addMember {f : Way → Option Member} (hf : ∀ w, (f w).map Member.tag = d.tagOf? w) :
    ∀ (ws : List Way) (members : List Member),
      (ws.filterMap f).foldl addMember members =
        members ++ (d.firstWays (members.map Member.tag) ws).filterMap f
  | [], members => by simp [firstWays]
  | w :: rest, members => by
    have htag := hf w
    rw [firstWays, List.filterMap_cons, ← htag]
    cases hw : f w with
    | none => exact foldl_addMember hf rest members
    | some m =>
      have howns : owns members m.tag = true ↔ m.tag ∈ members.map Member.tag := by
        simp [owns]
      rw [Option.map_some]
      dsimp only
      rw [List.foldl_cons, addMember]
      by_cases hm : m.tag ∈ members.map Member.tag
      · rw [if_pos hm, if_pos (howns.2 hm)]
        exact foldl_addMember hf rest members
      · rw [if_neg hm, if_neg (mt howns.1 hm), foldl_addMember hf rest, List.filterMap_cons, hw]
        simp

theorem depth_relax (d : Dictionary) (names : List String) : (d.relax names).depth = d.depth := by
  simp [depth, relax]

/-- A walk adds a member for every way. -/
theorem flatten_eq_ways (names : List String) :
    ∀ {n : Nat} {h : Holder} (required : Bool) (members : List Member), n ≤ d.depth → d.Height n h →
      (d.relax names).flatten n required members ((d.relax names).entriesOf h) =
        ((d.ways n (d.entriesOf h)).filterMap fun w => (d.relax names).memberAt?
          (required && Way.requiredOutside names (h.isOneOf names) w.entries) w).foldl addMember members := by
  intro n
  induction n with
  | zero =>
    intro h required members _ _
    rw [flatten, ways]
    rfl
  | succ n ih =>
    intro h required members hn hh
    have hentries : (d.relax names).entriesOf h =
        (d.entriesOf h).map fun e => ⟨h.isOneOf names || e.required, e.item⟩ := by
      rw [entriesOf_relax]
      cases h.isOneOf names <;> simp [Entry.relaxed]
    rw [hentries, flatten, ways, List.foldl_map, List.filterMap_flatMap, List.foldl_flatMap]
    refine List.foldl_ext _ _ _ fun members e he => ?_
    cases hi : e.item with
    | field f => simp [memberAt?, Way.entries, Way.requiredOutside, hi]
    | group index =>
      have hgroup := hh _ (inside_of_group he hi)
      have hbody : (d.relax names).flatten n true [] ((d.relax names).entriesOf (.group index)) =
          ((d.relax names).layoutOf (.group index)).members := by
        rw [layoutOf, depth_relax, flatten_of_height _ _ (height_relax hgroup) (Nat.le_of_succ_le hn)]
      simp only [hbody, List.filterMap_cons, List.filterMap_nil, memberAt?, hi, Way.entries, List.nil_append,
        Way.requiredOutside, Bool.and_true]
      cases (d.relax names).groupSlot? index (required && (h.isOneOf names || e.required)) <;> rfl
    | component name =>
      simp only
      rw [ih _ _ (Nat.le_of_succ_le hn) (hh _ (inside_of_component he hi)), List.filterMap_map]
      congr 1
      refine List.filterMap_congr fun w _ => ?_
      simp only [Function.comp_def, memberAt?, Way.entries, List.cons_append, Way.requiredOutside, hi,
        Holder.isOneOf, Bool.and_assoc]

theorem mem_firstWays {w : Way} : ∀ {seen : List Tag} {ws : List Way}, w ∈ d.firstWays seen ws →
    w ∈ ws ∧ (d.tagOf? w).isSome
  | _, [], hw => by simp [firstWays] at hw
  | seen, w' :: rest, hw => by
    rw [firstWays] at hw
    split at hw
    · exact (mem_firstWays hw).imp_left (List.mem_cons_of_mem _)
    · rename_i tag htag
      split_ifs at hw
      · exact (mem_firstWays hw).imp_left (List.mem_cons_of_mem _)
      · rcases List.mem_cons.1 hw with rfl | hw
        · exact ⟨List.mem_cons_self, by rw [htag]; rfl⟩
        · exact (mem_firstWays hw).imp_left (List.mem_cons_of_mem _)

/-- The members of a layout are those that the ways lead to. -/
theorem members_layoutOf (ha : d.Acyclic) (names : List String) {h : Holder} (hh : h.isAggregate = true) :
    ((d.relax names).layoutOf h).members = (d.keptWays h).filterMap fun w =>
      (d.relax names).memberAt? (Way.requiredOutside names false w.entries) w := by
  have hout : h.isOneOf names = false := by
    cases h <;> first | rfl | simp [Holder.isAggregate] at hh
  have htag (w : Way) : ((d.relax names).memberAt? (Way.requiredOutside names false w.entries) w).map Member.tag =
      d.tagOf? w :=
    tag_memberAt? (d.relax names) _ w
  rw [layoutOf, depth_relax, flatten_eq_ways names true [] (Nat.le_refl _) (ha.height h), hout]
  simp only [Bool.true_and]
  rw [foldl_addMember htag, List.nil_append]
  rfl

theorem relax_nil (d : Dictionary) : d.relax [] = d := by
  have : Component.relax [] = id := by
    funext c
    simp [Component.relax]
  rw [relax, this, List.map_id]

/-- What holds of an aggregate if it holds of all groups that ways lead to holds of every aggregate. -/
theorem Acyclic.aggregate_induction {P : Holder → Prop} (ha : d.Acyclic)
    (step : ∀ h, h.isAggregate = true →
      (∀ w ∈ d.keptWays h, ∀ index, w.last.item = .group index → P (.group index)) → P h)
    (h : Holder) (hh : h.isAggregate = true) : P h := by
  have hways : ∀ (k : Nat) {n : Nat} {h : Holder} {w : Way} {index : Nat}, d.Height n h →
      w ∈ d.ways k (d.entriesOf h) → w.last.item = .group index →
      ∃ m, n = m + 1 ∧ d.Height m (.group index) := by
    intro k
    induction k with
    | zero => intro n h w index _ hw; simp [ways] at hw
    | succ k ih =>
      intro n h w index hheight hw hi
      rw [ways, List.mem_flatMap] at hw
      obtain ⟨e, he, hw⟩ := hw
      cases n with
      | zero => simp [show d.entriesOf h = [] from hheight] at he
      | succ n =>
        refine ⟨n, rfl, ?_⟩
        cases hitem : e.item with
        | component name =>
          simp only [hitem, List.mem_map] at hw
          obtain ⟨w, hw, rfl⟩ := hw
          obtain ⟨m, rfl, hm⟩ := ih (hheight _ (inside_of_component he hitem)) hw hi
          exact hm.succ
        | field f =>
          simp only [hitem, List.mem_singleton] at hw
          subst hw
          simp [hitem] at hi
        | group index' =>
          simp only [hitem, List.mem_singleton] at hw
          subst hw
          rw [hitem, Item.group.injEq] at hi
          exact hi ▸ hheight _ (inside_of_group he hitem)
  have hall : ∀ (n : Nat) (h : Holder), d.Height n h → h.isAggregate = true → P h := by
    intro n
    induction n with
    | zero =>
      intro h hheight hh
      refine step h hh fun w hw index hi => ?_
      obtain ⟨m, hm, -⟩ := hways _ hheight (mem_firstWays hw).1 hi
      exact absurd hm (Nat.succ_ne_zero m).symm
    | succ n ih =>
      intro h hheight hh
      refine step h hh fun w hw index hi => ?_
      obtain ⟨m, hm, hgroup⟩ := hways _ hheight (mem_firstWays hw).1 hi
      obtain rfl := Nat.succ.inj hm
      exact ih _ hgroup rfl
  exact hall _ h (ha.height h) hh

end Dictionary

/-! ## What is required -/

mutual

/-- The member without what is required of it and in it. -/
def Member.unflagged : Member → Member
  | .field slot => .field { slot with required := false }
  | .group slot body => .group { slot with required := false } (unflagged body)

/-- The members without what is required of them and in them. -/
def unflagged : List Member → List Member
  | [] => []
  | m :: rest => m.unflagged :: unflagged rest

end

theorem unflagged_filterMap {α : Type} (f : α → Option Member) : ∀ l : List α,
    unflagged (l.filterMap f) = l.filterMap fun a => (f a).map Member.unflagged
  | [] => rfl
  | a :: rest => by
    rw [List.filterMap_cons, List.filterMap_cons]
    cases f a with
    | none => exact unflagged_filterMap f rest
    | some m => exact congrArg (m.unflagged :: ·) (unflagged_filterMap f rest)

theorem filterMap_eq_iff {α β : Type} {f g : α → Option β} : ∀ {l : List α},
    (∀ a ∈ l, (f a).isSome ∧ (g a).isSome) → (l.filterMap f = l.filterMap g ↔ ∀ a ∈ l, f a = g a)
  | [], _ => by simp
  | a :: rest, h => by
    obtain ⟨⟨hf, hg⟩, hrest⟩ := List.forall_mem_cons.1 h
    obtain ⟨b, hb⟩ := Option.isSome_iff_exists.1 hf
    obtain ⟨c, hc⟩ := Option.isSome_iff_exists.1 hg
    rw [List.filterMap_cons, List.filterMap_cons, hb, hc, List.forall_mem_cons, hb, hc]
    simp only [List.cons.injEq, Option.some.injEq, filterMap_eq_iff hrest]

namespace Dictionary

variable {d : Dictionary} {names : List String}

/-- The same members lie at the end of a way whatever is relaxed, up to what is required. -/
theorem unflagged_members_relax (ha : d.Acyclic) (names : List String) (h : Holder) (hh : h.isAggregate = true) :
    unflagged ((d.relax names).layoutOf h).members = unflagged (d.layoutOf h).members := by
  refine ha.aggregate_induction (P := fun h => unflagged ((d.relax names).layoutOf h).members =
    unflagged (d.layoutOf h).members) (fun h hh ih => ?_) h hh
  have hd := members_layoutOf ha [] hh
  rw [relax_nil] at hd
  rw [members_layoutOf ha names hh, hd, unflagged_filterMap, unflagged_filterMap]
  refine List.filterMap_congr fun w hw => ?_
  unfold memberAt?
  cases hi : w.last.item with
  | group index =>
    have hbody := ih w hw index hi
    simp only [groupSlot?_relax]
    simp only [groupSlot?, Option.map_map, Function.comp_def, Member.unflagged, hbody]
  | _ => rfl

/-- The member at the end of a way is the same if what is required is the same, and if it is a group, its
repetitions are. -/
theorem memberAt?_relax_eq_iff {w : Way} {r r' : Bool} (hw : (d.tagOf? w).isSome)
    (hbody : ∀ index, w.last.item = .group index →
      (d.relax names).layoutOf (.group index) = d.layoutOf (.group index)) :
    (d.relax names).memberAt? r w = d.memberAt? r' w ↔ r = r' := by
  unfold tagOf? at hw
  unfold memberAt?
  cases hi : w.last.item with
  | component name => simp [hi] at hw
  | field f => simp
  | group index =>
    simp only [hi, Option.isSome_map] at hw
    obtain ⟨g, hg⟩ := Option.isSome_iff_exists.1 hw
    simp only [groupSlot?_relax]
    simp [groupSlot?, hbody index hi, hg]

/-- The layouts before splicing are the layouts after it if and only if, for every way to a member, all entries
are required as soon as those outside the components that are spliced out are. -/
theorem layoutOf_relax_iff (ha : d.Acyclic) (names : List String) :
    (∀ h, h.isAggregate = true → (d.relax names).layoutOf h = d.layoutOf h) ↔
      ∀ h, h.isAggregate = true → ∀ w ∈ d.keptWays h,
        Way.requiredOutside names false w.entries = true → w.isRequired = true := by
  have hmembers (h : Holder) (hh : h.isAggregate = true) :
      (d.layoutOf h).members = (d.keptWays h).filterMap fun w => d.memberAt? w.isRequired w := by
    have := members_layoutOf ha [] hh
    simp only [relax_nil, Way.requiredOutside_nil] at this
    exact this
  have hsome (h : Holder) : ∀ w ∈ d.keptWays h,
      ((d.relax names).memberAt? (Way.requiredOutside names false w.entries) w).isSome ∧
        (d.memberAt? w.isRequired w).isSome := by
    intro w hw
    rw [← Option.isSome_map (f := Member.tag), ← Option.isSome_map (f := Member.tag), tag_memberAt?,
      tag_memberAt?]
    exact ⟨(mem_firstWays hw).2, (mem_firstWays hw).2⟩
  have hflag {w : Way} : Way.requiredOutside names false w.entries = w.isRequired ↔
      (Way.requiredOutside names false w.entries = true → w.isRequired = true) := by
    rw [Bool.eq_iff_iff]
    exact ⟨fun h => h.1, fun h => ⟨h, Way.requiredOutside_of_all names false⟩⟩
  constructor
  · intro hsame h hh w hw
    have heq := congrArg Layout.members (hsame h hh)
    rw [members_layoutOf ha names hh, hmembers h hh, filterMap_eq_iff (hsome h)] at heq
    exact hflag.1 ((memberAt?_relax_eq_iff (mem_firstWays hw).2 fun index _ => hsame _ rfl).1 (heq w hw))
  · intro hkeep
    refine ha.aggregate_induction fun h hh ih => ?_
    have hname : (d.relax names).nameOf h = d.nameOf h := by
      cases h <;> rfl
    have : ((d.relax names).layoutOf h).members = (d.layoutOf h).members := by
      rw [members_layoutOf ha names hh, hmembers h hh, filterMap_eq_iff (hsome h)]
      exact fun w hw => (memberAt?_relax_eq_iff (mem_firstWays hw).2 (ih w hw)).2 (hflag.2 (hkeep h hh w hw))
    rw [layoutOf, layoutOf, hname]
    exact congrArg (Layout.mk _) this

/-- A message that requires a component whose only entry is a group, which is required there or not. -/
def legs (required : Bool) : Declarations where
  major := 4
  minor := 4
  fields := [⟨555, "NoLegs", .numInGroup, []⟩, ⟨600, "LegSymbol", .string, []⟩]
  components := [⟨"LegsGroup", [.group required ⟨555, "NoLegs", .numInGroup, []⟩
    [.field false ⟨600, "LegSymbol", .string, []⟩]]⟩]
  messages := [⟨"Quote", "S", .app, [.component true "LegsGroup"]⟩]
  header := []
  trailer := []

theorem detached_ofDeclarations (decls : Declarations) : (ofDeclarations decls).Detached :=
  fun _ _ _ _ _ => List.not_mem_nil

/-- Splicing keeps the layouts up to what is required : the members in their order, the tags, the bodies of groups
and their delimiters. It keeps all of a layout if and only if no way to a member has its entries required outside
the components that are spliced out, but not inside them. -/
theorem layoutOf_normalize_iff {decls : Declarations} (ha : (ofDeclarations decls).Acyclic) :
    let d := ofDeclarations decls
    (∀ h, h.isAggregate = true →
      unflagged (d.normalize.layoutOf h).members = unflagged (d.layoutOf h).members) ∧
    ((∀ h, h.isAggregate = true → d.normalize.layoutOf h = d.layoutOf h) ↔
      ∀ h, h.isAggregate = true → ∀ w ∈ d.keptWays h,
        Way.requiredOutside d.normalize.spliced false w.entries = true → w.isRequired = true) := by
  intro d
  have hnormalize (h : Holder) (hh : h.isAggregate = true) :
      d.normalize.layoutOf h = (d.relax d.normalize.spliced).layoutOf h := by
    refine layoutOf_normalize ha (detached_ofDeclarations decls) ?_
    cases h <;> first | rfl | simp [Holder.isAggregate] at hh
  refine ⟨fun h hh => ?_, ?_⟩
  · rw [hnormalize h hh]
    exact unflagged_members_relax ha _ h hh
  · rw [← layoutOf_relax_iff ha]
    exact forall_congr' fun h => forall_congr' fun hh => by rw [hnormalize h hh]

/-- Where the group is required inside the component as well, splicing keeps all layouts. -/
theorem layoutOf_normalize_required :
    (ofDeclarations (legs true)).Acyclic ∧ ∀ h, h.isAggregate = true →
      (ofDeclarations (legs true)).normalize.layoutOf h = (ofDeclarations (legs true)).layoutOf h := by
  have ha : (ofDeclarations (legs true)).Acyclic := acyclic_of_cycle? (by decide +kernel)
  refine ⟨ha, (layoutOf_normalize_iff ha).2.2 fun h hh => ?_⟩
  match h with
  | .header | .trailer | .message 0 | .group 0 => decide +kernel
  | .message (_ + 1) | .group (_ + 1) => exact fun w hw => absurd hw List.not_mem_nil

/-- Where the group is not required inside the component, splicing makes it required in the message. -/
theorem layoutOf_normalize_ne :
    (ofDeclarations (legs false)).Acyclic ∧
      (ofDeclarations (legs false)).normalize.layoutOf (.message 0) ≠
        (ofDeclarations (legs false)).layoutOf (.message 0) := by
  refine ⟨acyclic_of_cycle? (by decide +kernel), fun h => ?_⟩
  have hafter : ((ofDeclarations (legs false)).normalize.layoutOf (.message 0)).requiredTags = [555] := by
    decide +kernel
  rw [h] at hafter
  exact absurd hafter (by decide +kernel)

end Dictionary

end FixWire
