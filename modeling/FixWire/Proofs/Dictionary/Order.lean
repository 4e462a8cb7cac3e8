import FixWire.Proofs.Dictionary.Binding
import FixWire.Proofs.Dictionary.Documents
import FixWire.Proofs.Dictionary.Reading
import FixWire.Proofs.Dictionary.Renumber
import Mathlib.Data.List.Perm.Basic

/-!
# The order of declarations

A dictionary does not depend on the order in which its components are declared, nor on the order of the sections of its
document, as long as sections of one kind keep their order. Only the numbers of groups depend on it. When two
neighbouring components change places, so do the blocks of numbers of the groups in them (`ofDeclarations_swap`), and
any other order comes of such changes (`ofDeclarations_perm`).

A document with its declarations in another order is compiled if it was compiled before, to the same dictionary up to
those numbers (`compile_rearranged`). It need not be refused for the same cause, because the first of several causes
counts.
-/

namespace FixWire

/-! ## Two neighbours changing places -/

/-- Where something goes if, after the first `a` things, the next `m` and the `n` after them change places. -/
def swapIndex (a m n i : Nat) : Nat :=
  if i < a then i else if i < a + m then i + n else if i < a + m + n then i - m else i

/-- Swapping the neighbours back gives the old places. -/
theorem swapIndex_swapIndex (a m n i : Nat) : swapIndex a n m (swapIndex a m n i) = i := by
  unfold swapIndex
  split_ifs <;> omega

/-- After the first `a` things the next `m` and the `n` after them change places. -/
def swapBlocks (a m n : Nat) : Equiv.Perm Nat where
  toFun := swapIndex a m n
  invFun := swapIndex a n m
  left_inv := swapIndex_swapIndex a m n
  right_inv := swapIndex_swapIndex a n m

/-- What stands before the two blocks stays where it is. -/
theorem swapBlocks_of_lt {a m n i : Nat} (h : i < a) : swapBlocks a m n i = i :=
  if_pos h

/-- The first block moves behind the second one. -/
theorem swapBlocks_first {a m n i : Nat} (h : i < m) : swapBlocks a m n (a + i) = a + n + i := by
  change swapIndex a m n (a + i) = _
  rw [swapIndex, if_neg (by omega), if_pos (by omega)]
  omega

/-- The second block moves before the first one. -/
theorem swapBlocks_second {a m n i : Nat} (h : i < n) : swapBlocks a m n (a + m + i) = a + i := by
  change swapIndex a m n (a + m + i) = _
  rw [swapIndex, if_neg (by omega), if_neg (by omega), if_pos (by omega)]
  omega

/-- What stands behind the two blocks stays where it is. -/
theorem swapBlocks_of_le {a m n i : Nat} (h : a + m + n ≤ i) : swapBlocks a m n i = i := by
  change swapIndex a m n i = _
  rw [swapIndex, if_neg (by omega), if_neg (by omega), if_neg (by omega)]

theorem getElem?_block {α : Type} (before block after : List α) {i : Nat} (h : i < block.length) :
    (before ++ block ++ after)[before.length + i]? = block[i]? := by
  rw [List.append_assoc, List.getElem?_append_right (Nat.le_add_right _ _), Nat.add_sub_cancel_left,
    List.getElem?_append_left h]

/-- Elements are found at their new places. -/
theorem getElem?_swapBlocks {α : Type} (before : List α) {first second : List α} (after : List α) {m n : Nat}
    (hm : first.length = m) (hn : second.length = n) (i : Nat) :
    (before ++ second ++ first ++ after)[swapBlocks before.length m n i]? =
      (before ++ first ++ second ++ after)[i]? := by
  subst hm hn
  rcases Nat.lt_or_ge i before.length with hbefore | hbefore
  · rw [swapBlocks_of_lt hbefore]
    simp only [List.append_assoc, List.getElem?_append_left hbefore]
  obtain ⟨i, rfl⟩ := Nat.exists_eq_add_of_le hbefore
  rcases Nat.lt_or_ge i first.length with hfirst | hfirst
  · rw [swapBlocks_first hfirst, ← List.length_append, getElem?_block _ _ _ hfirst, List.append_assoc _ second,
      getElem?_block _ _ _ hfirst]
  obtain ⟨i, rfl⟩ := Nat.exists_eq_add_of_le hfirst
  rw [← Nat.add_assoc]
  rcases Nat.lt_or_ge i second.length with hsecond | hsecond
  · rw [swapBlocks_second hsecond, ← List.length_append, getElem?_block _ _ _ hsecond, List.append_assoc _ first,
      getElem?_block _ _ _ hsecond]
  · have hle : before.length + first.length + second.length ≤ before.length + first.length + i :=
      Nat.add_le_add_left hsecond _
    rw [swapBlocks_of_le hle]
    have hlength : (before ++ second ++ first).length = (before ++ first ++ second).length := by
      simp only [List.length_append]
      omega
    have hle' : (before ++ first ++ second).length ≤ before.length + first.length + i := by
      simpa only [List.length_append] using hle
    rw [List.getElem?_append_right (hlength ▸ hle'), List.getElem?_append_right hle', hlength]

/-- Two neighbours of which only one can be meant may change places. -/
theorem find?_swap {α : Type} {p : α → Bool} {x y : α} (h : ¬(p x = true ∧ p y = true)) (before after : List α) :
    (before ++ y :: x :: after).find? p = (before ++ x :: y :: after).find? p := by
  rw [List.find?_append, List.find?_append, List.find?_cons, List.find?_cons, List.find?_cons, List.find?_cons]
  cases hx : p x <;> cases hy : p y <;> simp_all

/-- Components are laid out one after another. -/
theorem layOutComponents_append : ∀ (groups : List Group) (cs cs' : List DeclaredComponent),
    layOutComponents groups (cs ++ cs') =
      ((layOutComponents (layOutComponents groups cs).1 cs').1,
        (layOutComponents groups cs).2 ++ (layOutComponents (layOutComponents groups cs).1 cs').2)
  | _, [], _ => rfl
  | groups, c :: rest, cs' => by
    have ih := layOutComponents_append (layOut groups c.members).1 rest cs'
    have hgroups := congrArg Prod.fst ih
    have hcomponents := congrArg (fun p => Component.mk c.name (layOut groups c.members).2 :: p.2) ih
    exact Prod.ext hgroups hcomponents

/-- What is laid out first has no numbers but its own. -/
theorem layOutComponents_keep {φ : Nat → Nat} (cs : List DeclaredComponent)
    (hφ : ∀ i < (layOutComponents [] cs).1.length, φ i = i) :
    (layOutComponents [] cs).1.map (Group.renumber φ) = (layOutComponents [] cs).1 ∧
      (layOutComponents [] cs).2.map (Component.renumber φ) = (layOutComponents [] cs).2 := by
  have hlength := (layOutComponents_renumber (φ := id) cs [] [] fun _ _ => rfl).1.length.1
  rw [List.length_nil, Nat.zero_add] at hlength
  obtain ⟨⟨new, -, hnew, hnew'⟩, hcomponents⟩ := layOutComponents_renumber (φ := φ) cs [] []
    fun i hi => by
      rw [List.length_nil, Nat.zero_add]
      exact hφ i (hlength ▸ hi)
  rw [List.nil_append] at hnew hnew'
  exact ⟨(congrArg _ hnew).trans hnew'.symm, hcomponents.symm⟩

/-- Laying out declarations adds as many groups as there are in them. -/
theorem length_layOut (groups : List Group) (ds : List Declaration) :
    (layOut groups ds).1.length = groups.length + groupCount ds :=
  (layOut_renumber (φ := id) ds groups groups fun _ _ => rfl).1.length.1

/-- Two lists of declared entries laid out in either order are the same up to the numbers of their groups. -/
theorem layOut_swap (groups : List Group) (ds ds' : List Declaration) {φ : Equiv.Perm Nat}
    (hφ : φ = swapBlocks groups.length (groupCount ds) (groupCount ds')) :
    ∃ first second, first.length = groupCount ds ∧ second.length = groupCount ds' ∧
      (layOut (layOut groups ds).1 ds').1 = groups ++ first ++ second ∧
      (layOut (layOut groups ds').1 ds).1 =
        groups ++ second.map (Group.renumber φ) ++ first.map (Group.renumber φ) ∧
      (layOut (layOut groups ds').1 ds).2 = (layOut groups ds).2.map (Entry.renumber φ) ∧
      (layOut groups ds').2 = (layOut (layOut groups ds).1 ds').2.map (Entry.renumber φ) := by
  obtain ⟨⟨first, hfirst, hnew, hnew'⟩, hentries⟩ := layOut_renumber (φ := φ) ds groups (layOut groups ds').1
    fun i hi => by rw [length_layOut, hφ, swapBlocks_first hi]
  obtain ⟨⟨second, hsecond, hmore, hmore'⟩, hothers⟩ := layOut_renumber (φ := φ) ds' (layOut groups ds).1 groups
    fun i hi => by rw [length_layOut, hφ, swapBlocks_second hi]
  exact ⟨first, second, hfirst, hsecond, by rw [hmore, hnew], by rw [hnew', hmore'], hentries, hothers⟩

namespace Dictionary

/-! ## Two components changing places -/

/-- The dictionary with the declarations as they are, if the given groups and components have been laid out and the
declared components have not. -/
def layOutRest (d : Declarations) (groups : List Group) (components : List Component) (cs : List DeclaredComponent) :
    Dictionary :=
  let (groups, rest) := layOutComponents groups cs
  let (groups, messages) := layOutMessages groups d.messages
  let (groups, header) := layOut groups d.header
  let (groups, trailer) := layOut groups d.trailer
  { major := d.major, minor := d.minor, fields := d.fields, groups, components := components ++ rest, spliced := [],
    messages, header, trailer }

/-- A dictionary of declarations, with its components laid out in two goes. -/
theorem ofDeclarations_append (d : Declarations) (cs cs' : List DeclaredComponent) :
    ofDeclarations { d with components := cs ++ cs' } =
      layOutRest d (layOutComponents [] cs).1 (layOutComponents [] cs).2 cs' := by
  simp only [ofDeclarations, layOutComponents_append]
  rfl

/-- A dictionary of declarations, with two neighbours laid out one after the other. -/
theorem ofDeclarations_neighbours (d : Declarations) (before after : List DeclaredComponent) (x y : DeclaredComponent) :
    ofDeclarations { d with components := before ++ x :: y :: after } =
      layOutRest d (layOut (layOut (layOutComponents [] before).1 x.members).1 y.members).1
        ((layOutComponents [] before).2 ++ [⟨x.name, (layOut (layOutComponents [] before).1 x.members).2⟩,
          ⟨y.name, (layOut (layOut (layOutComponents [] before).1 x.members).1 y.members).2⟩]) after := by
  have hneighbours := ofDeclarations_append d (before ++ [x, y]) after
  rw [layOutComponents_append, List.append_assoc] at hneighbours
  exact hneighbours

/-- What is left to lay out is the same after other groups, up to the numbers of its groups. -/
theorem layOutRest_renumber {φ : Nat → Nat} (d : Declarations) {groups groups' : List Group}
    (cs : List DeclaredComponent) (hφ : ∀ i, groups.length ≤ i → φ i = i) (hlength : groups'.length = groups.length)
    (components components' : List Component) :
    (∃ new, (layOutRest d groups components cs).groups = groups ++ new ∧
      (layOutRest d groups' components' cs).groups = groups' ++ new.map (Group.renumber φ)) ∧
    (∃ new, (layOutRest d groups components cs).components = components ++ new ∧
      (layOutRest d groups' components' cs).components = components' ++ new.map (Component.renumber φ)) ∧
    (layOutRest d groups' components' cs).messages =
      (layOutRest d groups components cs).messages.map (Message.renumber φ) ∧
    (layOutRest d groups' components' cs).header = (layOutRest d groups components cs).header.map (Entry.renumber φ) ∧
    (layOutRest d groups' components' cs).trailer =
      (layOutRest d groups components cs).trailer.map (Entry.renumber φ) := by
  have hfollow (count : Nat) : Follow φ count groups groups' := fun i _ => by
    rw [hφ _ (Nat.le_add_right _ _), hlength]
  have hall := hfollow (componentsCount cs + (messagesCount d.messages + (groupCount d.header + groupCount d.trailer)))
  obtain ⟨hcomponents, hcs⟩ := layOutComponents_renumber cs _ _ hall.left
  obtain ⟨hmessages, hms⟩ := layOutMessages_renumber d.messages _ _ (hall.right hcomponents).left
  obtain ⟨hheader, hhs⟩ := layOut_renumber d.header _ _ ((hall.right hcomponents).right hmessages).left
  obtain ⟨htrailer, hts⟩ := layOut_renumber d.trailer _ _ (((hall.right hcomponents).right hmessages).right hheader)
  obtain ⟨new, -, hnew, hnew'⟩ := hcomponents.trans (hmessages.trans (hheader.trans htrailer))
  exact ⟨⟨new, hnew, hnew'⟩, ⟨_, rfl, congrArg _ hcs⟩, hms, hhs, hts⟩

/-- When two neighbouring components change places, the groups in them change numbers. -/
theorem ofDeclarations_swap (d : Declarations) (before after : List DeclaredComponent) {x y : DeclaredComponent}
    (hxy : x.name ≠ y.name) :
    ∃ φ, Renumbered φ (ofDeclarations { d with components := before ++ x :: y :: after })
      (ofDeclarations { d with components := before ++ y :: x :: after }) := by
  let A := layOutComponents [] before
  let X := layOut A.1 x.members
  let Y := layOut X.1 y.members
  let Y' := layOut A.1 y.members
  let X' := layOut Y'.1 x.members
  -- Groups before the two components keep their numbers, those in them change places, and those after keep theirs.
  let φ := swapBlocks A.1.length (groupCount x.members) (groupCount y.members)
  obtain ⟨hkeep, hkeepComponents⟩ := layOutComponents_keep (φ := φ) before fun i hi => swapBlocks_of_lt hi
  obtain ⟨first, second, hfirst, hsecond, hY, hX', hx, hy⟩ := layOut_swap A.1 x.members y.members (φ := φ) rfl
  have hlength : X'.1.length = Y.1.length := by
    rw [hX', hY]
    simp only [List.length_append, List.length_map]
    omega
  have hfixed (i : Nat) (hi : Y.1.length ≤ i) : φ i = i := by
    refine swapBlocks_of_le ?_
    rwa [hY, List.length_append, List.length_append, hfirst, hsecond] at hi
  obtain ⟨⟨last, hgroups, hgroups'⟩, ⟨cs, hcs, hcs'⟩, hmessages, hheader, htrailer⟩ :=
    layOutRest_renumber d after hfixed hlength (A.2 ++ [⟨x.name, X.2⟩, ⟨y.name, Y.2⟩])
      (A.2 ++ [⟨y.name, Y'.2⟩, ⟨x.name, X'.2⟩])
  have hall : (layOutRest d X'.1 (A.2 ++ [⟨y.name, Y'.2⟩, ⟨x.name, X'.2⟩]) after).groups =
      (A.1 ++ second ++ first ++ last).map (Group.renumber φ) := by
    rw [hgroups', hX', List.map_append, List.map_append, List.map_append, hkeep]
  have hallComponents : (layOutRest d X'.1 (A.2 ++ [⟨y.name, Y'.2⟩, ⟨x.name, X'.2⟩]) after).components =
      (A.2 ++ ⟨y.name, Y.2⟩ :: ⟨x.name, X.2⟩ :: cs).map (Component.renumber φ) := by
    rw [hcs', hy, hx, List.map_append, hkeepComponents, List.append_assoc]
    rfl
  rw [List.append_assoc] at hcs
  refine ⟨φ, ?_⟩
  rw [ofDeclarations_neighbours, ofDeclarations_neighbours]
  exact
    { major := rfl
      minor := rfl
      fields := rfl
      groups := fun index => by
        rw [hall, List.getElem?_map, hgroups, hY, getElem?_swapBlocks A.1 last hfirst hsecond]
      groups_length := by
        rw [hgroups, hgroups', List.length_append, List.length_append, List.length_map, hlength]
      components := fun name => by
        rw [component?, component?, hallComponents, hcs, List.find?_map]
        refine congrArg (Option.map _) (find?_swap ?_ A.2 cs)
        rintro ⟨hx, hy⟩
        exact hxy ((eq_of_beq hx).trans (eq_of_beq hy).symm)
      components_length := by
        rw [hallComponents, hcs, List.length_map, List.length_append, List.length_append]
        rfl
      spliced := fun _ => Iff.rfl
      messages := hmessages
      header := hheader
      trailer := htrailer }

/-- Components in another order change the numbers of groups and nothing else, if they have different names. -/
theorem ofDeclarations_perm {cs cs' : List DeclaredComponent} (h : cs.Perm cs') (d : Declarations) :
    ∀ before : List DeclaredComponent, ((before ++ cs).map DeclaredComponent.name).Nodup →
      ∃ φ, Renumbered φ (ofDeclarations { d with components := before ++ cs })
        (ofDeclarations { d with components := before ++ cs' }) := by
  induction h with
  | nil => exact fun _ _ => ⟨_, .refl _⟩
  | cons c _ ih =>
    intro before hnodup
    have := ih (before ++ [c])
    simp only [List.append_assoc, List.singleton_append] at this
    exact this hnodup
  | swap x y rest =>
    intro before hnodup
    rw [List.map_append, List.nodup_append] at hnodup
    have hne : y.name ≠ x.name := fun heq => (List.nodup_cons.1 hnodup.2.1).1 (heq ▸ List.mem_cons_self)
    exact ofDeclarations_swap d before rest hne
  | trans h _ ih ih' =>
    intro before hnodup
    obtain ⟨φ, hφ⟩ := ih before hnodup
    obtain ⟨ψ, hψ⟩ := ih' before (((h.append_left before).map _).nodup_iff.1 hnodup)
    exact ⟨_, hφ.trans hψ⟩

end Dictionary

/-! ## Rearranged documents -/

/-- The second document is the first one with components in another order inside their sections, and with sections of
different kinds in another order. -/
inductive Rearranged : Xml.Element → Xml.Element → Prop
  /-- Nothing changes. -/
  | refl (root : Xml.Element) : Rearranged root root
  /-- Two neighbouring sections of different kinds change places. -/
  | sections {name : String} {attributes : List (String × String)} (before after : List Xml.Element)
    {s s' : Xml.Element} (h : s.name ≠ s'.name) :
    Rearranged ⟨name, attributes, before ++ s :: s' :: after⟩ ⟨name, attributes, before ++ s' :: s :: after⟩
  /-- What is in a section of components gets another order. -/
  | components {name : String} {attributes : List (String × String)} (before after : List Xml.Element)
    {attributes' : List (String × String)} {children children' : List Xml.Element} (h : children.Perm children') :
    Rearranged ⟨name, attributes, before ++ ⟨"components", attributes', children⟩ :: after⟩
      ⟨name, attributes, before ++ ⟨"components", attributes', children'⟩ :: after⟩
  /-- One change is made after the other. -/
  | trans {root root' root'' : Xml.Element} (h : Rearranged root root') (h' : Rearranged root' root'') :
    Rearranged root root''

/-- Rearranging can be undone. -/
theorem Rearranged.symm {root root' : Xml.Element} (h : Rearranged root root') : Rearranged root' root := by
  induction h with
  | refl root => exact .refl root
  | sections before after h => exact .sections before after h.symm
  | components before after h => exact .components before after h.symm
  | trans _ _ ih ih' => exact ih'.trans ih

open Declarations (inSections)

/-- The documents have the same sections, up to the order of the components in them. -/
structure SameSections (root root' : Xml.Element) : Prop where
  name : root'.name = root.name
  attributes : root'.attributes = root.attributes
  others : ∀ kind, kind ≠ "components" → root'.childrenNamed kind = root.childrenNamed kind
  components : (inSections root "components" "component").Perm (inSections root' "components" "component")

theorem filter_swap {α : Type} {p : α → Bool} {x y : α} (h : ¬(p x = true ∧ p y = true)) (before after : List α) :
    (before ++ y :: x :: after).filter p = (before ++ x :: y :: after).filter p := by
  rw [List.filter_append, List.filter_append]
  cases hx : p x <;> cases hy : p y <;> simp_all

/-- Rearranged documents have the same sections, but for the order of their components. -/
theorem Rearranged.sameSections {root root' : Xml.Element} (h : Rearranged root root') : SameSections root root' := by
  induction h with
  | refl root => exact ⟨rfl, rfl, fun _ _ => rfl, .refl _⟩
  | @sections name attributes before after s s' h =>
    have hsame (kind : String) : Xml.Element.childrenNamed ⟨name, attributes, before ++ s' :: s :: after⟩ kind =
        Xml.Element.childrenNamed ⟨name, attributes, before ++ s :: s' :: after⟩ kind := by
      refine filter_swap ?_ before after
      rintro ⟨hs, hs'⟩
      exact h ((eq_of_beq hs).trans (eq_of_beq hs').symm)
    refine ⟨rfl, rfl, fun kind _ => hsame kind, ?_⟩
    rw [inSections, inSections, hsame]
  | @components name attributes before after attributes' children children' h =>
    refine ⟨rfl, rfl, fun kind hkind => ?_, ?_⟩
    · have hother : ("components" == kind) = false := beq_eq_false_iff_ne.2 hkind.symm
      simp [Xml.Element.childrenNamed, hother]
    · simp only [inSections, Xml.Element.childrenNamed, List.filter_append, List.filter_cons, beq_self_eq_true, if_true,
        List.flatMap_append, List.flatMap_cons]
      exact ((h.filter _).append_right _).append_left _
  | trans _ _ ih ih' =>
    exact ⟨ih'.name.trans ih.name, ih'.attributes.trans ih.attributes,
      fun kind hkind => (ih'.others kind hkind).trans (ih.others kind hkind), ih.components.trans ih'.components⟩

namespace SameSections

variable {root root' : Xml.Element}

/-- They have the same numbers. -/
theorem requireNumber (h : SameSections root root') (name : String) :
    root'.requireNumber name = root.requireNumber name := by
  unfold Xml.Element.requireNumber Xml.Element.require Xml.Element.attribute?
  rw [h.name, h.attributes]

/-- The elements in a section of another kind are the same. -/
theorem inSections (h : SameSections root root') {kind : String} (hkind : kind ≠ "components") (name : String) :
    Declarations.inSections root' kind name = Declarations.inSections root kind name := by
  rw [Declarations.inSections, h.others kind hkind]
  rfl

/-- The children of another kind are the same. -/
theorem child? (h : SameSections root root') {kind : String} (hkind : kind ≠ "components") :
    root'.child? kind = root.child? kind := by
  have hothers := congrArg List.head? (h.others kind hkind)
  rwa [Xml.Element.childrenNamed, Xml.Element.childrenNamed, List.head?_filter, List.head?_filter] at hothers

/-- The same is read of both, up to the order of the components. -/
theorem read (h : SameSections root root') {d : Declarations} (hd : Declarations.read root = .ok d) :
    ∃ cs, Declarations.read root' = .ok { d with components := cs } ∧ d.components.Perm cs ∧
      (d.components.map DeclaredComponent.name).Nodup := by
  obtain ⟨hroot, hmajor, hminor, hfields, hcomponents, hmessages, hheader, htrailer⟩ := Declarations.read_eq_ok_iff.1 hd
  obtain ⟨cs, hcs, hsame, hnodup⟩ := (readComponents_eq_ok_iff [] List.nodup_nil).1 hcomponents
  rw [List.nil_append] at hsame
  subst hsame
  obtain ⟨cs', hcs', hperm⟩ := List.perm_comp_forall₂ h.components.symm hcs
  refine ⟨cs', Declarations.read_eq_ok_iff.2 ⟨h.name.trans hroot, ?_, ?_, ?_, ?_, ?_, ?_, ?_⟩, hperm.symm, hnodup⟩
  · rw [h.requireNumber, hmajor]
  · rw [h.requireNumber, hminor]
  · rw [h.inSections (by decide), hfields]
  · exact (readComponents_eq_ok_iff [] List.nodup_nil).2
      ⟨cs', hcs', (List.nil_append _).symm, (hperm.map _).nodup_iff.2 hnodup⟩
  · rw [h.inSections (by decide), hmessages]
  · rw [h.child? (by decide), hheader]
  · rw [h.child? (by decide), htrailer]

end SameSections

/-! ## Mentions in another order -/

/-- The order of the components does not matter to whether all that are mentioned are declared. -/
theorem Declarations.unresolved?_perm {d : Declarations} {cs : List DeclaredComponent} (h : d.components.Perm cs)
    (hd : d.unresolved? = none) : unresolved? { d with components := cs } = none := by
  rw [unresolved?_eq_none_iff] at hd ⊢
  intro name hname
  refine (h.map DeclaredComponent.name).mem_iff.1 (hd name ?_)
  simp only [mentions, List.mem_append] at hname ⊢
  rwa [(h.flatMap_right _).mem_iff]

/-! ## Outcomes -/

/-- Both computations are refused, for whatever causes, or neither of them is. -/
inductive SameOutcome {ε α β : Type} (r : α → β → Prop) : Except ε α → Except ε β → Prop
  | refused (cause cause' : ε) : SameOutcome r (.error cause) (.error cause')
  | done {a : α} {b : β} (h : r a b) : SameOutcome r (.ok a) (.ok b)

/-- Outcomes are the same if the first succeeds in the same way whenever the second does. -/
theorem sameOutcome_of_ok {ε α β : Type} {r : α → β → Prop} {x : Except ε α} {y : Except ε β}
    (h : ∀ a, x = .ok a → ∃ b, y = .ok b ∧ r a b) (h' : ∀ b, y = .ok b → ∃ a, x = .ok a) : SameOutcome r x y := by
  cases x with
  | ok a =>
    obtain ⟨b, rfl, hr⟩ := h a rfl
    exact .done hr
  | error cause =>
    cases y with
    | error cause' => exact .refused cause cause'
    | ok b =>
      obtain ⟨a, ha⟩ := h' b rfl
      cases ha

/-- The header, the trailer and every message have equal layouts. -/
structure Codecs.SameLayouts (c c' : Codecs) : Prop where
  header : c'.header = c.header
  trailer : c'.dictionary.layoutOf .trailer = c.dictionary.layoutOf .trailer
  messages : c'.messages = c.messages

namespace Dictionary

/-- The dictionaries are the same up to the numbers of the groups : so are the components in their tables, and codecs
made from them have equal layouts. -/
structure Same (d d' : Dictionary) : Prop where
  table : ∃ φ : Equiv.Perm Nat, Renumbered φ d d' ∧
    ∀ name, d'.tableComponent? name = (d.tableComponent? name).map (Component.renumber φ)
  codecs : ∀ validating, SameOutcome Codecs.SameLayouts (Codecs.ofDictionary d validating)
    (Codecs.ofDictionary d' validating)

/-- Dictionaries that differ in the numbers of groups are the same. -/
theorem Renumbered.same {φ : Equiv.Perm Nat} {d d' : Dictionary} (h : Renumbered φ d d') : d.Same d' where
  table := ⟨φ, h, h.tableComponent?⟩
  codecs validating := by
    refine sameOutcome_of_ok (fun c hc => ?_) fun c hc => ?_
    · obtain ⟨hfault, hclash, rfl⟩ := Codecs.ofDictionary_eq_ok_iff.1 hc
      refine ⟨_, Codecs.ofDictionary_eq_ok_iff.2 ⟨h.fault?.2 hfault, ?_, rfl⟩, ?_⟩
      · rwa [h.messageLayouts]
      · exact ⟨h.layoutOf .header, h.layoutOf .trailer, h.messageLayouts⟩
    · obtain ⟨hfault, hclash, rfl⟩ := Codecs.ofDictionary_eq_ok_iff.1 hc
      refine ⟨_, Codecs.ofDictionary_eq_ok_iff.2 ⟨h.fault?.1 hfault, ?_, rfl⟩⟩
      rwa [← h.messageLayouts]

/-! ## Compiling rearranged documents -/

/-- Compiling a document is reading its declarations, looking for a component that is not declared, and normalizing. -/
theorem compile_eq {text : String} {root : Xml.Element} (hroot : Xml.root? text = some (some root)) :
    compile text = Declarations.read root >>= fun d =>
      match d.unresolved? with
      | some name => .error (.unresolvedComponent name)
      | none => .ok (ofDeclarations d).normalize := by
  rw [compile, Declarations.ofDocument, hroot]
  change Declarations.ofRoot root >>= _ = _
  rw [Declarations.ofRoot_eq, bind_assoc]
  refine bind_congr fun d => ?_
  cases d.unresolved? <;> rfl

/-- A document that has been read is compiled if all components that are mentioned in it are declared. -/
theorem compile_of_read {text : String} {root : Xml.Element} {d : Declarations}
    (hroot : Xml.root? text = some (some root)) (hread : Declarations.read root = .ok d) :
    compile text = match d.unresolved? with
      | some name => .error (.unresolvedComponent name)
      | none => .ok (ofDeclarations d).normalize := by
  rw [compile_eq hroot, hread]
  rfl

/-- The components are read in another order, which gives other numbers to the groups. -/
theorem exists_compile_of_sameSections {text text' : String} {root root' : Xml.Element} {d : Dictionary}
    (hroot : Xml.root? text = some (some root)) (hroot' : Xml.root? text' = some (some root'))
    (h : SameSections root root') (hd : compile text = .ok d) :
    ∃ d' φ, compile text' = .ok d' ∧ Renumbered φ d d' := by
  obtain ⟨declared, hread, -⟩ := exists_of_bind (compile_eq hroot ▸ hd)
  obtain ⟨cs, hread', hperm, hnodup⟩ := h.read hread
  rw [compile_of_read hroot hread] at hd
  cases hresolved : declared.unresolved? with
  | some name => simp [hresolved] at hd
  | none =>
    simp only [hresolved, Except.ok.injEq] at hd
    subst hd
    obtain ⟨φ, hφ⟩ := ofDeclarations_perm hperm declared [] hnodup
    refine ⟨_, φ, ?_, hφ.normalize⟩
    rw [compile_of_read hroot' hread', Declarations.unresolved?_perm hperm hresolved]
    rfl

/-- The documents have rearranged roots, or neither of them has a root. -/
def RearrangedText (text text' : String) : Prop :=
  Option.Rel (Option.Rel Rearranged) (Xml.root? text) (Xml.root? text')

/-- Rearranged documents are compiled with the same outcome. -/
theorem sameOutcome_compile {text text' : String} (h : RearrangedText text text') :
    SameOutcome Same (compile text) (compile text') := by
  unfold RearrangedText at h
  generalize hroot : Xml.root? text = root at h
  generalize hroot' : Xml.root? text' = root' at h
  obtain @⟨root, root', h⟩ | _ := h
  · obtain @⟨root, root', h⟩ | _ := h
    · refine sameOutcome_of_ok (fun d hd => ?_) fun d hd => ?_
      · obtain ⟨d', φ, hd', hφ⟩ := exists_compile_of_sameSections hroot hroot' h.sameSections hd
        exact ⟨d', hd', hφ.same⟩
      · obtain ⟨d', _, hd', -⟩ := exists_compile_of_sameSections hroot' hroot h.symm.sameSections hd
        exact ⟨d', hd'⟩
    · rw [compile, compile, Declarations.ofDocument, Declarations.ofDocument, hroot, hroot']
      exact .refused _ _
  · rw [compile, compile, Declarations.ofDocument, Declarations.ofDocument, hroot, hroot']
    exact .refused _ _

/-! ## Components that are not declared -/

/-- A document is refused for a component only if no section declares one with the name. -/
theorem attribute?_ne_of_compile {text : String} {root : Xml.Element} {name : String}
    (hroot : Xml.root? text = some (some root)) (h : compile text = .error (.unresolvedComponent name)) :
    ∀ e ∈ inSections root "components" "component", e.attribute? "name" ≠ some name := by
  cases hread : Declarations.read root with
  | error cause =>
    rw [compile_eq hroot, hread] at h
    cases h
    exact absurd hread (neverUnresolved_read root name)
  | ok declared =>
    rw [compile_of_read hroot hread] at h
    cases hresolved : declared.unresolved? with
    | none => simp [hresolved] at h
    | some name' =>
      simp only [hresolved, Except.error.injEq, DocumentError.unresolvedComponent.injEq] at h
      exact h ▸ Declarations.attribute?_ne_of_unresolved? hread hresolved

end Dictionary

/-! ## Two documents -/

namespace Xml

mutual

/-- Whether two elements are equal can be decided. -/
def Element.decideEq : (e e' : Element) → Decidable (e = e')
  | ⟨name, attributes, children⟩, ⟨name', attributes', children'⟩ =>
    match decEq name name', decEq attributes attributes', decideEqAll children children' with
    | isTrue h, isTrue h', isTrue h'' => isTrue (by rw [h, h', h''])
    | isFalse h, _, _ => isFalse fun heq => h (congrArg Element.name heq)
    | _, isFalse h, _ => isFalse fun heq => h (congrArg Element.attributes heq)
    | _, _, isFalse h => isFalse fun heq => h (congrArg Element.children heq)

/-- Whether two lists of elements are equal can be decided. -/
def decideEqAll : (es es' : List Element) → Decidable (es = es')
  | [], [] => isTrue rfl
  | [], _ :: _ => isFalse (List.cons_ne_nil _ _).symm
  | _ :: _, [] => isFalse (List.cons_ne_nil _ _)
  | e :: es, e' :: es' =>
    match e.decideEq e', decideEqAll es es' with
    | isTrue h, isTrue h' => isTrue (by rw [h, h'])
    | isFalse h, _ => isFalse fun heq => h (List.cons.inj heq).1
    | _, isFalse h => isFalse fun heq => h (List.cons.inj heq).2

end

instance : DecidableEq Element :=
  Element.decideEq

end Xml

namespace Sample

/-- A section of fields. -/
def fieldSection : Xml.Element :=
  ⟨"fields", [], [⟨"field", [("number", "55"), ("name", "Symbol"), ("type", "STRING")], []⟩,
    ⟨"field", [("number", "448"), ("name", "PartyID"), ("type", "STRING")], []⟩,
    ⟨"field", [("number", "453"), ("name", "NoPartyIDs"), ("type", "NUMINGROUP")], []⟩,
    ⟨"field", [("number", "555"), ("name", "NoLegs"), ("type", "NUMINGROUP")], []⟩]⟩

/-- A section of messages. -/
def messageSection : Xml.Element :=
  ⟨"messages", [], [⟨"message", [("name", "Quote"), ("msgtype", "S"), ("msgcat", "app")],
    [⟨"component", [("name", "Deal")], []⟩]⟩]⟩

/-- A component with a group that mentions another component. -/
def dealComponent : Xml.Element :=
  ⟨"component", [("name", "Deal")],
    [⟨"component", [("name", "Parties")], []⟩, ⟨"group", [("name", "NoLegs")], [⟨"field", [("name", "Symbol")], []⟩]⟩]⟩

/-- The component that is mentioned, which stands for a group. -/
def partiesComponent : Xml.Element :=
  ⟨"component", [("name", "Parties")], [⟨"group", [("name", "NoPartyIDs")], [⟨"field", [("name", "PartyID")], []⟩]⟩]⟩

/-- A document that mentions a component before it declares it. -/
def mentionedFirst : String :=
  "<fix major='4' minor='4'>
    <components>
      <component name='Deal'>
        <component name='Parties'/>
        <group name='NoLegs'><field name='Symbol'/></group>
      </component>
      <component name='Parties'><group name='NoPartyIDs'><field name='PartyID'/></group></component>
    </components>
    <messages><message name='Quote' msgtype='S' msgcat='app'><component name='Deal'/></message></messages>
    <fields>
      <field number='55' name='Symbol' type='STRING'/>
      <field number='448' name='PartyID' type='STRING'/>
      <field number='453' name='NoPartyIDs' type='NUMINGROUP'/>
      <field number='555' name='NoLegs' type='NUMINGROUP'/>
    </fields>
  </fix>"

/-- The same document with the component declared first, and with its sections in another order. -/
def declaredFirst : String :=
  "<fix major='4' minor='4'>
    <fields>
      <field number='55' name='Symbol' type='STRING'/>
      <field number='448' name='PartyID' type='STRING'/>
      <field number='453' name='NoPartyIDs' type='NUMINGROUP'/>
      <field number='555' name='NoLegs' type='NUMINGROUP'/>
    </fields>
    <components>
      <component name='Parties'><group name='NoPartyIDs'><field name='PartyID'/></group></component>
      <component name='Deal'>
        <component name='Parties'/>
        <group name='NoLegs'><field name='Symbol'/></group>
      </component>
    </components>
    <messages><message name='Quote' msgtype='S' msgcat='app'><component name='Deal'/></message></messages>
  </fix>"

/-- The root of the first document. -/
def mentionedFirstRoot : Xml.Element :=
  ⟨"fix", [("major", "4"), ("minor", "4")],
    [⟨"components", [], [dealComponent, partiesComponent]⟩, messageSection, fieldSection]⟩

/-- The root of the second document. -/
def declaredFirstRoot : Xml.Element :=
  ⟨"fix", [("major", "4"), ("minor", "4")],
    [fieldSection, ⟨"components", [], [partiesComponent, dealComponent]⟩, messageSection]⟩

set_option maxRecDepth 8000 in
theorem root?_mentionedFirst : Xml.root? mentionedFirst = some (some mentionedFirstRoot) := by
  change Xml.root? (String.ofList _) = _
  rw [Xml.root?_ofList]
  decide +kernel

set_option maxRecDepth 8000 in
theorem root?_declaredFirst : Xml.root? declaredFirst = some (some declaredFirstRoot) := by
  change Xml.root? (String.ofList _) = _
  rw [Xml.root?_ofList]
  decide +kernel

/-- The components change places, then the fields go before the messages, then before the components. -/
theorem rearrangedText : Dictionary.RearrangedText mentionedFirst declaredFirst := by
  rw [Dictionary.RearrangedText, root?_mentionedFirst, root?_declaredFirst]
  refine .some (.some ?_)
  refine .trans (.components [] [messageSection, fieldSection] (.swap partiesComponent dealComponent [])) ?_
  refine .trans (.sections [_] [] (by decide)) ?_
  exact .sections [] [messageSection] (by decide)

/-- The declarations of the sample can be read. -/
theorem isOk_read : (Declarations.read mentionedFirstRoot).isOk = true := by
  decide +kernel

/-- The sample is compiled. -/
theorem isOk_compile : (Dictionary.compile mentionedFirst).isOk = true := by
  rw [Dictionary.compile, Declarations.ofDocument, root?_mentionedFirst]
  decide +kernel

end Sample

namespace Dictionary

/-! ## The order of declarations -/

/-- The order of declarations does not matter : of two documents with the same sections in another order, and the same
components in another order in them, both are compiled or neither is, and the dictionaries are the same up to the
numbers of the groups. Nor does it matter that names are bound while components are still being read. No entry is left
open, and a document is refused for a component only if none with its name is declared. -/
theorem compile_rearranged (text : String) :
    (∀ text', RearrangedText text text' → SameOutcome Same (compile text) (compile text')) ∧
      ∀ root, Xml.root? text = some (some root) →
        (∀ name, compile text = .error (.unresolvedComponent name) →
          ∀ e ∈ inSections root "components" "component", e.attribute? "name" ≠ some name) ∧
        ∀ d, Declarations.read root = .ok d →
          match d.bind with
          | .ok d' => compile text = .ok d'.normalize
          | .error (.unresolved name) => compile text = .error (.unresolvedComponent name)
          | .error (.leftOpen _) => False := by
  refine ⟨fun text' h => sameOutcome_compile h, fun root hroot =>
    ⟨fun name h => attribute?_ne_of_compile hroot h, fun d hread => ?_⟩⟩
  rw [d.bind_eq, compile_of_read hroot hread]
  cases d.unresolved? <;> rfl

/-- A sample : both documents are compiled, to dictionaries that are the same up to the numbers of their two groups, and
binding names in one pass leads to the first of them. -/
theorem compile_rearranged_sample : RearrangedText Sample.mentionedFirst Sample.declaredFirst ∧
    Xml.root? Sample.mentionedFirst = some (some Sample.mentionedFirstRoot) ∧
      ∃ d d' declared, compile Sample.mentionedFirst = .ok d ∧ compile Sample.declaredFirst = .ok d' ∧ d.Same d' ∧
        Declarations.read Sample.mentionedFirstRoot = .ok declared ∧
          ∃ d₀, declared.bind = .ok d₀ ∧ d₀.normalize = d := by
  refine ⟨Sample.rearrangedText, Sample.root?_mentionedFirst, ?_⟩
  obtain ⟨hsame, hbound⟩ := compile_rearranged Sample.mentionedFirst
  have hsame := hsame Sample.declaredFirst Sample.rearrangedText
  obtain ⟨declared, hread⟩ := exists_of_isOk Sample.isOk_read
  have hbound := (hbound Sample.mentionedFirstRoot Sample.root?_mentionedFirst).2 declared hread
  obtain ⟨d, hd⟩ := exists_of_isOk Sample.isOk_compile
  rw [hd] at hsame hbound
  generalize hd' : compile Sample.declaredFirst = outcome at hsame
  cases hsame with
  | @done _ d' hsame =>
    refine ⟨d, d', declared, hd, rfl, hsame, hread, ?_⟩
    cases hb : declared.bind with
    | ok d₀ =>
      simp only [hb, Except.ok.injEq] at hbound
      exact ⟨d₀, rfl, hbound.symm⟩
    | error cause =>
      rw [hb] at hbound
      cases cause <;> simp at hbound

end Dictionary

end FixWire
