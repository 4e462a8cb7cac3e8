import FixWire.Dictionary.Declarations
import FixWire.Proofs.Refusal
import Mathlib.Data.List.Forall2
import Mathlib.Data.List.Nodup

/-!
# Reading declarations

What a document declares is read part by part (`Declarations.read_eq_ok_iff`), and only then the mentions of components
are looked at (`Declarations.ofRoot_eq`). Until then nothing is refused for a component that is not declared
(`neverUnresolved_read`). Components are read one by one, and their names have to differ (`readComponents_eq_ok_iff`).
-/

namespace FixWire

/-! ## Components -/

/-- The element declares the component. -/
def Declares (fields : List Field) (e : Xml.Element) (c : DeclaredComponent) : Prop :=
  e.require "name" = .ok c.name ∧ readMembers fields c.name e.children = .ok c.members

theorem attribute?_of_require {e : Xml.Element} {name value : String} (h : e.require name = .ok value) :
    e.attribute? name = some value := by
  unfold Xml.Element.require at h
  split at h
  · rename_i hvalue
    cases h
    exact hvalue
  · cases h

/-- The names of components are those of the elements that declare them. -/
theorem names_of_declares {fields : List Field} {es : List Xml.Element} {cs : List DeclaredComponent}
    (h : List.Forall₂ (Declares fields) es cs) :
    es.map (fun e => e.attribute? "name") = cs.map fun c => some c.name := by
  rw [← List.forall₂_eq_eq_eq, List.forall₂_map_left_iff, List.forall₂_map_right_iff]
  exact h.imp fun _ _ hc => attribute?_of_require hc.1

/-- The names of the components are distinct as long as each new one is not among those before it. -/
theorem nodup_names_concat {known : List DeclaredComponent} {c : DeclaredComponent} :
    ((known ++ [c]).map DeclaredComponent.name).Nodup ↔
      (known.map DeclaredComponent.name).Nodup ∧ (known.any fun c' => c'.name == c.name) = false := by
  rw [List.map_append, List.map_singleton, List.nodup_append, List.any_eq_false]
  simp

/-- Components are read if each element declares one, and they have different names. -/
theorem readComponents_eq_ok_iff {fields : List Field} : ∀ {es : List Xml.Element} (known : List DeclaredComponent)
    {cs : List DeclaredComponent}, (known.map DeclaredComponent.name).Nodup →
      (readComponents fields known es = .ok cs ↔
        ∃ new, List.Forall₂ (Declares fields) es new ∧ cs = known ++ new ∧ (cs.map DeclaredComponent.name).Nodup)
  | [], known, cs, hknown => by
    constructor
    · intro h
      cases h
      exact ⟨[], .nil, (List.append_nil known).symm, hknown⟩
    · rintro ⟨_, ⟨⟩, rfl, -⟩
      rw [readComponents, List.append_nil]
  | e :: rest, known, cs, hknown => by
    constructor
    · intro h
      obtain ⟨name, hname, h⟩ := exists_of_bind h
      dsimp only at h
      split_ifs at h with hdup
      · cases h
      · obtain ⟨members, hmembers, h⟩ := exists_of_bind h
        have hnext := nodup_names_concat (c := ⟨name, members⟩).2 ⟨hknown, Bool.not_eq_true _ ▸ hdup⟩
        obtain ⟨new, hnew, rfl, hnodup⟩ := (readComponents_eq_ok_iff _ hnext).1 h
        exact ⟨_ :: new, .cons ⟨hname, hmembers⟩ hnew, List.append_assoc _ _ _, hnodup⟩
    · rintro ⟨_, hnew, rfl, hnodup⟩
      cases hnew with
      | @cons _ c _ new hc hnew =>
        rw [List.append_cons] at hnodup ⊢
        have hnext : ((known ++ [c]).map DeclaredComponent.name).Nodup :=
          hnodup.sublist ((List.sublist_append_left _ _).map _)
        rw [readComponents, hc.1]
        change (if (known.any fun c' => c'.name == c.name) = true then _ else _) = _
        rw [if_neg (by rw [(nodup_names_concat.1 hnext).2]; exact Bool.false_ne_true), hc.2]
        exact (readComponents_eq_ok_iff _ hnext).2 ⟨new, hnew, rfl, hnodup⟩

namespace Declarations

/-- Nothing is unresolved if and only if every component that is mentioned is declared. -/
theorem unresolved?_eq_none_iff {d : Declarations} :
    d.unresolved? = none ↔ ∀ name ∈ d.mentions, name ∈ d.components.map DeclaredComponent.name := by
  simp [unresolved?]

/-- A component that is reported as unresolved is not declared. -/
theorem not_mem_of_unresolved? {d : Declarations} {name : String} (h : d.unresolved? = some name) :
    name ∉ d.components.map DeclaredComponent.name := by
  have hany := List.find?_some h
  simpa using hany

/-! ## Whole documents -/

/-- What the root of a document declares, whether or not the components that it mentions are declared. -/
def read (root : Xml.Element) : Except DocumentError Declarations := do
  if root.name ≠ "fix" then
    throw (.wrongRoot root.name)
  let major ← root.requireNumber "major"
  let minor ← root.requireNumber "minor"
  let fields ← readFields [] (inSections root "fields" "field")
  let components ← readComponents fields [] (inSections root "components" "component")
  let messages ← readMessages fields [] (inSections root "messages" "message")
  let header ← readPart fields "Header" (root.child? "header")
  let trailer ← readPart fields "Trailer" (root.child? "trailer")
  return ⟨major, minor, fields, components, messages, header, trailer⟩

/-- Mentions of components are looked at after everything has been read. -/
theorem ofRoot_eq (root : Xml.Element) : ofRoot root = read root >>= fun d =>
    match d.unresolved? with
    | some name => .error (.unresolvedComponent name)
    | none => .ok d := by
  by_cases hroot : root.name = "fix"
  · rw [ofRoot, read, if_neg (not_not.2 hroot), if_neg (not_not.2 hroot)]
    simp only [bind_assoc, pure_bind]
    rfl
  · rw [ofRoot, read, if_pos hroot, if_pos hroot]
    rfl

/-- A document is read if its root and each of its parts is. -/
theorem read_eq_ok_iff {root : Xml.Element} {d : Declarations} : read root = .ok d ↔
    root.name = "fix" ∧ root.requireNumber "major" = .ok d.major ∧ root.requireNumber "minor" = .ok d.minor ∧
      readFields [] (inSections root "fields" "field") = .ok d.fields ∧
        readComponents d.fields [] (inSections root "components" "component") = .ok d.components ∧
          readMessages d.fields [] (inSections root "messages" "message") = .ok d.messages ∧
            readPart d.fields "Header" (root.child? "header") = .ok d.header ∧
              readPart d.fields "Trailer" (root.child? "trailer") = .ok d.trailer := by
  constructor
  · intro h
    unfold read at h
    dsimp only at h
    split_ifs at h with hroot
    · cases h
    · obtain ⟨major, hmajor, h⟩ := exists_of_bind h
      obtain ⟨minor, hminor, h⟩ := exists_of_bind h
      obtain ⟨fields, hfields, h⟩ := exists_of_bind h
      obtain ⟨components, hcomponents, h⟩ := exists_of_bind h
      obtain ⟨messages, hmessages, h⟩ := exists_of_bind h
      obtain ⟨header, hheader, h⟩ := exists_of_bind h
      obtain ⟨trailer, htrailer, h⟩ := exists_of_bind h
      cases h
      exact ⟨of_not_not hroot, hmajor, hminor, hfields, hcomponents, hmessages, hheader, htrailer⟩
  · rintro ⟨hroot, hmajor, hminor, hfields, hcomponents, hmessages, hheader, htrailer⟩
    rw [read, if_neg (not_not.2 hroot), hmajor, hminor]
    change (readFields [] _ >>= fun fields => _) = _
    rw [hfields]
    change (readComponents d.fields [] _ >>= fun components => _) = _
    rw [hcomponents]
    change (readMessages d.fields [] _ >>= fun messages => _) = _
    rw [hmessages]
    change (readPart d.fields "Header" _ >>= fun header => _) = _
    rw [hheader]
    change (readPart d.fields "Trailer" _ >>= fun trailer => _) = _
    rw [htrailer]
    rfl

/-- If a component is not declared, no element in the sections of components has its name. -/
theorem attribute?_ne_of_unresolved? {root : Xml.Element} {d : Declarations} {name : String} (h : read root = .ok d)
    (hname : d.unresolved? = some name) :
    ∀ e ∈ inSections root "components" "component", e.attribute? "name" ≠ some name := by
  obtain ⟨-, -, -, -, hcomponents, -, -, -⟩ := read_eq_ok_iff.1 h
  obtain ⟨cs, hcs, hsame, -⟩ := (readComponents_eq_ok_iff [] List.nodup_nil).1 hcomponents
  rw [List.nil_append] at hsame
  intro e he heq
  have hmem := List.mem_map_of_mem (f := fun e : Xml.Element => e.attribute? "name") he
  rw [names_of_declares hcs, ← hsame, heq] at hmem
  obtain ⟨c, hc, hcname⟩ := List.mem_map.1 hmem
  exact not_mem_of_unresolved? hname (List.mem_map.2 ⟨c, hc, Option.some.inj hcname⟩)

end Declarations

/-! ## What is refused before mentions of components are looked at -/

/-- The computation is not refused for a component that is not declared. -/
def NeverUnresolved {α : Type} (x : Except DocumentError α) : Prop :=
  ∀ name, x ≠ .error (.unresolvedComponent name)

/-- What is read in steps that never report an unresolved component does not report one. -/
theorem NeverUnresolved.bind {α β : Type} {x : Except DocumentError α} {f : α → Except DocumentError β}
    (hx : NeverUnresolved x) (hf : ∀ a, NeverUnresolved (f a)) : NeverUnresolved (x >>= f) := by
  cases x with
  | error cause =>
    intro name h
    cases h
    exact hx name rfl
  | ok a => exact hf a

theorem neverUnresolved_require (e : Xml.Element) (name : String) : NeverUnresolved (e.require name) := by
  intro component h
  unfold Xml.Element.require at h
  split at h <;> cases h

theorem neverUnresolved_requireNumber (e : Xml.Element) (name : String) : NeverUnresolved (e.requireNumber name) := by
  refine (neverUnresolved_require e name).bind fun value component h => ?_
  split at h <;> cases h

theorem neverUnresolved_readValues : ∀ es : List Xml.Element, NeverUnresolved (readValues es)
  | [] => nofun
  | e :: rest => (neverUnresolved_require e _).bind fun _ => (neverUnresolved_require e _).bind fun _ =>
    (neverUnresolved_readValues rest).bind fun _ => nofun

theorem neverUnresolved_readField (known : List Field) (e : Xml.Element) : NeverUnresolved (readField known e) := by
  refine (neverUnresolved_requireNumber e _).bind fun number => (neverUnresolved_require e _).bind fun name =>
    (neverUnresolved_require e _).bind fun typeName => ?_
  split
  · refine (neverUnresolved_readValues _).bind fun values => ?_
    dsimp only
    split_ifs
    all_goals nofun
  · nofun

theorem neverUnresolved_readFields : ∀ (known : List Field) (es : List Xml.Element),
    NeverUnresolved (readFields known es)
  | _, [] => nofun
  | known, e :: rest => (neverUnresolved_readField known e).bind fun _ => neverUnresolved_readFields _ rest

theorem neverUnresolved_mentionedField (fields : List Field) (name context : String) :
    NeverUnresolved (mentionedField fields name context) := by
  intro component h
  unfold mentionedField at h
  split at h <;> cases h

mutual

/-- Members are read without a look at the components that they mention. -/
theorem neverUnresolved_readMember (fields : List Field) (context : String) : ∀ e : Xml.Element,
    NeverUnresolved (readMember fields context e)
  | ⟨kind, attributes, children⟩ => by
    rw [readMember]
    split_ifs
    · nofun
    all_goals
      refine (neverUnresolved_require _ _).bind fun name => ?_
      dsimp only
      split_ifs
      · nofun
    · exact (neverUnresolved_mentionedField _ _ _).bind fun _ => nofun
    · exact (neverUnresolved_mentionedField _ _ _).bind fun _ =>
        (neverUnresolved_readMembers fields _ children).bind fun _ => nofun
    · nofun

theorem neverUnresolved_readMembers (fields : List Field) (context : String) : ∀ es : List Xml.Element,
    NeverUnresolved (readMembers fields context es)
  | [] => nofun
  | e :: rest => (neverUnresolved_readMember fields context e).bind fun _ =>
    (neverUnresolved_readMembers fields context rest).bind fun _ => nofun

end

theorem neverUnresolved_readComponents (fields : List Field) : ∀ (known : List DeclaredComponent)
    (es : List Xml.Element), NeverUnresolved (readComponents fields known es)
  | _, [] => nofun
  | known, e :: rest => by
    refine (neverUnresolved_require e _).bind fun name => ?_
    dsimp only
    split_ifs
    · nofun
    · exact (neverUnresolved_readMembers _ _ _).bind fun _ => neverUnresolved_readComponents fields _ rest

/-- Messages are read without a look at the components that they mention. -/
theorem neverUnresolved_readMessages (fields : List Field) : ∀ (known : List DeclaredMessage)
    (es : List Xml.Element), NeverUnresolved (readMessages fields known es)
  | _, [] => nofun
  | known, e :: rest => by
    refine (neverUnresolved_require e _).bind fun name => (neverUnresolved_require e _).bind fun type =>
      (neverUnresolved_require e _).bind fun categoryName => ?_
    split
    · dsimp only
      split_ifs
      · nofun
      · exact (neverUnresolved_readMembers _ _ _).bind fun _ => neverUnresolved_readMessages fields _ rest
    · nofun

theorem neverUnresolved_readPart (fields : List Field) (context : String) (e : Option Xml.Element) :
    NeverUnresolved (readPart fields context e) := by
  cases e with
  | none => nofun
  | some e => exact neverUnresolved_readMembers fields context e.children

/-- Reading alone is never refused for a component that is not declared. -/
theorem neverUnresolved_read (root : Xml.Element) : NeverUnresolved (Declarations.read root) := by
  unfold Declarations.read
  dsimp only
  split_ifs
  · nofun
  · exact (neverUnresolved_requireNumber _ _).bind fun _ => (neverUnresolved_requireNumber _ _).bind fun _ =>
      (neverUnresolved_readFields _ _).bind fun _ => (neverUnresolved_readComponents _ _ _).bind fun _ =>
        (neverUnresolved_readMessages _ _ _).bind fun _ => (neverUnresolved_readPart _ _ _).bind fun _ =>
          (neverUnresolved_readPart _ _ _).bind fun _ => nofun

end FixWire
