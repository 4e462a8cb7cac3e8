import FixWire.Proofs.Dictionary.Renumber
import FixWire.Proofs.Layout.Indexed
import Mathlib.Data.List.Chain

/-!
# Aggregates inside themselves

A dictionary is searched for aggregates inside themselves before any layout is made. The search goes down from each
holder to what is inside it, and keeps a trail of the holders around the one that it is at. It stops at a holder that is
on its trail already, so the path that it reports leads from one holder into the next, and comes back to a holder on it
(`circular_of_cycle?`). What has been left once is not searched again : it ends, whichever trail leads to it
(`ends_of_visit`).

So an aggregate inside itself is found if and only if there is one, and if none is found all layouts can be made without
a bound on the walk (`cycle?_exact`).
-/

namespace FixWire

namespace Dictionary

variable {d : Dictionary}

/-- The holders around another one, innermost first : each is inside the next. -/
structure Trail (d : Dictionary) (trail : List Holder) : Prop where
  chain : trail.IsChain fun inner outer => d.Inside outer inner
  holders : ∀ h ∈ trail, h ∈ d.holders

/-- Holders each of which is inside the one before, the last of which occurs before. -/
structure Circular (d : Dictionary) (path : List Holder) : Prop where
  chain : path.IsChain d.Inside
  holders : ∀ h ∈ path, h ∈ d.holders
  again : ∃ around h, path = around ++ [h] ∧ h ∈ around

/-- One step further in. -/
theorem Trail.cons {trail : List Holder} {h : Holder} (ht : d.Trail trail) (hin : ∀ outer ∈ trail.head?, d.Inside outer h)
    (hh : h ∈ d.holders) : d.Trail (h :: trail) :=
  ⟨ht.chain.cons hin, List.forall_mem_cons.2 ⟨hh, ht.holders⟩⟩

/-- A trail that has come back to a holder on it is a circular path when it is read from the outside. -/
theorem Trail.circular {trail : List Holder} {h : Holder} (ht : d.Trail (h :: trail)) (hh : h ∈ trail) :
    d.Circular (h :: trail).reverse where
  chain := List.isChain_reverse.2 ht.chain
  holders h hmem := ht.holders h (List.mem_reverse.1 hmem)
  again := ⟨trail.reverse, h, List.reverse_cons, List.mem_reverse.2 hh⟩

/-- What a visit reports is a trail that has come back to a holder on it. -/
theorem circular_of_visit : ∀ {n : Nat} {trail done path : List Holder} {h : Holder}, d.Trail trail →
    (∀ outer ∈ trail.head?, d.Inside outer h) → h ∈ d.holders ∨ d.entriesOf h = [] →
      d.visit n trail done h = .error path → d.Circular path.reverse := by
  intro n
  induction n with
  | zero =>
    intro _ _ _ _ _ _ _ hv
    cases hv
  | succ n ih =>
    intro trail done path h ht hin hh hv
    rw [visit] at hv
    split_ifs at hv with hdone hpath
    · cases hv
      exact (ht.cons hin (ht.holders h hpath)).circular hpath
    · cases hf : (d.inside h).foldlM (d.visit n (h :: trail)) done with
      | ok done' =>
        rw [hf] at hv
        cases hv
      | error path' =>
        rw [hf] at hv
        cases hv
        -- Something inside it has been visited, so it holds something.
        obtain ⟨done', h', hin', hv'⟩ := exists_of_foldlM_eq_error hf
        have hholder : h ∈ d.holders := hh.resolve_right fun hnil => by
          rw [inside, hnil] at hin'
          exact absurd hin' List.not_mem_nil
        refine ih (ht.cons hin hholder) (fun outer houter => ?_) (mem_holders_of_inside hin') hv'
        obtain rfl := Option.some.inj houter
        exact hin'

/-- The path that the search reports comes back to a holder on it. -/
theorem circular_of_cycle? {path : List Holder} (h : d.cycle? = some path) : d.Circular path := by
  rw [cycle?] at h
  split at h
  · cases h
  · rename_i trail hsearch
    cases h
    obtain ⟨done, h, hh, hv⟩ := exists_of_foldlM_eq_error hsearch
    exact circular_of_visit ⟨.nil, List.forall_mem_nil _⟩ (fun _ houter => absurd houter (by simp)) (.inl hh) hv

/-- On a path that comes back to a holder, this holder is inside itself. -/
theorem Circular.exists_transGen {path : List Holder} (h : d.Circular path) :
    ∃ holder ∈ d.holders, Relation.TransGen d.Inside holder holder := by
  obtain ⟨around, holder, rfl, hmem⟩ := h.again
  refine ⟨holder, h.holders holder (List.mem_append_right _ (List.mem_singleton_self _)), ?_⟩
  obtain ⟨before, between, rfl⟩ := List.append_of_mem hmem
  have hchain : (holder :: (between ++ [holder])).IsChain d.Inside := by
    have := h.chain
    rw [List.append_assoc] at this
    exact this.right_of_append
  obtain ⟨next, rest, hrest⟩ := List.exists_cons_of_ne_nil (List.append_ne_nil_of_right_ne_nil between
    (List.cons_ne_nil holder []))
  rw [hrest, List.isChain_cons_cons] at hchain
  refine .head' hchain.1 (List.relationReflTransGen_of_exists_isChain_cons rest hchain.2 ?_)
  simp [← hrest]

/-- Something is inside itself only if a holder is that the search begins with. -/
theorem exists_transGen_iff : (∃ holder ∈ d.holders, Relation.TransGen d.Inside holder holder) ↔ ¬d.Acyclic := by
  constructor
  · rintro ⟨holder, -, hcycle⟩ ha
    exact ha holder hcycle
  · intro ha
    cases hc : d.cycle? with
    | none => exact absurd (acyclic_of_cycle? hc) ha
    | some path => exact (circular_of_cycle? hc).exists_transGen

/-- Of all faults only aggregates inside themselves are reported as a path. -/
theorem exists_cycle?_of_fault? {names : List String} (h : d.fault? = some (.circular names)) :
    ∃ path, d.cycle? = some path ∧ names = path.map d.nameOf := by
  rw [fault?, Option.or_eq_some_iff, Option.or_eq_some_iff] at h
  rcases h with h | ⟨-, h | ⟨-, h⟩⟩
  · obtain ⟨f, -, hf⟩ := List.exists_of_findSome?_eq_some h
    rw [Field.fault?] at hf
    split_ifs at hf
    · cases hf
    · obtain ⟨v, -, hv⟩ := Option.map_eq_some_iff.1 hf
      cases hv
  · obtain ⟨index, -, hindex⟩ := List.exists_of_findSome?_eq_some h
    split at hindex <;> cases hindex
  · obtain ⟨path, hpath, hnames⟩ := Option.map_eq_some_iff.1 h
    exact ⟨path, hpath, (SchemaError.circular.inj hnames).symm⟩

/-- The search finds something if and only if a component, a group, the header or the trailer is inside itself. It
reports a path from each holder into one that is inside it, which ends where it has been. If it finds nothing, then what
is inside any holder is collected in tables in one way. -/
theorem cycle?_exact {text : String} (h : compile text = .ok d) :
    ((∃ path, d.cycle? = some path) ↔ ∃ holder ∈ d.holders, Relation.TransGen d.Inside holder holder) ∧
      (∀ path, d.cycle? = some path → d.Circular path) ∧
      (∀ names, d.fault? = some (.circular names) → ∃ path, d.cycle? = some path ∧ names = path.map d.nameOf) ∧
      (d.cycle? = none → ∀ holder, ∃ l, ∀ l', d.Builds holder l' ↔ l' = l) := by
  refine ⟨?_, fun path => circular_of_cycle?, fun names => exists_cycle?_of_fault?, fun hnone holder => ?_⟩
  · rw [exists_transGen_iff, ← cycle?_eq_none_iff, ← Option.isSome_iff_exists, Option.isSome_iff_ne_none]
  · exact ⟨_, fun l' => builds_iff (acyclic_of_cycle? hnone) (closed_of_compile h)⟩

/-- Two samples : two components inside each other, which are found from another component through a group, and a
dictionary whose layouts come to an end. -/
theorem cycle?_exact_samples :
    let around : List Holder := [.component "Parties", .group 0, .component "Ping", .component "Pong"]
    compile Sample.winding = .ok Sample.windingDictionary ∧ compile Sample.document = .ok Sample.dictionary ∧
      Sample.windingDictionary.cycle? = some (around ++ [.component "Ping"]) ∧
      Sample.windingDictionary.Circular (around ++ [.component "Ping"]) ∧
      (∃ holder ∈ Sample.windingDictionary.holders, Relation.TransGen Sample.windingDictionary.Inside holder holder) ∧
      Sample.windingDictionary.fault? = some (.circular ["Parties", "PartyIDs", "Ping", "Pong", "Ping"]) ∧
      ∀ holder, ∃ l, ∀ l', Sample.dictionary.Builds holder l' ↔ l' = l := by
  intro around
  have hcycle : Sample.windingDictionary.cycle? = some (around ++ [.component "Ping"]) := by decide +kernel
  obtain ⟨hexact, hcircular, -, -⟩ := cycle?_exact Sample.compile_winding
  exact ⟨Sample.compile_winding, Sample.compile_document, hcycle, hcircular _ hcycle, hexact.1 ⟨_, hcycle⟩,
    by decide +kernel, (cycle?_exact Sample.compile_document).2.2.2 (by decide +kernel)⟩

end Dictionary

end FixWire
