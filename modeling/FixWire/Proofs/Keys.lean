import Mathlib.Data.List.Nodup
import Mathlib.Tactic.Common

/-!
# Lists with keys

What is listed under different keys is found under its key, and stays so when something is added under a new one.
-/

namespace FixWire

variable {α β : Type}

theorem nodup_map_concat {f : α → β} {as : List α} {a : α} (h : (as.map f).Nodup) (hnew : f a ∉ as.map f) :
    ((as ++ [a]).map f).Nodup := by
  rw [List.map_append, List.map_singleton, ← List.concat_eq_append]
  exact h.concat hnew

section Lookup

variable [BEq β] [LawfulBEq β]

theorem notMem_map_of_any {f : α → β} {as : List α} {b : β} (h : ¬(as.any fun a => f a == b) = true) : b ∉ as.map f := by
  intro hb
  obtain ⟨a, ha, rfl⟩ := List.mem_map.1 hb
  exact h (List.any_eq_true.2 ⟨a, ha, beq_self_eq_true _⟩)

/-- What is found first under a key is all that is listed under it. -/
theorem find?_key_eq_some_iff {f : α → β} {b : β} {a : α} : ∀ {as : List α}, (as.map f).Nodup →
    ((as.find? fun a => f a == b) = some a ↔ a ∈ as ∧ f a = b)
  | [], _ => by simp
  | a' :: rest, h => by
    obtain ⟨hnew, hrest⟩ := List.nodup_cons.1 h
    by_cases ha : f a' = b
    · subst ha
      rw [List.find?_cons_of_pos (by simp), Option.some.injEq, List.mem_cons]
      refine ⟨fun heq => heq ▸ ⟨.inl rfl, rfl⟩, ?_⟩
      rintro ⟨rfl | hmem, hkey⟩
      · rfl
      · exact absurd (List.mem_map.2 ⟨a, hmem, hkey⟩) hnew
    · rw [List.find?_cons_of_neg (by simpa using ha), find?_key_eq_some_iff hrest, List.mem_cons]
      refine ⟨fun hmem => ⟨.inr hmem.1, hmem.2⟩, ?_⟩
      rintro ⟨rfl | hmem, hkey⟩
      · exact absurd hkey ha
      · exact ⟨hmem, hkey⟩

/-- What is looked up among different keys is what is paired with the key. -/
theorem lookup_zip_eq_some_iff {a : β} {b : α} : ∀ {as : List β} {bs : List α}, as.Nodup →
    ((as.zip bs).lookup a = some b ↔ (a, b) ∈ as.zip bs)
  | [], _, _ => by simp
  | _ :: _, [], _ => by simp
  | a' :: as, b' :: bs, h => by
    obtain ⟨hnew, hrest⟩ := List.nodup_cons.1 h
    rw [List.zip_cons_cons, List.lookup_cons, List.mem_cons, Prod.mk.injEq]
    by_cases ha : a = a'
    · subst ha
      have hnot : (a, b) ∉ as.zip bs := fun hmem => hnew (List.of_mem_zip hmem).1
      simp [hnot, eq_comm]
    · simpa [ha, beq_eq_false_iff_ne.2 ha] using lookup_zip_eq_some_iff hrest

theorem isSome_lookup_zip (a : β) : ∀ {as : List β} {bs : List α},
    bs.length = as.length → ((as.zip bs).lookup a).isSome = as.any (· == a)
  | [], [], _ => rfl
  | a' :: as, b :: bs, h => by
    rw [List.zip_cons_cons, List.lookup_cons, List.any_cons, BEq.comm, ← isSome_lookup_zip a (Nat.succ.inj h)]
    cases a' == a <;> rfl

end Lookup

end FixWire
