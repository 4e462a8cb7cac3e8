import FixWire.FieldError
import Mathlib.Tactic.Common

/-!
# Computations that may be refused

A sequence of computations is refused if one of them is, and the ones after it are not made.
-/

namespace FixWire

/-- If a sequence is not refused, then neither is its beginning. -/
theorem exists_of_bind {ε α β : Type} {x : Except ε α} {f : α → Except ε β} {b : β} (h : (x >>= f) = .ok b) :
    ∃ a, x = .ok a ∧ f a = .ok b := by
  cases x with
  | error e => cases h
  | ok a => exact ⟨a, rfl, h⟩

/-- A sequence whose beginning is not refused goes on with what it gives. -/
theorem bind_of_ok {ε α β : Type} {x : Except ε α} {a : α} (h : x = .ok a) (f : α → Except ε β) : (x >>= f) = f a := by
  rw [h]
  rfl

/-- A sequence is refused if its beginning is. -/
theorem bind_of_error {ε α β : Type} {x : Except ε α} {cause : ε} (h : x = .error cause) (f : α → Except ε β) :
    (x >>= f) = .error cause := by
  rw [h]
  rfl

/-- If a sequence is refused, then its beginning is, or what comes after it. -/
theorem error_of_bind {ε α β : Type} {x : Except ε α} {f : α → Except ε β} {cause : ε} (h : (x >>= f) = .error cause) :
    x = .error cause ∨ ∃ a, x = .ok a ∧ f a = .error cause := by
  cases x with
  | error cause' =>
    cases h
    exact .inl rfl
  | ok a => exact .inr ⟨a, rfl, h⟩

theorem eq_ok_of_toOption {ε α : Type} {x : Except ε α} {a : α} (h : x.toOption = some a) : x = .ok a := by
  cases x with
  | error cause => cases h
  | ok b => exact congrArg _ (Option.some.inj h)

theorem exists_of_isOk {ε α : Type} {x : Except ε α} (h : x.isOk = true) : ∃ a, x = .ok a := by
  cases x with
  | error cause => cases h
  | ok a => exact ⟨a, rfl⟩

/-- Of two computations with the same image both are refused, or neither is. -/
theorem cases_of_map_eq {ε α β : Type} {f : α → β} {x y : Except ε α} (h : x.map f = y.map f) :
    (∃ cause, x = .error cause ∧ y = .error cause) ∨ ∃ a b, x = .ok a ∧ y = .ok b ∧ f a = f b := by
  cases x with
  | error cause =>
    cases y with
    | error cause' => exact .inl ⟨cause, rfl, congrArg _ (Except.error.inj h).symm⟩
    | ok b => cases h
  | ok a =>
    cases y with
    | error cause => cases h
    | ok b => exact .inr ⟨a, b, rfl, rfl, Except.ok.inj h⟩

/-- A computation that goes through a list is not refused if no step of it is. -/
theorem foldlM_eq_ok {ε α β : Type} (f : β → α → Except ε β) : ∀ (as : List α) (b : β),
    (∀ b, ∀ a ∈ as, ∃ b', f b a = .ok b') → ∃ b', as.foldlM f b = .ok b'
  | [], b, _ => ⟨b, rfl⟩
  | a :: rest, b, h => by
    obtain ⟨b', hb'⟩ := h b a List.mem_cons_self
    obtain ⟨b'', hb''⟩ := foldlM_eq_ok f rest b' fun b a ha => h b a (List.mem_cons_of_mem _ ha)
    exact ⟨b'', by rw [List.foldlM_cons, hb']; exact hb''⟩

/-- If a computation that goes through a list is refused, then one of its steps is. -/
theorem exists_of_foldlM_eq_error {ε α β : Type} {f : β → α → Except ε β} {cause : ε} : ∀ {as : List α} {b : β},
    as.foldlM f b = .error cause → ∃ b', ∃ a ∈ as, f b' a = .error cause
  | [], b, h => nomatch h
  | a :: rest, b, h => by
    rw [List.foldlM_cons] at h
    cases hb : f b a with
    | error cause' =>
      rw [hb] at h
      cases h
      exact ⟨b, a, List.mem_cons_self, hb⟩
    | ok b' =>
      rw [hb] at h
      obtain ⟨b'', a', ha', hf⟩ := exists_of_foldlM_eq_error h
      exact ⟨b'', a', List.mem_cons_of_mem _ ha', hf⟩

/-- One action after another, with a state that a refused action passes on as it is. -/
theorem run_bind {ε σ α β : Type} (m : ExceptT ε (StateM σ) α) (f : α → ExceptT ε (StateM σ) β) (s : σ) :
    (m >>= f).run s = match m.run s with
      | (.ok a, s) => (f a).run s
      | (.error cause, s) => (.error cause, s) := by
  simp only [bind, ExceptT.bind, ExceptT.mk, ExceptT.run, StateT.bind, ExceptT.bindCont]
  obtain ⟨cause | a, s⟩ := m s <;> rfl

end FixWire
