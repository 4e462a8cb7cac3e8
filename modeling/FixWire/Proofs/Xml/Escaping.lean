import FixWire.Xml.Element
import Mathlib.Tactic.Common

/-!
# Escaped text

Five characters have a reference that stands for them in documents. Text in which each of them is escaped can be quoted
as the value of an attribute, and the reader delivers it as it stands, with the references (`attributeValue_escape`).
That is the text itself only if it has none of the five characters (`escape_eq_self_iff`).
-/

namespace FixWire.Xml

/-- The reference for a character that has one, and any other character as it is. -/
def reference (c : Char) : List Char :=
  if c = '&' then ['&', 'a', 'm', 'p', ';']
  else if c = '<' then ['&', 'l', 't', ';']
  else if c = '>' then ['&', 'g', 't', ';']
  else if c = '"' then ['&', 'q', 'u', 'o', 't', ';']
  else if c = '\'' then ['&', 'a', 'p', 'o', 's', ';']
  else [c]

/-- The characters that have a reference. -/
def escaped : List Char :=
  ['&', '<', '>', '"', '\'']

/-- The text with references. -/
def escape (s : String) : String :=
  String.ofList (s.toList.flatMap reference)

theorem reference_of_notMem {c : Char} (h : c ∉ escaped) : reference c = [c] := by
  simp only [escaped, List.mem_cons, List.not_mem_nil, or_false, not_or] at h
  obtain ⟨h₁, h₂, h₃, h₄, h₅⟩ := h
  rw [reference, if_neg h₁, if_neg h₂, if_neg h₃, if_neg h₄, if_neg h₅]

theorem eq_of_mem_escaped {c : Char} (h : c ∈ escaped) : c = '&' ∨ c = '<' ∨ c = '>' ∨ c = '"' ∨ c = '\'' := by
  simpa [escaped] using h

theorem one_lt_length_reference {c : Char} (h : c ∈ escaped) : 1 < (reference c).length := by
  rcases eq_of_mem_escaped h with rfl | rfl | rfl | rfl | rfl <;> decide

theorem length_reference_pos (c : Char) : 0 < (reference c).length := by
  by_cases hc : c ∈ escaped
  · have := one_lt_length_reference hc
    omega
  · rw [reference_of_notMem hc]
    exact Nat.one_pos

theorem quote_notMem_reference (c : Char) {q : Char} (hq : q = '"' ∨ q = '\'') : q ∉ reference c := by
  by_cases hc : c ∈ escaped
  · rcases hq with rfl | rfl <;> rcases eq_of_mem_escaped hc with rfl | rfl | rfl | rfl | rfl <;> decide
  · rw [reference_of_notMem hc, List.mem_singleton]
    rintro rfl
    rcases hq with rfl | rfl <;> exact hc (by simp [escaped])

theorem length_le_flatMap_reference (cs : List Char) : cs.length ≤ (cs.flatMap reference).length := by
  induction cs with
  | nil => exact Nat.le_refl 0
  | cons c cs ih =>
    have := length_reference_pos c
    rw [List.flatMap_cons, List.length_append, List.length_cons]
    omega

theorem flatMap_reference_eq_self_iff (cs : List Char) : cs.flatMap reference = cs ↔ ∀ c ∈ cs, c ∉ escaped := by
  induction cs with
  | nil => simp
  | cons c cs ih =>
    rw [List.flatMap_cons, List.forall_mem_cons]
    by_cases hc : c ∈ escaped
    · -- A reference is longer than its character, and nothing gets shorter.
      refine iff_of_false (fun h => ?_) fun h => h.1 hc
      have hlength := congrArg List.length h
      have := one_lt_length_reference hc
      have := length_le_flatMap_reference cs
      rw [List.length_append, List.length_cons] at hlength
      omega
    · rw [reference_of_notMem hc, List.singleton_append, List.cons_inj_right, ih]
      exact (and_iff_right hc).symm

/-- A text is its own escaping if none of its characters has a reference. -/
theorem escape_eq_self_iff (s : String) : escape s = s ↔ ∀ c ∈ s.toList, c ∉ escaped := by
  rw [← String.toList_inj, escape, String.toList_ofList, flatMap_reference_eq_self_iff]

/-- Escaped text in quotes is delivered as it stands in the document. -/
theorem attributeValue_escape (s : String) (rest : List Char) {q : Char} (hq : q = '"' ∨ q = '\'') :
    attributeValue (q :: (escape s).toList ++ q :: rest) = (some (escape s).toList, rest) := by
  have hvalue : ∀ c ∈ (escape s).toList, (!(c == q)) = true := by
    intro c hc
    rw [escape, String.toList_ofList, List.mem_flatMap] at hc
    obtain ⟨c', -, hc⟩ := hc
    have hne : c ≠ q := by
      rintro rfl
      exact quote_notMem_reference c' hq hc
    simpa using hne
  have hspace : isSpace q = false := by rcases hq with rfl | rfl <;> rfl
  have hsplit : splitWhere? (· == q) ((escape s).toList ++ q :: rest) = some ((escape s).toList, rest) := by
    rw [splitWhere?, List.dropWhile_append_of_pos hvalue, List.takeWhile_append_of_pos hvalue]
    simp
  rw [attributeValue, List.cons_append, List.dropWhile_cons_of_neg (by rw [hspace]; exact Bool.false_ne_true)]
  dsimp only
  rw [if_pos hq, hsplit]

end FixWire.Xml
