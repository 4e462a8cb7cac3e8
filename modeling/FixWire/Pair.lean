import FixWire.Number.Natural

/-!
# Pairs

A window of bytes is read as a sequence of pairs of a tag and a value. A pair goes from where the last one
ended to the next end of a field after its first equals sign, or to the end of the window; without another
equals sign there is no further pair. The text of a tag that is no number of at most 32 bits counts as tag 0.
-/

namespace FixWire

/-- The text of a tag and a value, and whether the end of the field follows them. -/
structure Pair where
  text : Bytes
  value : Bytes
  ended : Bool
  deriving DecidableEq, Repr

namespace Pair

/-- The number that the text of the tag writes, or 0 if there is no such number. -/
def tag (p : Pair) : Tag :=
  match Natural.parse p.text with
  | some n => if n < tagLimit then n else 0
  | none => 0

/-- The number of bytes that the pair takes up. -/
def width (p : Pair) : Nat :=
  p.text.length + 1 + p.value.length + if p.ended then 1 else 0

/-- The first pair, and what follows it. -/
def read? (bytes : Bytes) : Option (Pair × Bytes) :=
  let text := bytes.takeWhile (· != equalsSign)
  match bytes.drop text.length with
  | [] => none
  | _ :: rest =>
    let value := rest.takeWhile (· != soh)
    match rest.drop value.length with
    | [] => some (⟨text, value, false⟩, [])
    | _ :: rest => some (⟨text, value, true⟩, rest)

theorem length_read? {bytes rest : Bytes} {p : Pair} (h : read? bytes = some (p, rest)) :
    rest.length + p.width = bytes.length := by
  simp only [read?] at h
  split at h
  · simp at h
  · rename_i b tail hb
    have hlen := congrArg List.length hb
    simp only [List.length_drop, List.length_cons] at hlen
    split at h
    · rename_i hr
      have := congrArg List.length hr
      simp only [List.length_drop, List.length_nil] at this
      have := (List.takeWhile_prefix (· != soh) (l := tail)).length_le
      simp only [Option.some.injEq, Prod.mk.injEq] at h
      obtain ⟨rfl, rfl⟩ := h
      simp only [width, List.length_nil]
      simp
      omega
    · rename_i c tail' hr
      have := congrArg List.length hr
      simp only [List.length_drop, List.length_cons] at this
      simp only [Option.some.injEq, Prod.mk.injEq] at h
      obtain ⟨rfl, rfl⟩ := h
      simp only [width]
      simp
      omega

theorem length_lt_of_read? {bytes rest : Bytes} {p : Pair} (h : read? bytes = some (p, rest)) :
    rest.length < bytes.length := by
  have := length_read? h
  simp only [width] at this
  omega

/-- All pairs, in order. -/
def all (bytes : Bytes) : List Pair :=
  match h : read? bytes with
  | none => []
  | some (p, rest) =>
    have := length_lt_of_read? h
    p :: all rest
termination_by bytes.length

theorem all_of_read?_eq_none {bytes : Bytes} (h : read? bytes = none) : all bytes = [] := by
  rw [all]
  split <;> simp_all

theorem all_of_read?_eq_some {bytes rest : Bytes} {p : Pair} (h : read? bytes = some (p, rest)) :
    all bytes = p :: all rest := by
  rw [all]
  split <;> simp_all

/-- The value of the first pair with the tag. -/
def valueOf? (tag : Tag) (bytes : Bytes) : Option Bytes :=
  ((all bytes).find? fun p => p.tag == tag).map Pair.value

end Pair

end FixWire
