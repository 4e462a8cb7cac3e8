import FixWire.Text.Identifier
import Mathlib.Tactic.Common

/-!
# The letters and digits of identifiers

On the way from a name to an identifier letters change their case, underscores come in front of words, and other
characters become underscores. The ASCII letters and digits stay, in order and up to case (`letters_toIdentifier`,
`letters_screamingSnakeCase`), so that names which differ in them have different identifiers.
-/

namespace FixWire.Text

/-! ## ASCII letters -/

/-- Characters outside ASCII have no lower case. -/
theorem toLower_of_le {c : Char} (h : 128 ≤ c.toNat) : c.toLower = c := by
  refine dif_neg fun hc => ?_
  have hle : c.toNat ≤ 90 := hc.2
  omega

theorem toUpper_of_le {c : Char} (h : 128 ≤ c.toNat) : c.toUpper = c := by
  refine dif_neg fun hc => ?_
  have hle : c.toNat ≤ 122 := hc.2
  omega

/-- What holds of the ASCII characters, and of those whose case never changes, holds of all. -/
theorem forall_of_ascii {P : Char → Prop} (h : ∀ n < 128, P (Char.ofNat n))
    (h' : ∀ c : Char, c.toLower = c → c.toUpper = c → P c) (c : Char) : P c := by
  by_cases hc : c.toNat < 128
  · exact Char.ofNat_toNat c ▸ h c.toNat hc
  · exact h' c (toLower_of_le (by omega)) (toUpper_of_le (by omega))

/-- Being part of a word does not depend on case. -/
theorem isWordChar_toLower (c : Char) : isWordChar c.toLower = isWordChar c :=
  forall_of_ascii (P := fun c => isWordChar c.toLower = isWordChar c) (by decide) (fun _ h _ => by rw [h]) c

theorem isWordChar_toUpper (c : Char) : isWordChar c.toUpper = isWordChar c :=
  forall_of_ascii (P := fun c => isWordChar c.toUpper = isWordChar c) (by decide) (fun _ _ h => by rw [h]) c

theorem toUpper_toLower (c : Char) : c.toLower.toUpper = c.toUpper :=
  forall_of_ascii (P := fun c => c.toLower.toUpper = c.toUpper) (by decide) (fun _ h _ => by rw [h]) c

theorem toUpper_toUpper (c : Char) : c.toUpper.toUpper = c.toUpper :=
  forall_of_ascii (P := fun c => c.toUpper.toUpper = c.toUpper) (by decide) (fun _ _ h => by rw [h, h]) c

/-! ## Letters and digits -/

/-- The ASCII letters and digits of a text, as capital letters. -/
def letters (cs : List Char) : List Char :=
  (cs.filter isWordChar).map Char.toUpper

theorem letters_append (cs cs' : List Char) : letters (cs ++ cs') = letters cs ++ letters cs' := by
  rw [letters, List.filter_append, List.map_append]
  rfl

theorem letters_cons (c : Char) (cs : List Char) :
    letters (c :: cs) = (if isWordChar c then [c.toUpper] else []) ++ letters cs := by
  rw [letters, List.filter_cons]
  split <;> rfl

theorem letters_underscore (cs : List Char) : letters ('_' :: cs) = letters cs :=
  letters_cons '_' cs

theorem letters_dropWhile (cs : List Char) : letters (cs.dropWhile (· == '_')) = letters cs := by
  induction cs with
  | nil => rfl
  | cons c cs ih =>
    by_cases hc : c = '_'
    · rw [hc, letters_underscore, ← ih]
      rfl
    · rw [List.dropWhile_cons_of_neg (by simpa using hc)]

theorem letters_toLower (c : Char) (cs : List Char) : letters (c.toLower :: cs) = letters (c :: cs) := by
  rw [letters_cons, letters_cons, isWordChar_toLower, toUpper_toLower]

theorem letters_map_toUpper (cs : List Char) : letters (cs.map Char.toUpper) = letters cs := by
  induction cs with
  | nil => rfl
  | cons c cs ih => rw [List.map_cons, letters_cons, letters_cons, isWordChar_toUpper, toUpper_toUpper, ih]

/-- Snake-casing puts underscores in and changes case, and so keeps the letters and digits. -/
theorem letters_snakeAfter (prev : Char) (cs : List Char) : letters (snakeAfter prev cs) = letters cs := by
  induction cs generalizing prev with
  | nil => rfl
  | cons c cs ih =>
    rw [snakeAfter]
    split
    · rw [letters_underscore, letters_toLower, letters_cons, ih, letters_cons]
    · rw [letters_toLower, letters_cons, ih, letters_cons]

theorem letters_snakeCase (name : String) : letters (snakeCase name).toList = letters name.toList := by
  rw [snakeCase]
  cases name.toList with
  | nil => rfl
  | cons c cs =>
    dsimp only
    rw [String.toList_ofList, letters_toLower, letters_cons, letters_snakeAfter, letters_cons]

/-- Names in upper snake case have the letters and digits of the names they are made of. -/
theorem letters_screamingSnakeCase (name : String) :
    letters (screamingSnakeCase name).toList = letters name.toList := by
  rw [screamingSnakeCase, String.toList_map, letters_map_toUpper, letters_snakeCase]

/-- Replacing what is not part of a word by underscores keeps the letters and digits. -/
theorem letters_map_underscore (cs : List Char) :
    letters (cs.map fun c => if isWordChar c then c else '_') = letters cs := by
  induction cs with
  | nil => rfl
  | cons c cs ih =>
    rw [List.map_cons, letters_cons, ih, letters_cons]
    by_cases hc : isWordChar c = true
    · rw [if_pos hc]
    · rw [if_neg hc, if_neg hc]
      rfl

/-- Identifiers have the letters and digits of their texts. -/
theorem letters_toIdentifier (text : String) : letters (toIdentifier text).toList = letters text.toList := by
  rw [toIdentifier, ← letters_map_underscore text.toList, String.toList_ofList]
  split
  · next h => rw [h]; rfl
  · next h =>
    rw [h]
    split
    · exact letters_underscore _
    · rfl

end FixWire.Text
