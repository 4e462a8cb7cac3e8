import FixWire.Xml.Markup

/-!
# Elements

The second stage of reading a document : its tags as a tree of elements. An end tag has to name the element
that is open; elements still open at the end are dropped. Of several complete elements at the top the last
one is the root.

Attribute values are taken as they stand in the document, references included. An attribute that is not
well formed is left out : one without a value, one whose value is not in quotes, and one whose name was
there before. What follows the equals sign of a repeated name is skipped up to the next white space even
where quotes are open, so the rest of a value with white space in it is read as further attributes.
-/

namespace FixWire.Xml

/-- An element of a document : its name, its attributes in order, and the elements in it. -/
structure Element where
  name : String
  attributes : List (String × String)
  children : List Element

/-! ## Attributes -/

/-- What stands before the first character that satisfies `p`, and what follows that character. -/
def splitWhere? (p : Char → Bool) (cs : List Char) : Option (List Char × List Char) :=
  match cs.dropWhile fun c => !p c with
  | [] => none
  | _ :: rest => some (cs.takeWhile fun c => !p c, rest)

/-- What follows the characters before the next white space, from that white space on. -/
def afterWord (cs : List Char) : List Char :=
  cs.dropWhile fun c => !isSpace c

/-- The value after the equals sign of an attribute, if it is in quotes, and what follows it. A value
without quotes ends before the next white space. -/
def attributeValue (cs : List Char) : Option (List Char) × List Char :=
  match cs.dropWhile isSpace with
  | [] => (none, [])
  | c :: rest =>
    if c = '"' ∨ c = '\'' then
      match splitWhere? (· == c) rest with
      | some (value, rest) => (some value, rest)
      | none => (none, [])
    else (none, afterWord (c :: rest))

/-- A character that ends the name of an attribute. -/
def endsName (c : Char) : Bool :=
  c == '=' || isSpace c

/-- The next name in a tag, if an equals sign follows it, and what follows the sign. A name without an
equals sign gives nothing, and what follows starts with the character after it that is no white space. -/
def attributeName? (cs : List Char) : Option (Option (List Char) × List Char) :=
  match cs.dropWhile isSpace with
  | [] => none
  | c :: rest =>
    match (rest.dropWhile fun c => !endsName c).dropWhile isSpace with
    | [] => none
    | c' :: rest' =>
      if c' = '=' then some (some (c :: rest.takeWhile fun c => !endsName c), rest')
      else some (none, c' :: rest')

/-! Every step leaves less of the tag to read. -/

theorem length_dropWhile_le (p : Char → Bool) (cs : List Char) :
    (cs.dropWhile p).length ≤ cs.length :=
  (List.dropWhile_suffix p).sublist.length_le

theorem length_afterWord (cs : List Char) : (afterWord cs).length ≤ cs.length :=
  length_dropWhile_le _ cs

theorem length_splitWhere? {p : Char → Bool} {cs before rest : List Char}
    (h : splitWhere? p cs = some (before, rest)) : rest.length < cs.length := by
  have hle := length_dropWhile_le (fun c => !p c) cs
  simp only [splitWhere?] at h
  split at h
  · simp at h
  · rename_i hd
    simp only [Option.some.injEq, Prod.mk.injEq] at h
    rw [hd, List.length_cons, h.2] at hle
    exact hle

theorem length_attributeValue (cs : List Char) : (attributeValue cs).2.length ≤ cs.length := by
  have hle := length_dropWhile_le isSpace cs
  unfold attributeValue
  split
  · simp
  · rename_i c rest h
    rw [h] at hle
    split
    · split
      · rename_i hs
        exact Nat.le_trans (Nat.le_of_lt (length_splitWhere? hs)) (Nat.le_of_succ_le hle)
      · simp
    · exact Nat.le_trans (length_afterWord _) hle

theorem length_attributeName? {cs rest : List Char} {name : Option (List Char)}
    (h : attributeName? cs = some (name, rest)) : rest.length < cs.length := by
  unfold attributeName? at h
  split at h
  · simp at h
  · rename_i c tail hc
    have hcs := length_dropWhile_le isSpace cs
    split at h
    · simp at h
    · rename_i c' rest' hc'
      have htail := length_dropWhile_le (fun c => !endsName c) tail
      have hrest := length_dropWhile_le isSpace (tail.dropWhile fun c => !endsName c)
      rw [hc] at hcs
      rw [hc'] at hrest
      simp only [List.length_cons] at hcs hrest
      split at h
      · simp only [Option.some.injEq, Prod.mk.injEq] at h
        rw [← h.2]
        omega
      · simp only [Option.some.injEq, Prod.mk.injEq] at h
        rw [← h.2]
        simp only [List.length_cons]
        omega

/-- The attributes in a tag after the name of the element. `seen` are the names that were there before;
a name counts as seen even if its value is not well formed. -/
def attributeList (seen : List (List Char)) (cs : List Char) : List (List Char × List Char) :=
  match h : attributeName? cs with
  | none => []
  | some (none, rest) =>
    have := length_attributeName? h
    attributeList seen rest
  | some (some name, rest) =>
    have := length_attributeName? h
    if seen.contains name then
      have := length_afterWord rest
      attributeList seen (afterWord rest)
    else
      have := length_attributeValue rest
      ((attributeValue rest).1.map (name, ·)).toList ++
        attributeList (name :: seen) (attributeValue rest).2
termination_by cs.length

/-- The element that a tag starts, without its children. -/
def Element.ofTag (content : List Char) : Element where
  name := String.ofList (content.takeWhile fun c => !isSpace c)
  attributes := (attributeList [] (afterWord content)).map fun (name, value) =>
    (String.ofList name, String.ofList value)
  children := []

/-! ## The tree -/

/-- A reader of tags : the open elements, innermost first, and the last complete element at the top. -/
structure TreeReader where
  opened : List Element
  root : Option Element

namespace TreeReader

/-- Adds a complete element to the innermost open one, or as the root. -/
def add (r : TreeReader) (element : Element) : TreeReader :=
  match r.opened with
  | [] => { r with root := some element }
  | parent :: outer =>
    { r with opened := { parent with children := parent.children ++ [element] } :: outer }

/-- Reads a tag; none if it ends an element that is not the innermost open one. -/
def read? (r : TreeReader) : Markup → Option TreeReader
  | .start content => some { r with opened := Element.ofTag content :: r.opened }
  | .empty content => some (r.add (Element.ofTag content))
  | .stop name =>
    match r.opened with
    | [] => none
    | element :: outer =>
      if element.name = String.ofList name then some ({ r with opened := outer }.add element) else none

end TreeReader

/-- The root of a document : none if the text is refused, and no element if none is complete. -/
def root? (text : String) : Option (Option Element) := do
  let cs := text.toList
  let tags ← markup? (if cs.head? = some '\ufeff' then cs.drop 1 else cs)
  let reader ← tags.foldlM TreeReader.read? ⟨[], none⟩
  pure reader.root

namespace Element

/-- The value of an attribute. -/
def attribute? (e : Element) (name : String) : Option String :=
  (e.attributes.find? fun a => a.1 == name).map Prod.snd

/-- The first child with the name. -/
def child? (e : Element) (name : String) : Option Element :=
  e.children.find? fun c => c.name == name

/-- The children with the name, in order. -/
def childrenNamed (e : Element) (name : String) : List Element :=
  e.children.filter fun c => c.name == name

end Element

end FixWire.Xml
