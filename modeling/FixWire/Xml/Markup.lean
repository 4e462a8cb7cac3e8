/-!
# Markup

The first stage of reading a document : the tags in it, in order, with everything else left out. Comments,
processing instructions, the document type and character data are skipped wherever they stand. A document
is refused if one of them, or a tag, is not ended, or if an ampersand in the text is not followed by a
semicolon before the next ampersand, the next tag or the end; which name stands between them does not
matter, because text is not used.
-/

namespace FixWire.Xml

/-- A tag, with what stands in it. -/
inductive Markup where
  /-- A start tag : the name and the attributes. -/
  | start (content : List Char)
  /-- The tag of an element without content : the name and the attributes. -/
  | empty (content : List Char)
  /-- An end tag : the name. -/
  | stop (name : List Char)
  deriving DecidableEq, Repr

/-- The white space of documents. -/
def isSpace (c : Char) : Bool :=
  c == ' ' || c == '\t' || c == '\n' || c == '\x0d'

/-- What follows the first occurrence of `mark`. -/
def after? (mark : List Char) : List Char → Option (List Char)
  | [] => if mark = [] then some [] else none
  | c :: rest =>
    if mark.isPrefixOf (c :: rest) then some ((c :: rest).drop mark.length) else after? mark rest

/-- What follows `mark` at the start of the text. -/
def afterStart? (mark cs : List Char) : Option (List Char) :=
  if mark.isPrefixOf cs then some (cs.drop mark.length) else none

/-- The content of a tag up to its first `>` outside quotes, and the rest. `quote` is the open quote. -/
def tagContent : Option Char → List Char → Option (List Char × List Char)
  | _, [] => none
  | none, c :: rest =>
    if c = '>' then some ([], rest)
    else
      let quote := if c = '"' ∨ c = '\'' then some c else none
      (tagContent quote rest).map fun (content, rest) => (c :: content, rest)
  | some q, c :: rest =>
    (tagContent (if c = q then none else some q) rest).map fun (content, rest) => (c :: content, rest)

/-- Where the reader stands in a document type. -/
inductive DoctypeState where
  /-- Before the bracketed part. -/
  | outer
  /-- In the bracketed part, between declarations. -/
  | inner
  /-- In a declaration of the bracketed part, and whether it is one that holds literals. -/
  | declaration (literals : Bool)
  /-- In quotes, with the state to go back to. -/
  | quoted (quote : Char) (back : DoctypeState)
  /-- In a comment of the bracketed part, with the number of hyphens just read. -/
  | comment (hyphens : Nat)
  /-- In a processing instruction of the bracketed part, and whether a question mark was just read. -/
  | instruction (question : Bool)
  /-- After the bracketed part. -/
  | closing

/-- Whether the declaration that starts here, after its `<`, is one that holds literals : of an entity, of an
attribute list or of a notation. A `>` in quotes does not end such a declaration; every other one ends at
its first `>`. -/
def holdsLiterals (cs : List Char) : Bool :=
  ['!', 'E', 'N', 'T', 'I', 'T', 'Y'].isPrefixOf cs ||
  ['!', 'A', 'T', 'T', 'L', 'I', 'S', 'T'].isPrefixOf cs ||
  ['!', 'N', 'O', 'T', 'A', 'T', 'I', 'O', 'N'].isPrefixOf cs

/-- What follows the document type. -/
def afterDoctype? : DoctypeState → List Char → Option (List Char)
  | _, [] => none
  | .outer, c :: rest =>
    if c = '>' then some rest
    else if c = '[' then afterDoctype? .inner rest
    else if c = '"' ∨ c = '\'' then afterDoctype? (.quoted c .outer) rest
    else afterDoctype? .outer rest
  | .inner, c :: rest =>
    if c = ']' then afterDoctype? .closing rest
    else if c = '<' then
      match rest with
      | '!' :: '-' :: '-' :: rest => afterDoctype? (.comment 0) rest
      | '?' :: rest => afterDoctype? (.instruction false) rest
      | rest => afterDoctype? (.declaration (holdsLiterals rest)) rest
    else afterDoctype? .inner rest
  | .declaration literals, c :: rest =>
    if c = '>' then afterDoctype? .inner rest
    else if literals ∧ (c = '"' ∨ c = '\'') then afterDoctype? (.quoted c (.declaration true)) rest
    else afterDoctype? (.declaration literals) rest
  | .quoted q back, c :: rest => afterDoctype? (if c = q then back else .quoted q back) rest
  | .comment hyphens, c :: rest =>
    if c = '>' ∧ 2 ≤ hyphens then afterDoctype? .inner rest
    else afterDoctype? (.comment (if c = '-' then hyphens + 1 else 0)) rest
  | .instruction question, c :: rest =>
    if c = '>' ∧ question then afterDoctype? .inner rest
    else afterDoctype? (.instruction (c == '?')) rest
  | .closing, c :: rest => if c = '>' then some rest else afterDoctype? .closing rest

/-- What follows a document type that has a name. -/
def afterNamedDoctype? (cs : List Char) : Option (List Char) :=
  match cs.dropWhile isSpace with
  | [] => none
  | c :: _ => if c = '>' then none else afterDoctype? .outer cs

/-- What follows `<!` and a comment, character data or a document type, whose keyword may be in small
letters. -/
def afterDeclaration? (cs : List Char) : Option (List Char) :=
  if cs.head? = some '-' then (afterStart? ['-', '-'] cs).bind (after? ['-', '-', '>'])
  else if cs.head? = some '[' then
    (afterStart? ['[', 'C', 'D', 'A', 'T', 'A', '['] cs).bind (after? [']', ']', '>'])
  else if (cs.take 7).map Char.toUpper = ['D', 'O', 'C', 'T', 'Y', 'P', 'E'] then
    afterNamedDoctype? (cs.drop 7)
  else none

/-- What follows `<?` and a processing instruction. -/
def afterInstruction? : List Char → Option (List Char)
  | '>' :: _ => none
  | cs => after? ['?', '>'] cs

/-- The name in an end tag; white space at its end does not count, unless there is nothing else. -/
def endTagName (content : List Char) : List Char :=
  if content.all isSpace then content else (content.reverse.dropWhile isSpace).reverse

/-- The tag for the content of a tag that is no end tag. -/
def ofContent (content : List Char) : Markup :=
  if content.getLast? = some '/' then .empty content.dropLast else .start content

/-- The tag after `<`, if one stands there, and the rest. -/
def item? : List Char → Option (Option Markup × List Char)
  | [] => none
  | '!' :: rest => (afterDeclaration? rest).map fun rest => (none, rest)
  | '?' :: rest => (afterInstruction? rest).map fun rest => (none, rest)
  | '/' :: rest =>
    (tagContent none rest).map fun (content, rest) => (some (.stop (endTagName content)), rest)
  | cs => (tagContent none cs).map fun (content, rest) => (some (ofContent content), rest)

/-- What follows the name and the semicolon of a reference. -/
def afterReference? : List Char → Option (List Char)
  | [] => none
  | c :: rest =>
    if c = ';' then some rest else if c = '&' ∨ c = '<' then none else afterReference? rest

/-! ## Every step leaves less to read -/

theorem length_after? {mark cs rest : List Char} (h : after? mark cs = some rest) :
    rest.length ≤ cs.length := by
  induction cs with
  | nil => simp only [after?] at h; split at h <;> simp_all
  | cons c cs ih =>
    simp only [after?] at h
    split at h
    · simp only [Option.some.injEq] at h
      simp [← h]
    · have := ih h
      simp
      omega

theorem length_afterStart? {mark cs rest : List Char} (h : afterStart? mark cs = some rest) :
    rest.length ≤ cs.length := by
  simp only [afterStart?] at h
  split at h
  · simp only [Option.some.injEq] at h
    simp [← h]
  · simp at h

theorem length_tagContent {quote : Option Char} {cs content rest : List Char}
    (h : tagContent quote cs = some (content, rest)) : rest.length ≤ cs.length := by
  induction cs generalizing quote content with
  | nil => simp [tagContent] at h
  | cons c cs ih =>
    have step {q : Option Char} {content : List Char}
        (h : (tagContent q cs).map (fun (content, rest) => (c :: content, rest)) = some (content, rest)) :
        rest.length ≤ (c :: cs).length := by
      obtain ⟨⟨_, _⟩, hq, he⟩ := Option.map_eq_some_iff.mp h
      simp only [Prod.mk.injEq] at he
      have := ih (he.2 ▸ hq)
      simp
      omega
    cases quote with
    | none =>
      simp only [tagContent] at h
      split at h
      · simp_all
      · exact step h
    | some q => exact step h

theorem length_afterDoctype? {state : DoctypeState} {cs rest : List Char}
    (h : afterDoctype? state cs = some rest) : rest.length ≤ cs.length := by
  fun_induction afterDoctype? state cs <;> simp_all
  all_goals omega

theorem length_afterReference? {cs rest : List Char} (h : afterReference? cs = some rest) :
    rest.length ≤ cs.length := by
  induction cs with
  | nil => simp [afterReference?] at h
  | cons c cs ih =>
    simp only [afterReference?] at h
    split at h
    · simp_all
    · split at h
      · simp at h
      · exact Nat.le_succ_of_le (ih h)

theorem length_afterNamedDoctype? {cs rest : List Char} (h : afterNamedDoctype? cs = some rest) :
    rest.length ≤ cs.length := by
  simp only [afterNamedDoctype?] at h
  split at h
  · simp at h
  · split at h
    · simp at h
    · exact length_afterDoctype? h

theorem length_afterDeclaration? {cs rest : List Char} (h : afterDeclaration? cs = some rest) :
    rest.length ≤ cs.length := by
  have skip {mark stop : List Char} (h : (afterStart? mark cs).bind (after? stop) = some rest) :
      rest.length ≤ cs.length := by
    obtain ⟨_, h₁, h₂⟩ := Option.bind_eq_some_iff.mp h
    exact Nat.le_trans (length_after? h₂) (length_afterStart? h₁)
  simp only [afterDeclaration?] at h
  split at h
  · exact skip h
  · split at h
    · exact skip h
    · split at h
      · exact Nat.le_trans (length_afterNamedDoctype? h) (by simp)
      · simp at h

theorem length_afterInstruction? {cs rest : List Char} (h : afterInstruction? cs = some rest) :
    rest.length ≤ cs.length := by
  unfold afterInstruction? at h
  split at h
  · simp at h
  · exact length_after? h

theorem length_item? {cs rest : List Char} {tag : Option Markup} (h : item? cs = some (tag, rest)) :
    rest.length ≤ cs.length := by
  unfold item? at h
  split at h
  · simp at h
  · obtain ⟨_, h₁, h₂⟩ := Option.map_eq_some_iff.mp h
    have := length_afterDeclaration? h₁
    simp_all
    omega
  · obtain ⟨_, h₁, h₂⟩ := Option.map_eq_some_iff.mp h
    have := length_afterInstruction? h₁
    simp_all
    omega
  · obtain ⟨⟨_, _⟩, h₁, h₂⟩ := Option.map_eq_some_iff.mp h
    have := length_tagContent h₁
    simp_all
    omega
  · obtain ⟨⟨_, _⟩, h₁, h₂⟩ := Option.map_eq_some_iff.mp h
    have := length_tagContent h₁
    simp_all

/-! ## The whole document -/

/-- The tags of a text, in order; none if the text is refused. -/
def markup? : List Char → Option (List Markup)
  | [] => some []
  | c :: cs =>
    if c = '<' then
      match h : item? cs with
      | none => none
      | some (tag, rest) =>
        have := length_item? h
        (markup? rest).map (tag.toList ++ ·)
    else if c = '&' then
      match h : afterReference? cs with
      | none => none
      | some rest =>
        have := length_afterReference? h
        markup? rest
    else markup? cs
termination_by cs => cs.length
decreasing_by all_goals simp only [List.length_cons]; omega

end FixWire.Xml
