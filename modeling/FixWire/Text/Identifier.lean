import FixWire.Text.LetterCase

/-!
# Identifiers made from names

Names in a dictionary are written in mixed case, such as `OnBehalfOfCompID`. Words start at a capital
that follows a small letter or a digit, and at the last capital of a run that a small letter follows, so
that acronyms stay together. Case is changed for ASCII letters only.
-/

namespace FixWire.Text

/-- An ASCII digit. -/
def isAsciiDigit (c : Char) : Bool :=
  '0' ≤ c && c ≤ '9'

/-- Whether a word starts at `c`, which stands between `prev` and `next`. -/
def startsWord (prev c : Char) (next : Option Char) : Bool :=
  isUpper c && (isLower prev || isAsciiDigit prev || (isUpper prev && next.any isLower))

/-- The rest of a name after `prev`, in small letters, with an underscore before every word. -/
def snakeAfter : Char → List Char → List Char
  | _, [] => []
  | prev, c :: rest =>
    if startsWord prev c rest.head? then '_' :: c.toLower :: snakeAfter c rest
    else c.toLower :: snakeAfter c rest

/-- A name in small letters, its words joined by underscores. -/
def snakeCase (name : String) : String :=
  match name.toList with
  | [] => ""
  | c :: rest => String.ofList (c.toLower :: snakeAfter c rest)

/-- A name in capital letters, its words joined by underscores. -/
def screamingSnakeCase (name : String) : String :=
  (snakeCase name).map Char.toUpper

/-- An ASCII letter or digit. -/
def isWordChar (c : Char) : Bool :=
  isAsciiDigit c || ('a' ≤ c && c ≤ 'z') || ('A' ≤ c && c ≤ 'Z')

/-- The text as an identifier : an underscore stands for every character that may not occur in one, and
in front of a digit at the start, and makes up the identifier of an empty text. -/
def toIdentifier (text : String) : String :=
  let cs := text.toList.map fun c => if isWordChar c then c else '_'
  String.ofList <|
    match cs with
    | [] => ['_']
    | c :: _ => if isAsciiDigit c then '_' :: cs else cs

end FixWire.Text
