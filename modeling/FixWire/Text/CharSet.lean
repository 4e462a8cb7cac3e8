/-!
# Sets of characters

A property of characters is a list of spans of code points. A span is one character, a run of
neighbours, or every second character of a run, as in the alphabets where capital and small letters
take turns.
-/

namespace FixWire.Text

/-- Some neighbouring code points. -/
inductive Span where
  /-- A single one. -/
  | one (code : Nat)
  /-- All from the first to the last. -/
  | run (first last : Nat)
  /-- The first, the third, and so on to the last. -/
  | alternate (first last : Nat)
  deriving Repr

/-- Whether the span has the code point. -/
def Span.contains : Span → Nat → Bool
  | .one code, n => n == code
  | .run first last, n => first ≤ n && n ≤ last
  | .alternate first last, n => first ≤ n && n ≤ last && (n - first) % 2 == 0

/-- A set of characters, given by its spans. -/
abbrev CharSet := List Span

/-- Whether the set has the character. -/
def CharSet.contains (set : CharSet) (c : Char) : Bool :=
  set.any fun span => span.contains c.toNat

end FixWire.Text
