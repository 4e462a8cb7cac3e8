import FixWire.Text.CharSet

/-!
# Blanks

The characters with the Unicode property White_Space. Texts in a dictionary are trimmed of them, and
they may stand in front of every number of a timestamp.
-/

namespace FixWire.Text

/-- The characters with the property White_Space. -/
def blanks : CharSet := [
  .run 0x9 0xd, .one 0x20, .one 0x85, .one 0xa0, .one 0x1680, .run 0x2000 0x200a,
  .run 0x2028 0x2029, .one 0x202f, .one 0x205f, .one 0x3000]

/-- A blank character. -/
def isBlank (c : Char) : Bool :=
  blanks.contains c

/-- The text without the blanks at its start. -/
def trimStart (cs : List Char) : List Char :=
  cs.dropWhile isBlank

/-- The text without the blanks at either end. -/
def trim (text : String) : String :=
  String.ofList (trimStart (trimStart text.toList).reverse).reverse

end FixWire.Text
