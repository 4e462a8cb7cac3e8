import FixWire.Text.Shown

/-!
# Quoted texts

A string literal : the text between double quotes, with a backslash in front of quotes and backslashes,
short forms for the common controls, and the number of every other character that does not show.
-/

namespace FixWire.Text.Quoted

/-- A character inside the quotes. -/
def escape (c : Char) : String :=
  if c = '\x00' then "\\0"
  else if c = '\t' then "\\t"
  else if c = '\n' then "\\n"
  else if c = '\x0d' then "\\r"
  else if c = '"' then "\\\""
  else if c = '\\' then "\\\\"
  else if isShown c then c.toString
  else "\\u\x7b" ++ String.ofList (Nat.toDigits 16 c.toNat) ++ "\x7d"

/-- The literal that denotes the text. -/
def literal (text : String) : String :=
  "\"" ++ String.join (text.toList.map escape) ++ "\""

end FixWire.Text.Quoted
