import FixWire.Text.Utf8

/-!
# Outlines

What an aggregate holds, as text : its fields with their values, and its groups with their repetitions, in
order, one to a line and indented by their depth. In values, quotes and backslashes are escaped, and bytes
that are no UTF-8 are replaced.
-/

namespace FixWire

/-- A field with its value, or a group with its repetitions. -/
inductive Outline where
  | field (name : String) (value : Bytes)
  | group (name : String) (repetitions : List (List Outline))

namespace Outline

/-- The indentation of a line. -/
def indent (level : Nat) : String :=
  String.join (List.replicate level "  ")

/-- A character of a value. -/
def escape (c : Char) : String :=
  if c = '"' then "\\\"" else if c = '\\' then "\\\\" else c.toString

/-- The line of a field. -/
def fieldLine (level : Nat) (name : String) (value : Bytes) : String :=
  indent level ++ "\"" ++ name ++ "\": \"" ++ String.join ((Utf8.decodeLossy value).map escape) ++ "\",\n"

/-- The line that opens a named block. -/
def openLine (level : Nat) (name bracket : String) : String :=
  indent level ++ "\"" ++ name ++ "\": " ++ bracket ++ "\n"

/-- The line that closes a block. -/
def closeLine (level : Nat) (bracket : String) : String :=
  indent level ++ bracket ++ ",\n"

mutual

/-- The lines of a field or a group. -/
def memberLines (level : Nat) : Outline → String
  | .field name value => fieldLine level name value
  | .group name repetitions =>
    openLine level name "[" ++ repetitionLines (level + 1) repetitions ++ closeLine level "]"

/-- The lines of some fields and groups. -/
def lines (level : Nat) : List Outline → String
  | [] => ""
  | member :: rest => memberLines level member ++ lines level rest

/-- The lines of the repetitions of a group. -/
def repetitionLines (level : Nat) : List (List Outline) → String
  | [] => ""
  | repetition :: rest =>
    indent level ++ "\x7b\n" ++ lines (level + 1) repetition ++ closeLine level "\x7d" ++
      repetitionLines level rest

end

/-- The text of an aggregate. -/
def render (members : List Outline) : String :=
  "\x7b\n" ++ lines 1 members ++ "\x7d"

/-- The text of a message : its name, and its parts, of which header and trailer are blocks. -/
def renderMessage (name : String) (header body trailer : List Outline) : String :=
  "\x7b\n" ++ fieldLine 1 "MessageName" (Bytes.ofString name) ++
    openLine 1 "header" "\x7b" ++ lines 2 header ++ closeLine 1 "\x7d" ++
    lines 1 body ++
    openLine 1 "trailer" "\x7b" ++ lines 2 trailer ++ closeLine 1 "\x7d" ++ "\x7d"

end Outline

end FixWire
