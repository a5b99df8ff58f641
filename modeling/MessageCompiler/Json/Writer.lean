/-
Writing JSON texts, on one line (`compact`) or with two-space indentation (`indented`).

Characters that would matter inside markup (`<`, `>`, `&`) and the line separators U+2028 and U+2029
are escaped, as are controls, quotes and backslashes.
-/
import MessageCompiler.Json.Basic
import MessageCompiler.Text.Quoted

namespace MessageCompiler.Json

/-- How one character is written inside a string literal. -/
def escapeChar (c : Char) : String :=
  if c == '"' then "\\\""
  else if c == '\\' then "\\\\"
  else if c == '\n' then "\\n"
  else if c == '\r' then "\\r"
  else if c == '\t' then "\\t"
  else if c == '\x08' then "\\b"
  else if c == '\x0c' then "\\f"
  else if c.toNat < 0x20 || c == '<' || c == '>' || c == '&' || c.toNat == 0x2028
      || c.toNat == 0x2029 then
    "\\u" ++ Text.hex 4 c.toNat
  else c.toString

def literal (s : String) : String :=
  "\"" ++ String.join (s.toList.map escapeChar) ++ "\""

mutual

def compact : Json → String
  | .null => "null"
  | .bool b => if b then "true" else "false"
  | .num text => text
  | .str s => literal s
  | .arr items => "[" ++ compactItems items ++ "]"
  | .obj members => "\x7b" ++ compactMembers members ++ "\x7d"

def compactItems : List Json → String
  | [] => ""
  | [j] => compact j
  | j :: rest => compact j ++ "," ++ compactItems rest

def compactMembers : List (String × Json) → String
  | [] => ""
  | [(name, j)] => literal name ++ ":" ++ compact j
  | (name, j) :: rest => literal name ++ ":" ++ compact j ++ "," ++ compactMembers rest

end

def newline (d : Nat) : String := "\n" ++ String.ofList (List.replicate (2 * d) ' ')

mutual

/-- The value with each element and member on a line of its own. -/
def indentedAt (d : Nat) : Json → String
  | .null => "null"
  | .bool b => if b then "true" else "false"
  | .num text => text
  | .str s => literal s
  | .arr [] => "[]"
  | .arr items => "[" ++ indentedItems (d + 1) items ++ newline d ++ "]"
  | .obj [] => "\x7b\x7d"
  | .obj members => "\x7b" ++ indentedMembers (d + 1) members ++ newline d ++ "\x7d"

def indentedItems (d : Nat) : List Json → String
  | [] => ""
  | [j] => newline d ++ indentedAt d j
  | j :: rest => newline d ++ indentedAt d j ++ "," ++ indentedItems d rest

def indentedMembers (d : Nat) : List (String × Json) → String
  | [] => ""
  | [(name, j)] => newline d ++ literal name ++ ": " ++ indentedAt d j
  | (name, j) :: rest =>
    newline d ++ literal name ++ ": " ++ indentedAt d j ++ "," ++ indentedMembers d rest

end

/-- The value over several lines, indented by two spaces a level. -/
def indented (j : Json) : String := indentedAt 0 j

end MessageCompiler.Json
