/-
Quoted text, as it stands in listings and error messages.

A printable character is written as itself; quotes, backslashes and everything that cannot be seen
are escaped: `\a \b \f \n \r \t \v \\ \"`, `\x7f` below U+0080, `\u200b` and `\U000e0001` above.
-/
import MessageCompiler.Text.Printable

namespace MessageCompiler.Text

/-- The number in base sixteen, filled up with zeros to `width` digits. -/
def hex (width n : Nat) : String :=
  let ds := Nat.toDigits 16 n
  String.ofList (List.replicate (width - ds.length) '0' ++ ds)

/-- How one character is written between double quotes. -/
def quoteChar (c : Char) : String :=
  if c == '"' then "\\\""
  else if c == '\\' then "\\\\"
  else if isPrintable c then c.toString
  else if c == '\x07' then "\\a"
  else if c == '\x08' then "\\b"
  else if c == '\x0c' then "\\f"
  else if c == '\n' then "\\n"
  else if c == '\r' then "\\r"
  else if c == '\t' then "\\t"
  else if c == '\x0b' then "\\v"
  else if c.toNat < 0x80 then "\\x" ++ hex 2 c.toNat
  else if c.toNat < 0x10000 then "\\u" ++ hex 4 c.toNat
  else "\\U" ++ hex 8 c.toNat

def quote (s : String) : String :=
  "\"" ++ String.join (s.toList.map quoteChar) ++ "\""

/-- A character between single quotes, with escapes. -/
def quoteSingle (c : Char) : String :=
  if c == '\'' then "'\\''"
  else if c == '"' then "'\"'"
  else "'" ++ quoteChar c ++ "'"

end MessageCompiler.Text
