/-
Character references.

In text, a named reference that is known without its semicolon counts even if more letters follow it; in
an attribute value it does not, and a name followed by an equals sign is no reference at all.
-/
import MessageCompiler.Markup.EntityTable

namespace MessageCompiler.Markup

/-- What the code points from 0x80 to 0x9F stand for in a reference. -/
def legacyCodes : List Nat :=
  [0x20AC, 0x0081, 0x201A, 0x0192, 0x201E, 0x2026, 0x2020, 0x2021, 0x02C6, 0x2030, 0x0160, 0x2039,
    0x0152, 0x008D, 0x017D, 0x008F, 0x0090, 0x2018, 0x2019, 0x201C, 0x201D, 0x2022, 0x2013, 0x2014,
    0x02DC, 0x2122, 0x0161, 0x203A, 0x0153, 0x009D, 0x017E, 0x0178]

/-- The character with a number, of which the last 32 bits count; U+FFFD if there is none. -/
def numberedChar (n : Nat) : Char :=
  let n := n % 0x100000000
  if 0x80 ≤ n && n ≤ 0x9F then Char.ofNat ((legacyCodes[n - 0x80]?).getD 0xFFFD)
  else if n == 0 || (0xD800 ≤ n && n ≤ 0xDFFF) || 0x10FFFF < n then '�'
  else Char.ofNat n

def isDecimal (c : Char) : Bool := '0' ≤ c && c ≤ '9'

def isHex (c : Char) : Bool := isDecimal c || ('a' ≤ c && c ≤ 'f') || ('A' ≤ c && c ≤ 'F')

def isLetter (c : Char) : Bool := ('a' ≤ c && c ≤ 'z') || ('A' ≤ c && c ≤ 'Z')

/-- A reference: what it stands for, and how many characters after the ampersand it takes. -/
structure Reference where
  chars : List Char
  length : Nat

def Reference.none : Reference := ⟨['&'], 0⟩

/-- The digits of a numeric reference, and whether they are in base sixteen. -/
def numberBody : List Char → Bool × List Char
  | 'x' :: s => (true, s)
  | 'X' :: s => (true, s)
  | s => (false, s)

/-- A reference by number; `s` follows `&#`. Fewer than two characters, or a single digit without a
semicolon, are none. -/
def numericReference (s : List Char) : Reference :=
  if s.length ≤ 1 then .none
  else
    let (hex, body) := numberBody s
    let digits := body.takeWhile (if hex then isHex else isDecimal)
    let semicolon := (body.drop digits.length).head? == some ';'
    let length := 1 + (if hex then 1 else 0) + digits.length + (if semicolon then 1 else 0)
    if length ≤ 2 then .none
    else
      let base := if hex then 16 else 10
      ⟨[numberedChar (digits.foldl (fun n c => base * n + hexDigit c) 0)], length⟩

def entity? (name : List Char) : Option (List Char) := entities.lookup name

/-- The longest part of the name, of at most `n` and at least two characters, that is a reference on its
own. -/
def shortReference? (name : List Char) : Nat → Option Reference
  | 0 => none
  | 1 => none
  | n + 2 =>
    match entity? (name.take (n + 2)) with
    | some chars => some ⟨chars, n + 2⟩
    | none => shortReference? name (n + 1)

/-- A reference by name; `s` follows the ampersand. -/
def namedReference (inValue : Bool) (s : List Char) : Reference :=
  let word := s.takeWhile fun c => isLetter c || isDecimal c
  let rest := s.drop word.length
  let semicolon := rest.head? == some ';'
  let name := if semicolon then word ++ [';'] else word
  let literal : Reference := ⟨'&' :: name, name.length⟩
  if name.isEmpty then .none
  else if inValue && !semicolon && rest.head? == some '=' then literal
  else
    match entity? name with
    | some chars => ⟨chars, name.length⟩
    | none =>
      if inValue then literal
      else (shortReference? name (min (name.length - 1) 6)).getD literal

def reference (inValue : Bool) : List Char → Reference
  | '#' :: s => numericReference s
  | s => namedReference inValue s

/-- Decodes references; `skip` characters still belong to the last one. -/
def decodeFrom (inValue : Bool) : (skip : Nat) → List Char → List Char
  | _, [] => []
  | skip + 1, _ :: s => decodeFrom inValue skip s
  | 0, c :: s =>
    if c == '&' then
      let r := reference inValue s
      r.chars ++ decodeFrom inValue r.length s
    else c :: decodeFrom inValue 0 s

def decode (inValue : Bool) (s : List Char) : List Char := decodeFrom inValue 0 s

end MessageCompiler.Markup
