/-
Paths into a catalogue.

The characters with a meaning in a path are escaped by a backslash when a key is written as a path. A
path that starts with a bracket is a selector; what follows its closing bracket, if anything does, is
again a path.

* **`unescape_escape`** — reading the path of a key gives the key back.
-/

namespace MessageCompiler.Catalogue

/-- Whether a character has a meaning of its own in a path. -/
def isSpecial (c : Char) : Bool :=
  c == '.' || c == '*' || c == '?' || c == '|' || c == '#' || c == '@' || c == '\\'

def escape : List Char → List Char
  | [] => []
  | c :: s => if isSpecial c then '\\' :: c :: escape s else c :: escape s

def unescape : List Char → List Char
  | [] => []
  | ['\\'] => []
  | '\\' :: c :: s => c :: unescape s
  | c :: s => c :: unescape s

theorem unescape_escape (s : List Char) : unescape (escape s) = s := by
  induction s with
  | nil => rfl
  | cons c s ih =>
    by_cases h : isSpecial c
    · simp [escape, h, unescape, ih]
    · have hc : c ≠ '\\' := by
        intro hc
        simp [hc, isSpecial] at h
      cases hs : escape s with
      | nil => simp_all [escape, unescape]
      | cons d t => simp_all [escape, unescape]

/-- The text after the bracket that closes a selector, if there is one. `depth` brackets are open; inside
quotes brackets do not count. -/
def afterSelector? : (depth : Nat) → (quoted : Bool) → List Char → Option (List Char)
  | _, _, [] => none
  | _, _, ['\\'] => none
  | depth, quoted, '\\' :: _ :: s => afterSelector? depth quoted s
  | depth, quoted, c :: s =>
    if c == '"' then afterSelector? depth (!quoted) s
    else if quoted then afterSelector? depth quoted s
    else if c == '[' || c == '(' || c == '\x7b' then afterSelector? (depth + 1) quoted s
    else if c == ']' || c == ')' || c == '\x7d' then
      if depth ≤ 1 then some s else afterSelector? (depth - 1) quoted s
    else afterSelector? depth quoted s

/-- What follows the opening bracket of a selector. A single bracket is only a key. -/
def selector? : List Char → Option (List Char)
  | c :: s => if (c == '[' || c == '\x7b') && !s.isEmpty then some s else none
  | [] => none

end MessageCompiler.Catalogue
