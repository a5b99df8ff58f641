/-
Blank characters.

Two classes are in use. `isPatternBlank` is the class that separates the parts of an ICU header and
of a command listing: tab, line feed, form feed, carriage return and space. `isBlank` is Unicode
`White_Space`, which is what trimming removes.

* **`trim_eq_self`** — a text that neither starts nor ends blank is its own trimming.
-/

namespace MessageCompiler.Text

/-- Tab, line feed, form feed, carriage return and space. -/
def isPatternBlank (c : Char) : Bool :=
  c == '\t' || c == '\n' || c == '\x0c' || c == '\r' || c == ' '

def isBlank (c : Char) : Bool :=
  let n := c.toNat
  (0x09 ≤ n && n ≤ 0x0D) || n == 0x20 || n == 0x85 || n == 0xA0 || n == 0x1680 ||
    (0x2000 ≤ n && n ≤ 0x200A) || n == 0x2028 || n == 0x2029 || n == 0x202F || n == 0x205F ||
    n == 0x3000

/-- The text without the trailing characters that satisfy `p`. -/
def dropRightWhile (p : Char → Bool) (s : List Char) : List Char :=
  (s.reverse.dropWhile p).reverse

def trim (s : List Char) : List Char :=
  dropRightWhile isBlank (s.dropWhile isBlank)

theorem dropRightWhile_append_singleton (p : Char → Bool) (s : List Char) (c : Char)
    (h : p c = false) : dropRightWhile p (s ++ [c]) = s ++ [c] := by
  simp [dropRightWhile, h]

theorem trim_eq_self {c d : Char} (s : List Char) (hc : isBlank c = false)
    (hd : isBlank d = false) : trim (c :: (s ++ [d])) = c :: (s ++ [d]) := by
  have h := dropRightWhile_append_singleton isBlank (c :: s) d hd
  simpa [trim, hc] using h

end MessageCompiler.Text
