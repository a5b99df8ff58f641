/-
Small operations on texts: shortening, indenting, splitting at a character, replacing.

* **`splitOnChar_ne_nil`** — a text always has at least one piece.
* **`joinChar_splitOnChar`** — joining the pieces at the separator gives the text back.
-/

namespace MessageCompiler.Text

/-- At most `max` characters of the text, with three dots where some were left out. -/
def truncate (s : String) (max : Nat) : String :=
  if s.length ≤ max then s else String.ofList (s.toList.take max) ++ "..."

/-- `truncate` for a number that may be negative, which has no meaning. -/
def truncate? (s : String) (max : Int) : Option String :=
  if max < 0 then none else some (truncate s max.toNat)

/-- The pieces of a text between the occurrences of `sep`. -/
def splitOnChar (sep : Char) : List Char → List (List Char)
  | [] => [[]]
  | c :: s =>
    if c = sep then [] :: splitOnChar sep s
    else
      match splitOnChar sep s with
      | [] => [[c]]
      | piece :: rest => (c :: piece) :: rest

def joinChar (sep : Char) : List (List Char) → List Char
  | [] => []
  | [piece] => piece
  | piece :: rest => piece ++ sep :: joinChar sep rest

theorem splitOnChar_ne_nil (sep : Char) (s : List Char) : splitOnChar sep s ≠ [] := by
  induction s with
  | nil => simp [splitOnChar]
  | cons c s ih =>
    unfold splitOnChar
    split
    · simp
    · split <;> simp

theorem joinChar_cons (sep : Char) (piece : List Char) {rest : List (List Char)}
    (h : rest ≠ []) : joinChar sep (piece :: rest) = piece ++ sep :: joinChar sep rest := by
  cases rest with
  | nil => exact absurd rfl h
  | cons p ps => rfl

theorem joinChar_splitOnChar (sep : Char) (s : List Char) :
    joinChar sep (splitOnChar sep s) = s := by
  induction s with
  | nil => rfl
  | cons c s ih =>
    have hne := splitOnChar_ne_nil sep s
    unfold splitOnChar
    split
    · next h => rw [joinChar_cons sep [] hne, ih, h]; rfl
    · cases hs : splitOnChar sep s with
      | nil => exact absurd hs hne
      | cons p ps =>
        rw [hs] at ih
        cases ps with
        | nil => simpa [joinChar] using ih
        | cons q qs => simpa [joinChar] using ih

def unlines (ls : List String) : String := "\n".intercalate ls

/-- Every line of the text moved in by two spaces, trailing line feeds dropped; an empty text is
marked as such. -/
def indent (s : String) : String :=
  if s.isEmpty then "  (none)"
  else
    let body := (s.toList.reverse.dropWhile (· == '\n')).reverse
    String.ofList (' ' :: ' ' :: body.flatMap fun c => if c == '\n' then ['\n', ' ', ' '] else [c])

/-- `text` with every occurrence of `old` replaced, from the left and without overlaps. The fuel
is the length of the text. -/
def replaceFrom (old new : List Char) : Nat → List Char → List Char
  | 0, s => s
  | _ + 1, [] => []
  | fuel + 1, c :: s =>
    if old.isPrefixOf (c :: s) then
      new ++ replaceFrom old new fuel ((c :: s).drop old.length)
    else c :: replaceFrom old new fuel s

/-- `text` with every occurrence of the non-empty `old` replaced by `new`. -/
def replaceAll (text old new : String) : String :=
  if old.isEmpty then text
  else String.ofList (replaceFrom old.toList new.toList (text.length + 1) text.toList)

def occursIn (part : List Char) : List Char → Bool
  | [] => part.isEmpty
  | c :: s => part.isPrefixOf (c :: s) || occursIn part s

end MessageCompiler.Text
