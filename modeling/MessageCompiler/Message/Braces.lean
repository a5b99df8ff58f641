/-
Brace blocks.

A text is split at its outermost `{...}` blocks. A closing brace without an opening one is text, and so
is everything from an opening brace that is never closed.

* **`flatten_splitBraces`** — writing the braces back around the blocks gives the text.
-/
import MessageCompiler.Text.Interleaved

namespace MessageCompiler.Message

open Text (Interleaved)

/-- Scans for blocks. `depth` counts the open braces; `text` holds the characters since the last block
and `block` those of the block being read, latest first. -/
def splitBracesFrom :
    (depth : Nat) → (text block : List Char) → List Char → Interleaved (List Char)
  | 0, text, _, [] => ⟨[], text.reverse⟩
  | _ + 1, text, block, [] => ⟨[], text.reverse ++ '\x7b' :: block.reverse⟩
  | 0, text, block, c :: s =>
    if c = '\x7b' then splitBracesFrom 1 text [] s else splitBracesFrom 0 (c :: text) block s
  | depth + 1, text, block, c :: s =>
    if c = '\x7b' then splitBracesFrom (depth + 2) text (c :: block) s
    else if c = '\x7d' then
      match depth with
      | 0 => (splitBracesFrom 0 [] [] s).cons text.reverse block.reverse
      | d + 1 => splitBracesFrom (d + 1) text (c :: block) s
    else splitBracesFrom (depth + 1) text (c :: block) s

/-- The text around its outermost blocks; the blocks come without their braces. -/
def splitBraces (s : List Char) : Interleaved (List Char) := splitBracesFrom 0 [] [] s

def braced (block : List Char) : List Char := '\x7b' :: block ++ ['\x7d']

theorem flatten_splitBracesFrom (s : List Char) :
    ∀ (depth : Nat) (text block : List Char),
      (splitBracesFrom depth text block s).flatten braced =
        text.reverse ++ (if depth = 0 then [] else '\x7b' :: block.reverse) ++ s := by
  induction s with
  | nil =>
    intro depth text block
    cases depth <;> simp [splitBracesFrom, Interleaved.flatten]
  | cons c s ih =>
    intro depth text block
    cases depth with
    | zero =>
      unfold splitBracesFrom
      split
      · next h => subst h; rw [ih]; simp
      · rw [ih]; simp
    | succ depth =>
      unfold splitBracesFrom
      split
      · rw [ih]; simp
      · split
        · next h =>
          subst h
          cases depth with
          | zero => simp [Interleaved.flatten_cons, ih, braced]
          | succ d => simp [ih]
        · rw [ih]; simp

theorem flatten_splitBraces (s : List Char) : (splitBraces s).flatten braced = s := by
  simp [splitBraces, flatten_splitBracesFrom]

end MessageCompiler.Message
