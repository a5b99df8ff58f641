/-
Text interleaved with items found in it.

A scanner looks for the next item from the left, never inside one it has already found, and returns
the texts between the items together with the items.

* **`flatten_splitBy`** — with every item written back as it was found, nothing is lost.
-/

namespace MessageCompiler.Text

/-- Items, each with the text in front of it, and the text after the last one. -/
structure Interleaved (α : Type) where
  items : List (List Char × α)
  last : List Char
  deriving Repr

namespace Interleaved

variable {α : Type}

def flatten (write : α → List Char) (x : Interleaved α) : List Char :=
  x.items.flatMap (fun p => p.1 ++ write p.2) ++ x.last

def cons (text : List Char) (item : α) (x : Interleaved α) : Interleaved α :=
  ⟨(text, item) :: x.items, x.last⟩

/-- Scans the text for items. `item? s` is the item at the front of `s`, if there is one, with the
number of its characters; `skip` characters still belong to the item found last, and `text` holds the
characters since, latest first. -/
def splitFrom (item? : List Char → Option (α × Nat)) :
    (skip : Nat) → (text : List Char) → List Char → Interleaved α
  | _, text, [] => ⟨[], text.reverse⟩
  | skip + 1, text, _ :: s => splitFrom item? skip text s
  | 0, text, c :: s =>
    match item? (c :: s) with
    | some (item, n) => (splitFrom item? (n - 1) [] s).cons text.reverse item
    | none => splitFrom item? 0 (c :: text) s

/-- The text around the items that `item?` recognises. -/
def splitBy (item? : List Char → Option (α × Nat)) (s : List Char) : Interleaved α :=
  splitFrom item? 0 [] s

theorem flatten_cons (write : α → List Char) (text : List Char) (item : α) (x : Interleaved α) :
    (x.cons text item).flatten write = text ++ write item ++ x.flatten write := by
  simp [flatten, cons]

theorem flatten_splitFrom {item? : List Char → Option (α × Nat)} {write : α → List Char}
    (h : ∀ s a n, item? s = some (a, n) → 0 < n ∧ s.take n = write a) :
    ∀ (s : List Char) (skip : Nat) (text : List Char), skip = 0 ∨ text = [] →
      (splitFrom item? skip text s).flatten write = text.reverse ++ s.drop skip := by
  intro s
  induction s with
  | nil => intro skip text _; simp [splitFrom, flatten]
  | cons c s ih =>
    intro skip text hst
    cases skip with
    | succ skip =>
      have ht : text = [] := by
        cases hst with
        | inl h0 => cases h0
        | inr ht => exact ht
      subst ht
      simpa [splitFrom] using ih skip [] (Or.inr rfl)
    | zero =>
      unfold splitFrom
      split
      · next item n heq =>
        obtain ⟨hn, htake⟩ := h _ _ _ heq
        obtain ⟨m, rfl⟩ : ∃ m, n = m + 1 := ⟨n - 1, by omega⟩
        rw [flatten_cons, ih _ [] (Or.inr rfl), ← htake]
        simp
      · rw [ih 0 (c :: text) (Or.inl rfl)]
        simp

theorem flatten_splitBy {item? : List Char → Option (α × Nat)} {write : α → List Char}
    (h : ∀ s a n, item? s = some (a, n) → 0 < n ∧ s.take n = write a) (s : List Char) :
    (splitBy item? s).flatten write = s := by
  simpa [splitBy] using flatten_splitFrom h s 0 [] (Or.inl rfl)

end Interleaved

end MessageCompiler.Text
