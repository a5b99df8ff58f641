/-
Placeholders that open and close in pairs.

* **`Balanced`** — every opening placeholder has a closing one with the same number, and what stands
  between the two is balanced.
* **`Closes`** — the same read from the left with the numbers that are still open.
* **`closes_nil_iff`** — a sequence is balanced if and only if reading it leaves nothing open.
-/
import MessageCompiler.Proofs.Bindings

namespace MessageCompiler.Message

open Text (Interleaved isDigit)

/-! ### Numbers -/

namespace Placeholder

/-- The number of the declared slot that the placeholder stands for. -/
def number (p : Placeholder) : Nat := Text.natOfDigits p.ordinal.digits

/-- A placeholder that was read has digits, and nothing else, in its number. -/
structure Numbered (p : Placeholder) : Prop where
  ne_nil : p.ordinal.digits ≠ []
  digits : ∀ c ∈ p.ordinal.digits, isDigit c = true

variable {p : Placeholder} {s : List Char}

theorem numbered_of_read? {n : Nat} (h : read? s = some (p, n)) : p.Numbered := by
  unfold read? at h
  split at h
  · split at h
    · dsimp only at h
      split at h
      · obtain ⟨o, hread, heq⟩ := Option.map_eq_some_iff.mp h
        cases heq
        exact ⟨Ordinal.read?_ne_nil hread, Ordinal.read?_digits hread⟩
      · cases h
    · cases h
  · cases h

theorem Numbered.value?_eq (h : p.Numbered) :
    p.ordinal.value? = if p.number ≤ 9223372036854775807 then some (p.number : Int) else none :=
  Text.readInt?_of_digits h.ne_nil h.digits

theorem numbered_of_mem {item : List Char × Placeholder} (h : item ∈ (splitPlaceholders s).items) : item.2.Numbered := by
  obtain ⟨-, s', n, -, hread⟩ := (Interleaved.foundIn_splitBy _ _).1 _ _ h
  exact numbered_of_read? hread

end Placeholder

/-! ### Pairs -/

/-- Opening and closing placeholders in pairs, one pair inside another or after it. -/
inductive Balanced : List Placeholder → Prop where
  | nil : Balanced []
  | pair {opening closing : Placeholder} (inner : List Placeholder) {rest : List Placeholder}
      (hopening : opening.closing = false) (hclosing : closing.closing = true)
      (hnumber : closing.number = opening.number) (hinner : Balanced inner) (hrest : Balanced rest) :
      Balanced (opening :: (inner ++ closing :: rest))

/-- Reading the placeholders closes everything that is open; the numbers of the open ones come innermost
first. -/
def Closes : (opened : List Nat) → List Placeholder → Prop
  | opened, [] => opened = []
  | opened, p :: rest =>
    if p.closing then ∃ outer, opened = p.number :: outer ∧ Closes outer rest
    else Closes (p.number :: opened) rest

variable {opened : List Nat} {p : Placeholder} {rest tokens : List Placeholder}

theorem closes_opening (h : p.closing = false) : Closes opened (p :: rest) ↔ Closes (p.number :: opened) rest := by
  simp [Closes, h]

theorem closes_closing (h : p.closing = true) :
    Closes opened (p :: rest) ↔ ∃ outer, opened = p.number :: outer ∧ Closes outer rest := by
  simp [Closes, h]

theorem Balanced.closes_append (h : Balanced tokens) :
    ∀ (opened : List Nat) (rest : List Placeholder), Closes opened rest → Closes opened (tokens ++ rest) := by
  induction h with
  | nil => exact fun opened rest h => h
  | @pair opening closing inner tail hopening hclosing hnumber _ _ ihinner ihrest =>
    intro opened rest h
    simp_all [List.cons_append, closes_opening, List.append_assoc, closes_closing]

/-- The rest of a sequence in which some numbers are open: balanced pieces, and between them the closing
placeholders of the open numbers. -/
def Unwinds : (opened : List Nat) → List Placeholder → Prop
  | [], tokens => Balanced tokens
  | n :: opened, tokens =>
    ∃ inner closing rest, tokens = inner ++ closing :: rest ∧ Balanced inner ∧ closing.closing = true ∧
      closing.number = n ∧ Unwinds opened rest

theorem Unwinds.cons_pair {opening closing : Placeholder} {inner : List Placeholder}
    (hopening : opening.closing = false) (hclosing : closing.closing = true)
    (hnumber : closing.number = opening.number) (hinner : Balanced inner) :
    ∀ {opened : List Nat} {rest : List Placeholder}, Unwinds opened rest →
      Unwinds opened (opening :: (inner ++ closing :: rest)) := by
  intro opened rest h
  cases opened with
  | nil => exact Balanced.pair inner hopening hclosing hnumber hinner h
  | cons n opened =>
    obtain ⟨piece, last, rest', rfl, hpiece, hlast, hn, hunwinds⟩ := h
    refine ⟨opening :: (inner ++ closing :: piece), last, rest', ?_,
      .pair inner hopening hclosing hnumber hinner hpiece, hlast, hn, hunwinds⟩
    simp

theorem Closes.unwinds : ∀ {tokens : List Placeholder} {opened : List Nat}, Closes opened tokens →
    Unwinds opened tokens := by
  intro tokens
  induction tokens with
  | nil =>
    rintro opened rfl
    exact .nil
  | cons p rest ih =>
    intro opened h
    by_cases hp : p.closing = true
    · obtain ⟨outer, rfl, hrest⟩ := (closes_closing hp).mp h
      exact ⟨[], p, rest, rfl, .nil, hp, rfl, ih hrest⟩
    · rw [Bool.not_eq_true] at hp
      -- the placeholder that closes `p` splits the rest
      obtain ⟨inner, closing, tail, rfl, hinner, hclosing, hnumber, hunwinds⟩ := ih ((closes_opening hp).mp h)
      exact Unwinds.cons_pair hp hclosing hnumber hinner hunwinds

theorem closes_nil_iff : Closes [] tokens ↔ Balanced tokens := by
  constructor
  · exact Closes.unwinds
  · intro h
    have hclosed := h.closes_append [] [] rfl
    rwa [List.append_nil] at hclosed

end MessageCompiler.Message
