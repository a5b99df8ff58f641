/-
The one way to cut a text at its blocks.

A cut of a text has plain texts, without an opening brace, and between them blocks that are closed: no brace in them
is closed before it is opened, and none stays open. The last text may end with a brace that nothing closes.

* **`splits_iff`** — every text has exactly one cut, and the scan for blocks finds it.
-/
import MessageCompiler.Proofs.Printing

namespace MessageCompiler.Message

open List
open Text (Interleaved)

variable {s block rest : List Char} {depth : Nat}

/-- The number of open braces behind a text; none if it closes a brace that is not open. -/
def depthAfter : (depth : Nat) → List Char → Option Nat
  | depth, [] => some depth
  | depth, c :: s =>
    if c = '\x7b' then depthAfter (depth + 1) s
    else if c = '\x7d' then if depth = 0 then none else depthAfter (depth - 1) s
    else depthAfter depth s

/-- Every brace of the block is closed in it, and opened before. -/
def Closed (block : List Char) : Prop := depthAfter 0 block = some 0

/-- Nothing in the text closes the brace in front of it. -/
def Unclosed (rest : List Char) : Prop := depthAfter 0 rest ≠ none

/-- The texts and blocks make up the text, and are as long as braces allow. -/
structure Splits (s : List Char) (cut : Interleaved (List Char)) : Prop where
  flatten : cut.flatten braced = s
  closed : ∀ q ∈ cut.items, Closed q.2
  plain : ∀ q ∈ cut.items, '\x7b' ∉ q.1
  last : '\x7b' ∉ cut.last ∨ ∃ front rest, '\x7b' ∉ front ∧ cut.last = front ++ '\x7b' :: rest ∧ Unclosed rest

/-- Inside blocks the scan takes the text as a part of the outermost one, as long as it does not close that. -/
theorem splitBracesFrom_of_depthAfter {after : Nat} {text more : List Char} (h : depthAfter depth s = some after)
    (outer : Nat) (block : List Char) : splitBracesFrom (outer + depth + 1) text block (s ++ more) =
      splitBracesFrom (outer + after + 1) text (s.reverse ++ block) more := by
  induction s generalizing depth block with
  | nil =>
    cases h
    rfl
  | cons c s ih =>
    rw [depthAfter] at h
    split at h
    · next hopen =>
      simp_all [splitBracesFrom, Nat.add_assoc]
    · next hopen =>
      split at h
      · next hclose =>
        cases depth with
        | zero => cases h
        | succ depth =>
          simp_all [splitBracesFrom, ← Nat.add_assoc]
      · next hclose => simp [splitBracesFrom, hopen, hclose, ih h]

theorem Closed.enclosable (h : Closed block) : Enclosable block :=
  fun depth _ before _ => splitBracesFrom_of_depthAfter h depth before

/-- The place where a text closes a brace that was open in front of it. -/
theorem exists_closing (h : depthAfter depth s = none) :
    ∃ block rest, s = block ++ '\x7d' :: rest ∧ depthAfter depth block = some 0 := by
  induction s generalizing depth with
  | nil => cases h
  | cons c s ih =>
    rw [depthAfter] at h
    split at h
    · next hopen =>
      obtain ⟨block, rest, rfl, hblock⟩ := ih h
      exact ⟨c :: block, rest, rfl, by simp [depthAfter, hopen, hblock]⟩
    · next hopen =>
      split at h
      · next hclose =>
        cases depth with
        | zero => exact ⟨[], s, by rw [hclose, nil_append], rfl⟩
        | succ outer =>
          obtain ⟨block, rest, rfl, hblock⟩ := ih h
          exact ⟨c :: block, rest, rfl, by simpa [depthAfter, hclose] using hblock⟩
      · next hclose =>
        obtain ⟨block, rest, rfl, hblock⟩ := ih h
        exact ⟨c :: block, rest, rfl, by simp [depthAfter, hopen, hclose, hblock]⟩

/-- A cut is what the scan finds. -/
theorem Splits.eq_splitBraces {cut : Interleaved (List Char)} (h : Splits s cut) : cut = splitBraces s := by
  obtain ⟨items, last⟩ := cut
  obtain ⟨rfl, hclosed, hplain, hlast⟩ := h
  induction items with
  | nil =>
    rw [Interleaved.flatten, flatMap_nil, nil_append]
    rcases hlast with hlast | ⟨front, rest, hfront, rfl, hrest⟩
    · exact (splitBraces_plain hlast).symm
    · obtain ⟨after, hafter⟩ := Option.ne_none_iff_exists'.mp hrest
      have hscan : splitBracesFrom (0 + 0 + 1) front.reverse [] (rest ++ []) = _ :=
        splitBracesFrom_of_depthAfter hafter 0 []
      rw [splitBraces, splitBracesFrom_plain hfront]
      simp_all [splitBracesFrom]
  | cons q items ih =>
    obtain ⟨hq, hclosed⟩ := forall_mem_cons.mp hclosed
    obtain ⟨hfront, hplain⟩ := forall_mem_cons.mp hplain
    have hrest := ih hclosed hplain hlast
    show Interleaved.cons q.1 q.2 ⟨items, last⟩ = splitBraces ((Interleaved.cons q.1 q.2 ⟨items, last⟩).flatten braced)
    rw [Interleaved.flatten_cons, append_assoc, splitBraces_braced hfront hq.enclosable, ← hrest]

/-- Every text has a cut: the front of it up to the end of its first block, and then a cut of the rest. -/
theorem exists_splits : ∀ (n : Nat) {s : List Char}, s.length ≤ n → ∃ cut, Splits s cut := by
  intro n
  induction n with
  | zero =>
    intro s hs
    rw [length_eq_zero_iff.mp (Nat.le_zero.mp hs)]
    exact ⟨⟨[], []⟩, rfl, by simp, by simp, .inl not_mem_nil⟩
  | succ n ih =>
    intro s hs
    by_cases hopen : '\x7b' ∈ s
    · obtain ⟨front, rest, rfl, hfront⟩ := eq_append_cons_of_mem hopen
      by_cases hrest : Unclosed rest
      · exact ⟨⟨[], front ++ '\x7b' :: rest⟩, rfl, by simp, by simp, .inr ⟨front, rest, hfront, rfl, hrest⟩⟩
      · obtain ⟨block, more, rfl, hblock⟩ := exists_closing (not_not.mp hrest)
        obtain ⟨cut, hcut⟩ := ih (s := more) (by grind)
        refine ⟨cut.cons front block, ?_, forall_mem_cons.mpr ⟨hblock, hcut.closed⟩,
          forall_mem_cons.mpr ⟨hfront, hcut.plain⟩, hcut.last⟩
        rw [Interleaved.flatten_cons, hcut.flatten]
        simp [braced]
    · exact ⟨⟨[], s⟩, rfl, by simp, by simp, .inl hopen⟩

/-- The scan for blocks finds the only cut of the text. -/
theorem splits_iff (s : List Char) (cut : Interleaved (List Char)) : Splits s cut ↔ cut = splitBraces s := by
  refine ⟨Splits.eq_splitBraces, ?_⟩
  rintro rfl
  obtain ⟨cut, hcut⟩ := exists_splits s.length (Nat.le_refl _)
  rwa [← hcut.eq_splitBraces]

end MessageCompiler.Message
