/-
Properly nested regions.

A message whose regions are properly nested is a tree of texts and regions that was printed. Cutting out the
part of a template never builds that tree: two scans over the borders do it, each with no more than the tag of
one region in mind. They agree with the tree all the same.

* **`emptyRegions_print`** — emptying keeps the borders of the outermost regions and what is outside of them.
-/
import MessageCompiler.Message.Region
import MessageCompiler.Proofs.Spelling

namespace MessageCompiler

open List
open Text (Interleaved isDigit showInt)
open Text.Interleaved (Free splitFrom splitFrom_free)
open Message.Border (read?)

variable {rest s : List Char} {b : Border}

/-! ### Scanning -/

namespace Text.Interleaved

variable {α : Type} {item? : List Char → Option (α × Nat)}

def prepend (items : List (List Char × α)) (x : Interleaved α) : Interleaved α := ⟨items ++ x.items, x.last⟩

theorem splitFrom_skip (acc rest : List Char) : ∀ item : List Char,
    splitFrom item? item.length acc (item ++ rest) = splitFrom item? 0 acc rest
  | [] => rfl
  | c :: item => by
    rw [length_cons, cons_append, splitFrom]
    exact splitFrom_skip acc rest item

theorem splitFrom_item {item : α} {text : List Char} (hne : text ≠ [])
    (h : item? (text ++ rest) = some (item, text.length)) (acc : List Char) :
    splitFrom item? 0 acc (text ++ rest) = (splitFrom item? 0 [] rest).cons acc.reverse item := by
  cases text with
  | nil => exact absurd rfl hne
  | cons c text =>
    simp_all [cons_append, splitFrom, length_cons, splitFrom_skip]

end Text.Interleaved

namespace Message

/-! ### Borders -/

def Border.numbered (closing : Bool) (slot child : Nat) : Border :=
  ⟨closing, (showInt slot).toList, (showInt child).toList⟩

def Bare (s : List Char) : Prop := ¬[mark, '*'] <:+: s ∧ ¬[mark, '/', '*'] <:+: s

instance (s : List Char) : Decidable (Bare s) := inferInstanceAs (Decidable (_ ∧ _))

def Ends (rest : List Char) : Prop := ∀ c r, rest = c :: r → c = mark

theorem Ends.nil : Ends [] := fun _ _ h => by cases h

theorem Border.ends_text (b : Border) (rest : List Char) : Ends (b.text ++ rest) := by
  intro c r h
  cases h
  rfl

/-- The numbers of the border are written with digits. -/
structure Border.Written (b : Border) : Prop where
  slot : b.slot ≠ [] ∧ ∀ c ∈ b.slot, isDigit c = true
  child : b.child ≠ [] ∧ ∀ c ∈ b.child, isDigit c = true

theorem Placeholder.splitSlash_spec (s : List Char) :
    s = (if (splitSlash s).1 then ['/'] else []) ++ (splitSlash s).2 := by
  unfold splitSlash
  split <;> rfl

theorem Border.read?_spec {n : Nat} (h : read? s = some (b, n)) :
    b.Written ∧ n = b.text.length ∧ ∃ rest, s = b.text ++ rest := by
  cases s with
  | nil => cases h
  | cons c s =>
    rw [read?] at h
    split at h
    · next hmark =>
      obtain rfl := beq_iff_eq.mp hmark
      dsimp only at h
      split at h
      · next u hu =>
        split at h
        · next v hv =>
          split at h
          · next hfound =>
            cases h
            simp only [Bool.and_eq_true, Bool.not_eq_true', isEmpty_eq_false_iff] at hfound
            refine ⟨⟨⟨hfound.1.1, all_eq_true.mp all_takeWhile⟩, hfound.1.2, all_eq_true.mp all_takeWhile⟩, rfl, ?_⟩
            have hs := Placeholder.splitSlash_spec s
            rw [hu, ← takeWhile_append_dropWhile (p := isDigit) (l := u), hv,
              ← takeWhile_append_dropWhile (p := isDigit) (l := v)] at hs
            generalize v.dropWhile isDigit = tail at hfound hs
            cases tail with
            | nil => cases hfound.2
            | cons d rest =>
              obtain rfl := beq_iff_eq.mp hfound.2
              refine ⟨rest, ?_⟩
              conv => lhs; rw [hs]
              simp [text, tag]
          · cases h
        · cases h
      · cases h
    · cases h

theorem Border.read?_text (h : b.Written) (rest : List Char) : read? (b.text ++ rest) = some (b, b.text.length) := by
  have hslash : ∀ s, Placeholder.splitSlash ((if b.closing then ['/'] else []) ++ '*' :: s) = (b.closing, '*' :: s) := by
    intro s
    cases b.closing <;> rfl
  have htext : b.text ++ rest = mark :: ((if b.closing then ['/'] else []) ++
      '*' :: (b.slot ++ ':' :: (b.child ++ mark :: rest))) := by
    simp [text, tag]
  have hcolon : isDigit ':' = false := by decide
  have hmark : isDigit mark = false := by decide
  rw [htext, read?, if_pos (beq_self_eq_true mark), hslash]
  simp [Text.takeWhile_isDigit h.slot.2 hcolon, Text.dropWhile_isDigit h.slot.2 hcolon,
    Text.takeWhile_isDigit h.child.2 hmark, Text.dropWhile_isDigit h.child.2 hmark, h.slot.1, h.child.1, Ordinal.closes]

theorem Border.starts_of_read? {found : Border × Nat} (h : read? s = some found) :
    [mark, '*'] <+: s ∨ [mark, '/', '*'] <+: s := by
  obtain ⟨⟨closing, slot, child⟩, n⟩ := found
  obtain ⟨-, -, rest, rfl⟩ := read?_spec h
  cases closing with
  | false => exact .inl ⟨_, rfl⟩
  | true => exact .inr ⟨_, rfl⟩

theorem Bare.read?_eq_none {c : Char} (h : Bare (c :: s)) (hrest : Ends rest) : read? (c :: (s ++ rest)) = none := by
  cases hread : read? (c :: (s ++ rest)) with
  | none => rfl
  | some found =>
    exfalso
    have hfirst : ∀ d t, s = [] → s ++ rest = d :: t → d = mark := by
      rintro d t rfl heq
      exact hrest d t heq
    rcases Border.starts_of_read? hread with ⟨tail, heq⟩ | ⟨tail, heq⟩
    · obtain ⟨rfl, htail⟩ := List.cons.inj heq
      cases s with
      | nil => exact absurd (hfirst '*' tail rfl htail.symm) (by decide)
      | cons d s =>
        obtain ⟨rfl, -⟩ := List.cons.inj htail
        exact h.1 ⟨[], s, rfl⟩
    · obtain ⟨rfl, htail⟩ := List.cons.inj heq
      cases s with
      | nil => exact absurd (hfirst '/' ('*' :: tail) rfl htail.symm) (by decide)
      | cons d s =>
        obtain ⟨rfl, hstar⟩ := List.cons.inj htail
        cases s with
        | nil => exact absurd (hrest '*' tail hstar.symm) (by decide)
        | cons e s =>
          obtain ⟨rfl, -⟩ := List.cons.inj hstar
          exact h.2 ⟨[], s, rfl⟩

theorem Bare.of_suffix {t : List Char} (h : Bare s) (hsuffix : t <:+ s) : Bare t :=
  ⟨fun hin => h.1 (hin.trans hsuffix.isInfix), fun hin => h.2 (hin.trans hsuffix.isInfix)⟩

theorem Bare.free (h : Bare s) (hrest : Ends rest) : Free read? s rest := by
  intro t hne hsuffix
  cases t with
  | nil => exact absurd rfl hne
  | cons c t => exact (h.of_suffix hsuffix).read?_eq_none hrest

theorem Border.written_numbered (closing : Bool) (slot child : Nat) : (numbered closing slot child).Written := by
  have hdigits : ∀ n : Nat, (showInt n).toList ≠ [] ∧ ∀ c ∈ (showInt n).toList, isDigit c = true := by
    intro n
    rw [Text.toList_showInt]
    exact ⟨Nat.toDigits_ne_nil, fun _ => Text.isDigit_of_mem_toDigits⟩
  exact ⟨hdigits slot, hdigits child⟩

theorem splitFrom_border (closing : Bool) (slot child : Nat) (acc rest : List Char) :
    splitFrom read? 0 acc ((Border.numbered closing slot child).text ++ rest) =
      (splitFrom read? 0 [] rest).cons acc.reverse (.numbered closing slot child) :=
  Interleaved.splitFrom_item (cons_ne_nil _ _) (Border.read?_text (Border.written_numbered closing slot child) rest) acc

theorem Border.tag_numbered_inj {closing closing' : Bool} {slot slot' child child' : Nat}
    (h : (numbered closing slot child).tag = (numbered closing' slot' child').tag) : child = child' := by
  have hcolon : ∀ n : Nat, ':' ∉ Nat.toDigits 10 n := fun n hmem => by
    cases Text.isDigit_of_mem_toDigits hmem
  simp only [tag, numbered, Text.toList_showInt] at h
  grind [append_cons_inj_of_notMem, Text.natOfDigits_toDigits]

/-! ### Passing over borders -/

theorem emptyFrom_skip {last tag : List Char} {more : List (List Char × Border)} :
    ∀ {items : List (List Char × Border)}, (∀ x ∈ items, ¬(x.2.closing = true ∧ x.2.tag = tag)) →
      emptyFrom last (some tag) (items ++ more) = emptyFrom last (some tag) more
  | [], _ => rfl
  | (text, b) :: items, h => by
    rw [cons_append, emptyFrom, if_neg]
    · exact emptyFrom_skip fun x hx => h x (mem_cons_of_mem _ hx)
    · simp_all [Bool.and_eq_true, decide_eq_true_eq]

theorem Border.child_numbered_ne {closing : Bool} {slot child index : Nat} (h : child ≠ index) :
    (Border.numbered closing slot child).child ≠ (showInt index).toList := by
  grind [Border.numbered, Text.toList_showInt, Text.natOfDigits_toDigits]

theorem afterOpening_skip {name : List Char} {more : List (List Char × Border)} :
    ∀ {items : List (List Char × Border)}, (∀ x ∈ items, x.2.child ≠ name) →
      afterOpening name (items ++ more) = afterOpening name more
  | [], _ => rfl
  | (text, b) :: items, h => by
    rw [cons_append, afterOpening, if_neg]
    · exact afterOpening_skip fun x hx => h x (mem_cons_of_mem _ hx)
    · simp_all

theorem upToClosing_append {name last : List Char} (hb : b.child = name) (hclosing : b.closing = true)
    (more : List (List Char × Border)) : ∀ {items : List (List Char × Border)}, (∀ x ∈ items, x.2.child ≠ name) →
      upToClosing name (items ++ (last, b) :: more) = some (Interleaved.flatten Border.text ⟨items, last⟩)
  | [], _ => by
    rw [nil_append, upToClosing, if_pos]
    · rfl
    · grind
  | (text, c) :: items, h => by
    rw [cons_append, upToClosing, if_neg, upToClosing_append hb hclosing more fun x hx =>
      h x (mem_cons_of_mem _ hx)]
    · simp [Interleaved.flatten]
    · simp_all

/-! ### Trees of regions -/

/-- Texts and regions in turn, from a text to a text; neighbouring texts are one text. -/
inductive Passage where
  | text (s : List Char)
  /-- A region behind a text, what is inside it and what follows. -/
  | region (front : List Char) (slot child : Nat) (inside rest : Passage)
  deriving DecidableEq, Repr

namespace Passage

variable {p : Passage} {index : Nat}

def print : Passage → List Char
  | .text s => s
  | .region front slot child inside rest =>
    front ++ ((Border.numbered false slot child).text ++ (inside.print ++
      ((Border.numbered true slot child).text ++ rest.print)))

/-- The sub-templates that regions belong to, in the order in which the regions open. -/
def indices : Passage → List Nat
  | .text _ => []
  | .region _ _ child inside rest => child :: (inside.indices ++ rest.indices)

def hollow : Passage → Passage
  | .text s => .text s
  | .region front slot child _ rest => .region front slot child (.text []) rest.hollow

def first? (index : Nat) : Passage → Option Passage
  | .text _ => none
  | .region _ _ child inside rest =>
    if child = index then some inside else (inside.first? index).or (rest.first? index)

/-- No text looks like a border, and no region is inside another one of its sub-template. -/
def WellNested : Passage → Prop
  | .text s => Bare s
  | .region front _ child inside rest =>
    Bare front ∧ child ∉ inside.indices ∧ inside.WellNested ∧ rest.WellNested

instance decidableWellNested : (p : Passage) → Decidable p.WellNested
  | .text s => inferInstanceAs (Decidable (Bare s))
  | .region front _ child inside rest =>
    have := decidableWellNested inside
    have := decidableWellNested rest
    inferInstanceAs (Decidable (Bare front ∧ child ∉ inside.indices ∧ inside.WellNested ∧ rest.WellNested))

def borders : Passage → Interleaved Border
  | .text s => ⟨[], s⟩
  | .region front slot child inside rest =>
    ⟨(front, .numbered false slot child) :: (inside.borders.items ++
      (inside.borders.last, .numbered true slot child) :: rest.borders.items), rest.borders.last⟩

theorem splitFrom_print : ∀ {p : Passage}, p.WellNested → ∀ {rest : List Char}, Ends rest →
    splitFrom read? 0 [] (p.print ++ rest) = (splitFrom read? 0 p.borders.last.reverse rest).prepend p.borders.items
  | .text s, h, rest, hrest => by
    rw [print, splitFrom_free (h.free hrest), append_nil]
    rfl
  | .region front slot child inside more, ⟨hfront, _, hinside, hmore⟩, rest, hrest => by
    simp only [print, append_assoc]
    rw [splitFrom_free (hfront.free (Border.ends_text _ _)), splitFrom_border, splitFrom_print hinside (Border.ends_text _ _),
      splitFrom_border, splitFrom_print hmore hrest]
    simp [Interleaved.prepend, Interleaved.cons, borders]

theorem splitBorders_print (h : p.WellNested) : splitBorders p.print = p.borders := by
  have hsplit := splitFrom_print h Ends.nil
  rw [append_nil] at hsplit
  unfold splitBorders Interleaved.splitBy
  rw [hsplit]
  simp [Interleaved.prepend, splitFrom]

theorem flatten_borders : ∀ p : Passage, p.borders.flatten Border.text = p.print
  | .text s => rfl
  | .region front slot child inside rest => by
    rw [print, ← flatten_borders inside, ← flatten_borders rest]
    simp [Interleaved.flatten, borders]

theorem exists_numbered : ∀ {p : Passage} {x : List Char × Border}, x ∈ p.borders.items →
    ∃ closing slot, ∃ child ∈ p.indices, x.2 = .numbered closing slot child
  | .text s, x, h => by cases h
  | .region front slot child inside rest, x, h => by
    rw [borders, mem_cons, mem_append, mem_cons] at h
    rcases h with rfl | h | rfl | h
    · exact ⟨false, slot, child, mem_cons_self, rfl⟩
    · obtain ⟨closing, slot', child', hchild, hx⟩ := exists_numbered h
      exact ⟨closing, slot', child', mem_cons_of_mem _ (mem_append_left _ hchild), hx⟩
    · exact ⟨true, slot, child, mem_cons_self, rfl⟩
    · obtain ⟨closing, slot', child', hchild, hx⟩ := exists_numbered h
      exact ⟨closing, slot', child', mem_cons_of_mem _ (mem_append_right _ hchild), hx⟩

/-! ### Emptying regions -/

theorem emptyFrom_borders : ∀ {p : Passage}, p.WellNested →
    emptyFrom p.borders.last none p.borders.items = .ok p.hollow.print
  | .text s, _ => rfl
  | .region front slot child inside rest, ⟨_, hchild, _, hrest⟩ => by
    -- Only the tag of the outer region is in mind, so what is inside must not have it.
    have hinside : ∀ x ∈ inside.borders.items, ¬(x.2.closing = true ∧ x.2.tag = (Border.numbered false slot child).tag) := by
      rintro x hx ⟨-, htag⟩
      obtain ⟨closing, slot', child', hmem, heq⟩ := exists_numbered hx
      rw [heq] at htag
      exact hchild (Border.tag_numbered_inj htag ▸ hmem)
    rw [borders, emptyFrom, emptyFrom_skip hinside, emptyFrom, if_pos, emptyFrom_borders hrest]
    · simp [hollow, print, bind, Except.bind, pure, Except.pure]
    · rw [Bool.and_eq_true, decide_eq_true_eq]
      exact ⟨rfl, rfl⟩

theorem emptyRegions_print (h : p.WellNested) : emptyRegions p.print = .ok p.hollow.print := by
  unfold emptyRegions
  rw [splitBorders_print h]
  exact emptyFrom_borders h

/-! ### The first region of a sub-template -/

theorem first?_eq_none : ∀ {p : Passage}, p.first? index = none ↔ index ∉ p.indices
  | .text s => by simp [first?, indices]
  | .region front slot child inside rest => by
    rw [first?, indices, mem_cons, mem_append]
    by_cases hchild : child = index
    · simp [hchild]
    · simp_all [Ne.symm, first?_eq_none]

theorem WellNested.of_first? : ∀ {p inside : Passage}, p.WellNested → p.first? index = some inside →
    inside.WellNested ∧ index ∉ inside.indices
  | .text s, inside, _, h => by cases h
  | .region front slot child content rest, inside, ⟨_, hchild, hcontent, hrest⟩, h => by
    rw [first?] at h
    split at h
    · next heq =>
      cases h
      exact ⟨hcontent, heq ▸ hchild⟩
    · rcases Option.or_eq_some_iff.mp h with h | ⟨-, h⟩
      · exact hcontent.of_first? h
      · exact hrest.of_first? h

theorem child_ne_of_notMem (h : index ∉ p.indices) : ∀ x ∈ p.borders.items, x.2.child ≠ (showInt index).toList := by
  intro x hx
  obtain ⟨closing, slot, child, hchild, heq⟩ := exists_numbered hx
  rw [heq]
  refine Border.child_numbered_ne ?_
  rintro rfl
  exact h hchild

theorem exists_afterOpening : ∀ {p inside : Passage}, p.first? index = some inside →
    ∀ tail : List (List Char × Border), ∃ slot more,
      afterOpening (showInt index).toList (p.borders.items ++ tail) =
        some (inside.borders.items ++ (inside.borders.last, .numbered true slot index) :: more)
  | .text s, inside, h, _ => by cases h
  | .region front slot child content rest, inside, h, tail => by
    rw [first?] at h
    rw [borders, cons_append, append_assoc, cons_append, afterOpening]
    split at h
    · next heq =>
      cases h
      subst heq
      refine ⟨slot, rest.borders.items ++ tail, ?_⟩
      simp [Border.numbered]
    · next hne =>
      rw [if_neg]
      · -- The search goes on inside, and behind the region if there is none of them inside.
        rcases Option.or_eq_some_iff.mp h with h | ⟨hnone, h⟩
        · exact exists_afterOpening h _
        · obtain ⟨slot', more, hafter⟩ := exists_afterOpening h tail
          refine ⟨slot', more, ?_⟩
          rw [afterOpening_skip (child_ne_of_notMem (first?_eq_none.mp hnone)), afterOpening, if_neg]
          · exact hafter
          · simp [Border.child_numbered_ne hne]
      · simp [Border.child_numbered_ne hne]

theorem region_print {inside : Passage} (h : p.WellNested) (hfirst : p.first? index = some inside) :
    Message.region index p.print = .ok inside.print := by
  obtain ⟨slot, more, hafter⟩ := exists_afterOpening hfirst []
  rw [append_nil] at hafter
  have hchild : (Border.numbered true slot index).child = (showInt index).toList := rfl
  unfold Message.region
  dsimp only
  rw [splitBorders_print h, hafter]
  dsimp only
  rw [upToClosing_append hchild rfl more (child_ne_of_notMem (h.of_first? hfirst).2)]
  exact congrArg Except.ok (flatten_borders inside)

theorem region_print_absent (h : p.WellNested) (habsent : index ∉ p.indices) :
    Message.region index p.print = .error (.absent index) := by
  have hafter : afterOpening (showInt index).toList (p.borders.items ++ []) = none :=
    afterOpening_skip (child_ne_of_notMem habsent)
  simp_all [append_nil, splitBorders_print, Message.region]

/-- Two regions of the sub-template 2, one of them inside a region of the sub-template 1, and texts with markers
that are not borders. -/
def twofold : Passage :=
  .region "a\uFFFD".toList 1 1 (.region "b\uFFFD/".toList 2 2 (.text "*c".toList) (.text "d".toList))
    (.region "*3:2\uFFFDe".toList 3 2 (.text "f".toList) (.text "g".toList))

end Passage

end Message

end MessageCompiler
