/-
What an instruction keeps of the text that it was made from.

The markers of a text become bindings, and what stands between them literals. A marker is recognised by its own
characters alone, whatever follows it; so no literal has one, and writing the markers back gives the text.

* **`Interleaved.not_occurs_splitFrom`** — the texts between items have none.
-/
import Mathlib.Data.List.Chain
import Mathlib.Data.List.Forall2
import MessageCompiler.Proofs.Bindings

namespace MessageCompiler

open List
open Text (Interleaved isDigit takeWhile_isDigit dropWhile_isDigit)
open Message (mark occurs bindingText splitBindings)

/-! ### Markers -/

namespace Message

variable {s : List Char} {o : Ordinal} {n : Nat}

/-- The suffix that is read at the front of a text is read whatever follows the marker character behind it. -/
theorem Ordinal.suffixOf_spec (s : List Char) : suffixOf s <+: s ∧
    ∀ t, suffixOf (suffixOf s ++ mark :: t) = suffixOf s ∧
      ∃ c rest, suffixOf s ++ mark :: t = c :: rest ∧ isDigit c = false := by
  unfold suffixOf
  split
  · next s =>
    refine ⟨cons_prefix_cons.mpr ⟨rfl, takeWhile_prefix _⟩, fun t => ⟨?_, ':', _, rfl, by decide⟩⟩
    have hdigits : ∀ c ∈ s.takeWhile isDigit, isDigit c = true := all_eq_true.mp all_takeWhile
    exact congrArg (':' :: ·) (takeWhile_isDigit hdigits (by decide) t)
  · exact ⟨List.nil_prefix, fun t => ⟨rfl, mark, t, rfl, by decide⟩⟩

theorem Ordinal.read?_spec (h : Ordinal.read? s = some o) :
    (∃ rest, s = o.text ++ mark :: rest) ∧ ∀ t, Ordinal.read? (o.text ++ mark :: t) = some o := by
  have hdigits := Ordinal.read?_digits h
  have hne := Ordinal.read?_ne_nil h
  unfold Ordinal.read? at h
  dsimp only at h
  split at h
  · next hfound =>
    obtain ⟨hbegins, hagain⟩ := suffixOf_spec (s.dropWhile isDigit)
    have hcloses := (Bool.and_eq_true_iff.mp hfound).2
    cases h
    dsimp only at hdigits hne
    refine ⟨?_, fun t => ?_⟩
    · have hwhole := prefix_iff_eq_append.mp hbegins
      generalize (s.dropWhile isDigit).drop _ = tail at hcloses hwhole
      cases tail with
      | nil => cases hcloses
      | cons c rest =>
        obtain rfl := beq_iff_eq.mp hcloses
        refine ⟨rest, ?_⟩
        rw [text, append_assoc, hwhole, takeWhile_append_dropWhile]
    · obtain ⟨hsuffix, c, rest, hc, hdigit⟩ := hagain t
      unfold Ordinal.read?
      dsimp only
      rw [text, append_assoc, hc, takeWhile_isDigit hdigits hdigit, dropWhile_isDigit hdigits hdigit, ← hc, hsuffix,
        drop_left, if_pos]
      simpa [closes] using hne
  · cases h

theorem binding?_spec (h : binding? s = some (o, n)) : n = (bindingText o).length ∧
    (∃ rest, s = bindingText o ++ rest) ∧ ∀ t, binding? (bindingText o ++ t) = some (o, n) := by
  unfold binding? at h
  split at h
  · next c s =>
    split at h
    · next hc =>
      obtain rfl := beq_iff_eq.mp hc
      obtain ⟨o', hread, heq⟩ := Option.map_eq_some_iff.mp h
      cases heq
      obtain ⟨⟨rest, hrest⟩, hagain⟩ := Ordinal.read?_spec hread
      have htext : ∀ t, bindingText o ++ t = mark :: (o.text ++ mark :: t) := fun t => by simp [bindingText]
      refine ⟨by simp [bindingText], ⟨rest, by rw [htext, ← hrest]⟩, fun t => ?_⟩
      rw [htext, binding?, if_pos (beq_self_eq_true mark), hagain]
      rfl
    · cases h
  · cases h

theorem flatten_splitBindings (s : List Char) : (splitBindings s).flatten bindingText = s := by
  refine Interleaved.flatten_splitBy (fun s o n h => ?_) s
  obtain ⟨rfl, ⟨rest, rfl⟩, -⟩ := binding?_spec h
  exact ⟨by simp [bindingText], take_left⟩

end Message

/-! ### Texts between items -/

namespace Text.Interleaved

variable {α : Type} {item? : List Char → Option (α × Nat)}

def Free (item? : List Char → Option (α × Nat)) (front back : List Char) : Prop :=
  ∀ t, t ≠ [] → t <:+ front → item? (t ++ back) = none

theorem free_nil (back : List Char) : Free item? [] back :=
  fun _ hne h => absurd (suffix_nil.mp h) hne

theorem Free.snoc {front back : List Char} {c : Char} (h : Free item? front (c :: back)) (hc : item? (c :: back) = none) :
    Free item? (front ++ [c]) back := by
  intro t hne ht
  obtain rfl | ⟨t', rfl, ht'⟩ := suffix_concat_iff.mp ht
  · exact absurd rfl hne
  · rw [append_assoc, singleton_append]
    cases t' with
    | nil => exact hc
    | cons d t' => exact h _ (cons_ne_nil _ _) ht'

theorem splitFrom_free {back : List Char} : ∀ {front : List Char}, Free item? front back → ∀ acc : List Char,
    splitFrom item? 0 acc (front ++ back) = splitFrom item? 0 (front.reverse ++ acc) back
  | [], _, _ => rfl
  | c :: front, h, acc => by
    have hnone : item? (c :: (front ++ back)) = none := h (c :: front) (cons_ne_nil _ _) suffix_rfl
    rw [cons_append, splitFrom, hnone]
    dsimp only
    rw [splitFrom_free (fun t hne ht => h t hne (ht.trans (suffix_cons c front))), reverse_cons, append_assoc]
    rfl

def Stable (item? : List Char → Option (α × Nat)) : Prop :=
  ∀ s t x, item? s = some x → item? (s ++ t) = some x

theorem Free.not_occurs (hstable : Stable item?) {back : List Char} :
    ∀ {front : List Char}, Free item? front back → occurs item? front = false
  | [], _ => rfl
  | c :: front, h => by
    have hhead : item? (c :: front) = none := by
      cases hitem : item? (c :: front) with
      | none => rfl
      | some x =>
        have hnone := h (c :: front) (cons_ne_nil _ _) suffix_rfl
        rw [hstable _ back x hitem] at hnone
        cases hnone
    rw [occurs, hhead, Free.not_occurs hstable fun t hne ht => h t hne (ht.trans (suffix_cons c front))]
    rfl

theorem not_occurs_splitFrom (hstable : Stable item?) : ∀ (s : List Char) (skip : Nat) (acc : List Char),
    skip = 0 ∨ acc = [] → Free item? acc.reverse s →
      (∀ p ∈ (splitFrom item? skip acc s).items, occurs item? p.1 = false) ∧
        occurs item? (splitFrom item? skip acc s).last = false
  | [], skip, acc, _, hfree => by
    unfold splitFrom
    exact ⟨fun _ h => absurd h not_mem_nil, hfree.not_occurs hstable⟩
  | c :: s, skip + 1, acc, hacc, _ => by
    obtain rfl := hacc.resolve_left (Nat.succ_ne_zero skip)
    exact not_occurs_splitFrom hstable s skip [] (.inr rfl) (free_nil s)
  | c :: s, 0, acc, _, hfree => by
    unfold splitFrom
    split
    · next found n hitem =>
      obtain ⟨hitems, hlast⟩ := not_occurs_splitFrom hstable s (n - 1) [] (.inr rfl) (free_nil s)
      exact ⟨forall_mem_cons.mpr ⟨hfree.not_occurs hstable, hitems⟩, hlast⟩
    · next hitem =>
      refine not_occurs_splitFrom hstable s 0 (c :: acc) (.inl rfl) ?_
      rw [reverse_cons]
      exact hfree.snoc hitem

end Text.Interleaved

theorem Message.stable_binding? : Interleaved.Stable binding? := by
  rintro s t ⟨o, n⟩ h
  obtain ⟨rfl, ⟨rest, rfl⟩, hagain⟩ := binding?_spec h
  rw [append_assoc, hagain]

/-! ### Masks -/

theorem Mask.getLsbD_ofBinding {i : Int} (h : 0 ≤ i) (b : Nat) : (ofBinding i).getLsbD b = true ↔ min i 31 = b := by
  rw [ofBinding, if_neg (by omega), BitVec.getLsbD_twoPow, Bool.and_eq_true, decide_eq_true_iff, decide_eq_true_iff]
  omega

variable {parts : List Part} {start : Int}

theorem PartsNonneg.nonneg (h : PartsNonneg parts) : ∀ i ∈ parts.filterMap Part.binding?, 0 ≤ i := by
  intro i hi
  obtain ⟨part, hpart, heq⟩ := mem_filterMap.mp hi
  cases part with
  | literal s => cases heq
  | binding j =>
    cases heq
    exact h i hpart

theorem getLsbD_bindingMask (h : PartsNonneg parts) (b : Nat) :
    (bindingMask parts).getLsbD b = true ↔ ∃ i ∈ parts.filterMap Part.binding?, min i 31 = b := by
  have hfold : ∀ (l : List Int) (m : Mask), (∀ i ∈ l, 0 ≤ i) →
      ((l.foldl (fun m i => m ||| Mask.ofBinding i) m).getLsbD b = true ↔ m.getLsbD b = true ∨ ∃ i ∈ l, min i 31 = b) := by
    intro l
    induction l with
    | nil => simp
    | cons i rest ih =>
      simp_all [foldl_cons, BitVec.getLsbD_or, Bool.or_eq_true, Mask.getLsbD_ofBinding, or_assoc]
  unfold bindingMask
  rw [hfold _ _ h.nonneg]
  simp

theorem bindingMask_ne_zero (h : PartsNonneg parts) :
    bindingMask parts ≠ 0#32 ↔ parts.filterMap Part.binding? ≠ [] := by
  constructor
  · intro hne hnil
    exact hne (by rw [bindingMask, hnil]; rfl)
  · intro hne hzero
    obtain ⟨i, hi⟩ := exists_mem_of_ne_nil _ hne
    have hnonneg := h.nonneg i hi
    have hbit := (getLsbD_bindingMask h (min i 31).toNat).mpr ⟨i, hi, by omega⟩
    rw [hzero] at hbit
    simp at hbit

/-! ### Instructions -/

/-- The markers of a text from left to right, none of which starts inside another one. -/
def Message.ordinals (s : List Char) : List Ordinal := (splitBindings s).items.map Prod.snd

/-- The text of the parts, with the markers in their order for the bindings. -/
def spelled : List Message.Ordinal → List Part → List Char
  | os, .literal s :: parts => s.toList ++ spelled os parts
  | o :: os, .binding _ :: parts => bindingText o ++ spelled os parts
  | _, _ => []

theorem spelled_literalParts (os : List Message.Ordinal) (s : List Char) (parts : List Part) :
    spelled os (literalParts s ++ parts) = s ++ spelled os parts := by
  unfold literalParts
  split
  · next h =>
    rw [isEmpty_iff.mp h]
    rfl
  · rw [singleton_append, spelled, String.toList_ofList]

theorem bindingParts_cons (start : Int) (text : List Char) (o : Message.Ordinal) (x : Interleaved Message.Ordinal) :
    bindingParts start (x.cons text o) = literalParts text ++ .binding (bindingIndex start o) :: bindingParts start x := by
  simp [bindingParts, Interleaved.cons]

theorem spelled_bindingParts (start : Int) (items : List (List Char × Message.Ordinal)) (last : List Char) :
    spelled (items.map Prod.snd) (bindingParts start ⟨items, last⟩) =
      (Interleaved.mk items last).flatten bindingText := by
  induction items with
  | nil =>
    have h := spelled_literalParts [] last []
    rw [append_nil] at h
    simpa [bindingParts, Interleaved.flatten, spelled] using h
  | cons p rest ih =>
    have hcons : Interleaved.mk (p :: rest) last = (Interleaved.mk rest last).cons p.1 p.2 := rfl
    rw [hcons, bindingParts_cons, map_cons, spelled_literalParts, spelled, ih, Interleaved.flatten_cons, append_assoc]

def Part.Apart (a b : Part) : Prop := a.binding?.isSome = true ∨ b.binding?.isSome = true

theorem isChain_literalParts (s : List Char) (h : parts.IsChain Part.Apart)
    (hhead : ∀ part ∈ parts.head?, part.binding?.isSome = true) : (literalParts s ++ parts).IsChain Part.Apart := by
  unfold literalParts
  split
  · exact h
  · exact h.cons fun part hpart => .inr (hhead part hpart)

theorem isChain_bindingParts (start : Int) (items : List (List Char × Message.Ordinal)) (last : List Char) :
    (bindingParts start ⟨items, last⟩).IsChain Part.Apart := by
  induction items with
  | nil =>
    have h := isChain_literalParts last List.IsChain.nil fun part hpart => by cases hpart
    rwa [append_nil] at h
  | cons p rest ih =>
    have hcons : Interleaved.mk (p :: rest) last = (Interleaved.mk rest last).cons p.1 p.2 := rfl
    rw [hcons, bindingParts_cons]
    refine isChain_literalParts p.1 (ih.cons fun part _ => .inl rfl) fun part hpart => ?_
    cases hpart
    rfl

theorem bindings_bindingParts (start : Int) (x : Interleaved Message.Ordinal) :
    (bindingParts start x).filterMap Part.binding? = x.items.map fun p => bindingIndex start p.2 := by
  have hliteral : ∀ s, (literalParts s).filterMap Part.binding? = [] := by
    intro s
    unfold literalParts
    split <;> rfl
  unfold bindingParts
  rw [filterMap_append, hliteral, append_nil]
  induction x.items with
  | nil => rfl
  | cons p rest ih =>
    rw [flatMap_cons, filterMap_append, filterMap_append, hliteral, ih]
    rfl

theorem mem_literal_bindingParts {x : Interleaved Message.Ordinal} {s : String}
    (h : .literal s ∈ bindingParts start x) : s ≠ "" ∧ ((∃ p ∈ x.items, s = String.ofList p.1) ∨ s = String.ofList x.last) := by
  have hliteral : ∀ {t : List Char}, .literal s ∈ literalParts t → s ≠ "" ∧ s = String.ofList t := by
    intro t ht
    unfold literalParts at ht
    split at ht
    · cases ht
    · next hne =>
      cases mem_singleton.mp ht
      refine ⟨fun heq => hne ?_, rfl⟩
      rw [← String.toList_ofList (l := t), heq]
      rfl
  unfold bindingParts at h
  rcases mem_append.mp h with h | h
  · obtain ⟨p, hp, h⟩ := mem_flatMap.mp h
    rcases mem_append.mp h with h | h
    · exact ⟨(hliteral h).1, .inl ⟨p, hp, (hliteral h).2⟩⟩
    · cases mem_singleton.mp h
  · exact ⟨(hliteral h).1, .inr (hliteral h).2⟩

/-- The ordinals count from `start` within the numbers of the machine. -/
def Message.Fit (start : Int) (os : List Ordinal) : Prop :=
  ∀ o ∈ os, ∃ n, o.value? = some n ∧ start + n ≤ 9223372036854775807

theorem bindingIndex_of_fit (hstart : 0 ≤ start) {s : List Char} (hfit : Message.Fit start (Message.ordinals s)) :
    ∀ o ∈ Message.ordinals s, ∃ n, o.value? = some n ∧ 0 ≤ n ∧ bindingIndex start o = start + n := by
  intro o ho
  obtain ⟨n, hvalue, hle⟩ := hfit o ho
  obtain ⟨⟨text, o⟩, hmem, rfl⟩ := mem_map.mp ho
  obtain ⟨-, s', k, -, hfound⟩ := (Interleaved.foundIn_splitBy _ _).1 _ _ hmem
  have hn := (Message.value?_nonneg hfound hvalue).1
  refine ⟨n, hvalue, hn, ?_⟩
  rw [bindingIndex, hvalue]
  exact wrap_of_range (by omega) hle

theorem hasBinding_iff (s : List Char) : Message.hasBinding s = true ↔ (splitBindings s).items ≠ [] := by
  constructor
  · exact fun h => Interleaved.splitFrom_items_ne h []
  · intro hne
    refine (Bool.eq_false_or_eq_true _).resolve_right fun hnone => hne ?_
    rw [splitBindings, Interleaved.splitBy_of_not_occurs hnone]

/-- **A text survives its encoding.** Writing the markers back gives the text; literals are not empty, have no marker
and do not follow each other; the bindings are the ordinals from `start` on; and the mask has their bits and no others,
so that there are bindings, and bits, if and only if there are markers. -/
theorem bindingUpdate_spelled (text : String) (index : Int) (target : Target) {start : Int} (hstart : 0 ≤ start)
    (hfit : Message.Fit start (Message.ordinals text.toList)) :
    let op := bindingUpdate text index target start
    let os := Message.ordinals text.toList
    spelled os op.parts = text.toList ∧
      (∀ s, .literal s ∈ op.parts → s ≠ "" ∧ Message.hasBinding s.toList = false) ∧ op.parts.IsChain Part.Apart ∧
      List.Forall₂ (fun i o => ∃ n, o.value? = some n ∧ i = start + n) op.bindings os ∧
      (∀ b : Nat, op.mask.getLsbD b = true ↔ ∃ i ∈ op.bindings, min i 31 = b) ∧
      (Message.hasBinding text.toList = true ↔ op.bindings ≠ []) ∧ (op.mask ≠ 0#32 ↔ op.bindings ≠ []) := by
  intro op os
  have hindex := bindingIndex_of_fit hstart hfit
  have hnonneg : PartsNonneg op.parts := by
    intro i hi
    obtain ⟨front, o, hmem, rfl⟩ := mem_bindingParts hi
    obtain ⟨n, -, hn, heq⟩ := hindex o (List.mem_map.mpr ⟨_, hmem, rfl⟩)
    omega
  have hbindings : op.bindings = os.map (bindingIndex start) := by
    refine (bindings_bindingParts start (Message.splitBindings text.toList)).trans ?_
    exact (List.map_map (f := Prod.snd) (g := bindingIndex start)).symm
  refine ⟨?_, fun s hs => ?_, isChain_bindingParts .., ?_, getLsbD_bindingMask hnonneg, ?_, bindingMask_ne_zero hnonneg⟩
  · rw [← Message.flatten_splitBindings text.toList]
    exact spelled_bindingParts ..
  · obtain ⟨hitems, hlast⟩ :=
      Interleaved.not_occurs_splitFrom Message.stable_binding? text.toList 0 [] (.inl rfl) (Interleaved.free_nil _)
    obtain ⟨hne, ⟨p, hp, rfl⟩ | rfl⟩ := mem_literal_bindingParts hs
    · exact ⟨hne, by rw [String.toList_ofList]; exact hitems p hp⟩
    · exact ⟨hne, by rw [String.toList_ofList]; exact hlast⟩
  · rw [hbindings, List.forall₂_map_left_iff]
    refine List.forall₂_same.mpr fun o ho => ?_
    obtain ⟨n, hvalue, -, heq⟩ := hindex o ho
    exact ⟨n, hvalue, heq⟩
  · rw [hasBinding_iff, hbindings]
    exact not_congr (List.map_eq_nil_iff.trans List.map_eq_nil_iff).symm

/-- Two markers that share a character, of which the left one counts, and one with a suffix. -/
theorem bindingUpdate_spelled_shared :
    let text := "a\uFFFD1\uFFFD2\uFFFD\uFFFD30:7\uFFFD"
    let os := Message.ordinals text.toList
    os.map Message.Ordinal.text = ["1".toList, "30:7".toList] ∧
      spelled os (bindingUpdate text 0 .text 5).parts = text.toList ∧
      List.Forall₂ (fun i o => ∃ n, o.value? = some n ∧ i = 5 + n) (bindingUpdate text 0 .text 5).bindings os := by
  intro text os
  have hos : os = [⟨['1'], []⟩, ⟨['3', '0'], [':', '7']⟩] := by decide +kernel
  have hfit : Message.Fit 5 os := by
    rw [hos]
    refine List.forall_mem_cons.mpr ⟨⟨1, by decide, by decide⟩, List.forall_mem_singleton.mpr ⟨30, by decide, by decide⟩⟩
  obtain ⟨hspelled, -, -, hbindings, -⟩ := bindingUpdate_spelled text 0 .text (by decide) hfit
  exact ⟨by rw [hos]; rfl, hspelled, hbindings⟩

end MessageCompiler
