/-
Bindings, masks and the texts composed of them.

* **`joined`** — the text of the parts of an instruction; composing them yields it if no binding is
  negative.
* **`Covers`** — a mask of changes has the bit of every binding whose value differs.
* **`joined_eq_of_bits`** — an instruction with no binding whose bit is among the changes has the same text
  as before.
-/
import MessageCompiler.Live.Block
import MessageCompiler.Stream.Binding

namespace MessageCompiler

open List
open Text (Interleaved isDigit)
open Message (occurs binding?)

/-! ### Ordinals -/

namespace Text

theorem natCast_nonneg_of_readInt? {digits : List Char} (h : ∀ c ∈ digits, isDigit c = true) {n : Int}
    (hn : readInt? digits = some n) : 0 ≤ n ∧ n ≤ 9223372036854775807 := by
  have hsign : splitSign digits = (false, digits) := by
    unfold splitSign
    split
    · next s => exact absurd (h '-' mem_cons_self) (by decide)
    · next s => exact absurd (h '+' mem_cons_self) (by decide)
    · rfl
  unfold readInt? at hn
  rw [hsign] at hn
  dsimp only at hn
  split at hn
  · cases hn
  · split at hn
    · next hfits =>
      cases hn
      simp_all [signed, fitsWord]
    · cases hn

namespace Interleaved

variable {α : Type}

/-- The texts that were found are parts of the whole, and so is what each item was recognised in. -/
def FoundIn (item? : List Char → Option (α × Nat)) (s : List Char) (x : Interleaved α) : Prop :=
  (∀ text item, (text, item) ∈ x.items → text <:+: s ∧ ∃ s' n, s' <:+: s ∧ item? s' = some (item, n)) ∧ x.last <:+: s

theorem foundIn_splitFrom (item? : List Char → Option (α × Nat)) : ∀ (s : List Char) (skip : Nat) (acc : List Char),
    skip = 0 ∨ acc = [] → FoundIn item? (acc.reverse ++ s) (splitFrom item? skip acc s)
  | [], skip, acc, _ => by
    unfold splitFrom
    exact ⟨fun _ _ h => absurd h not_mem_nil, (append_nil acc.reverse).symm ▸ infix_rfl⟩
  | c :: s, skip + 1, acc, hacc => by
    obtain rfl := hacc.resolve_left (Nat.succ_ne_zero skip)
    obtain ⟨hitems, hlast⟩ := foundIn_splitFrom item? s skip [] (.inr rfl)
    have hs : s <:+: c :: s := (suffix_cons c s).isInfix
    refine ⟨fun text item h => ?_, hlast.trans hs⟩
    obtain ⟨htext, s', n, hs', hitem⟩ := hitems text item h
    grind
  | c :: s, 0, acc, _ => by
    unfold splitFrom
    split
    · next found n hitem =>
      obtain ⟨hitems, hlast⟩ := foundIn_splitFrom item? s (n - 1) [] (.inr rfl)
      have hs : s <:+: acc.reverse ++ c :: s := ⟨acc.reverse ++ [c], [], by simp⟩
      refine ⟨fun text item h => ?_, hlast.trans hs⟩
      rcases mem_cons.mp h with heq | h
      · cases heq
        grind [prefix_append, suffix_append]
      · grind
    · have hrest := foundIn_splitFrom item? s 0 (c :: acc) (.inl rfl)
      rwa [reverse_cons, append_assoc] at hrest

theorem foundIn_splitBy (item? : List Char → Option (α × Nat)) (s : List Char) :
    FoundIn item? s (splitBy item? s) :=
  foundIn_splitFrom item? s 0 [] (.inl rfl)

theorem splitFrom_items_ne {item? : List Char → Option (α × Nat)} :
    ∀ {s : List Char}, occurs item? s = true → ∀ acc, (splitFrom item? 0 acc s).items ≠ []
  | [], h, acc => by
    simp [occurs] at h
  | c :: s, h, acc => by
    unfold splitFrom
    split
    · exact cons_ne_nil _ _
    · next hitem =>
      rw [occurs, hitem] at h
      exact splitFrom_items_ne h (c :: acc)

theorem splitFrom_of_not_occurs {item? : List Char → Option (α × Nat)} :
    ∀ (s text : List Char), occurs item? s = false → splitFrom item? 0 text s = ⟨[], text.reverse ++ s⟩
  | [], text, _ => by rw [splitFrom, append_nil]
  | c :: s, text, h => by
    rw [occurs, Bool.or_eq_false_iff, Option.isSome_eq_false_iff, Option.isNone_iff_eq_none] at h
    simp_all [splitFrom, splitFrom_of_not_occurs, reverse_cons, append_assoc]

theorem splitBy_of_not_occurs {item? : List Char → Option (α × Nat)} {s : List Char}
    (h : occurs item? s = false) : splitBy item? s = ⟨[], s⟩ :=
  splitFrom_of_not_occurs s [] h

end Interleaved

end Text

namespace Message

variable {s : List Char} {o : Ordinal} {n : Nat}

theorem Ordinal.read?_digits (h : Ordinal.read? s = some o) : ∀ c ∈ o.digits, isDigit c = true := by
  unfold Ordinal.read? at h
  dsimp only at h
  split at h
  · cases h
    exact all_eq_true.mp all_takeWhile
  · cases h

theorem Ordinal.read?_ne_nil (h : Ordinal.read? s = some o) : o.digits ≠ [] := by
  unfold Ordinal.read? at h
  dsimp only at h
  split at h
  · next hfound =>
    cases h
    simp only [Bool.and_eq_true, Bool.not_eq_true', isEmpty_eq_false_iff] at hfound
    exact hfound.1
  · cases h

section

variable (h : binding? s = some (o, n))
include h

theorem exists_read?_of_binding? : ∃ s', Ordinal.read? s' = some o := by
  unfold binding? at h
  split at h
  · split at h
    · obtain ⟨o', hread, heq⟩ := Option.map_eq_some_iff.mp h
      cases heq
      exact ⟨_, hread⟩
    · cases h
  · cases h

theorem binding?_ne_nil : o.digits ≠ [] :=
  Ordinal.read?_ne_nil (exists_read?_of_binding? h).choose_spec

theorem binding?_digits : ∀ c ∈ o.digits, isDigit c = true :=
  Ordinal.read?_digits (exists_read?_of_binding? h).choose_spec

theorem value?_nonneg {i : Int} (hi : o.value? = some i) : 0 ≤ i ∧ i ≤ 9223372036854775807 :=
  Text.natCast_nonneg_of_readInt? (binding?_digits h) hi

end

end Message

theorem bindingIndex_nonneg {s : List Char} {o : Message.Ordinal} {n : Nat}
    (h : binding? s = some (o, n)) : 0 ≤ bindingIndex 0 o := by
  unfold bindingIndex
  split
  · next i hi =>
    have := Message.value?_nonneg h hi
    rw [Int.zero_add, wrap_of_range (by omega) this.2]
    exact this.1
  · decide

def PartsNonneg (parts : List Part) : Prop := ∀ i, .binding i ∈ parts → 0 ≤ i

variable {i : Int} {changes : Mask} {new old : List String}

theorem mem_bindingParts {start : Int} {x : Interleaved Message.Ordinal} (h : .binding i ∈ bindingParts start x) :
    ∃ text o, (text, o) ∈ x.items ∧ i = bindingIndex start o := by
  unfold bindingParts literalParts at h
  rcases mem_append.mp h with h | h
  · obtain ⟨⟨text, o⟩, hmem, h⟩ := mem_flatMap.mp h
    rcases mem_append.mp h with h | h
    · split at h <;> simp at h
    · exact ⟨text, o, hmem, by simpa using h⟩
  · split at h <;> simp at h

theorem partsNonneg_bindingUpdate (text : String) (index : Int) (target : Target) :
    PartsNonneg (bindingUpdate text index target 0).parts := by
  intro i hi
  obtain ⟨front, o, hmem, rfl⟩ := mem_bindingParts hi
  obtain ⟨-, s, n, -, hfound⟩ := (Interleaved.foundIn_splitBy _ _).1 _ _ hmem
  exact bindingIndex_nonneg hfound

/-! ### Composing -/

def valueAt (values : List String) (i : Int) : String := (values[i.toNat]?).getD ""

def joined (values : List String) : List Part → String
  | [] => ""
  | .literal s :: rest => s ++ joined values rest
  | .binding i :: rest => valueAt values i ++ joined values rest

section

variable (values : List String)

theorem compose_eq : ∀ {parts : List Part}, PartsNonneg parts → Live.compose values parts = .ok (joined values parts)
  | [], _ => rfl
  | .literal s :: rest, h => by
    unfold Live.compose
    rw [compose_eq fun i hi => h i (mem_cons_of_mem _ hi)]
    rfl
  | .binding i :: rest, h => by
    have hi : ¬i < 0 := Int.not_lt.mpr (h i mem_cons_self)
    unfold Live.compose
    rw [if_neg hi, compose_eq fun j hj => h j (mem_cons_of_mem _ hj)]
    rfl

theorem joined_append : ∀ parts parts' : List Part,
    joined values (parts ++ parts') = joined values parts ++ joined values parts'
  | [], parts' => String.empty_append.symm
  | .literal s :: rest, parts' => by
    rw [cons_append, joined, joined, joined_append rest, String.append_assoc]
  | .binding i :: rest, parts' => by
    rw [cons_append, joined, joined, joined_append rest, String.append_assoc]

theorem joined_literalParts (s : List Char) : joined values (literalParts s) = String.ofList s := by
  unfold literalParts
  split
  · next hempty =>
    rw [isEmpty_iff.mp hempty]
    rfl
  · exact String.append_empty

theorem joined_bindingParts (start : Int) (x : Interleaved Message.Ordinal) : joined values (bindingParts start x) =
      x.items.foldr (fun part rest => String.ofList part.1 ++ (valueAt values (bindingIndex start part.2) ++ rest))
        (String.ofList x.last) := by
  unfold bindingParts
  rw [joined_append, joined_literalParts]
  induction x.items with
  | nil => exact String.empty_append
  | cons part rest ih =>
    rw [flatMap_cons, foldr_cons, joined_append, joined_append, joined_literalParts, ← ih]
    show String.ofList part.1 ++ (valueAt values (bindingIndex start part.2) ++ "") ++ _ ++ _ = _
    rw [String.append_empty, String.append_assoc, String.append_assoc]

end

/-! ### Masks -/

namespace Mask

variable {m a b c : Mask} {i : Int}

theorem meets_eq_false {n : Mask} : m.meets n = false ↔ m &&& n = 0#32 := by
  simp [meets]

theorem meets_or_left : (a ||| b).meets c = false ↔ a.meets c = false ∧ b.meets c = false := by
  simp [meets_eq_false, BitVec.and_or_distrib_right, BitVec.or_eq_zero_iff]

theorem meets_comm (a b : Mask) : a.meets b = b.meets a := by
  unfold meets
  rw [BitVec.and_comm]

theorem meets_or_right : a.meets (b ||| c) = false ↔ a.meets b = false ∧ a.meets c = false := by
  rw [meets_comm, meets_or_left, meets_comm b, meets_comm c]

theorem meets_all (h : m ≠ 0#32) : m.meets all = true := by
  unfold meets all
  rw [BitVec.and_allOnes]
  simpa using h

theorem meets_zero (m : Mask) : m.meets 0#32 = false := by
  simp [meets]

theorem meets_of_subset (hsub : a &&& ~~~b = 0#32) (h : a.meets c = true) : b.meets c = true := by
  cases hb : b.meets c with
  | true => rfl
  | false =>
    rw [meets_eq_false] at hb
    have ha : a &&& c = 0#32 := by
      refine BitVec.eq_of_getLsbD_eq fun i hi => ?_
      have h₁ := congrArg (fun m : Mask => m.getLsbD i) hsub
      have h₂ := congrArg (fun m : Mask => m.getLsbD i) hb
      simp only [BitVec.getLsbD_and, BitVec.getLsbD_not, BitVec.getLsbD_zero, hi, decide_true, Bool.true_and] at h₁ h₂ ⊢
      cases hbit : b.getLsbD i <;> simp_all
    rw [meets_eq_false.mpr ha] at h
    cases h

theorem ofBinding_ne_zero (h : 0 ≤ i) : ofBinding i ≠ 0#32 := by
  unfold ofBinding
  rw [if_neg (by omega)]
  intro hzero
  have hbit : (BitVec.twoPow 32 (min i.toNat 31)).getLsbD (min i.toNat 31) = true := by
    grind
  rw [hzero] at hbit
  simp at hbit

theorem ofBinding_meets_self (h : 0 ≤ i) : (ofBinding i).meets (ofBinding i) = true := by
  simpa [meets] using ofBinding_ne_zero h

theorem foldl_or_meets {α : Type} {f : α → Mask} (l : List α) (m : Mask) :
    (l.foldl (fun m x => m ||| f x) m).meets c = false ↔ m.meets c = false ∧ ∀ x ∈ l, (f x).meets c = false := by
  induction l generalizing m with
  | nil => simp
  | cons a rest ih => rw [foldl_cons, ih, meets_or_left, forall_mem_cons, and_assoc]

end Mask

theorem meets_bindingMask {parts : List Part} {c : Mask} (h : (bindingMask parts).meets c = false) :
    ∀ i, .binding i ∈ parts → (Mask.ofBinding i).meets c = false := by
  intro i hi
  refine ((Mask.foldl_or_meets _ _).mp h).2 i (mem_filterMap.mpr ⟨_, hi, rfl⟩)

theorem bindingUpdate_mask_ne {text : String} (h : Message.hasBinding text.toList = true) (index : Int)
    (target : Target) : (bindingUpdate text index target 0).mask ≠ 0#32 := by
  intro hzero
  have hoccurs : occurs binding? text.toList = true := h
  obtain ⟨⟨front, o⟩, hmem⟩ := exists_mem_of_ne_nil _ (Interleaved.splitFrom_items_ne hoccurs [])
  have hpart : .binding (bindingIndex 0 o) ∈ (bindingUpdate text index target 0).parts := by
    refine mem_append_left _ (mem_flatMap.mpr ⟨_, hmem, ?_⟩)
    exact mem_append_right _ mem_cons_self
  have hnonneg := partsNonneg_bindingUpdate text index target _ hpart
  have hnone : (bindingMask (bindingUpdate text index target 0).parts).meets Mask.all = false := by
    show (bindingUpdate text index target 0).mask.meets Mask.all = false
    rw [hzero, Mask.meets_comm, Mask.meets_zero]
  have hbit := meets_bindingMask hnone _ hpart
  rw [Mask.meets_all (Mask.ofBinding_ne_zero hnonneg)] at hbit
  cases hbit

/-! ### Changes -/

def Covers (changes : Mask) (old new : List String) : Prop :=
  ∀ i : Nat, (Mask.ofBinding i).meets changes = false → valueAt old i = valueAt new i

theorem covers_all (old new : List String) : Covers Mask.all old new := by
  intro i hi
  rw [Mask.meets_all (Mask.ofBinding_ne_zero (Int.natCast_nonneg i))] at hi
  cases hi

theorem Covers.valueAt_eq (h : Covers changes old new) (hi : 0 ≤ i)
    (hmeets : (Mask.ofBinding i).meets changes = false) : valueAt old i = valueAt new i := by
  have hcast : ((i.toNat : Nat) : Int) = i := Int.toNat_of_nonneg hi
  rw [← hcast] at hmeets ⊢
  exact h i.toNat hmeets

theorem joined_eq_of_bits (h : Covers changes old new) :
    ∀ {parts : List Part}, PartsNonneg parts → (∀ i, .binding i ∈ parts → (Mask.ofBinding i).meets changes = false) →
      joined old parts = joined new parts := by
  intro parts hnonneg hbits
  induction parts with
  | nil => rfl
  | cons part rest ih =>
    have hrest := ih (fun i hi => hnonneg i (mem_cons_of_mem _ hi)) (fun i hi => hbits i (mem_cons_of_mem _ hi))
    cases part with
    | literal s => rw [joined, joined, hrest]
    | binding i =>
      have hvalue := h.valueAt_eq (hnonneg i mem_cons_self) (hbits i mem_cons_self)
      rw [joined, joined, hrest, hvalue]

/-- The values after binding new ones: those that are not mentioned stay. -/
def rebound (old new : List String) : List String := new ++ old.drop new.length

theorem changes_spec : ∀ (new old : List String) (k j : Nat),
    (Mask.ofBinding ((k + j : Nat) : Int)).meets (Bindings.changes k old new) = false →
      old[j]?.getD "" = (rebound old new)[j]?.getD ""
  | [], old, k, j, _ => rfl
  | n :: new, [], k, 0, h => by
    simp_all [Bindings.changes, Mask.meets_or_right, Mask.ofBinding_meets_self]
  | n :: new, [], k, j + 1, h => by
    rw [Bindings.changes, Mask.meets_or_right] at h
    have hrest := changes_spec new [] (k + 1) j (by rw [show k + 1 + j = k + (j + 1) by omega]; exact h.2)
    simpa [rebound] using hrest
  | n :: new, o :: old, k, 0, h => by
    rw [Bindings.changes, Mask.meets_or_right] at h
    by_cases heq : o = n
    · rw [heq]
      rfl
    · rw [if_neg heq, Nat.add_zero, Mask.ofBinding_meets_self (Int.natCast_nonneg k)] at h
      cases h.1
  | n :: new, o :: old, k, j + 1, h => by
    rw [Bindings.changes, Mask.meets_or_right] at h
    have hrest := changes_spec new old (k + 1) j (by rw [show k + 1 + j = k + (j + 1) by omega]; exact h.2)
    simpa [rebound] using hrest

theorem covers_changes (old new : List String) : Covers (Bindings.changes 0 old new) old (rebound old new) := by
  intro i hi
  exact changes_spec new old 0 i (by rwa [Nat.zero_add])

theorem changes_eq_zero_iff : ∀ (new old : List String) (k : Nat),
    Bindings.changes k old new = 0#32 ↔ rebound old new = old
  | [], old, k => by simp [Bindings.changes, rebound]
  | n :: new, [], k => by
    simp [Bindings.changes, rebound, BitVec.or_eq_zero_iff, Mask.ofBinding_ne_zero (Int.natCast_nonneg k)]
  | n :: new, o :: old, k => by
    have hbit := Mask.ofBinding_ne_zero (Int.natCast_nonneg k)
    have hrest := changes_eq_zero_iff new old (k + 1)
    rw [Bindings.changes, BitVec.or_eq_zero_iff, hrest]
    by_cases heq : o = n
    · simp [rebound, heq]
    · simp [rebound, heq, hbit, Ne.symm heq]

/-! ### Histories -/

namespace Bindings

/-- The bindings after calls with these values. -/
def after (calls : List (List String)) : Bindings := calls.foldl (fun b values => (b.bind values).2) .new

theorem bound_after (first : List String) (rest : List (List String)) : (after (first :: rest)).bound = true := by
  have hrest : ∀ b : Bindings, b.bound = true → (rest.foldl (fun b values => (b.bind values).2) b).bound = true := by
    induction rest with
    | nil => exact fun _ h => h
    | cons values rest ih => exact fun _ _ => ih _ rfl
  exact hrest _ rfl

/-- **Skipping is sound.** After any calls, an instruction whose mask has the bits of its bindings composes the same text
before and after one more call if that call reports no change that the mask shares, and the call reports no change at all
just if it changes no value. -/
theorem compose_eq_of_skipped (op : UpdateOp) (hnonneg : PartsNonneg op.parts)
    (hmask : ∀ i, .binding i ∈ op.parts → op.mask &&& Mask.ofBinding i = Mask.ofBinding i)
    (first : List String) (rest : List (List String)) (values : List String) :
    let before := after (first :: rest)
    let next := before.bind values
    (op.mask.meets next.1 = false →
      ∃ text, Live.compose before.values op.parts = .ok text ∧ Live.compose next.2.values op.parts = .ok text) ∧
    (next.1 = 0#32 ↔ next.2.values = before.values) := by
  intro before next
  have hchanges : next.1 = changes 0 before.values values := if_pos (bound_after first rest)
  have hvalues : next.2.values = rebound before.values values := rfl
  rw [hchanges, hvalues]
  refine ⟨fun hskip => ⟨joined before.values op.parts, compose_eq _ hnonneg, ?_⟩, changes_eq_zero_iff _ _ 0⟩
  rw [compose_eq _ hnonneg]
  refine congrArg _ (joined_eq_of_bits (covers_changes _ _) hnonneg fun i hi => ?_).symm
  rw [Mask.meets_eq_false] at hskip ⊢
  rw [← hmask i hi, BitVec.and_assoc, BitVec.and_comm (Mask.ofBinding i), ← BitVec.and_assoc, hskip, BitVec.zero_and]

/-- Bindings 31 and 40 share a bit, and the second has no value. -/
theorem compose_eq_of_skipped_shared :
    let op : UpdateOp := ⟨0x80000002#32, [.binding 1, .binding 31, .binding 40], 0, .text⟩
    let next := (after [["a"], ["b", "c"], ["a"]]).bind ["d"]
    op.mask.meets next.1 = false ∧
      ∃ text, Live.compose ["a", "c"] op.parts = .ok text ∧ Live.compose next.2.values op.parts = .ok text := by
  intro op next
  have hskip : op.mask.meets next.1 = false := by decide
  refine ⟨hskip, (compose_eq_of_skipped op ?_ ?_ ["a"] [["b", "c"], ["a"]] ["d"]).1 hskip⟩
  · intro i hi
    simp only [op, mem_cons, Part.binding.injEq, not_mem_nil, or_false] at hi
    omega
  · intro i hi
    simp only [op, mem_cons, Part.binding.injEq, not_mem_nil, or_false] at hi
    rcases hi with rfl | rfl | rfl <;> decide

end Bindings

end MessageCompiler
