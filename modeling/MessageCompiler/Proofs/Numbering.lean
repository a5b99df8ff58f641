/-
Bound attributes.

The messages for the attributes of an element are compiled one after another, and the bindings of each are numbered after
those of the messages before it.

The pass that compiles them recognises expressions on its own, and finds all that the parser finds. Its numbers are those
of the machine, and an instruction without a marker never runs.
-/
import Mathlib.Data.List.Perm.Basic
import MessageCompiler.Compile.Attributes
import MessageCompiler.Compile.Standard
import MessageCompiler.Proofs.Commits
import MessageCompiler.Proofs.LiveFrame
import MessageCompiler.Proofs.Reading
import MessageCompiler.Proofs.Spelling

namespace MessageCompiler

open List
open Text (Interleaved isPatternBlank)
open Message (splitBindings hasIcu hasBinding)

variable {s : List Char} {a : BoundAttribute}

/-! ### The instructions -/

/-- An attribute with its message, and the number of markers in the messages before it. -/
structure BoundAttribute where
  start : Nat
  name : String
  message : String

namespace BoundAttribute

def ordinals (a : BoundAttribute) : List Message.Ordinal := Message.ordinals a.message.toList

def number : Nat → List (String × String) → List BoundAttribute
  | _, [] => []
  | start, (name, message) :: rest =>
    if message.isEmpty then number start rest
    else ⟨start, name, message⟩ :: number (start + (Message.ordinals message.toList).length) rest

def op (cfg : Config) (element : Int) (a : BoundAttribute) : UpdateOp :=
  bindingUpdate a.message element (.ofAttribute a.name (cfg.sanitizer (Text.lower a.name))) a.start

def bindings (a : BoundAttribute) : List Int := a.ordinals.map (bindingIndex a.start)

theorem bindings_op (cfg : Config) (element : Int) (a : BoundAttribute) : (a.op cfg element).bindings = a.bindings := by
  refine (bindings_bindingParts a.start (splitBindings a.message.toList)).trans ?_
  exact (map_map (f := Prod.snd) (g := bindingIndex a.start)).symm

end BoundAttribute

open BoundAttribute (number)

variable {t : TemplateView} {cfg : Config} {index element : Int} {values : List String} {ops : List UpdateOp}

/-- The pass refuses the first message with an expression; without one it gives every attribute its instruction. -/
theorem compilePairs_eq (pairs : List (String × String)) : compilePairs cfg element ops pairs =
      (pairs.find? fun p => hasIcu p.2.toList).elim
        (.ok (ops ++ (number (UpdateOp.countBindings ops) pairs).map (·.op cfg element)))
        fun p => .error (.refused p.2 .icuInAttribute) := by
  induction pairs generalizing ops with
  | nil => exact congrArg Except.ok (append_nil ops).symm
  | cons p rest ih =>
    obtain ⟨name, message⟩ := p
    unfold compilePairs
    rw [List.find?_cons, number]
    by_cases hempty : message.isEmpty = true
    · have hnone : hasIcu message.toList = false := by
        rw [String.isEmpty_iff.mp hempty]
        rfl
      rw [if_pos hempty, if_pos hempty, ih, hnone]
    · rw [if_neg hempty, if_neg hempty]
      cases hicu : hasIcu message.toList with
      | true => rfl
      | false =>
        have hcount : ∀ a : BoundAttribute, UpdateOp.countBindings (ops ++ [a.op cfg element]) =
            UpdateOp.countBindings ops + a.ordinals.length := by
          intro a
          simp [UpdateOp.countBindings, BoundAttribute.bindings_op, BoundAttribute.bindings]
        show compilePairs cfg element (ops ++ [BoundAttribute.op cfg element ⟨_, name, message⟩]) rest = _
        rw [ih, hcount, append_assoc]
        rfl

def TemplateView.Unbound (t : TemplateView) (index : Int) : Prop := ∀ ops, t.slot? index ≠ some (.attributes ops)

theorem unbound_new : (TemplateView.new 4 1).Unbound 24 := fun _ h => by cases h

theorem compileAttributes_pairs (hin : ¬(index < TemplateView.header || !t.contains index) = true) (hslot : t.Unbound index)
    (heven : values.length % 2 = 0) :
    t.compileAttributes cfg index element values = ((inPairs values).find? fun p => hasIcu p.2.toList).elim
        ⟨t.setSlot index (.attributes ((number 0 (inPairs values)).map (·.op cfg element))), [],
          .ok ((number 0 (inPairs values)).map (·.op cfg element))⟩
        fun p => ⟨t, [], .error (.refused p.2 .icuInAttribute)⟩ := by
  unfold TemplateView.compileAttributes
  rw [if_neg hin, compilePairs_eq, if_neg (not_not_intro heven)]
  split
  · next ops hops => exact absurd hops (hslot ops)
  · cases (inPairs values).find? fun p => hasIcu p.2.toList <;> rfl

theorem compileAttributes_ok (hslot : t.Unbound index) (hok : (t.compileAttributes cfg index element values).result = .ok ops) :
    ¬(index < TemplateView.header || !t.contains index) = true ∧ values.length % 2 = 0 ∧
      (inPairs values).find? (fun p => hasIcu p.2.toList) = none ∧
        ops = (number 0 (inPairs values)).map (·.op cfg element) := by
  by_cases hin : (index < TemplateView.header || !t.contains index) = true
  · rw [TemplateView.compileAttributes, if_pos hin] at hok
    cases hok
  by_cases heven : values.length % 2 = 0
  · rw [compileAttributes_pairs hin hslot heven] at hok
    cases hfind : (inPairs values).find? fun p => hasIcu p.2.toList with
    | some p =>
      rw [hfind] at hok
      cases hok
    | none =>
      rw [hfind] at hok
      cases hok
      exact ⟨hin, heven, rfl, rfl⟩
  · rw [TemplateView.compileAttributes, if_neg hin, if_pos heven] at hok
    split at hok
    · next ops hops => exact absurd hops (hslot ops)
    · cases hok

/-! ### Expressions -/

namespace Message

theorem dropWhile_append_of_ne {p : Char → Bool} (h : s.dropWhile p ≠ []) (t : List Char) :
    (s ++ t).dropWhile p = s.dropWhile p ++ t := by
  rw [dropWhile_append, if_neg (by simpa using h)]

theorem afterComma?_append {rest : List Char} (h : afterComma? s = some rest) (hne : rest ≠ []) (t : List Char) :
    afterComma? (s ++ t) = some (rest ++ t) := by
  unfold afterComma? at h ⊢
  split at h
  · next tail hcomma =>
    cases h
    rw [dropWhile_append_of_ne (by rw [hcomma]; exact cons_ne_nil _ _), hcomma]
    exact congrArg some (dropWhile_append_of_ne hne t)
  · cases h

theorem kindWord?_eq_some {kind : IcuKind} {rest : List Char} (h : kindWord? s = some (kind, rest)) :
    ∃ word, s = word ++ rest ∧ word.length = 6 ∧ word.all (!isPatternBlank ·) = true := by
  unfold kindWord? at h
  split at h
  · cases h
    exact ⟨['s', 'e', 'l', 'e', 'c', 't'], rfl, rfl, by decide⟩
  · cases h
    exact ⟨['p', 'l', 'u', 'r', 'a', 'l'], rfl, rfl, by decide⟩
  · cases h

theorem opensIcu_of_header {block : List Char} {header : Header} (h : Header.read? block = some header) (t : List Char) :
    opensIcu (block ++ '\x7d' :: t) = true := by
  unfold Header.read? kindClause? at h
  obtain ⟨⟨o, n⟩, hbinding, h⟩ := Option.bind_eq_some_iff.mp h
  obtain ⟨⟨kind, rest⟩, hclause, -⟩ := Option.bind_eq_some_iff.mp h
  obtain ⟨s, hcomma, hclause⟩ := Option.bind_eq_some_iff.mp hclause
  obtain ⟨⟨kind', s'⟩, hword, hend⟩ := Option.bind_eq_some_iff.mp hclause
  obtain ⟨word, rfl, hlength, hblank⟩ := kindWord?_eq_some hword
  obtain ⟨hn, ⟨tail, htail⟩, -⟩ := binding?_spec hbinding
  have hfront : block.dropWhile isPatternBlank ≠ [] := by
    rw [htail]
    exact cons_ne_nil _ _
  have hle : n ≤ (block.dropWhile isPatternBlank).length := by
    rw [htail, length_append, ← hn]
    exact Nat.le_add_right n _
  have hne : word ++ s' ≠ [] := append_ne_nil_of_left_ne_nil (ne_nil_of_length_pos (by omega)) s'
  unfold opensIcu
  dsimp only at hend ⊢
  rw [dropWhile_append_of_ne hfront, stable_binding? _ _ _ hbinding]
  dsimp only
  rw [drop_append_of_le_length hle, afterComma?_append hcomma hne]
  dsimp only
  rw [append_assoc, take_left' hlength, drop_left' hlength, hlength, hblank]
  split at hend
  · next more hmore =>
    rw [dropWhile_append_of_ne (by rw [hmore]; exact cons_ne_nil _ _), hmore]
    simp
  · cases hend

theorem hasIcu_append (h : hasIcu s = true) : ∀ front : List Char, hasIcu (front ++ s) = true
  | [] => h
  | c :: front => by
    rw [cons_append, hasIcu, hasIcu_append h front, Bool.or_true]

theorem Reads.exists_header {f : List Char → Parsed (List Segment)} {last text : List Char}
    {parts : List (List Char × List Char)} {found : List Segment} (h : Reads f last text parts found) {e : Icu}
    (he : .icu e ∈ found) : ∃ q ∈ parts, ∃ header, Header.read? q.2 = some header := by
  induction h with
  | done => simp at he
  | @icu text q rest e' tail hicu htail ih =>
    grind [parseBlockWith_eq_ok, mem_cons_self]
  | @plain text q rest found hnone hlooks hrest ih =>
    grind

theorem hasIcu_of_split {found : List Segment} (h : (split s).result = .ok found) {e : Icu}
    (he : .icu e ∈ found) : hasIcu s = true := by
  have hs : s ≠ [] := by
    rintro rfl
    cases h
    cases he
  obtain ⟨q, hq, header, hheader⟩ := (reads_split hs h).exists_header he
  obtain ⟨front, back, hparts⟩ := append_of_mem hq
  have hwhole : s = written front ++ q.1 ++ '\x7b' :: (q.2 ++ '\x7d' :: (written back ++ (splitBraces s).last)) := by
    conv => lhs; rw [← written_splitBraces s, hparts]
    simp [written, braced]
  rw [hwhole]
  refine hasIcu_append ?_ _
  rw [hasIcu, opensIcu_of_header hheader]
  rfl

end Message

theorem inPairs_append {values : List String} (h : values.length % 2 = 0) (more : List String) :
    inPairs (values ++ more) = inPairs values ++ inPairs more := by
  induction values using inPairs.induct with
  | case1 name message rest ih =>
    have hrest : rest.length % 2 = 0 := by
      rw [length_cons, length_cons] at h
      omega
    exact congrArg ((name, message) :: ·) (ih hrest)
  | case2 values hshort =>
    cases values with
    | nil => rfl
    | cons name rest =>
      cases rest with
      | nil => cases h
      | cons message rest => exact absurd rfl (hshort name message rest)

/-- **The pass refuses every expression that the parser recognises.** The first pair whose message has one is named,
and the view stays as it is. -/
theorem compileAttributes_split (hslot : t.Unbound index) {earlier later : List String}
    (hearlier : (t.compileAttributes cfg index element earlier).result = .ok ops) (heven : later.length % 2 = 0)
    {message : String} {found : List Segment} (h : (Message.split message.toList).result = .ok found) {e : Icu}
    (he : .icu e ∈ found) (name : String) :
    t.compileAttributes cfg index element (earlier ++ name :: message :: later) =
      ⟨t, [], .error (.refused message .icuInAttribute)⟩ := by
  obtain ⟨hin, hpairs, hnone, -⟩ := compileAttributes_ok hslot hearlier
  have hlength : (earlier ++ name :: message :: later).length % 2 = 0 := by
    rw [List.length_append, List.length_cons, List.length_cons]
    omega
  rw [compileAttributes_pairs hin hslot hlength, inPairs_append hpairs, List.find?_append, hnone, Option.none_or, inPairs,
    List.find?_cons, Message.hasIcu_of_split h he]
  rfl

theorem compileAttributes_split_second : (TemplateView.new 4 1).compileAttributes .standard 24 23
        (["title", "a �0�"] ++ "alt" :: "b \x7b�0�, select, other \x7bx\x7d\x7d c" :: []) =
      ⟨.new 4 1, [], .error (.refused "b \x7b�0�, select, other \x7bx\x7d\x7d c" .icuInAttribute)⟩ :=
  compileAttributes_split unbound_new rfl rfl
    (show _ = Except.ok [.text "b ", .icu (.mk .select 0 [.mk "other" [.text "x"]]), .text " c"] from rfl)
    (List.mem_cons_of_mem _ List.mem_cons_self) "alt"

/-! ### Numbers -/

/-- The numbers of the markers are all those below some number, in any order. -/
def Message.Dense (message : String) : Prop :=
  ∃ k, ((ordinals message.toList).map Message.Ordinal.value?).Perm ((List.range k).map fun n : Nat => some (n : Int))

theorem perm_bindings (h : Message.Dense a.message) (hfits : a.start + a.ordinals.length ≤ 9223372036854775808) :
    a.bindings.Perm ((List.range' a.start a.ordinals.length).map Nat.cast) := by
  obtain ⟨k, hperm⟩ := h
  have hk : a.ordinals.length = k := by simpa [BoundAttribute.ordinals] using hperm.length_eq
  have hvalues : a.bindings = (a.ordinals.map Message.Ordinal.value?).map fun v => (a.start : Int) + v.getD 0 := by
    rw [map_map]
    refine map_congr_left fun o ho => ?_
    obtain ⟨n, hn, heq⟩ := mem_map.mp (hperm.mem_iff.mp (mem_map_of_mem ho))
    have hlt := mem_range.mp hn
    rw [bindingIndex, Function.comp_apply, ← heq]
    exact wrap_of_range (by omega) (by omega)
  rw [hvalues, hk, List.range'_eq_map_range]
  refine (hperm.map _).trans (List.Perm.of_eq ?_)
  simp [map_map]

theorem dense_number (pairs : List (String × String)) : ∀ start : Nat, (∀ p ∈ pairs, Message.Dense p.2) →
    start + ((number start pairs).flatMap BoundAttribute.ordinals).length ≤ 9223372036854775808 →
      ((number start pairs).flatMap BoundAttribute.bindings).Perm
          ((List.range' start ((number start pairs).flatMap BoundAttribute.ordinals).length).map Nat.cast) ∧
        (number start pairs).Pairwise fun a b => ∀ i ∈ a.bindings, ∀ j ∈ b.bindings, i < j := by
  induction pairs with
  | nil => exact fun _ _ _ => ⟨.refl _, .nil⟩
  | cons p rest ih =>
    obtain ⟨name, message⟩ := p
    intro start hdense hfits
    obtain ⟨hhead, hrest⟩ := forall_mem_cons.mp hdense
    rw [number] at hfits ⊢
    split at hfits
    · next hempty =>
      rw [if_pos hempty]
      exact ih start hrest hfits
    · next hempty =>
      rw [if_neg hempty]
      rw [flatMap_cons, length_append, ← Nat.add_assoc] at hfits
      have hown := perm_bindings (a := ⟨start, name, message⟩) hhead (Nat.le_trans (Nat.le_add_right _ _) hfits)
      obtain ⟨hperm, hpairwise⟩ := ih _ hrest hfits
      refine ⟨?_, pairwise_cons.mpr ⟨fun b hb i hi j hj => ?_, hpairwise⟩⟩
      · rw [flatMap_cons, flatMap_cons, length_append, ← List.range'_append_1, map_append]
        exact hown.append hperm
      · obtain ⟨n, hn, rfl⟩ := mem_map.mp (hown.mem_iff.mp hi)
        obtain ⟨m, hm, rfl⟩ := mem_map.mp (hperm.mem_iff.mp (mem_flatMap.mpr ⟨b, hb, hj⟩))
        have hlt := (mem_range'_1.mp hn).2
        exact Int.ofNat_lt.mpr (Nat.lt_of_lt_of_le hlt (mem_range'_1.mp hm).1)

theorem countBindings_map_op (l : List BoundAttribute) :
    UpdateOp.countBindings (l.map (·.op cfg element)) = (l.flatMap BoundAttribute.ordinals).length := by
  simp [flatMap_map, length_flatMap, BoundAttribute.bindings_op, BoundAttribute.bindings, UpdateOp.countBindings]

/-- **Bindings are numbered without a gap.** If the markers of every message are numbered from zero on, in any order, then
the bindings of the whole stream are the numbers below their count, and those of an earlier attribute are smaller than
those of a later one. -/
theorem dense_compileAttributes (hslot : t.Unbound index)
    (hok : (t.compileAttributes cfg index element values).result = .ok ops)
    (hdense : ∀ p ∈ inPairs values, Message.Dense p.2) (hmany : UpdateOp.countBindings ops ≤ 9223372036854775808) :
    (ops.flatMap UpdateOp.bindings).Perm ((List.range (UpdateOp.countBindings ops)).map Nat.cast) ∧
      ops.Pairwise fun a b => ∀ i ∈ a.bindings, ∀ j ∈ b.bindings, i < j := by
  obtain ⟨-, -, -, rfl⟩ := compileAttributes_ok hslot hok
  rw [countBindings_map_op] at hmany ⊢
  obtain ⟨hperm, hpairwise⟩ := dense_number (inPairs values) 0 hdense (by omega)
  simp only [List.flatMap_map, List.pairwise_map, BoundAttribute.bindings_op, List.range_eq_range']
  exact ⟨hperm, hpairwise⟩

theorem dense_compileAttributes_swapped :
    ∃ ops, ((TemplateView.new 4 1).compileAttributes .standard 24 23 ["title", "�1� of �0�", "alt", "�0�"]).result = .ok ops ∧
      (ops.flatMap UpdateOp.bindings).Perm [0, 1, 2] ∧
      ops.Pairwise fun a b => ∀ i ∈ a.bindings, ∀ j ∈ b.bindings, i < j := by
  refine ⟨_, rfl, @dense_compileAttributes (.new 4 1) .standard 24 23 ["title", "�1� of �0�", "alt", "�0�"] _
    unbound_new rfl ?_ (by decide +kernel)⟩
  exact List.forall_mem_cons.mpr ⟨⟨2, by decide +kernel⟩, List.forall_mem_singleton.mpr ⟨1, by decide +kernel⟩⟩

/-- No sum of the start and an ordinal is too large for the machine. -/
def BoundAttribute.Fits (a : BoundAttribute) : Prop :=
  ∀ o ∈ a.ordinals, ∀ n, o.value? = some n → a.start + n ≤ 9223372036854775807

theorem bindings_nonneg_iff (hstart : a.start ≤ 9223372036854775808) : (∀ i ∈ a.bindings, 0 ≤ i) ↔ a.Fits := by
  unfold BoundAttribute.bindings BoundAttribute.Fits
  rw [forall_mem_map]
  refine forall₂_congr fun o ho => ?_
  obtain ⟨⟨text, o⟩, hmem, rfl⟩ := mem_map.mp ho
  obtain ⟨-, s, k, -, hfound⟩ := (Interleaved.foundIn_splitBy _ _).1 _ _ hmem
  unfold bindingIndex
  cases hvalue : o.value? with
  | none => simp
  | some n =>
    obtain ⟨hn, hle⟩ := Message.value?_nonneg hfound hvalue
    have hwrap : 0 ≤ wrap (a.start + n) ↔ a.start + n ≤ 9223372036854775807 := by
      unfold wrap
      rw [Int.bmod_def]
      omega
    simpa using hwrap

theorem mem_number : ∀ {pairs : List (String × String)} {start : Nat} {a : BoundAttribute}, a ∈ number start pairs →
    (a.name, a.message) ∈ pairs ∧ a.start ≤ start + ((number start pairs).flatMap BoundAttribute.ordinals).length
  | [], _, _, h => absurd h not_mem_nil
  | (name, message) :: rest, start, a, h => by
    rw [number] at h ⊢
    split at h
    · next hempty =>
      obtain ⟨hmem, hle⟩ := mem_number h
      grind
    · next hempty =>
      rw [if_neg hempty, flatMap_cons, length_append, ← Nat.add_assoc]
      rcases mem_cons.mp h with rfl | h
      · grind
      · obtain ⟨hmem, hle⟩ := mem_number h
        exact ⟨mem_cons_of_mem _ hmem, hle⟩

theorem partsNonneg_op (h : ∀ i ∈ a.bindings, 0 ≤ i) : PartsNonneg (a.op cfg element).parts :=
  fun i hi => h i (a.bindings_op cfg element ▸ mem_filterMap.mpr ⟨_, hi, rfl⟩)

/-- **Bindings are not negative, and have their bits in the mask, as long as no sum is too large.** Then composing finds
them in any list of values. -/
theorem grounded_compileAttributes (hslot : t.Unbound index)
    (hok : (t.compileAttributes cfg index element values).result = .ok ops)
    (hmany : UpdateOp.countBindings ops ≤ 9223372036854775808) :
    (∀ a ∈ number 0 (inPairs values), a.Fits) ↔
      ∀ op ∈ ops, (∀ i ∈ op.bindings, 0 ≤ i ∧ Mask.ofBinding i &&& ~~~op.mask = 0#32) ∧
        ∀ bound, ∃ text, Live.compose bound op.parts = .ok text := by
  obtain ⟨-, -, -, rfl⟩ := compileAttributes_ok hslot hok
  rw [countBindings_map_op] at hmany
  rw [List.forall_mem_map]
  refine forall₂_congr fun a ha => ?_
  obtain ⟨-, hstart⟩ := mem_number ha
  rw [← bindings_nonneg_iff (by omega), BoundAttribute.bindings_op]
  constructor
  · intro hnonneg
    refine ⟨fun i hi => ⟨hnonneg i hi, ?_⟩, fun bound => ⟨_, compose_eq bound (partsNonneg_op hnonneg)⟩⟩
    rw [← BoundAttribute.bindings_op cfg element] at hi
    obtain ⟨part, hpart, heq⟩ := List.mem_filterMap.mp hi
    cases part with
    | literal s => cases heq
    | binding j =>
      cases heq
      refine Mask.meets_eq_false.mp (meets_bindingMask ?_ i hpart)
      exact Mask.meets_eq_false.mpr (BitVec.and_not_self _)
  · exact fun h i hi => (h.1 i hi).1

theorem grounded_compileAttributes_largest : ∃ ops, ((TemplateView.new 4 1).compileAttributes .standard 24 23
        ["title", "�0�", "alt", "�9223372036854775806�"]).result = .ok ops ∧
      ∀ op ∈ ops, ∀ bound, ∃ text, Live.compose bound op.parts = .ok text := by
  have hnonneg : ∀ a ∈ number 0 (inPairs ["title", "�0�", "alt", "�9223372036854775806�"]),
      a.start ≤ 9223372036854775808 ∧ ∀ i ∈ a.bindings, 0 ≤ i := by decide +kernel
  refine ⟨_, rfl, fun op hop => ((@grounded_compileAttributes (.new 4 1) .standard 24 23
    ["title", "�0�", "alt", "�9223372036854775806�"] _ unbound_new rfl (by decide +kernel)).mp ?_ op hop).2⟩
  exact fun a ha => (bindings_nonneg_iff (hnonneg a ha).1).mp (hnonneg a ha).2

/-- **A sum that is too large.** The binding behind an earlier one is negative and has no bit, and composing fails. -/
theorem not_grounded_compileAttributes : ∃ ops, ((TemplateView.new 4 1).compileAttributes .standard 24 23
        ["title", "�0�", "alt", "�9223372036854775807��0�"]).result = .ok ops ∧
      ∃ op ∈ ops, op.bindings = [-9223372036854775808, 1] ∧ op.mask = 2#32 ∧
        Live.compose ["a", "b"] op.parts = .error (.negativeBinding (-9223372036854775808)) :=
  ⟨_, rfl, _, List.mem_cons_of_mem _ List.mem_cons_self, by decide +kernel, by decide +kernel, by decide +kernel⟩

/-! ### The first update -/

open Live
open Markup (Attr Content)

def attribute? (name : String) (attrs : List Attr) : Option String := (attrs.find? (·.key = name)).map (·.value)

theorem attribute?_withAttr (name other value : String) (attrs : List Attr) :
    attribute? name (withAttr other value attrs) = if other = name then some value else attribute? name attrs := by
  unfold attribute?
  induction attrs with
  | nil => by_cases h : other = name <;> simp [withAttr, h]
  | cons a rest ih =>
    rw [withAttr]
    by_cases ha : a.key = other
    · subst ha
      by_cases h : a.key = name <;> simp [h]
    · rw [if_neg ha, List.find?_cons, List.find?_cons]
      by_cases h : a.key = name
      · simp [h, Ne.symm (h ▸ ha)]
      · simpa [h] using ih

namespace BoundAttribute

def text (values : List String) (a : BoundAttribute) : String :=
  let parts := splitBindings a.message.toList
  parts.items.foldr (fun p rest => String.ofList p.1 ++ (valueAt values (bindingIndex a.start p.2) ++ rest))
    (String.ofList parts.last)

/-- What is written: the text, or what the sanitizer for the attribute makes of it. -/
def written (cfg : Config) (values : List String) (a : BoundAttribute) : String :=
  ((cfg.sanitizer (Text.lower a.name)).map (·.rule)).elim (a.text values) (·.run (a.text values))

/-- The message has a marker, and is for the attribute with that name. -/
def binds (name : String) (a : BoundAttribute) : Bool := a.name == name && hasBinding a.message.toList

end BoundAttribute

variable {depth : Nat} {run : List UpdateOp → Mask → LiveM Unit} {v : LiveView} {id : Nat} {ns : Markup.Namespace} {tag : String}

theorem BoundAttribute.target_op (h : a.name ≠ "") : (a.op cfg element).target =
    .attribute a.name ((cfg.sanitizer (Text.lower a.name)).map (·.rule))
      (((cfg.sanitizer (Text.lower a.name)).map (·.name)).getD "") :=
  if_neg (by simpa using h)

theorem BoundAttribute.value_op (h : a.name ≠ "") : (a.op cfg element).value values = a.written cfg values := by
  have htext : joined values (a.op cfg element).parts = a.text values := joined_bindingParts values a.start _
  rw [UpdateOp.value, a.target_op h, htext, written]
  cases cfg.sanitizer (Text.lower a.name) <;> rfl

theorem yields_attribute (hname : a.name ≠ "") (hnonneg : ∀ i ∈ a.bindings, 0 ≤ i)
    (hnode : v.node? element = some id) {attrs : List Attr} (hcontent : v.tree.content? id = some (.element ns tag attrs)) :
    Yields (applyUpdate t depth run values Mask.all (a.op cfg element)) v fun _ v' => v'.node? element = some id ∧
      v'.tree.content? id = some (.element ns tag
        (if hasBinding a.message.toList = true then withAttr a.name (a.written cfg values) attrs else attrs)) := by
  have hbindings : (a.op cfg element).parts.filterMap Part.binding? = a.bindings := a.bindings_op cfg element
  have hparts : PartsNonneg (a.op cfg element).parts := partsNonneg_op hnonneg
  have hmask : (a.op cfg element).mask ≠ 0#32 ↔ hasBinding a.message.toList = true := by
    refine (bindingMask_ne_zero hparts).trans ?_
    rw [hbindings, hasBinding_iff]
    exact not_congr (map_eq_nil_iff.trans map_eq_nil_iff)
  by_cases hmark : hasBinding a.message.toList = true
  · have hplace : (a.op cfg element).place? = some (some a.name) := by rw [UpdateOp.place?, a.target_op hname]
    refine yields_write ⟨by rw [hplace]; rfl, hparts, rfl, hmask.mpr hmark⟩ ?_
    have hcommit : v.commitAt values (a.op cfg element) =
        v.withTree (modifyContent id ((a.op cfg element).commit values) v.tree) := by
      unfold LiveView.commitAt
      rw [show v.node? (a.op cfg element).index = some id from hnode]
    rw [if_pos (Mask.meets_all (hmask.mpr hmark)), if_pos hmark, hcommit]
    refine ⟨hnode, ?_⟩
    show (modifyContent id _ v.tree).content? id = _
    rw [Markup.Tree.content?_modifyContent, if_pos rfl, hcontent, Option.map_some, commit_eq_write hplace,
      BoundAttribute.value_op hname]
    rfl
  · rw [if_neg hmark, applyUpdate, not_not.mp fun hne => hmark (hmask.mp hne), Mask.meets_comm, Mask.meets_zero,
      if_neg Bool.false_ne_true, applyPending, a.target_op hname]
    exact yields_pure ⟨hnode, hcontent⟩

theorem yields_attributes : ∀ {l : List BoundAttribute} {v : LiveView} {attrs : List Attr},
    (∀ a ∈ l, a.name ≠ "" ∧ ∀ i ∈ a.bindings, 0 ≤ i) → v.node? element = some id →
      v.tree.content? id = some (.element ns tag attrs) →
        Yields ((l.map (·.op cfg element)).forM (applyUpdate t depth run values Mask.all)) v fun _ v' =>
          ∃ attrs', v'.tree.content? id = some (.element ns tag attrs') ∧ ∀ name, attribute? name attrs' =
            (l.filter (·.binds name)).getLast?.elim (attribute? name attrs) fun a => some (a.written cfg values)
  | [], v, attrs, _, hnode, hcontent => yields_pure ⟨attrs, hcontent, fun _ => rfl⟩
  | a :: l, v, attrs, hl, hnode, hcontent => by
    obtain ⟨⟨hname, hnonneg⟩, hrest⟩ := forall_mem_cons.mp hl
    refine yields_forM_cons (yields_attribute hname hnonneg hnode hcontent) ?_
    rintro v₁ ⟨hnode₁, hcontent₁⟩
    refine (yields_attributes hrest hnode₁ hcontent₁).mono ?_
    rintro _ v₂ ⟨attrs', hcontent₂, hattrs⟩
    refine ⟨attrs', hcontent₂, fun name => (hattrs name).trans ?_⟩
    rw [filter_cons, BoundAttribute.binds]
    by_cases hmark : hasBinding a.message.toList = true
    · rw [if_pos hmark, attribute?_withAttr, hmark, Bool.and_true]
      by_cases heq : a.name = name
      · rw [if_pos heq, if_pos (beq_iff_eq.mpr heq), List.getLast?_cons]
        cases (l.filter (·.binds name)).getLast? <;> rfl
      · rw [if_neg heq, if_neg (by simpa using heq)]
    · rw [if_neg hmark, Bool.eq_false_iff.mpr hmark, Bool.and_false, if_neg Bool.false_ne_true]

/-- **The first update writes every message that has a marker.** An attribute has the text of the last of its messages
with a marker; without one it stays as it was, whatever the other messages are. -/
theorem firstUpdate_compileAttributes (hslot : t.Unbound index)
    (hok : (t.compileAttributes cfg index element values).result = .ok ops) (hnames : ∀ p ∈ inPairs values, p.1 ≠ "")
    (hnode : v.node? element = some id) {attrs : List Attr} (hcontent : v.tree.content? id = some (.element ns tag attrs))
    {bound : List String} (hbound : ∀ op ∈ ops, ∀ i ∈ op.bindings, 0 ≤ i ∧ i < bound.length) (t' : TemplateView) :
    Yields (applyUpdates t' ops (Bindings.new.bind bound).2.values (Bindings.new.bind bound).1) v fun _ v' =>
      ∃ attrs', v'.tree.content? id = some (.element ns tag attrs') ∧ ∀ name, attribute? name attrs' =
        ((number 0 (inPairs values)).filter (·.binds name)).getLast?.elim (attribute? name attrs) fun a =>
          some (a.written cfg bound) := by
  obtain ⟨-, -, -, rfl⟩ := compileAttributes_ok hslot hok
  have hvalues : (Bindings.new.bind bound).2.values = bound := by simp [Bindings.bind, Bindings.new]
  rw [hvalues]
  refine yields_attributes (fun a ha => ⟨?_, fun i hi => ?_⟩) hnode hcontent
  · exact hnames _ (mem_number ha).1
  · exact (hbound _ (List.mem_map_of_mem ha) i (a.bindings_op cfg element ▸ hi)).1

def spanView : LiveView := (LiveView.new (.new 4 1) none .standard).addNew 23 (.element .html "span" [])

theorem firstUpdate_compileAttributes_repeated :
    ∃ ops, ((TemplateView.new 4 1).compileAttributes .standard 24 23 ["title", "a �0�", "title", "b"]).result = .ok ops ∧
      Yields (applyUpdates (.new 4 1) ops ["x"] Mask.all) spanView fun _ v' =>
        ∃ attrs, v'.tree.content? 0 = some (.element .html "span" attrs) ∧ attribute? "title" attrs = some "a x" := by
  refine ⟨_, rfl, (@firstUpdate_compileAttributes (.new 4 1) .standard 24 23 ["title", "a �0�", "title", "b"] _ spanView 0
    .html "span" unbound_new rfl (by decide +kernel) rfl [] rfl ["x"] (by decide +kernel) (.new 4 1)).mono ?_⟩
  rintro _ v' ⟨attrs, hcontent, hattrs⟩
  exact ⟨attrs, hcontent, (hattrs "title").trans (by decide +kernel)⟩

/-- **A message without a marker.** The first update leaves the element as it is. -/
theorem firstUpdate_compileAttributes_plain :
    ∃ ops, ((TemplateView.new 4 1).compileAttributes .standard 24 23 ["title", "x"]).result = .ok ops ∧
      Yields (applyUpdates (.new 4 1) ops [] (Bindings.new.bind []).1) spanView fun _ v' => v' = spanView :=
  ⟨_, rfl, fun r hr => ⟨(), r, rfl, hr⟩⟩

end MessageCompiler
