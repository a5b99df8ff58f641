/-
What emptying leaves of a text with regions.

Emptying takes any border as the start of a region, and skips to the closing border with the same tag. No border comes
about or goes away where something is left out: a border is recognised up to its second marker character, and every
gap is between two of these.

* **`Hollows`** — what becomes of the borders of a text.
* **`complete_iff`** — emptying succeeds if and only if the regions of the text are complete.
* **`splitBorders_flatten`** — the borders of the result are those that were left.
-/
import MessageCompiler.Compile.Message
import MessageCompiler.Compile.Standard
import MessageCompiler.Proofs.Passages

namespace MessageCompiler

open List
open Text (Interleaved isDigit)
open Text.Interleaved (Free free_nil)
open Message.Border (read?_spec read? read?_text)

variable {α : Type} {text : List Char}

/-- The first item that is found, with what is in front of it and behind it; `front` was passed over before. -/
theorem Text.Interleaved.exists_of_splitFrom {item? : List Char → Option (α × Nat)} {write : α → List Char}
    (hitem : ∀ s a n, item? s = some (a, n) → write a ≠ [] ∧ n = (write a).length ∧ ∃ rest, s = write a ++ rest)
    {a : α} {items : List (List Char × α)} {last : List Char} :
    ∀ s front : List Char, Free item? front s → splitFrom item? 0 front.reverse s = ⟨(text, a) :: items, last⟩ →
      ∃ rest, Free item? text (write a ++ rest) ∧ (∃ n, item? (write a ++ rest) = some (a, n)) ∧
        splitBy item? rest = ⟨items, last⟩
  | [], front, _, h => by cases h
  | c :: s, front, hfree, h => by
    unfold splitFrom at h
    split at h
    · next b n hfound =>
      obtain ⟨hne, rfl, rest, hs⟩ := hitem _ b n hfound
      cases hwrite : write b with
      | nil => exact absurd hwrite hne
      | cons d w =>
        rw [hwrite, cons_append] at hs
        obtain ⟨rfl, rfl⟩ := List.cons.inj hs
        rw [hwrite, length_cons, Nat.add_sub_cancel, splitFrom_skip, reverse_reverse] at h
        have hsplit : (splitBy item? rest).cons front b = ⟨(text, a) :: items, last⟩ := h
        cases hrest : splitBy item? rest with
        | mk items' last' =>
          rw [hrest] at hsplit
          cases hsplit
          rw [← cons_append, ← hwrite] at hfree hfound
          exact ⟨rest, hfree, ⟨_, hfound⟩, hrest⟩
    · next hnone =>
      rw [← reverse_concat] at h
      exact exists_of_splitFrom hitem s (front ++ [c]) (hfree.snoc hnone) (by simpa using h)

namespace Message

variable {s r last : List Char} {b c : Border} {items items' : List (List Char × Border)}

/-! ### Borders of a text -/

theorem Border.text_ne_nil (b : Border) : b.text ≠ [] := cons_ne_nil _ _

theorem flatten_splitBorders (s : List Char) : (splitBorders s).flatten Border.text = s := by
  refine Interleaved.flatten_splitBy (fun s b n h => ?_) s
  obtain ⟨-, rfl, rest, rfl⟩ := read?_spec h
  exact ⟨length_pos_iff.mpr b.text_ne_nil, take_left⟩

/-- A text with a border is the text in front of the first one, that border, and a text with the other ones. -/
theorem exists_of_splitBorders (h : splitBorders s = ⟨(text, b) :: items, last⟩) :
    b.Written ∧ ∃ rest, Free read? text (b.text ++ rest) ∧ splitBorders rest = ⟨items, last⟩ := by
  obtain ⟨rest, hfree, ⟨n, hfound⟩, hrest⟩ := Interleaved.exists_of_splitFrom
    (fun s b n h => (⟨b.text_ne_nil, (read?_spec h).2⟩ : b.text ≠ [] ∧ n = b.text.length ∧ ∃ rest, s = b.text ++ rest))
    s [] (free_nil s) h
  exact ⟨(read?_spec hfound).1, rest, hfree, hrest⟩

theorem written_of_splitBorders : ∀ {items : List (List Char × Border)} {s : List Char},
    splitBorders s = ⟨items, last⟩ → ∀ x ∈ items, x.2.Written
  | [], _, _ => fun _ hx => absurd hx not_mem_nil
  | (text, b) :: items, s, h => by
    obtain ⟨hb, rest, -, hrest⟩ := exists_of_splitBorders h
    exact forall_mem_cons.mpr ⟨hb, written_of_splitBorders hrest⟩

theorem exists_rest_of_splitBorders : ∀ {front back : List (List Char × Border)} {s : List Char},
    splitBorders s = ⟨front ++ back, last⟩ → ∃ rest, splitBorders rest = ⟨back, last⟩
  | [], _, s, h => ⟨s, h⟩
  | (text, b) :: front, back, s, h => by
    obtain ⟨-, rest, -, hrest⟩ := exists_of_splitBorders h
    exact exists_rest_of_splitBorders hrest

theorem Border.Written.text_eq (h : b.Written) : ∃ body, b.text = mark :: (body ++ [mark]) ∧ mark ∉ body := by
  refine ⟨(if b.closing then ['/'] else []) ++ '*' :: b.tag, by simp [Border.text], ?_⟩
  have hslash : mark ∉ if b.closing then ['/'] else [] := by
    split <;> decide
  have hslot : mark ∉ b.slot := fun hmem => absurd (h.slot.2 _ hmem) (by decide)
  have hchild : mark ∉ b.child := fun hmem => absurd (h.child.2 _ hmem) (by decide)
  have hstar : mark ≠ '*' := by decide
  have hcolon : mark ≠ ':' := by decide
  simp [Border.tag, hslash, hslot, hchild, hstar, hcolon]

theorem read?_cut {t u : List Char} {found : Border × Nat} (hne : t ≠ []) (h : read? (t ++ mark :: u) = some found)
    (v : List Char) : (read? (t ++ mark :: v)).isSome = true := by
  obtain ⟨b, n⟩ := found
  obtain ⟨hb, -, rest, heq⟩ := read?_spec h
  suffices hagain : ∃ w, t ++ mark :: v = b.text ++ w by
    obtain ⟨w, hw⟩ := hagain
    rw [hw, read?_text hb]
    rfl
  obtain ⟨body, htext, hbody⟩ := hb.text_eq
  cases t with
  | nil => exact absurd rfl hne
  | cons d t =>
    rw [htext, cons_append, cons_append, append_assoc] at heq
    rw [htext]
    obtain ⟨rfl, htail⟩ := List.cons.inj heq
    rcases append_eq_append_iff.mp htail with ⟨a, rfl, ha⟩ | ⟨a, rfl, ha⟩
    · -- The border reaches the marker character, and has none inside.
      cases a with
      | nil => exact ⟨v, by simp⟩
      | cons e a =>
        obtain ⟨rfl, -⟩ := List.cons.inj ha
        exact absurd (mem_append_right t mem_cons_self) hbody
    · cases a with
      | nil => exact ⟨v, by simp⟩
      | cons e a =>
        obtain ⟨rfl, -⟩ := List.cons.inj ha
        exact ⟨a ++ mark :: v, by simp⟩

theorem free_before {u v : List Char} (h : Free read? text (b.text ++ u)) : Free read? text (c.text ++ v) := by
  intro t hne hsuffix
  cases hfound : read? (t ++ (c.text ++ v)) with
  | none => rfl
  | some found =>
    have hsome := read?_cut hne hfound (b.text.tail ++ u)
    rw [show mark :: (b.text.tail ++ u) = b.text ++ u from rfl, h t hne hsuffix] at hsome
    cases hsome

theorem splitBorders_cons (hb : b.Written) (hfree : Free read? text (b.text ++ s)) :
    splitBorders (text ++ (b.text ++ s)) = (splitBorders s).cons text b := by
  unfold splitBorders Interleaved.splitBy
  rw [Interleaved.splitFrom_free hfree, Interleaved.splitFrom_item b.text_ne_nil (read?_text hb s), append_nil,
    reverse_reverse]

/-! ### Regions -/

def Border.Closes (c b : Border) : Prop := c.closing = true ∧ c.tag = b.tag

instance (c b : Border) : Decidable (c.Closes b) := inferInstanceAs (Decidable (_ ∧ _))

/-- What is left of the borders and the texts in front of them: a region begins with any border, and ends with the first
one that closes it. -/
inductive Hollows : List (List Char × Border) → List (List Char × Border) → Prop where
  | nil : Hollows [] []
  | region {text before : List Char} {b c : Border} {inside rest rest' : List (List Char × Border)}
      (hinside : ∀ x ∈ inside, ¬x.2.Closes b) (hcloses : c.Closes b) (hrest : Hollows rest rest') :
      Hollows ((text, b) :: (inside ++ (before, c) :: rest)) ((text, b) :: ([], c) :: rest')

/-- The borders are those of regions, one after the other, each of which ends. -/
def Complete (items : List (List Char × Border)) : Prop := ∃ items', Hollows items items'

theorem Hollows.emptyFrom_eq (h : Hollows items items') (last : List Char) :
    emptyFrom last none items = .ok (Interleaved.flatten Border.text ⟨items', last⟩) := by
  induction h with
  | nil => rfl
  | region hinside hcloses _ ih =>
    rw [emptyFrom, emptyFrom_skip hinside, emptyFrom, if_pos, ih]
    · simp [Interleaved.flatten, bind, Except.bind, pure, Except.pure]
    · rw [Bool.and_eq_true, decide_eq_true_eq]
      exact hcloses

theorem pure_bind_eq_ok {ε β : Type} {x : Except ε α} {f : α → β} {b : β} :
    (do let a ← x; return f a) = .ok b ↔ ∃ a, x = .ok a ∧ f a = b := by
  cases x <;> simp [bind, Except.bind, pure, Except.pure]

theorem exists_of_emptyFrom {last : List Char} : ∀ (items : List (List Char × Border)) (r : List Char),
    (emptyFrom last none items = .ok r →
      ∃ items', Hollows items items' ∧ r = Interleaved.flatten Border.text ⟨items', last⟩) ∧
    ∀ b : Border, emptyFrom last (some b.tag) items = .ok r → ∃ inside before c rest rest',
      items = inside ++ (before, c) :: rest ∧ (∀ x ∈ inside, ¬x.2.Closes b) ∧ c.Closes b ∧ Hollows rest rest' ∧
        r = c.text ++ Interleaved.flatten Border.text ⟨rest', last⟩ := by
  intro items
  induction items with
  | nil =>
    intro r
    refine ⟨fun h => ⟨[], .nil, ?_⟩, fun b h => by cases h⟩
    cases h
    rfl
  | cons x items ih =>
    intro r
    obtain ⟨text, c⟩ := x
    refine ⟨fun h => ?_, fun b h => ?_⟩
    · rw [emptyFrom] at h
      obtain ⟨tail, htail, rfl⟩ := pure_bind_eq_ok.mp h
      obtain ⟨inside, before, d, rest, rest', rfl, hinside, hcloses, hrest, rfl⟩ := (ih tail).2 c htail
      exact ⟨_, .region hinside hcloses hrest, by simp [Interleaved.flatten]⟩
    · rw [emptyFrom] at h
      by_cases hcloses : c.Closes b
      · rw [if_pos (by rw [Bool.and_eq_true, decide_eq_true_eq]; exact hcloses)] at h
        obtain ⟨tail, htail, rfl⟩ := pure_bind_eq_ok.mp h
        obtain ⟨items', hitems, rfl⟩ := (ih tail).1 htail
        exact ⟨[], text, c, items, items', rfl, fun _ hx => absurd hx not_mem_nil, hcloses, hitems, rfl⟩
      · rw [if_neg (by rw [Bool.and_eq_true, decide_eq_true_eq]; exact hcloses)] at h
        grind

theorem Hollows.sublist (h : Hollows items items') (last : List Char) :
    Interleaved.flatten Border.text ⟨items', last⟩ <+ Interleaved.flatten Border.text ⟨items, last⟩ := by
  induction h with
  | nil => exact Sublist.refl _
  | @region text before b c inside rest rest' _ _ _ ih =>
    have hrest : c.text ++ Interleaved.flatten Border.text ⟨rest', last⟩ <+
        Interleaved.flatten Border.text ⟨inside ++ (before, c) :: rest, last⟩ := by
      have htail : Interleaved.flatten Border.text ⟨inside ++ (before, c) :: rest, last⟩ =
          (inside.flatMap (fun x => x.1 ++ x.2.text) ++ before) ++
            (c.text ++ Interleaved.flatten Border.text ⟨rest, last⟩) := by
        simp [Interleaved.flatten]
      rw [htail]
      exact sublist_append_of_sublist_right (ih.append_left c.text)
    simpa [Interleaved.flatten] using hrest.append_left (text ++ b.text)

theorem Hollows.again (h : Hollows items items') : Hollows items' items' := by
  induction h with
  | nil => exact .nil
  | region _ hcloses _ ih =>
    exact .region (fun x (hx : x ∈ []) => absurd hx not_mem_nil) hcloses ih

theorem Hollows.splitBorders_flatten (h : Hollows items items') : ∀ {s : List Char}, splitBorders s = ⟨items, last⟩ →
    splitBorders (Interleaved.flatten Border.text ⟨items', last⟩) = ⟨items', last⟩ := by
  induction h with
  | nil =>
    intro s hs
    have hflat := flatten_splitBorders s
    rw [hs] at hflat
    rw [hflat, hs]
  | @region text before b c inside rest rest' _ _ _ ih =>
    intro s hs
    obtain ⟨hb, u, hfree, hu⟩ := exists_of_splitBorders hs
    obtain ⟨v, hv⟩ := exists_rest_of_splitBorders hu
    obtain ⟨hc, w, -, hw⟩ := exists_of_splitBorders hv
    have hrest := ih hw
    have hclosing : splitBorders (c.text ++ Interleaved.flatten Border.text ⟨rest', last⟩) = ⟨([], c) :: rest', last⟩ := by
      have hcons := splitBorders_cons (s := Interleaved.flatten Border.text ⟨rest', last⟩) hc (free_nil _)
      rw [nil_append, hrest] at hcons
      exact hcons
    have hopening := splitBorders_cons (s := c.text ++ Interleaved.flatten Border.text ⟨rest', last⟩) hb
      (free_before hfree)
    rw [hclosing] at hopening
    simpa [Interleaved.flatten, Interleaved.cons] using hopening

theorem emptyRegions_eq_ok_iff : emptyRegions s = .ok r ↔
    Hollows (splitBorders s).items (splitBorders r).items ∧ (splitBorders r).last = (splitBorders s).last := by
  constructor
  · intro h
    obtain ⟨items', hitems, rfl⟩ := (exists_of_emptyFrom _ r).1 h
    have hsplit : splitBorders (Interleaved.flatten Border.text ⟨items', (splitBorders s).last⟩) = ⟨items', _⟩ :=
      hitems.splitBorders_flatten rfl
    rw [hsplit]
    exact ⟨hitems, rfl⟩
  · rintro ⟨hitems, hlast⟩
    refine (hitems.emptyFrom_eq (splitBorders s).last).trans ?_
    rw [← hlast]
    exact congrArg Except.ok (flatten_splitBorders r)

theorem complete_iff : Complete (splitBorders s).items ↔ ∃ r, emptyRegions s = .ok r := by
  constructor
  · rintro ⟨items', hitems⟩
    exact ⟨_, hitems.emptyFrom_eq (splitBorders s).last⟩
  · rintro ⟨r, h⟩
    exact ⟨_, (emptyRegions_eq_ok_iff.mp h).1⟩

theorem emptied_eq_ok : emptied s = .ok r ↔ emptyRegions s = .ok r := by
  unfold emptied
  cases emptyRegions s <;> simp [Except.mapError]

/-- **Emptying once is enough.** What emptying returns is not changed by emptying it again, and it is the text with some
of its characters left out. -/
theorem emptied_emptied {s r : List Char} (h : emptied s = .ok r) : emptied r = .ok r ∧ r <+ s := by
  obtain ⟨hitems, hlast⟩ := emptyRegions_eq_ok_iff.mp (emptied_eq_ok.mp h)
  constructor
  · exact emptied_eq_ok.mpr (emptyRegions_eq_ok_iff.mpr ⟨hitems.again, rfl⟩)
  · have hsub := hitems.sublist (splitBorders s).last
    rw [← hlast] at hsub
    have hs : Interleaved.flatten Border.text ⟨(splitBorders s).items, (splitBorders r).last⟩ = s := by
      rw [hlast]
      exact flatten_splitBorders s
    rw [hs] at hsub
    exact (flatten_splitBorders r) ▸ hsub

/-- A region that holds an opening border with its own tag, another one that shares a marker character with what looks
like a closing border, and a closing border that begins a region. -/
theorem emptied_emptied_overlapping :
    let s := "a\uFFFD*1:2\uFFFDb\uFFFD*1:2\uFFFD/*1:2\uFFFDc\uFFFD/*1:2\uFFFDd\uFFFD/*3:4\uFFFDe\uFFFD/*3:4\uFFFD".toList
    let r := "a\uFFFD*1:2\uFFFD\uFFFD/*1:2\uFFFDd\uFFFD/*3:4\uFFFD\uFFFD/*3:4\uFFFD".toList
    emptied s = .ok r ∧ emptied r = .ok r ∧ r <+ s := by
  intro s r
  have h : emptied s = .ok r := by decide +kernel
  exact ⟨h, emptied_emptied h⟩

/-! ### Pairs of borders -/

/-- The borders come in pairs: one with the property, and right behind it the closing one with the same numbers. -/
inductive Pairs (P : Border → Prop) : List (List Char × Border) → Prop where
  | nil : Pairs P []
  | pair {text : List Char} {b : Border} {rest : List (List Char × Border)} (hb : P b) (hrest : Pairs P rest) :
      Pairs P ((text, b) :: ([], { b with closing := true }) :: rest)

theorem Border.Closes.eq (h : c.Closes b) (hc : c.Written) : c = { b with closing := true } := by
  obtain ⟨closing, slot, child⟩ := c
  have hcolon : ∀ digits : List Char, (∀ d ∈ digits, isDigit d = true) → ':' ∉ digits := fun digits h hmem => by
    cases h ':' hmem
  have htag := (append_cons_inj_of_notMem (hcolon _ hc.slot.2) (hcolon _ hc.child.2)).mp h.2
  cases h.1
  exact congrArg₂ (Border.mk true) htag.1 htag.2.2

theorem Hollows.pairs (h : Hollows items items') (hwritten : ∀ x ∈ items, x.2.Written) : Pairs (fun _ => True) items' := by
  induction h with
  | nil => exact .nil
  | @region text before b c inside rest rest' _ hcloses _ ih =>
    have htail := fun x hx => hwritten x (mem_cons_of_mem _ (mem_append_right inside hx))
    rw [hcloses.eq (htail _ mem_cons_self)]
    exact .pair trivial (ih fun x hx => htail x (mem_cons_of_mem _ hx))

theorem eq_of_cut {p : α → Prop} {l l' m m' : List α} {a a' : α} (h : l ++ a :: m = l' ++ a' :: m')
    (hl : ∀ x ∈ l, ¬p x) (ha : p a) (hl' : ∀ x ∈ l', ¬p x) (ha' : p a') : m = m' := by
  rcases append_eq_append_iff.mp h with ⟨k, rfl, hk⟩ | ⟨k, rfl, hk⟩
  · cases k with
    | nil => exact (List.cons.inj hk).2
    | cons e k =>
      grind
  · cases k with
    | nil => exact (List.cons.inj hk).2.symm
    | cons e k =>
      grind

/-- The regions that are left begin with opening borders if and only if no closing border stands behind complete
regions. -/
theorem Hollows.pairs_opening_iff (h : Hollows items items') (hwritten : ∀ x ∈ items, x.2.Written) :
    Pairs (·.closing = false) items' ↔
      ∀ front x back, items = front ++ x :: back → Complete front → x.2.closing = false := by
  induction h with
  | nil => exact ⟨fun _ front x back heq => by simp at heq, fun _ => .nil⟩
  | @region text before b c inside rest rest' hinside hcloses _ ih =>
    have htail := fun x hx => hwritten x (mem_cons_of_mem _ (mem_append_right inside hx))
    have ih := ih fun x hx => htail x (mem_cons_of_mem _ hx)
    constructor
    · rintro hpairs front x back heq ⟨front', hfront⟩
      obtain ⟨hb, hrest⟩ : b.closing = false ∧ Pairs (·.closing = false) rest' := by
        cases hpairs with
        | pair hb hrest => exact ⟨hb, hrest⟩
      cases hfront with
      | nil =>
        cases heq
        exact hb
      | region hinside' hcloses' hrest' =>
        obtain ⟨hhead, htail⟩ := List.cons.inj heq
        cases hhead
        rw [append_eq, append_assoc, cons_append] at htail
        exact ih.mp hrest _ x back (eq_of_cut (p := (·.2.Closes b)) htail hinside hcloses hinside' hcloses') ⟨_, hrest'⟩
    · intro hopening
      rw [hcloses.eq (htail _ mem_cons_self)]
      refine .pair (hopening [] _ _ rfl ⟨[], .nil⟩) (ih.mpr fun front x back heq hfront => ?_)
      obtain ⟨front', hfront⟩ := hfront
      refine hopening ((text, b) :: (inside ++ (before, c) :: front)) x back ?_ ⟨_, .region hinside hcloses hfront⟩
      rw [heq, cons_append, append_assoc, cons_append]

/-! ### The part of a template -/

def Scope.Selects (s content : List Char) : Scope → Prop
  | .root => content = s
  | .child index => region index s = .ok content

theorem partFor_eq_ok_iff {scope : Scope} :
    partFor scope s = .ok r ↔ ∃ content, scope.Selects s content ∧ emptyRegions content = .ok r := by
  cases scope with
  | root =>
    show emptied s = .ok r ↔ _
    simp [Scope.Selects, emptied_eq_ok]
  | child index =>
    rw [partFor]
    cases hregion : region index s with
    | error e => simp [Scope.Selects, hregion, Except.mapError, bind, Except.bind]
    | ok content =>
      show emptied content = .ok r ↔ _
      simp [Scope.Selects, hregion, emptied_eq_ok]

/-- **The regions of a part are empty, but they need not begin with an opening border.** The part of a template is found
if and only if there is a text for it whose regions are complete. The borders of the part then come in pairs, the second
of which closes and is right behind the first. The first is an opening one throughout if and only if no closing border
of the text stands behind complete regions. -/
theorem pairs_partFor (scope : Scope) (s : List Char) :
    ((∃ r, partFor scope s = .ok r) ↔ ∃ content, scope.Selects s content ∧ Complete (splitBorders content).items) ∧
      ∀ r, partFor scope s = .ok r → ∃ content, scope.Selects s content ∧
        Pairs (fun _ => True) (splitBorders r).items ∧
        (Pairs (·.closing = false) (splitBorders r).items ↔
          ∀ front x back, (splitBorders content).items = front ++ x :: back → Complete front → x.2.closing = false) := by
  refine ⟨?_, fun r h => ?_⟩
  · simp only [partFor_eq_ok_iff, complete_iff]
    exact ⟨fun ⟨r, content, h, hok⟩ => ⟨content, h, r, hok⟩, fun ⟨content, h, r, hok⟩ => ⟨r, content, h, hok⟩⟩
  · obtain ⟨content, hselects, hok⟩ := partFor_eq_ok_iff.mp h
    have hitems := (emptyRegions_eq_ok_iff.mp hok).1
    have hwritten : ∀ x ∈ (splitBorders content).items, x.2.Written := written_of_splitBorders rfl
    exact ⟨content, hselects, hitems.pairs hwritten, hitems.pairs_opening_iff hwritten⟩

/-- A closing border without an opening one is taken for the start of a region. -/
theorem not_pairs_partFor :
    let r := "\uFFFD/*1:1\uFFFD\uFFFD/*1:1\uFFFD".toList
    partFor .root "\uFFFD/*1:1\uFFFDx\uFFFD/*1:1\uFFFD".toList = .ok r ∧
      ¬Pairs (·.closing = false) (splitBorders r).items := by
  refine ⟨by decide +kernel, fun h => ?_⟩
  have hitems : (splitBorders "\uFFFD/*1:1\uFFFD\uFFFD/*1:1\uFFFD".toList).items =
      [([], ⟨true, ['1'], ['1']⟩), ([], ⟨true, ['1'], ['1']⟩)] := by decide +kernel
  rw [hitems] at h
  cases h with
  | pair hb => cases hb

/-! ### Errors -/

theorem exists_of_afterOpening {name : List Char} : ∀ {items rest : List (List Char × Border)},
    afterOpening name items = some rest → ∃ before x, items = before ++ x :: rest
  | [], _, h => by cases h
  | x :: items, rest, h => by
    rw [afterOpening] at h
    split at h
    · cases h
      exact ⟨[], x, rfl⟩
    · obtain ⟨before, y, rfl⟩ := exists_of_afterOpening h
      exact ⟨x :: before, y, rfl⟩

theorem exists_of_upToClosing {name : List Char} : ∀ {items : List (List Char × Border)} {content : List Char},
    upToClosing name items = some content → ∃ back, items.flatMap (fun x => x.1 ++ x.2.text) = content ++ back
  | [], _, h => by cases h
  | x :: items, content, h => by
    rw [upToClosing] at h
    rw [flatMap_cons]
    split at h
    · simp_all
    · obtain ⟨tail, htail, rfl⟩ := Option.map_eq_some_iff.mp h
      obtain ⟨back, hback⟩ := exists_of_upToClosing htail
      exact ⟨back, by rw [hback, ← append_assoc]⟩

theorem length_region_lt {index : Int} {content : List Char} (h : region index s = .ok content) :
    content.length < s.length := by
  unfold region at h
  dsimp only at h
  split at h
  · cases h
  · next rest hrest =>
    split at h
    · cases h
    · next hcontent =>
      cases h
      obtain ⟨before, x, hitems⟩ := exists_of_afterOpening hrest
      obtain ⟨back, hback⟩ := exists_of_upToClosing hcontent
      have hpos := length_pos_iff.mpr x.2.text_ne_nil
      have hflat := congrArg length (flatten_splitBorders s)
      rw [Interleaved.flatten, hitems, flatMap_append, flatMap_cons, hback] at hflat
      simp only [length_append] at hflat
      omega

theorem partFor_eq_error {scope : Scope} {e : ScopeError} (h : partFor scope s = .error e) :
    (e.text = s ∧ ∀ index content, scope = .child index → region index s ≠ .ok content) ∨
      ∃ index, scope = .child index ∧ region index s = .ok e.text ∧ ¬Complete (splitBorders e.text).items := by
  have hempty : ∀ {s : List Char}, emptied s = .error e → e.text = s ∧ ¬Complete (splitBorders s).items := by
    intro s h
    unfold emptied at h
    cases he : emptyRegions s with
    | ok r =>
      rw [he] at h
      cases h
    | error cause =>
      rw [he] at h
      cases h
      refine ⟨rfl, fun hcomplete => ?_⟩
      obtain ⟨r, hok⟩ := complete_iff.mp hcomplete
      cases he.symm.trans hok
  cases scope with
  | root => exact .inl ⟨(hempty h).1, fun _ _ hchild => by cases hchild⟩
  | child index =>
    rw [partFor] at h
    cases hregion : region index s with
    | error cause =>
      rw [hregion] at h
      cases h
      refine .inl ⟨rfl, fun index' content hchild hok => ?_⟩
      cases hchild
      cases hregion.symm.trans hok
    | ok content =>
      rw [hregion] at h
      obtain ⟨rfl, hincomplete⟩ := hempty h
      exact .inr ⟨index, rfl, hregion, hincomplete⟩

end Message

open TemplateView in
/-- **What a refusal names.** A message that is refused at a slot of the view is named, unless it is cut for a
sub-template whose region has a region inside that does not end: then that region is named in place of the message. -/
theorem named_compile {t : TemplateView} {cfg : Config} {site : Site} {message : String} {scope : Message.Scope}
    {e : CompileError} (hindex : header ≤ site.index) (hcontains : t.contains site.index = true)
    (h : (t.compile cfg site message scope).result = .error e) :
    ∃ name cause, e = .refused name cause ∧
      (name = message ↔ ∀ index content, scope = .child index → Message.region index message.toList = .ok content →
        Message.Complete (Message.splitBorders content).items) ∧
      (name ≠ message → ∃ index, scope = .child index ∧ Message.region index message.toList = .ok name.toList) := by
  unfold compile at h
  rw [if_neg (by rw [hcontains]; simp; omega)] at h
  split at h
  · cases h
  · split at h
    · next failure hpart =>
      cases h
      refine ⟨_, _, rfl, ?_⟩
      rcases Message.partFor_eq_error hpart with ⟨htext, hnone⟩ | ⟨index, rfl, hregion, hincomplete⟩
      · have hname : String.ofList failure.text = message := by rw [htext, String.ofList_toList]
        exact ⟨iff_of_true hname fun index content hchild hok => absurd hok (hnone index content hchild),
          fun hne => absurd hname hne⟩
      · refine ⟨iff_of_false (fun hname => ?_) fun hall => hincomplete (hall index _ rfl hregion), fun _ => ?_⟩
        · have hlt := Message.length_region_lt hregion
          rw [← hname, String.toList_ofList] at hlt
          exact Nat.lt_irrefl _ hlt
        · exact ⟨index, rfl, by rw [String.toList_ofList]; exact hregion⟩
    · next part hpart =>
      dsimp only at h
      split at h
      · next cause p hrun =>
        cases h
        refine ⟨message, cause, rfl, iff_of_true rfl ?_, fun hne => absurd rfl hne⟩
        rintro index content rfl hregion
        obtain ⟨content', hselects, hok⟩ := Message.partFor_eq_ok_iff.mp hpart
        cases hselects.symm.trans hregion
        exact Message.complete_iff.mpr ⟨part, hok⟩
      · cases h

/-- A message that is refused inside the region of a sub-template is named as a whole. -/
theorem named_compile_closing :
    let message := "x\uFFFD*1:1\uFFFDa\uFFFD/#1\uFFFD\uFFFD/*1:1\uFFFD"
    ∃ cause, ((TemplateView.new 4 1).compile .standard ⟨-1, 22⟩ message (.child 1)).result = .error (.refused message cause) := by
  intro message
  have hregion : Message.region 1 message.toList = .ok "a\uFFFD/#1\uFFFD".toList := by decide +kernel
  have hitems : (Message.splitBorders "a\uFFFD/#1\uFFFD".toList).items = [] := by decide +kernel
  cases hresult : ((TemplateView.new 4 1).compile .standard ⟨-1, 22⟩ message (.child 1)).result with
  | ok handle =>
    have hfails : ((TemplateView.new 4 1).compile .standard ⟨-1, 22⟩ message (.child 1)).result.isOk = false := by
      decide +kernel
    rw [hresult] at hfails
    cases hfails
  | error e =>
    obtain ⟨name, cause, rfl, hname, -⟩ := named_compile (by decide) (by decide) hresult
    refine ⟨cause, ?_⟩
    rw [hname.mpr fun index content hchild hok => ?_]
    cases hchild
    cases hregion.symm.trans hok
    rw [hitems]
    exact ⟨[], .nil⟩

/-- **A refusal need not name the message.** A region inside that of the sub-template does not end. -/
theorem named_compile_ne : ∃ cause, ((TemplateView.new 4 1).compile .standard ⟨-1, 22⟩
        "\uFFFD*1:1\uFFFDa\uFFFD*2:2\uFFFDb\uFFFD/*1:1\uFFFD" (.child 1)).result =
      .error (.refused "a\uFFFD*2:2\uFFFDb" cause) :=
  ⟨.unresolvableRegion (.unclosed "2:2".toList), by decide +kernel⟩

end MessageCompiler
