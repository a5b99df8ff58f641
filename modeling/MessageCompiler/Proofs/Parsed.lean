/-
What the parser of messages returns.

* **`Segment.Every`** — properties of the main bindings and of the bodies of cases, at any depth.
* **`Icu.all`** — an expression and those in its cases, at any depth.
* **`Segment.Tidy`** — text and expressions in turn, made of certain characters.
* **`every_split`** — no main binding is negative, and every body is tidy.
-/
import MessageCompiler.Message.Parser
import MessageCompiler.Proofs.Bindings

namespace MessageCompiler

open List

variable {e : Icu} {body : List Segment} {block : List Char}

variable {rest s : List Char}

theorem Reported.result_bind_eq_ok {ε α β : Type} {x : Reported ε α} {f : α → Reported ε β} {b : β} :
    (x >>= f).result = .ok b ↔ ∃ a, x.result = .ok a ∧ (f a).result = .ok b := by
  rw [Reported.result_bind]
  cases hx : x.result with
  | error e =>
    constructor
    · intro h
      cases h
    · simp
  | ok a =>
    constructor
    · intro h
      exact ⟨a, rfl, h⟩
    · rintro ⟨a', h, hf⟩
      cases h
      exact hf

mutual

/-- The main bindings of an expression and the bodies of its cases have the given properties, at any
depth. -/
def Icu.Every (main : Int → Prop) (body : List Segment → Prop) : Icu → Prop
  | .mk _ m cases => main m ∧ Case.Every main body cases

def Case.Every (main : Int → Prop) (body : List Segment → Prop) : List Case → Prop
  | [] => True
  | .mk _ content :: rest => (body content ∧ Segment.Every main body content) ∧ Case.Every main body rest

def Segment.Every (main : Int → Prop) (body : List Segment → Prop) : List Segment → Prop
  | [] => True
  | .text _ :: rest => Segment.Every main body rest
  | .icu e :: rest => e.Every main body ∧ Segment.Every main body rest

end

def Segment.expression? : Segment → Option Icu
  | .text _ => none
  | .icu e => some e

/-! ### Expressions inside expressions -/

mutual

def Icu.all : Icu → List Icu
  | .mk kind main cases => .mk kind main cases :: Case.all cases

def Case.all : List Case → List Icu
  | [] => []
  | .mk _ body :: rest => Segment.all body ++ Case.all rest

def Segment.all : List Segment → List Icu
  | [] => []
  | .text _ :: rest => Segment.all rest
  | .icu e :: rest => e.all ++ Segment.all rest

end

def Case.inner (case : Case) : List Icu := case.body.filterMap Segment.expression?

theorem Segment.all_eq (body : List Segment) : Segment.all body = (body.filterMap expression?).flatMap Icu.all := by
  induction body with
  | nil => rfl
  | cons segment rest ih =>
    cases segment with
    | text s => exact ih
    | icu e => exact congrArg (e.all ++ ·) ih

theorem Icu.all_eq (e : Icu) : e.all = e :: e.cases.flatMap fun case => case.inner.flatMap all := by
  obtain ⟨kind, main, cases⟩ := e
  refine congrArg (Icu.mk kind main cases :: ·) ?_
  show Case.all cases = cases.flatMap fun case => case.inner.flatMap Icu.all
  induction cases with
  | nil => rfl
  | cons case rest ih =>
    obtain ⟨label, body⟩ := case
    rw [Case.all, ih, Segment.all_eq]
    rfl

theorem Icu.mem_all_self (e : Icu) : e ∈ e.all := by
  rw [e.all_eq]
  exact mem_cons_self

theorem Icu.all_subset {e' : Icu} {case : Case} (hcase : case ∈ e.cases) (h : e' ∈ case.inner) : e'.all ⊆ e.all := by
  intro x hx
  grind [e.all_eq]

theorem Icu.induction {P : Icu → Prop} (h : ∀ e : Icu, (∀ case ∈ e.cases, ∀ e' ∈ case.inner, P e') → P e) (e : Icu) :
    P e :=
  h e fun case _hcase e' _he' => Icu.induction h e'
termination_by sizeOf e
decreasing_by
  obtain ⟨kind, main, cases⟩ := e
  obtain ⟨label, body⟩ := case
  obtain ⟨segment, hsegment, heq⟩ := mem_filterMap.mp _he'
  cases segment with
  | text s => cases heq
  | icu e =>
    cases heq
    have hinner := sizeOf_lt_of_mem hsegment
    have houter := sizeOf_lt_of_mem _hcase
    simp only [Icu.mk.sizeOf_spec, Case.mk.sizeOf_spec, Segment.icu.sizeOf_spec, Case.body, Icu.cases] at *
    omega

section Every

variable {M : Int → Prop} {shape : List Segment → Prop}

mutual

theorem Icu.every_iff : ∀ e : Icu, e.Every M shape ↔ ∀ x ∈ e.all, M x.main ∧ ∀ case ∈ x.cases, shape case.body
  | .mk _ _ cases => by
    rw [Icu.Every, Case.every_iff cases, Icu.all, forall_mem_cons, ← and_assoc]
    rfl

theorem Case.every_iff : ∀ cases : List Case, Case.Every M shape cases ↔ (∀ case ∈ cases, shape case.body) ∧
    ∀ x ∈ Case.all cases, M x.main ∧ ∀ case ∈ x.cases, shape case.body
  | [] => by simp [Case.Every, Case.all]
  | .mk _ content :: rest => by
    rw [Case.Every, Segment.every_iff content, Case.every_iff rest, Case.all, forall_mem_append,
      forall_mem_cons, and_and_and_comm]
    rfl

theorem Segment.every_iff : ∀ body : List Segment, Segment.Every M shape body ↔
    ∀ x ∈ Segment.all body, M x.main ∧ ∀ case ∈ x.cases, shape case.body
  | [] => by simp [Segment.Every, Segment.all]
  | .text _ :: rest => Segment.every_iff rest
  | .icu e :: rest => by
    rw [Segment.Every, Icu.every_iff e, Segment.every_iff rest, Segment.all, forall_mem_append]

end

theorem Icu.every_true (e : Icu) : e.Every (fun _ => True) fun _ => True :=
  e.every_iff.mpr fun _ _ => ⟨trivial, fun _ _ => trivial⟩

theorem Segment.mem_all {x : Icu} (he : .icu e ∈ body) (hx : x ∈ e.all) : x ∈ all body := by
  rw [all_eq]
  exact mem_flatMap.mpr ⟨e, mem_filterMap.mpr ⟨_, he, rfl⟩, hx⟩

theorem Segment.Every.of_mem (h : Segment.Every M shape body) (he : .icu e ∈ body) : e.Every M shape :=
  e.every_iff.mpr fun x hx => (every_iff body).mp h x (mem_all he hx)

end Every

namespace Segment

def isIcu : Segment → Bool
  | .text _ => false
  | .icu _ => true

def Parted : List Segment → Prop
  | [] => True
  | .text _ :: rest => (∀ next ∈ rest.head?, next.isIcu = true) ∧ Parted rest
  | .icu _ :: rest => Parted rest

/-- Texts with `Q`, no two of them in a row, and at most `n` expressions. -/
structure Tidy (Q : List Char → Prop) (n : Nat) (body : List Segment) : Prop where
  texts : ∀ s, .text s ∈ body → Q s.toList
  parted : Parted body
  count_le : body.countP isIcu ≤ n

section Tidy

variable {Q : List Char → Prop} {n : Nat}

theorem tidy_text (h : Q s) : Tidy Q n [.text (String.ofList s)] := by
  refine ⟨fun t ht => ?_, ⟨fun _ hnext => by (cases hnext), trivial⟩, Nat.zero_le n⟩
  simp_all

theorem Tidy.cons_cons {rest : List Segment} (hs : Q s) (h : Tidy Q n rest) :
    Tidy Q (n + 1) (.text (String.ofList s) :: .icu e :: rest) := by
  have hcount : (Segment.text (String.ofList s) :: .icu e :: rest).countP isIcu = rest.countP isIcu + 1 := by
    rw [countP_cons_of_neg Bool.false_ne_true, countP_cons_of_pos rfl]
  refine ⟨fun t ht => ?_, ⟨fun next hnext => ?_, h.parted⟩, hcount ▸ Nat.succ_le_succ h.count_le⟩
  · rcases mem_cons.mp ht with heq | ht
    · simp_all
    · rcases mem_cons.mp ht with heq | ht
      · cases heq
      · exact h.texts t ht
  · cases hnext
    rfl

theorem Tidy.mono {n' : Nat} (h : Tidy Q n body) (hle : n ≤ n') : Tidy Q n' body :=
  ⟨h.texts, h.parted, Nat.le_trans h.count_le hle⟩

end Tidy

end Segment

namespace Message

open Text (Interleaved)

/-! ### Headers -/

theorem afterComma?_suffix (h : afterComma? s = some rest) : rest <:+ s := by
  unfold afterComma? at h
  split at h
  · next tail htail =>
    cases h
    refine (dropWhile_suffix _).trans ((suffix_cons ',' tail).trans ?_)
    rw [← htail]
    exact dropWhile_suffix _
  · cases h

theorem kindWord?_suffix {kind : IcuKind} (h : kindWord? s = some (kind, rest)) : rest <:+ s := by
  unfold kindWord? at h
  split at h
  · cases h
    exact suffix_append ['s', 'e', 'l', 'e', 'c', 't'] rest
  · cases h
    exact suffix_append ['p', 'l', 'u', 'r', 'a', 'l'] rest
  · cases h

theorem kindClause?_suffix {kind : IcuKind} (h : kindClause? s = some (kind, rest)) : rest <:+ s := by
  unfold kindClause? at h
  obtain ⟨s₁, hcomma, h⟩ := Option.bind_eq_some_iff.mp h
  obtain ⟨⟨kind', s₂⟩, hword, h⟩ := Option.bind_eq_some_iff.mp h
  dsimp only at h
  split at h
  · next tail htail =>
    cases h
    refine (suffix_cons ',' rest).trans (List.IsSuffix.trans ?_
      ((kindWord?_suffix hword).trans (afterComma?_suffix hcomma)))
    rw [← htail]
    exact dropWhile_suffix _
  · cases h

theorem Header.read?_spec {header : Header} (h : Header.read? block = some header) :
    header.rest <:+ block ∧ ∃ s n, s <:+ block ∧ binding? s = some (header.binding, n) := by
  unfold Header.read? at h
  obtain ⟨⟨binding, n⟩, hbinding, h⟩ := Option.bind_eq_some_iff.mp h
  obtain ⟨⟨kind, rest⟩, hclause, h⟩ := Option.bind_eq_some_iff.mp h
  cases h
  refine ⟨?_, _, n, dropWhile_suffix _, hbinding⟩
  exact (kindClause?_suffix hclause).trans ((drop_suffix n _).trans (dropWhile_suffix _))

/-! ### Blocks -/

def written (parts : List (List Char × List Char)) : List Char := parts.flatMap fun q => q.1 ++ braced q.2

theorem written_splitBraces (s : List Char) : written (splitBraces s).items ++ (splitBraces s).last = s :=
  flatten_splitBraces s

theorem infix_written {parts : List (List Char × List Char)} {q : List Char × List Char} (hq : q ∈ parts) :
    q.2 <:+: written parts := by
  have hblock : q.2 <:+: q.1 ++ braced q.2 := ⟨q.1 ++ ['\x7b'], ['\x7d'], by simp [braced]⟩
  refine hblock.trans ?_
  obtain ⟨front, back, rfl⟩ := append_of_mem hq
  exact ⟨written front, written back, by simp [written]⟩

theorem length_le_written (parts : List (List Char × List Char)) : parts.length ≤ (written parts).length := by
  induction parts with
  | nil => exact Nat.le_refl 0
  | cons q rest ih =>
    have hbraced : (braced q.2).length = q.2.length + 2 := by simp [braced]
    have hwritten : written (q :: rest) = q.1 ++ braced q.2 ++ written rest := flatMap_cons
    rw [hwritten, length_append, length_append, length_cons]
    omega

/-! ### Properties of texts and bindings -/

/-- What holds of a text holds of its parts, and the bindings in it have a property too. -/
structure Heritable (M : Int → Prop) (Q : List Char → Prop) : Prop where
  part : ∀ {s t : List Char}, s <:+: t → Q t → Q s
  main : ∀ {s : List Char} {o : Ordinal} {n : Nat} {i : Int}, Q s → binding? s = some (o, n) → o.value? = some i → M i

theorem heritable_chars (P : Char → Prop) : Heritable (0 ≤ ·) fun s => ∀ c ∈ s, P c where
  part h ht c hc := ht c (h.subset hc)
  main _ hbinding hvalue := (value?_nonneg hbinding hvalue).1

/-- The main bindings have the property `M`, and every body is tidy. -/
def Parses (M : Int → Prop) (Q : List Char → Prop) (n : Nat) (segments : List Segment) : Prop :=
  Segment.Tidy Q n segments ∧ Segment.Every M (Segment.Tidy Q n) segments

section Every

variable {M : Int → Prop} {Q : List Char → Prop} {n : Nat} {splitBody : List Char → Parsed (List Segment)}

def Admissible (Q : List Char → Prop) (n : Nat) (s : List Char) : Prop := Q s ∧ s.length ≤ n

theorem Admissible.part (hQ : Heritable M Q) {t : List Char} (h : s <:+: t) (ht : Admissible Q n t) :
    Admissible Q n s :=
  ⟨hQ.part h ht.1, Nat.le_trans h.length_le ht.2⟩

def ParsesAll (M : Int → Prop) (Q : List Char → Prop) (n : Nat) (splitBody : List Char → Parsed (List Segment)) :
    Prop :=
  ∀ s segments, Admissible Q n s → (splitBody s).result = .ok segments → Parses M Q n segments

theorem every_parseCases (hbody : ParsesAll M Q n splitBody) (kind : IcuKind) :
    ∀ (parts : List (List Char × List Char)) (cases : List Case), (∀ q ∈ parts, Admissible Q n q.2) →
      (parseCases splitBody kind parts).result = .ok cases → Case.Every M (Segment.Tidy Q n) cases
  | [], cases, _, h => by
    cases h
    trivial
  | (text, block) :: rest, cases, hparts, h => by
    unfold parseCases at h
    have hrest : ∀ q ∈ rest, Admissible Q n q.2 := fun q hq => hparts q (mem_cons_of_mem _ hq)
    dsimp only at h
    split at h
    · exact every_parseCases hbody kind rest cases hrest h
    · obtain ⟨body, hblock, h⟩ := Reported.result_bind_eq_ok.mp h
      obtain ⟨cases', hcases, h⟩ := Reported.result_bind_eq_ok.mp h
      cases h
      exact ⟨hbody block body (hparts _ mem_cons_self) hblock, every_parseCases hbody kind rest cases' hrest hcases⟩

theorem parseBlockWith_eq_ok (h : (parseBlockWith splitBody block).result = .ok e) :
    ∃ header main cases, Header.read? block = some header ∧ header.binding.value? = some main ∧
      (parseCases splitBody header.kind (splitBraces header.rest).items).result = .ok cases ∧
        e = .mk header.kind main cases := by
  unfold parseBlockWith at h
  cases hheader : Header.read? block with
  | none =>
    rw [hheader] at h
    cases h
  | some header =>
    rw [hheader] at h
    dsimp only at h
    cases hmain : header.binding.value? with
    | none =>
      rw [hmain] at h
      cases h
    | some main =>
      rw [hmain] at h
      obtain ⟨cases, hcases, h⟩ := Reported.result_bind_eq_ok.mp h
      refine ⟨header, main, cases, rfl, hmain, hcases, ?_⟩
      split at h
      · obtain ⟨_, -, h⟩ := Reported.result_bind_eq_ok.mp h
        cases h
        rfl
      · cases h
        rfl

theorem every_parseBlockWith (hQ : Heritable M Q) (hbody : ParsesAll M Q n splitBody)
    (hblock : Admissible Q n block) (h : (parseBlockWith splitBody block).result = .ok e) :
    e.Every M (Segment.Tidy Q n) := by
  obtain ⟨header, main, cases, hheader, hmain, hcases, rfl⟩ := parseBlockWith_eq_ok h
  obtain ⟨hsuffix, s, k, hs, hbinding⟩ := Header.read?_spec hheader
  refine ⟨hQ.main (hQ.part hs.isInfix hblock.1) hbinding hmain, ?_⟩
  refine every_parseCases hbody _ _ _ (fun q hq => hblock.part hQ ?_) hcases
  refine (infix_written hq).trans (List.IsInfix.trans ?_ hsuffix.isInfix)
  exact ⟨[], (splitBraces header.rest).last, written_splitBraces header.rest⟩

theorem every_segments (hQ : Heritable M Q) (hbody : ParsesAll M Q n splitBody) {last : List Char} :
    ∀ (parts : List (List Char × List Char)) (text : List Char) (found : List Segment),
      Q (text ++ (written parts ++ last)) → (∀ q ∈ parts, Admissible Q n q.2) →
        (segments splitBody last text parts).result = .ok found →
          Segment.Tidy Q parts.length found ∧ Segment.Every M (Segment.Tidy Q n) found
  | [], text, found, hall, _, h => by
    cases h
    exact ⟨Segment.tidy_text hall, trivial⟩
  | (front, block) :: rest, text, found, hall, hparts, h => by
    have hsplit : text ++ (written ((front, block) :: rest) ++ last) =
        text ++ front ++ braced block ++ (written rest ++ last) := by
      simp [written]
    rw [hsplit] at hall
    have hrest : ∀ q ∈ rest, Admissible Q n q.2 := fun q hq => hparts q (mem_cons_of_mem _ hq)
    unfold segments at h
    split at h
    · obtain ⟨e, hicu, h⟩ := Reported.result_bind_eq_ok.mp h
      obtain ⟨tail, htail, h⟩ := Reported.result_bind_eq_ok.mp h
      cases h
      obtain ⟨htidy, hevery⟩ := every_segments hQ hbody rest [] tail
        (hQ.part (suffix_append _ _).isInfix hall) hrest htail
      refine ⟨htidy.cons_cons (hQ.part ⟨[], braced block ++ (written rest ++ last), ?_⟩ hall),
        every_parseBlockWith hQ hbody (hparts _ mem_cons_self) hicu, hevery⟩
      simp
    · split at h
      · cases h
      · obtain ⟨htidy, hevery⟩ := every_segments hQ hbody rest _ found hall hrest h
        exact ⟨htidy.mono (Nat.le_succ _), hevery⟩

theorem every_splitLevels (hQ : Heritable M Q) (n : Nat) : ∀ levels : Nat, ParsesAll M Q n (splitLevels levels)
  | levels, [], found, _, h => by
    cases levels <;> cases h <;> exact ⟨⟨fun _ h => absurd h not_mem_nil, trivial, n.zero_le⟩, trivial⟩
  | 0, c :: s, found, hs, h => by
    cases h
    exact ⟨Segment.tidy_text hs.1, trivial⟩
  | levels + 1, c :: s, found, hs, h => by
    have hwritten := written_splitBraces (c :: s)
    have hparts : written (splitBraces (c :: s)).items <:+: c :: s := ⟨[], _, hwritten⟩
    obtain ⟨htidy, hevery⟩ := every_segments hQ (every_splitLevels hQ n levels) _ [] found
      (by rw [nil_append, hwritten]; exact hs.1) (fun q hq => hs.part hQ ((infix_written hq).trans hparts)) h
    exact ⟨htidy.mono (Nat.le_trans (length_le_written _) (Nat.le_trans hparts.length_le hs.2)), hevery⟩

/-- What holds of a message holds of its texts, which do not follow each other, and of its main bindings; it has no
more expressions than characters, at any depth. -/
theorem parses_split (hQ : Heritable M Q) {found : List Segment} (hs : Q s)
    (h : (split s).result = .ok found) : Parses M Q s.length found :=
  every_splitLevels hQ s.length s.length s found ⟨hs, Nat.le_refl _⟩ h

end Every

theorem every_split {P : Char → Prop} {found : List Segment} (hs : ∀ c ∈ s, P c)
    (h : (split s).result = .ok found) : Parses (0 ≤ ·) (fun s => ∀ c ∈ s, P c) s.length found :=
  parses_split (heritable_chars P) hs h

end Message

end MessageCompiler
