/-
What reading a message comes to.

The depth down to which blocks are looked into never matters: a body is shorter than the text that it stands in, so
reading has an equation of its own. Reading fails at a block within reach that is malformed and at nothing else, and
what it returns has the shape that is relied on everywhere else.

* **`split_of_ne`** — a text is read by way of the bodies in it.
-/
import Mathlib.Data.List.Forall2
import MessageCompiler.Proofs.Parsed

namespace MessageCompiler

open List

theorem Reported.result_bind_eq_error {ε α β : Type} {x : Reported ε α} {k : α → Reported ε β} {e : ε}
    (h : (x >>= k).result = .error e) : x.result = .error e ∨ ∃ a, x.result = .ok a ∧ (k a).result = .error e := by
  rw [Reported.result_bind] at h
  cases hx : x.result with
  | error e' =>
    rw [hx] at h
    cases h
    exact .inl rfl
  | ok a =>
    rw [hx] at h
    exact .inr ⟨a, rfl, h⟩

namespace Message

variable {s block body : List Char} {f g : List Char → Parsed (List Segment)}

/-! ### Reading without a depth -/

variable {q : List Char × List Char} {header : Header} {parts : List (List Char × List Char)}
  {last : List Char} {e : IcuError} {found : List Segment}

theorem length_lt_of_mem_splitBraces (h : q ∈ (splitBraces s).items) : q.2.length < s.length := by
  obtain ⟨front, back, hparts⟩ := append_of_mem h
  have hlength := congrArg List.length (written_splitBraces s)
  rw [hparts] at hlength
  simp [written, braced] at hlength
  omega

theorem length_lt_of_header (h : Header.read? block = some header) (hq : q ∈ (splitBraces header.rest).items) :
    q.2.length < block.length :=
  Nat.lt_of_lt_of_le (length_lt_of_mem_splitBraces hq) (Header.read?_spec h).1.length_le

theorem parseCases_congr {kind : IcuKind} (h : ∀ q ∈ parts, f q.2 = g q.2) :
    parseCases f kind parts = parseCases g kind parts := by
  induction parts with
  | nil => rfl
  | cons q rest ih =>
    simp_all [parseCases]

theorem parseBlockWith_congr (h : ∀ body, body.length < block.length → f body = g body) :
    parseBlockWith f block = parseBlockWith g block := by
  unfold parseBlockWith
  cases hheader : Header.read? block with
  | none => rfl
  | some header =>
    dsimp only
    rw [parseCases_congr fun q hq => h q.2 (length_lt_of_header hheader hq)]

theorem segments_congr (h : ∀ q ∈ parts, parseBlockWith f q.2 = parseBlockWith g q.2) :
    ∀ text, segments f last text parts = segments g last text parts := by
  induction parts with
  | nil => exact fun _ => rfl
  | cons q rest ih =>
    simp_all [segments]

theorem splitLevels_congr : ∀ {levels levels' : Nat} {s : List Char}, s.length ≤ levels → s.length ≤ levels' →
    splitLevels levels s = splitLevels levels' s := by
  intro levels
  induction levels with
  | zero =>
    intro levels' s hs _
    rw [length_eq_zero_iff.mp (Nat.le_zero.mp hs)]
    cases levels' <;> rfl
  | succ levels ih =>
    intro levels' s hs hs'
    cases s with
    | nil => cases levels' <;> rfl
    | cons c s =>
      cases levels' with
      | zero => cases hs'
      | succ levels' =>
        refine segments_congr (fun q hq => parseBlockWith_congr fun body hbody => ?_) []
        have hlt := Nat.lt_trans hbody (length_lt_of_mem_splitBraces hq)
        grind

theorem split_of_ne (hs : s ≠ []) : split s = segments split (splitBraces s).last [] (splitBraces s).items := by
  cases s with
  | nil => exact absurd rfl hs
  | cons c s =>
    show splitLevels (s.length + 1) (c :: s) = _
    unfold splitLevels
    refine segments_congr (fun q hq => parseBlockWith_congr fun body hbody => splitLevels_congr ?_ (Nat.le_refl _)) []
    exact Nat.le_of_lt_succ (Nat.lt_trans hbody (length_lt_of_mem_splitBraces hq))

theorem parseBlock_eq (block : List Char) : parseBlock block = parseBlockWith split block :=
  parseBlockWith_congr fun _ hbody => splitLevels_congr (Nat.le_of_lt hbody) (Nat.le_refl _)

/-! ### Failures -/

def HasBody (block body : List Char) : Prop :=
  ∃ header main text, Header.read? block = some header ∧ header.binding.value? = some main ∧
    (text, body) ∈ (splitBraces header.rest).items ∧ label header.kind text ≠ []

theorem HasBody.length_lt (h : HasBody block body) : body.length < block.length := by
  obtain ⟨header, main, text, hheader, -, hmem, -⟩ := h
  exact length_lt_of_header hheader hmem

/-- The blocks of a text that are looked into. -/
inductive Within : List Char → List Char → Prop
  | top {s : List Char} {q : List Char × List Char} (h : q ∈ (splitBraces s).items) : Within s q.2
  | inner {s outer body block : List Char} (h : Within s outer) (hbody : HasBody outer body) (hblock : Within body block) :
    Within s block

/-- The main binding of the block is too large, or there is none where one belongs. -/
def Malformed (block : List Char) : Prop :=
  (∃ header, Header.read? block = some header ∧ header.binding.value? = none) ∨
    (Header.read? block = none ∧ looksLikeIcu block = true)

def Refuses (block : List Char) (e : IcuError) : Prop :=
  (∃ header, Header.read? block = some header ∧ header.binding.value? = none ∧
    e = .mainBindingTooLarge (String.ofList (bindingText header.binding))) ∨
    (Header.read? block = none ∧ looksLikeIcu block = true ∧ e = .invalidBinding (String.ofList block))

theorem Refuses.malformed (h : Refuses block e) : Malformed block :=
  h.imp (fun ⟨header, hread, hvalue, _⟩ => ⟨header, hread, hvalue⟩) fun h => ⟨h.1, h.2.1⟩

theorem parseCases_eq_error {kind : IcuKind} {e : IcuError} : ∀ {parts : List (List Char × List Char)},
    (parseCases f kind parts).result = .error e → ∃ q ∈ parts, label kind q.1 ≠ [] ∧ (f q.2).result = .error e
  | [], h => by cases h
  | q :: rest, h => by
    have hrest : (parseCases f kind rest).result = .error e →
        ∃ q' ∈ q :: rest, label kind q'.1 ≠ [] ∧ (f q'.2).result = .error e := by
      intro h
      obtain ⟨q', hq', h⟩ := parseCases_eq_error h
      exact ⟨q', mem_cons_of_mem _ hq', h⟩
    unfold parseCases at h
    dsimp only at h
    split at h
    · exact hrest h
    · next hlabel =>
      rcases Reported.result_bind_eq_error h with h | ⟨body, -, h⟩
      · exact ⟨q, mem_cons_self, by simpa using hlabel, h⟩
      · rcases Reported.result_bind_eq_error h with h | ⟨cases, -, h⟩
        · exact hrest h
        · cases h

theorem parseBlockWith_eq_error (hheader : Header.read? block = some header)
    (h : (parseBlockWith f block).result = .error e) : Refuses block e ∨ ∃ body, HasBody block body ∧ (f body).result = .error e := by
  unfold parseBlockWith at h
  rw [hheader] at h
  dsimp only at h
  cases hmain : header.binding.value? with
  | none =>
    rw [hmain] at h
    cases h
    exact .inl (.inl ⟨header, hheader, hmain, rfl⟩)
  | some main =>
    rw [hmain] at h
    rcases Reported.result_bind_eq_error h with h | ⟨cases, -, h⟩
    · obtain ⟨q, hq, hlabel, h⟩ := parseCases_eq_error h
      exact .inr ⟨q.2, ⟨header, main, q.1, hheader, hmain, hq, hlabel⟩, h⟩
    · split at h
      · rcases Reported.result_bind_eq_error h with h | ⟨_, -, h⟩ <;> cases h
      · cases h

theorem segments_eq_error {last : List Char} {e : IcuError} : ∀ {parts : List (List Char × List Char)} {text : List Char},
    (segments f last text parts).result = .error e →
      ∃ q ∈ parts, Refuses q.2 e ∨ ∃ body, HasBody q.2 body ∧ (f body).result = .error e
  | [], _, h => by cases h
  | q :: rest, text, h => by
    have hrest : ∀ {text}, (segments f last text rest).result = .error e →
        ∃ q' ∈ q :: rest, Refuses q'.2 e ∨ ∃ body, HasBody q'.2 body ∧ (f body).result = .error e := by
      intro text h
      obtain ⟨q', hq', h⟩ := segments_eq_error h
      exact ⟨q', mem_cons_of_mem _ hq', h⟩
    unfold segments at h
    split at h
    · next hsome =>
      obtain ⟨header, hheader⟩ := Option.isSome_iff_exists.mp hsome
      rcases Reported.result_bind_eq_error h with h | ⟨icu, -, h⟩
      · exact ⟨q, mem_cons_self, parseBlockWith_eq_error hheader h⟩
      · rcases Reported.result_bind_eq_error h with h | ⟨tail, -, h⟩
        · exact hrest h
        · cases h
    · next hnone =>
      split at h
      · next hlooks =>
        cases h
        exact ⟨q, mem_cons_self, .inl (.inr ⟨by simpa using hnone, hlooks, rfl⟩)⟩
      · exact hrest h

theorem exists_refuses_of_error : ∀ (n : Nat) {s : List Char}, s.length ≤ n →
    (split s).result = .error e → ∃ block, Within s block ∧ Refuses block e := by
  intro n
  induction n with
  | zero =>
    intro s hs h
    rw [length_eq_zero_iff.mp (Nat.le_zero.mp hs)] at h
    cases h
  | succ n ih =>
    intro s hs h
    cases hcons : s with
    | nil =>
      rw [hcons] at h
      cases h
    | cons c rest =>
      rw [← hcons]
      rw [split_of_ne (hcons ▸ cons_ne_nil c rest)] at h
      obtain ⟨q, hq, hrefuses | ⟨body, hbody, h⟩⟩ := segments_eq_error h
      · exact ⟨q.2, .top hq, hrefuses⟩
      · have hlt := Nat.lt_trans hbody.length_lt (length_lt_of_mem_splitBraces hq)
        obtain ⟨block, hblock, hrefuses⟩ := ih (Nat.le_of_lt_succ (Nat.lt_of_lt_of_le hlt hs)) h
        exact ⟨block, .inner (.top hq) hbody hblock, hrefuses⟩

/-! ### Successes -/

/-- Segments that blocks are turned into, given the text since the last expression. -/
inductive Reads (f : List Char → Parsed (List Segment)) (last : List Char) :
    List Char → List (List Char × List Char) → List Segment → Prop
  | done {text : List Char} : Reads f last text [] [.text (String.ofList (text ++ last))]
  | icu {text : List Char} {q : List Char × List Char} {rest : List (List Char × List Char)} {e : Icu} {tail : List Segment}
    (h : (parseBlockWith f q.2).result = .ok e) (htail : Reads f last [] rest tail) :
    Reads f last text (q :: rest) (.text (String.ofList (text ++ q.1)) :: .icu e :: tail)
  | plain {text : List Char} {q : List Char × List Char} {rest : List (List Char × List Char)} {found : List Segment}
    (hnone : Header.read? q.2 = none) (hlooks : looksLikeIcu q.2 = false)
    (h : Reads f last (text ++ q.1 ++ braced q.2) rest found) : Reads f last text (q :: rest) found

theorem reads_segments {last : List Char} : ∀ {parts : List (List Char × List Char)} {text : List Char}
    {found : List Segment}, (segments f last text parts).result = .ok found → Reads f last text parts found
  | [], _, _, h => by
    cases h
    exact .done
  | q :: rest, text, found, h => by
    unfold segments at h
    split at h
    · obtain ⟨e, hicu, h⟩ := Reported.result_bind_eq_ok.mp h
      obtain ⟨tail, htail, h⟩ := Reported.result_bind_eq_ok.mp h
      cases h
      exact .icu hicu (reads_segments htail)
    · next hnone =>
      split at h
      · cases h
      · next hlooks => exact .plain (by simpa using hnone) (by simpa using hlooks) (reads_segments h)

theorem reads_split (hs : s ≠ []) (h : (split s).result = .ok found) :
    Reads split (splitBraces s).last [] (splitBraces s).items found := by
  rw [split_of_ne hs] at h
  exact reads_segments h

theorem parseCases_eq_ok {kind : IcuKind} : ∀ {parts : List (List Char × List Char)} {cases : List Case},
    (parseCases f kind parts).result = .ok cases →
      (∀ q ∈ parts, label kind q.1 ≠ [] → ∃ found, (f q.2).result = .ok found) ∧
        ∀ case ∈ cases, case.label ≠ "" ∧ ∃ q ∈ parts, (f q.2).result = .ok case.body
  | [], cases, h => by
    cases h
    exact ⟨fun _ h => (by cases h), fun _ h => (by cases h)⟩
  | q :: rest, cases, h => by
    unfold parseCases at h
    dsimp only at h
    split at h
    · next hlabel =>
      obtain ⟨hread, hcases⟩ := parseCases_eq_ok h
      refine ⟨forall_mem_cons.mpr ⟨fun hne => absurd (isEmpty_iff.mp hlabel) hne, hread⟩, fun case hcase => ?_⟩
      obtain ⟨hne, q', hq', hbody⟩ := hcases case hcase
      exact ⟨hne, q', mem_cons_of_mem _ hq', hbody⟩
    · next hlabel =>
      obtain ⟨body, hbody, h⟩ := Reported.result_bind_eq_ok.mp h
      obtain ⟨cases', hrest, h⟩ := Reported.result_bind_eq_ok.mp h
      cases h
      obtain ⟨hread, hcases⟩ := parseCases_eq_ok hrest
      refine ⟨forall_mem_cons.mpr ⟨fun _ => ⟨body, hbody⟩, hread⟩, forall_mem_cons.mpr ⟨⟨?_, q, mem_cons_self, hbody⟩,
        fun case hcase => ?_⟩⟩
      · intro hempty
        refine hlabel (isEmpty_iff.mpr ?_)
        rw [← String.toList_ofList (l := label kind q.1)]
        exact congrArg String.toList hempty
      · obtain ⟨hne, q', hq', hbody'⟩ := hcases case hcase
        exact ⟨hne, q', mem_cons_of_mem _ hq', hbody'⟩

theorem Reads.sound {text : List Char} (h : Reads f last text parts found) :
    ∀ q ∈ parts, ¬Malformed q.2 ∧ ∀ body, HasBody q.2 body → ∃ found, (f body).result = .ok found := by
  induction h with
  | done => exact fun _ h => by cases h
  | @icu text q rest e tail hicu htail ih =>
    refine forall_mem_cons.mpr ⟨?_, ih⟩
    obtain ⟨header, main, cases, hheader, hmain, hcases, -⟩ := parseBlockWith_eq_ok hicu
    refine ⟨?_, ?_⟩
    · rintro (⟨header', hheader', hnone⟩ | ⟨hnone, -⟩)
      · grind
      · cases hheader.symm.trans hnone
    · rintro body ⟨header', main', label, hheader', -, hmem, hlabel⟩
      grind [parseCases_eq_ok]
  | @plain text q rest found hnone hlooks hrest ih =>
    refine forall_mem_cons.mpr ⟨⟨?_, ?_⟩, ih⟩
    · rintro (⟨header, hheader, -⟩ | ⟨-, hlike⟩)
      · cases hheader.symm.trans hnone
      · cases hlike.symm.trans hlooks
    · rintro body ⟨header, -, -, hheader, -⟩
      cases hheader.symm.trans hnone

theorem Within.sound (h : Within s block) : ∀ {found : List Segment}, (split s).result = .ok found →
    ¬Malformed block ∧ ∀ body, HasBody block body → ∃ found, (split body).result = .ok found := by
  induction h with
  | @top s q hq =>
    intro found hok
    have hs : s ≠ [] := by
      rintro rfl
      cases hq
    exact (reads_split hs hok).sound q hq
  | inner _ hbody _ ihouter ihblock =>
    grind

end Message

/-- Texts at even and expressions at odd positions, with a text at either end. -/
def Segment.Alternate (found : List Segment) : Prop :=
  found.length % 2 = 1 ∧ ∀ i segment, found[i]? = some segment → segment.isIcu = decide (i % 2 = 1)

theorem Segment.alternate_singleton (s : String) : Alternate [.text s] := by
  refine ⟨rfl, fun i segment h => ?_⟩
  cases i with
  | zero =>
    cases h
    rfl
  | succ i => cases h

theorem Segment.Alternate.cons_cons {tail : List Segment} (h : Alternate tail) (s : String) (e : Icu) :
    Alternate (.text s :: .icu e :: tail) := by
  refine ⟨by simpa [Nat.add_assoc] using h.1, fun i segment hi => ?_⟩
  cases i with
  | zero =>
    cases hi
    rfl
  | succ i =>
    cases i with
    | zero =>
      cases hi
      rfl
    | succ i => simpa [Nat.add_assoc] using h.2 i segment hi

/-- What is relied on in an expression: cases have labels, and their bodies are empty or alternate. -/
structure Icu.Regular (e : Icu) : Prop where
  main_nonneg : 0 ≤ e.main
  label_ne : ∀ case ∈ e.cases, case.label ≠ ""
  body : ∀ case ∈ e.cases, case.body = [] ∨ Segment.Alternate case.body

namespace Message

/-- The text of segments, with blocks in their order for the expressions. -/
def restored : List (List Char) → List Segment → List Char
  | blocks, .text s :: rest => s.toList ++ restored blocks rest
  | block :: blocks, .icu _ :: rest => braced block ++ restored blocks rest
  | _, _ => []

variable {found : List Segment} {last text : List Char} {parts : List (List Char × List Char)}

theorem Reads.alternate (h : Reads f last text parts found) : Segment.Alternate found := by
  induction h with
  | done => exact Segment.alternate_singleton _
  | icu _ _ ih => exact ih.cons_cons _ _
  | plain _ _ _ ih => exact ih

theorem Reads.exists_blocks (h : Reads f last text parts found) :
    ∃ blocks, List.Forall₂ (fun block e => (parseBlockWith f block).result = .ok e) blocks
        (found.filterMap Segment.expression?) ∧
      blocks.Sublist (parts.map Prod.snd) ∧ restored blocks found = text ++ (written parts ++ last) := by
  induction h with
  | done => exact ⟨[], .nil, .slnil, by simp [restored, written]⟩
  | @icu text q rest e tail hicu _ ih =>
    obtain ⟨blocks, hblocks, hsub, hrestored⟩ := ih
    refine ⟨q.2 :: blocks, .cons hicu hblocks, hsub.cons_cons q.2, ?_⟩
    simp [restored, hrestored, written]
  | @plain text q rest found _ _ _ ih =>
    grind [written]

theorem eq_nil_or_alternate (h : (split s).result = .ok found) : found = [] ∨ Segment.Alternate found := by
  cases hcons : s with
  | nil =>
    rw [hcons] at h
    cases h
    exact .inl rfl
  | cons c rest => exact .inr (reads_split (hcons ▸ cons_ne_nil c rest) h).alternate

theorem Reads.expression (h : Reads f last text parts found) :
    ∀ e ∈ found.filterMap Segment.expression?, ∃ q ∈ parts, (parseBlockWith f q.2).result = .ok e := by
  induction h with
  | done => exact fun e he => by cases he
  | icu hicu _ ih =>
    refine forall_mem_cons.mpr ⟨⟨_, mem_cons_self, hicu⟩, fun e he => ?_⟩
    obtain ⟨q, hq, h⟩ := ih e he
    exact ⟨q, mem_cons_of_mem _ hq, h⟩
  | plain _ _ _ ih =>
    intro e he
    obtain ⟨q, hq, h⟩ := ih e he
    exact ⟨q, mem_cons_of_mem _ hq, h⟩

theorem regular_parseBlockWith {e : Icu} (h : (parseBlockWith split block).result = .ok e)
    (ih : ∀ {s : List Char} {found : List Segment}, s.length < block.length → (split s).result = .ok found →
      ∀ e ∈ Segment.all found, e.Regular) : ∀ e' ∈ e.all, e'.Regular := by
  obtain ⟨header, main, cases, hheader, hmain, hcases, rfl⟩ := parseBlockWith_eq_ok h
  obtain ⟨-, s, k, -, hbinding⟩ := Header.read?_spec hheader
  have hbody := (parseCases_eq_ok hcases).2
  intro e' he'
  rw [Icu.all_eq] at he'
  rcases mem_cons.mp he' with rfl | he'
  · refine ⟨(value?_nonneg hbinding hmain).1, fun case hcase => (hbody case hcase).1, fun case hcase => ?_⟩
    obtain ⟨-, q, -, hq⟩ := hbody case hcase
    exact eq_nil_or_alternate hq
  · obtain ⟨case, hcase, he'⟩ := mem_flatMap.mp he'
    obtain ⟨-, q, hmem, hq⟩ := hbody case hcase
    exact ih (length_lt_of_header hheader hmem) hq e' (Segment.all_eq case.body ▸ he')

theorem regular_all : ∀ (n : Nat) {s : List Char} {found : List Segment}, s.length ≤ n → (split s).result = .ok found →
    ∀ e ∈ Segment.all found, e.Regular := by
  intro n
  induction n with
  | zero =>
    intro s found hs h
    rw [length_eq_zero_iff.mp (Nat.le_zero.mp hs)] at h
    cases h
    exact fun e he => by cases he
  | succ n ih =>
    intro s found hs h e he
    have hne : s ≠ [] := by
      rintro rfl
      cases h
      cases he
    rw [Segment.all_eq] at he
    obtain ⟨outer, houter, he⟩ := mem_flatMap.mp he
    obtain ⟨q, hq, hblock⟩ := (reads_split hne h).expression outer houter
    refine regular_parseBlockWith hblock (fun hlt => ih ?_) e he
    exact Nat.le_of_lt_succ (Nat.lt_of_lt_of_le (Nat.lt_trans hlt (length_lt_of_mem_splitBraces hq)) hs)

/-- **Parsed messages are regular.** Only the empty text has no segments; others have texts and expressions in turn, at
every depth; and with the blocks that the expressions were read from, nothing of the text is lost. -/
theorem regular_split {found : List Segment} (h : (split s).result = .ok found) :
    (found = [] ↔ s = []) ∧ (s ≠ [] → Segment.Alternate found) ∧ (∀ e ∈ Segment.all found, e.Regular) ∧
      ∃ blocks, List.Forall₂ (fun block e => (parseBlock block).result = .ok e) blocks
          (found.filterMap Segment.expression?) ∧
        blocks.Sublist ((splitBraces s).items.map Prod.snd) ∧ restored blocks found = s := by
  by_cases hs : s = []
  · subst hs
    cases h
    exact ⟨⟨fun _ => rfl, fun _ => rfl⟩, fun hne => absurd rfl hne, fun e he => (by cases he), [], .nil, List.nil_sublist _, rfl⟩
  · have hreads := reads_split hs h
    have halternate := hreads.alternate
    refine ⟨⟨fun hnil => ?_, fun hnil => absurd hnil hs⟩, fun _ => halternate, regular_all s.length (Nat.le_refl _) h, ?_⟩
    · rw [hnil] at halternate
      cases halternate.1
    · obtain ⟨blocks, hblocks, hsub, hrestored⟩ := hreads.exists_blocks
      refine ⟨blocks, hblocks.imp fun block e he => ?_, hsub, ?_⟩
      · rwa [parseBlock_eq]
      · rwa [List.nil_append, written_splitBraces] at hrestored

/-- Blocks that are text, a body without a label and a brace that closes nothing. -/
theorem regular_split_braces :
    let s := "\x7ba\x7d\x7b\uFFFD0\uFFFD, plural, =1 \x7bx\x7by\x7d\x7d \x7bz\x7d other \x7b\x7d\x7d\x7d".toList
    ∃ found, (split s).result = .ok found ∧ found.length = 3 ∧ Segment.Alternate found ∧ ∃ blocks, restored blocks found = s := by
  intro s
  have hlength : (split s).result.toOption.map List.length = some 3 := by decide +kernel
  cases hresult : (split s).result with
  | error e =>
    rw [hresult] at hlength
    cases hlength
  | ok found =>
    rw [hresult] at hlength
    obtain ⟨-, halternate, -, blocks, -, -, hrestored⟩ := regular_split hresult
    exact ⟨found, rfl, Option.some.inj hlength, halternate (List.cons_ne_nil _ _), blocks, hrestored⟩

end Message

end MessageCompiler
