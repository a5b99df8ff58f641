/-
Expressions without elements.

The markup of a case that has no tags is read as its texts and the comments for its nested expressions. The
plan of the case then follows its segments, and what a view shows of the plan is what the segments mean.
-/
import Mathlib.Algebra.Group.Nat.Defs
import MessageCompiler.Compile.Standard
import MessageCompiler.Proofs.Denotation
import MessageCompiler.Proofs.PlainMarkup
import MessageCompiler.Proofs.Turn

namespace MessageCompiler

open List
open Markup (Content Node isPlain Tree)
open LiveView
open Message (mark plainOrdinal?)

/-! ### The markup of a case -/

def numberMark (n : Nat) : String := "�" ++ Text.showInt n ++ "�"

/-- The texts of a case that are not empty, and the comments for its expressions. -/
def caseContents : (count : Nat) → List Segment → List Content
  | _, [] => []
  | count, .text s :: rest => if s.isEmpty then caseContents count rest else .text s :: caseContents count rest
  | count, .icu _ :: rest => .comment (numberMark count) :: caseContents (count + 1) rest

/-- Markup without tags and references is read as its texts and comments. -/
def Config.ReadsPlain (cfg : Config) : Prop :=
  ∀ body : List Segment, Segment.Parted body → (∀ s, .text s ∈ body → ∀ c ∈ s.toList, isPlain c = true) →
    cfg.parseFragment (caseMarkup 0 body) = .ok ((caseContents 0 body).map Content.leaf)

theorem toList_numberMark (n : Nat) : (numberMark n).toList = mark :: (Nat.toDigits 10 n ++ [mark]) := by
  unfold numberMark
  rw [String.toList_append, String.toList_append, Text.toList_showInt]
  rfl

theorem toList_caseMarkup : ∀ (body : List Segment) (count : Nat),
    (caseMarkup count body).toList = (caseContents count body).flatMap Content.source
  | [], _ => rfl
  | .text s :: rest, count => by
    rw [caseMarkup, caseContents, String.toList_append, toList_caseMarkup rest]
    split
    · simp_all [String.isEmpty_iff.mp]
    · rfl
  | .icu e :: rest, count => by
    have hsource : (Content.comment (numberMark count)).source =
        "<!--�".toList ++ (Text.showInt count).toList ++ "�-->".toList := by
      show '<' :: '!' :: '-' :: '-' :: ((numberMark count).toList ++ ['-', '-', '>']) = _
      rw [toList_numberMark, Text.toList_showInt, cons_append, append_assoc]
      rfl
    simp_all [caseMarkup, caseContents, flatMap_cons, String.toList_append, toList_caseMarkup]

theorem plain_numberMark (n : Nat) : (Content.comment (numberMark n)).Plain := by
  intro c hc
  rw [toList_numberMark, mem_cons, mem_append, mem_singleton] at hc
  have hmark : isPlain mark = true ∧ mark ≠ '-' ∧ mark ≠ '>' := by decide
  rcases hc with rfl | hc | rfl
  · exact hmark
  · have hdigit := Text.isDigit_of_mem_toDigits hc
    refine ⟨Markup.isPlain_iff.mpr ⟨?_, ?_, ?_, ?_⟩, ?_, ?_⟩ <;>
      · rintro rfl
        exact absurd hdigit (by decide)
  · exact hmark

theorem plain_caseContents : ∀ (body : List Segment) (count : Nat),
    (∀ s, .text s ∈ body → ∀ c ∈ s.toList, isPlain c = true) → ∀ c ∈ caseContents count body, c.Plain
  | [], _, _, c, hc => by cases hc
  | .text s :: rest, count, h, c, hc => by
    have hrest := plain_caseContents rest count fun t ht => h t (mem_cons_of_mem _ ht)
    rw [caseContents] at hc
    split at hc
    · exact hrest c hc
    · next hempty =>
      rcases mem_cons.mp hc with rfl | hc
      · refine ⟨fun hnil => hempty ?_, h s mem_cons_self⟩
        rw [String.toList_eq_nil_iff.mp hnil]
        rfl
      · exact hrest c hc
  | .icu e :: rest, count, h, c, hc => by
    rcases mem_cons.mp hc with rfl | hc
    · exact plain_numberMark count
    · exact plain_caseContents rest (count + 1) (fun t ht => h t (mem_cons_of_mem _ ht)) c hc

theorem apart_caseContents : ∀ (body : List Segment) (count : Nat), Segment.Parted body →
    (caseContents count body).IsChain Content.Apart
  | [], _, _ => .nil
  | .text s :: rest, count, h => by
    have hrest := apart_caseContents rest count h.2
    rw [caseContents]
    split
    · exact hrest
    · refine hrest.cons fun c hc _ => ?_
      cases rest with
      | nil => cases hc
      | cons next rest =>
        cases next with
        | text t => cases h.1 _ rfl
        | icu e =>
          cases hc
          rfl
  | .icu e :: rest, count, h =>
    (apart_caseContents rest (count + 1) h).cons fun _ _ htext => by cases htext

theorem readsPlain_standard : Config.standard.ReadsPlain := by
  intro body hparted htexts
  have hmarkup : caseMarkup 0 body = String.ofList ((caseContents 0 body).flatMap Content.source) := by
    rw [← toList_caseMarkup, String.ofList_toList]
  show Except.ok (Markup.parseFragment (caseMarkup 0 body)) = _
  rw [hmarkup, Markup.parseFragment_plain (plain_caseContents body 0 htexts) (apart_caseContents body 0 hparted)]

/-! ### The plan of a case -/

/-- The plan for the segments of a case from the first free slot on, with the next free slot; nested
expressions are numbered from `count` on. -/
def planBody (cfg : Config) : (count : Nat) → List Segment → Nat → Plan × Nat
  | _, [], n => (.nil, n)
  | count, .text s :: rest, n =>
    if s.isEmpty then planBody cfg count rest n
    else
      let r := planBody cfg count rest (n + 1)
      (.text n s r.1, r.2)
  | count, .icu e :: rest, n =>
    let icu := planIcu cfg e (n + 1)
    let r := planBody cfg (count + 1) rest icu.2
    (.icu n ("nested ICU " ++ Text.showInt count) icu.1 r.1, r.2)

theorem plainOrdinal?_numberMark (n : Nat) : plainOrdinal? (numberMark n).toList = some (Nat.toDigits 10 n) := by
  have hstop : Text.isDigit mark = false := rfl
  rw [toList_numberMark, plainOrdinal?]
  simp [Text.takeWhile_toDigits n hstop, Text.dropWhile_toDigits n hstop, Nat.toDigits_ne_nil, Message.Ordinal.closes]

theorem commentTarget?_numberMark {α : Type} {nested : List α} {n : Nat} {a : α} (hn : n < 2 ^ 63)
    (ha : nested[n]? = some a) : commentTarget? nested (numberMark n) = some ((n : Int), a) := by
  have hread : Text.readInt? (Nat.toDigits 10 n) = some (n : Int) := by
    rw [Text.readInt?_of_digits Nat.toDigits_ne_nil fun c hc => Text.isDigit_of_mem_toDigits hc,
      Text.natOfDigits_toDigits, if_pos (by omega)]
  unfold commentTarget?
  rw [plainOrdinal?_numberMark]
  dsimp only
  rw [hread, Option.bind_some, Int.toNat_natCast, ha]
  rfl

theorem planNodes_caseContents (cfg : Config) {nested : List NestedPlan} :
    ∀ (body : List Segment) (count n : Nat), nested.drop count = nestedPlans cfg body →
      count + body.countP Segment.isIcu ≤ 2 ^ 63 →
        planNodes cfg nested ((caseContents count body).map Content.leaf) n = planBody cfg count body n
  | [], _, _, _, _ => by
    rw [caseContents, map_nil, planNodes, planBody]
  | .text s :: rest, count, n, hnested, hcount => by
    rw [nestedPlans] at hnested
    rw [countP_cons_of_neg Bool.false_ne_true] at hcount
    rw [caseContents, planBody]
    split
    · exact planNodes_caseContents cfg rest count n hnested hcount
    · simp_all [map_cons, Content.leaf, planNodes, planNodes_caseContents]
  | .icu e :: rest, count, n, hnested, hcount => by
    rw [nestedPlans] at hnested
    rw [countP_cons_of_pos rfl] at hcount
    have hplan : nested[count]? = some (planIcu cfg e) := by
      rw [← List.head?_drop, hnested]
      rfl
    have hrest : nested.drop (count + 1) = nestedPlans cfg rest := by
      rw [← tail_drop, hnested]
      rfl
    rw [caseContents, planBody, map_cons, Content.leaf, planNodes, commentTarget?_numberMark (by omega) hplan]
    dsimp only
    rw [planNodes_caseContents cfg rest (count + 1) _ hrest (by omega)]

abbrev PlainBody (n : Nat) : List Segment → Prop := Segment.Tidy (fun s => ∀ c ∈ s, isPlain c = true) n

theorem planCases_cons {cfg : Config} (hcfg : cfg.ReadsPlain) {m : Nat} (hm : m ≤ 2 ^ 63) {body : List Segment}
    (hbody : PlainBody m body) (label : String) (rest : List Case) (n : Nat) :
    planCases cfg (.mk label body :: rest) n =
      let content := planBody cfg 0 body n
      let r := planCases cfg rest content.2
      (.cons label content.1 r.1, r.2) := by
  have hnodes : cfg.nodesOf (caseMarkup 0 body) = (caseContents 0 body).map Content.leaf := by
    unfold Config.nodesOf
    rw [hcfg body hbody.parted hbody.texts]
  have hcount := hbody.count_le
  rw [planCases, hnodes, planNodes_caseContents cfg body 0 n (drop_zero ..) (by omega)]

/-! ### Steady instructions -/

theorem steady_text {slot : Nat} {value : String} {rest : Plan} (hslot : slot ∉ rest.slots)
    (h : steady rest.update = true) : steady (Plan.text slot value rest).update = true := by
  unfold Plan.update textUpdate
  split
  · have hnone : rest.update.filter (bindingUpdate value slot .text 0).samePlace = [] := by
      refine filter_eq_nil_iff.mpr fun op hop hsame => Plan.index_ne hslot hop ?_
      unfold UpdateOp.samePlace at hsame
      simp only [Bool.and_eq_true, beq_iff_eq] at hsame
      exact hsame.1.1
    rw [singleton_append, steady, hnone, h]
    rfl
  · exact h

section Steady

variable {cfg : Config} {m : Nat} {t : TemplateView}

mutual

theorem steadyAt_planIcu (hcfg : cfg.ReadsPlain) (hm : m ≤ 2 ^ 63) : ∀ (e : Icu) (n : Nat) (parent : Int)
    (anchor : Nat), e.Every (0 ≤ ·) (PlainBody m) → (planIcu cfg e n).1.slots.Nodup →
      (planIcu cfg e n).1.Registered t parent anchor →
        SteadyAt t anchor ∧ ∀ s ∈ (planIcu cfg e n).1.slots, t.type? s = some .icu → SteadyAt t s
  | .mk kind main cases, n, parent, anchor, he, hnodup, h => by
    rw [planIcu] at hnodup h ⊢
    obtain ⟨hicu, hcurrent, hcases⟩ := h
    obtain ⟨hsteady, hslots⟩ := steadyAt_planCases hcfg hm cases (n + 1) parent he.2 (nodup_cons.mp hnodup).2 hcases
    refine ⟨fun icu hfound => ?_, forall_mem_cons.mpr ⟨fun htype => ?_, hslots⟩⟩
    · cases hicu.symm.trans hfound
      exact hsteady
    · simp_all [TemplateView.type?_of_empty]

theorem steadyAt_planCases (hcfg : cfg.ReadsPlain) (hm : m ≤ 2 ^ 63) : ∀ (cases : List Case) (n : Nat)
    (parent : Int), Case.Every (0 ≤ ·) (PlainBody m) cases → (planCases cfg cases n).1.slots.Nodup →
      (planCases cfg cases n).1.Registered t parent →
        (∀ c ∈ (planCases cfg cases n).1.compiled parent, steady c.update = true) ∧
          ∀ s ∈ (planCases cfg cases n).1.slots, t.type? s = some .icu → SteadyAt t s
  | [], n, parent, _, _, _ => by
    rw [planCases]
    exact ⟨fun _ hc => absurd hc not_mem_nil, fun _ hs => absurd hs not_mem_nil⟩
  | .mk label body :: rest, n, parent, he, hnodup, h => by
    rw [planCases_cons hcfg hm he.1.1] at hnodup h ⊢
    obtain ⟨hleft, hright, -⟩ := nodup_append.mp hnodup
    obtain ⟨hsteady, hslots⟩ := steadyAt_planBody hcfg hm body 0 n parent he.1.2 hleft h.1
    obtain ⟨hsteady', hslots'⟩ := steadyAt_planCases hcfg hm rest _ parent he.2 hright h.2
    exact ⟨forall_mem_cons.mpr ⟨hsteady, hsteady'⟩, forall_mem_append.mpr ⟨hslots, hslots'⟩⟩

theorem steadyAt_planBody (hcfg : cfg.ReadsPlain) (hm : m ≤ 2 ^ 63) : ∀ (body : List Segment) (count n : Nat)
    (parent : Int), Segment.Every (0 ≤ ·) (PlainBody m) body → (planBody cfg count body n).1.slots.Nodup →
      (planBody cfg count body n).1.Registered t parent → steady (planBody cfg count body n).1.update = true ∧
          ∀ s ∈ (planBody cfg count body n).1.slots, t.type? s = some .icu → SteadyAt t s
  | [], count, n, parent, _, _, _ => ⟨rfl, fun _ hs => absurd hs not_mem_nil⟩
  | .text s :: rest, count, n, parent, he, hnodup, h => by
    rw [planBody] at hnodup h ⊢
    split at hnodup
    · next hempty =>
      rw [if_pos hempty] at h ⊢
      exact steadyAt_planBody hcfg hm rest count n parent he hnodup h
    · next hempty =>
      rw [if_neg hempty] at h ⊢
      obtain ⟨hnotin, hnodup⟩ := nodup_cons.mp hnodup
      obtain ⟨hsteady, hslots⟩ := steadyAt_planBody hcfg hm rest count (n + 1) parent he hnodup h.2
      refine ⟨steady_text hnotin hsteady, forall_mem_cons.mpr ⟨fun htype => ?_, hslots⟩⟩
      cases h.1.symm.trans htype
  | .icu e :: rest, count, n, parent, he, hnodup, h => by
    rw [planBody] at hnodup h ⊢
    obtain ⟨hleft, hright, -⟩ := nodup_append.mp (nodup_cons.mp hnodup).2
    obtain ⟨hanchor, hinner⟩ := steadyAt_planIcu hcfg hm e (n + 1) parent n he.1 hleft h.2.1
    obtain ⟨hsteady, hslots⟩ := steadyAt_planBody hcfg hm rest (count + 1) _ parent he.2 hright h.2.2
    exact ⟨hsteady, forall_mem_cons.mpr ⟨fun _ => hanchor, forall_mem_append.mpr ⟨hinner, hslots⟩⟩⟩

end

end Steady

/-! ### What is shown -/

/-- The texts of nodes and of what is below them, one after the other. -/
def Markup.innerText : List Node → String
  | [] => ""
  | .text s :: rest => s ++ innerText rest
  | .comment _ :: rest => innerText rest
  | .element _ _ _ children :: rest => innerText children ++ innerText rest

theorem Markup.innerText_append : ∀ nodes nodes' : List Node,
    innerText (nodes ++ nodes') = innerText nodes ++ innerText nodes'
  | [], nodes' => by rw [nil_append, innerText, String.empty_append]
  | .text s :: rest, nodes' => by
    rw [cons_append, innerText, innerText, innerText_append rest, String.append_assoc]
  | .comment _ :: rest, nodes' => by rw [cons_append, innerText, innerText, innerText_append rest]
  | .element _ _ _ children :: rest, nodes' => by
    rw [cons_append, innerText, innerText, innerText_append rest, String.append_assoc]

section Shown

variable {cfg : Config} {m root : Nat} {v : LiveView} {values : List String}

theorem labels_planCases (cfg : Config) (cases : List Case) : ∀ n : Nat,
    (planCases cfg cases n).1.labels = cases.map Case.label := by
  induction cases with
  | nil =>
    intro n
    rw [planCases]
    rfl
  | cons c rest ih =>
    intro n
    obtain ⟨label, body⟩ := c
    rw [planCases]
    exact congrArg (label :: ·) (ih _)

mutual

theorem innerText_planIcu (hcfg : cfg.ReadsPlain) (hm : m ≤ 2 ^ 63) (hvalues : values.length ≤ 2147483647) :
    ∀ (e : Icu) (n p : Nat) (tops : List Nat), e.Every (0 ≤ ·) (PlainBody m) →
      (planIcu cfg e n).1.Shows root v (some values) p tops →
        Markup.innerText (tops.map v.tree.node) = e.denote v.locale values
  | .mk kind main cases, n, p, tops, he, h => by
    have hchoice : chosenFor kind v.locale (planCases cfg cases (n + 1)).1.labels main (some values) =
        ((kind.candidates v.locale (values[main.toNat]?.getD "")).find? (cases.map Case.label).contains).bind
          (labelAt? (cases.map Case.label)) := by
      rw [labels_planCases, ← chooseCase_eq]
      rfl
    rw [planIcu] at h
    unfold IcuPlan.Shows at h
    rw [hchoice] at h
    rw [Icu.denote]
    cases hfound : (kind.candidates v.locale (values[main.toNat]?.getD "")).find? (cases.map Case.label).contains with
    | none =>
      rw [hfound] at h
      obtain ⟨-, rfl, -⟩ := h
      rw [map_nil, Markup.innerText]
    | some label =>
      rw [hfound, Option.bind_some] at h
      cases hk : labelAt? (cases.map Case.label) label with
      | none =>
        grind [labelAt?_eq_none.mp]
      | some k =>
        rw [hk] at h
        obtain ⟨fresh, -, -, hshows⟩ := h
        exact innerText_planCases hcfg hm hvalues cases (n + 1) p k label tops he.2 hk hshows

theorem innerText_planCases (hcfg : cfg.ReadsPlain) (hm : m ≤ 2 ^ 63) (hvalues : values.length ≤ 2147483647) :
    ∀ (cases : List Case) (n p k : Nat) (label : String) (tops : List Nat),
      Case.Every (0 ≤ ·) (PlainBody m) cases → labelAt? (cases.map Case.label) label = some k →
        (planCases cfg cases n).1.Shows root v (some values) (some values) p k tops →
          Markup.innerText (tops.map v.tree.node) = Case.denote v.locale values label cases
  | [], _, _, _, _, _, _, hk, _ => by cases hk
  | .mk l body :: rest, n, p, k, label, tops, he, hk, h => by
    rw [planCases_cons hcfg hm he.1.1] at h
    rw [map_cons, Case.label, labelAt?, List.findIdx?_cons] at hk
    rw [Case.denote]
    by_cases hl : l = label
    · rw [if_pos (beq_iff_eq.mpr hl)] at hk
      cases hk
      rw [if_pos hl]
      exact innerText_planBody hcfg hm hvalues body 0 n p tops he.1.2 h.1
    · rw [if_neg fun heq => hl (beq_iff_eq.mp heq)] at hk
      obtain ⟨k', hk', rfl⟩ := Option.map_eq_some_iff.mp hk
      rw [if_neg hl]
      exact innerText_planCases hcfg hm hvalues rest _ p k' label tops he.2 hk' h.2

theorem innerText_planBody (hcfg : cfg.ReadsPlain) (hm : m ≤ 2 ^ 63) (hvalues : values.length ≤ 2147483647) :
    ∀ (body : List Segment) (count n p : Nat) (tops : List Nat), Segment.Every (0 ≤ ·) (PlainBody m) body →
      (planBody cfg count body n).1.Shows root v (some values) (some values) p tops →
        Markup.innerText (tops.map v.tree.node) = Segment.denote v.locale values body
  | [], _, _, _, tops, _, h => by
    rw [planBody] at h
    cases h
    rw [map_nil, Markup.innerText, Segment.denote]
  | .text s :: rest, count, n, p, tops, he, h => by
    rw [planBody] at h
    rw [Segment.denote]
    split at h
    · next hempty =>
      rw [String.isEmpty_iff.mp hempty, innerText_planBody hcfg hm hvalues rest count n p tops he h]
      exact String.empty_append.symm
    · obtain ⟨id, tops', rfl, -, hcell, hrest⟩ := h
      have hcontent := Tree.content?_of_cell hcell
      rw [textContent_eq hvalues] at hcontent
      rw [map_cons, Tree.node_of_content? hcontent (by rintro _ _ _ ⟨⟩), Content.leaf,
        Markup.innerText, innerText_planBody hcfg hm hvalues rest count (n + 1) p tops' he hrest]
  | .icu e :: rest, count, n, p, tops, he, h => by
    rw [planBody] at h
    obtain ⟨front, id, tops', rfl, -, hcell, hicu, hrest⟩ := h
    have hcontent := Tree.content?_of_cell hcell
    rw [map_append, map_cons, Tree.node_of_content? hcontent (by rintro _ _ _ ⟨⟩), Content.leaf,
      Markup.innerText_append, Markup.innerText, innerText_planIcu hcfg hm hvalues e (n + 1) p front he.1 hicu,
      innerText_planBody hcfg hm hvalues rest (count + 1) _ p tops' he.2 hrest, Segment.denote]

end

end Shown

end MessageCompiler
