/-
Nested expressions are compiled once.

A nested expression is found again by the number in its comment, after the markup of the case was read. A comment that
the case brings along itself may have the number as well.
-/
import MessageCompiler.Proofs.Sources

namespace MessageCompiler

open List
open Markup (commentsIn commentsRead)

/-! ### Comments and expressions -/

theorem isDigit_of_plainOrdinal? {digits : List Char} : ∀ {s : List Char}, Message.plainOrdinal? s = some digits →
    ∀ c ∈ digits, Text.isDigit c = true
  | [], h => by cases h
  | c :: s, h => by
    rw [Message.plainOrdinal?] at h
    split at h
    · cases h
      exact fun c hc => all_eq_true.mp all_takeWhile c hc
    · exact isDigit_of_plainOrdinal? h

theorem getElem?_of_commentTarget? {es : List Icu} {data : String} {target : Int × Icu}
    (h : commentTarget? es data = some target) : ∃ k : Nat, target.1 = k ∧ es[k]? = some target.2 := by
  unfold commentTarget? at h
  split at h
  · cases h
  · next digits hdigits =>
    obtain ⟨n, hn, h⟩ := Option.bind_eq_some_iff.mp h
    grind [Option.map_eq_some_iff.mp, Text.natCast_nonneg_of_readInt?, isDigit_of_plainOrdinal?, Int.toNat_of_nonneg]

theorem subperm_zipIdx {es : List Icu} {targets : List (Int × Icu)} (hnodup : (targets.map (·.1)).Nodup)
    (h : ∀ x ∈ targets, ∃ k : Nat, x.1 = k ∧ es[k]? = some x.2) :
    targets.Subperm (es.zipIdx.map fun x => ((x.2 : Int), x.1)) := by
  refine subperm_of_subset (.of_map _ hnodup) fun x hx => ?_
  obtain ⟨k, hk, he⟩ := h x hx
  exact mem_map.mpr ⟨(x.2, k), mem_zipIdx_iff_getElem?.mpr he, Prod.ext hk.symm rfl⟩

/-- What the comments that are read from the markup of the case stand for. -/
def Case.targets (case : Case) : List (Int × Icu) :=
  (commentsRead (caseMarkup 0 case.body)).filterMap (commentTarget? case.inner)

def Case.discreet (case : Case) : Bool := decide (case.targets.map (·.1)).Nodup

/-! ### Messages -/

/-- The compiled expression has the cases of its source. In each of them there is one anchor at most for each
expression in the case. -/
def Icu.Sparing (e : Icu) (icu : CompiledIcu) : Prop :=
  icu.kind = e.kind ∧ List.Forall₂ (fun (case : Case) (code : CompiledCase) =>
    code.label = case.label ∧ (code.create.filterMap IcuCreateOp.label?).Subperm
      ((List.range case.inner.length).map fun number : Nat => nestedLabel number)) e.cases icu.cases

section Messages

variable {cfg : Config} (hcfg : ∀ markup, cfg.parseFragment markup = .ok (Markup.parseFragment markup))
include hcfg

theorem Case.subperm_inner {case : Case} (hd : case.discreet = true) : (case.nested cfg).Subperm case.inner ∧
    ∀ c parent, case.Planned cfg c → ((c.2.create parent).filterMap IcuCreateOp.label?).Subperm
      ((List.range case.inner.length).map fun number : Nat => nestedLabel number) := by
  have hnodes : cfg.nodesOf (caseMarkup 0 case.body) = Markup.parseFragment (caseMarkup 0 case.body) := by
    unfold Config.nodesOf
    rw [hcfg]
  obtain ⟨targets, hsub, hanchored, hlabels⟩ := exists_targets cfg case.inner (cfg.nodesOf (caseMarkup 0 case.body))
  -- the comments among the nodes are some of those that were read
  obtain ⟨kept, hperm, hkept⟩ := Markup.subperm_commentsIn (caseMarkup 0 case.body)
  have hread : targets.Subperm case.targets := by
    rw [hnodes] at hsub
    exact hsub.subperm.trans ⟨_, hperm.filterMap _, hkept.filterMap _⟩
  have hpairs : targets.Subperm (case.inner.zipIdx.map fun x => ((x.2 : Int), x.1)) := by
    obtain ⟨l, hl, hsubl⟩ := hread
    refine subperm_zipIdx ((hl.map _).nodup_iff.mp ((of_decide_eq_true hd).sublist (hsubl.map _))) fun x hx => ?_
    obtain ⟨data, -, hdata⟩ := mem_filterMap.mp (hsub.subset hx)
    exact getElem?_of_commentTarget? hdata
  obtain ⟨numbered, hl, hnumbered⟩ := hpairs
  constructor
  · have hnested : case.nested cfg = targets.map (·.2) := hanchored
    have hfst : (case.inner.zipIdx.map fun x => ((x.2 : Int), x.1)).map (·.2) = case.inner := by
      rw [map_map]
      exact zipIdx_map_fst 0 case.inner
    have hinner := hnumbered.map (·.2)
    rw [hfst] at hinner
    rw [hnested]
    exact ⟨_, hl.map _, hinner⟩
  · intro c parent hc
    obtain ⟨-, n, hplan⟩ := hc
    have hcreate : (c.2.create parent).filterMap IcuCreateOp.label? = targets.map fun x => nestedLabel x.1 := by
      rw [hplan]
      exact hlabels n parent
    have hnumbers : case.inner.zipIdx.map (·.2) = List.range case.inner.length := by
      rw [zipIdx_map_snd, range_eq_range']
    have hlabel := hnumbered.map fun x => nestedLabel x.1
    rw [map_map] at hlabel
    rw [hcreate, ← hnumbers, map_map]
    exact ⟨_, hl.map _, hlabel⟩

theorem Icu.Planned.sparing {e : Icu} {x : Nat × IcuPlan} (h : e.Planned cfg x)
    (hd : ∀ case ∈ e.cases, case.discreet = true) (parent : Int) : e.Sparing (x.2.compiled parent x.1) := by
  obtain ⟨current, cases, hx, hcases⟩ := h.exists_cases
  rw [hx, IcuPlan.compiled]
  refine ⟨rfl, ?_⟩
  rw [cases.compiled_eq_map, forall₂_map_right_iff]
  refine ((forall₂_and_left _ _).mpr ⟨hd, hcases⟩).imp fun case c hc => ⟨hc.2.1, ?_⟩
  exact (Case.subperm_inner hcfg hc.1).2 c parent hc.2

/-- **A nested expression is compiled once.** If no two comments that are read from the markup of a case stand for the
same expression of the case, a call that accepts the message registers no more expressions than it has, each for another
one of these, and there is no second anchor for an expression. -/
theorem registered_once {t : TemplateView} (ht : t.Reachable) {site : Site} {message : String} {scope : Message.Scope}
    {handle : Handle} (hok : (t.compile cfg site message scope).result = .ok handle)
    (hown : ∀ e ∈ Message.allExpressions scope message, ∀ case ∈ e.cases, case.discreet = true) :
    (t.registered (t.compile cfg site message scope).view).length ≤ (Message.allExpressions scope message).length ∧
      ∃ sources, sources.Subperm (Message.allExpressions scope message) ∧ List.Forall₂ (fun e x => e.Sparing x.2) sources
        (t.registered (t.compile cfg site message scope).view) := by
  suffices h : ∃ sources : List Icu, sources.Subperm (Message.allExpressions scope message) ∧
      List.Forall₂ (fun e x => e.Sparing x.2) sources (t.registered (t.compile cfg site message scope).view) by
    obtain ⟨sources, hsub, hsparing⟩ := h
    exact ⟨hsparing.length_eq ▸ hsub.length_le, sources, hsub, hsparing⟩
  rcases exists_compiles ht hok with hcompiles | ⟨-, hview, -⟩
  · obtain ⟨sources, hsub, hposts⟩ := hcompiles.exists_sources fun e he case hcase =>
      (Case.subperm_inner hcfg (hown e he case hcase)).1
    have hsources := (List.forall₂_and_left _ _).mpr ⟨fun e he => hown e (hsub.subset he), hposts⟩
    refine ⟨sources, hsub, hsources.imp fun e x hx => ?_⟩
    obtain ⟨hdiscreet, post, hplanned, rfl⟩ := hx
    exact hplanned.sparing hcfg hdiscreet post.parent
  · have hnone : t.registered t = [] := by simp [TemplateView.registered]
    rw [hview, hnone]
    exact ⟨[], List.nil_subperm, .nil⟩

end Messages

/-- An expression whose case has a comment of its own in front of a nested one. -/
def commentedMessage (comment : String) : String :=
  "\x7b�0�, select, other \x7b<!--" ++ comment ++
    "-->\x7b�1�, select, other \x7bx\x7d\x7d\x7d\x7d"

theorem registered_once_commented :
    let o := (TemplateView.new 4 1).compile .standard ⟨-1, 22⟩ (commentedMessage "1") .root
    let es := Message.allExpressions .root (commentedMessage "1")
    (es.length = 2 ∧ ((TemplateView.new 4 1).registered o.view).length = 2) ∧ ∃ sources, sources.Subperm es ∧
        List.Forall₂ (fun e x => e.Sparing x.2) sources ((TemplateView.new 4 1).registered o.view) := by
  intro o es
  cases hok : o.result with
  | error failure =>
    have hfine : o.result.isOk = true := by decide +kernel
    rw [hok] at hfine
    cases hfine
  | ok handle =>
    have hown : (es.all fun e => e.cases.all Case.discreet) = true := by decide +kernel
    refine ⟨by decide +kernel, (registered_once (fun _ => rfl) (.new 4 1) hok fun e he case hcase => ?_).2⟩
    exact List.all_eq_true.mp (List.all_eq_true.mp hown e he) case hcase

/-- **An expression that is compiled twice.** The case has a comment with the number of the nested expression. -/
theorem registered_twice :
    let o := (TemplateView.new 4 1).compile .standard ⟨-1, 22⟩ (commentedMessage "�0�") .root
    (Message.allExpressions .root (commentedMessage "�0�")).length = 2 ∧
      ((TemplateView.new 4 1).registered o.view).map (fun x => x.2.cases.map fun c => c.create.filterMap IcuCreateOp.label?) =
        [[["nested ICU 0", "nested ICU 0"]], [[]], [[]]] := by
  decide +kernel

end MessageCompiler
