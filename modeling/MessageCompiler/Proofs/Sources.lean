/-
What is registered for the expressions of a message.

* **`exists_targets`** — the plan for nodes has an anchor for each comment that stands for an expression.
* **`Compiles.exists_sources`** — if every case has an anchor at most for each of its expressions, a message registers
  no more than it has.
-/
import MessageCompiler.Proofs.Comments
import MessageCompiler.Proofs.Owners

namespace MessageCompiler

open List

/-! ### What a plan was made for -/

theorem subperm_flatMap_all {es es' : List Icu} (h : es.Subperm es') :
    (es.flatMap Icu.all).Subperm (es'.flatMap Icu.all) := by
  obtain ⟨l, hperm, hsub⟩ := h
  exact ⟨_, hperm.flatMap_right _, hsub.flatMap _⟩

section Sources

variable {cfg : Config}

/-- The expressions were planned, one after the other, for different ones of the list. -/
def Sourced (cfg : Config) (es : List Icu) (posts : List Post) : Prop :=
  ∃ sources : List Icu, sources.Subperm es ∧ List.Forall₂ (fun e post => e.Planned cfg (post.anchor, post.icu)) sources posts

theorem Sourced.nil : Sourced cfg [] [] := ⟨[], .refl _, .nil⟩

theorem Sourced.append {es es' : List Icu} {posts posts' : List Post} (h : Sourced cfg es posts)
    (h' : Sourced cfg es' posts') : Sourced cfg (es ++ es') (posts ++ posts') := by
  obtain ⟨sources, hsources, hposts⟩ := h
  obtain ⟨sources', hsources', hposts'⟩ := h'
  exact ⟨sources ++ sources', hsources.append hsources', rel_append hposts hposts'⟩

/-- Whatever is planned for the expression was planned for one that is in it. -/
def Icu.Traced (cfg : Config) (e : Icu) : Prop :=
  ∀ x parent, e.Planned cfg x → Sourced cfg e.all (x.2.posts parent x.1)

theorem Plan.sourced : ∀ (plan : Plan) (parent : Int) {es : List Icu}, (∀ e ∈ es, e.Traced cfg) →
    List.Forall₂ (Icu.Planned cfg) es plan.nested → Sourced cfg (es.flatMap Icu.all) (plan.posts parent)
  | .nil, _, _, _, .nil => .nil
  | .text _ _ rest, parent, _, hes, h => rest.sourced parent hes h
  | .element slot _ _ _ content rest, parent, es, hes, h => by
    have hcontent := content.sourced slot (fun e he => hes e (mem_of_mem_take he)) (forall₂_take_append _ _ _ h)
    have hrest := rest.sourced parent (fun e he => hes e (mem_of_mem_drop he)) (forall₂_drop_append _ _ _ h)
    rw [← take_append_drop content.nested.length es, flatMap_append]
    exact hcontent.append hrest
  | .icu slot _ inner rest, parent, e :: _, hes, .cons he h =>
    (hes e mem_cons_self (slot, inner) parent he).append
      (rest.sourced parent (fun e he => hes e (mem_cons_of_mem _ he)) h)

/-- What the anchor of the nested expression with a number is called. -/
def nestedLabel (number : Int) : String := "nested ICU " ++ Text.showInt number

def IcuCreateOp.label? : IcuCreateOp → Option String
  | .anchor _ label => some label
  | _ => none

/-- The plan for nodes has the expressions that some of their comments stand for, at anchors with the numbers of these. -/
theorem exists_targets (cfg : Config) (es : List Icu) : ∀ nodes : List Markup.Node, ∃ targets : List (Int × Icu),
    targets.Sublist ((Markup.commentsIn nodes).filterMap (commentTarget? es)) ∧
      anchored cfg es nodes = targets.map (·.2) ∧
        ∀ n parent, ((planNodes cfg (es.map (planIcu cfg)) nodes n).1.create parent).filterMap IcuCreateOp.label? =
          targets.map fun x => nestedLabel x.1
  | [] => ⟨[], nil_sublist _, by rw [anchored]; rfl, fun n parent => by rw [planNodes]; rfl⟩
  | .text _ :: rest => by
    obtain ⟨targets, hsub, hanchored, hlabels⟩ := exists_targets cfg es rest
    refine ⟨targets, by rwa [Markup.commentsIn], by rwa [anchored], fun n parent => ?_⟩
    rw [planNodes]
    exact hlabels (n + 1) parent
  | .comment data :: rest => by
    obtain ⟨targets, hsub, hanchored, hlabels⟩ := exists_targets cfg es rest
    refine ⟨(commentTarget? es data).toList ++ targets, ?_, ?_, fun n parent => ?_⟩
    · rw [Markup.commentsIn, filterMap_cons]
      cases commentTarget? es data with
      | none => exact hsub
      | some target => exact hsub.cons_cons target
    · rw [anchored, hanchored, map_append]
      cases commentTarget? es data <;> rfl
    · rw [planNodes, commentTarget?_map]
      cases commentTarget? es data with
      | none => exact hlabels (n + 1) parent
      | some target => exact congrArg (nestedLabel target.1 :: ·) (hlabels _ parent)
  | .element _ name attrs children :: rest => by
    obtain ⟨targets, hsub, hanchored, hlabels⟩ := exists_targets cfg es rest
    obtain ⟨inside, hsub', hanchored', hlabels'⟩ := exists_targets cfg es children
    by_cases hname : cfg.elements.has (Text.lower name) = true
    · refine ⟨inside ++ targets, ?_, ?_, fun n parent => ?_⟩
      · rw [Markup.commentsIn, filterMap_append]
        exact hsub'.append hsub
      · rw [anchored, if_pos hname, hanchored, hanchored', map_append]
      · have hfixed : ((fixedAttrs attrs).map fun a => IcuCreateOp.setAttribute n a.1 a.2).filterMap IcuCreateOp.label? = [] := by
          simp [IcuCreateOp.label?]
        rw [planNodes, if_pos hname]
        simp only [Plan.create, filterMap_cons, IcuCreateOp.label?, filterMap_append, hfixed, nil_append,
          hlabels, hlabels', map_append]
    · refine ⟨targets, ?_, ?_, fun n parent => ?_⟩
      · rw [Markup.commentsIn, filterMap_append]
        exact hsub.trans (sublist_append_right _ _)
      · rw [anchored, if_neg hname, hanchored, nil_append]
      · rw [planNodes, if_neg hname]
        exact hlabels (n + 1) parent

theorem anchored_subset (cfg : Config) (es : List Icu) (nodes : List Markup.Node) : anchored cfg es nodes ⊆ es := by
  obtain ⟨targets, hsub, hanchored, -⟩ := exists_targets cfg es nodes
  rw [hanchored]
  intro e he
  obtain ⟨target, htarget, rfl⟩ := mem_map.mp he
  obtain ⟨data, -, hdata⟩ := mem_filterMap.mp (hsub.subset htarget)
  exact mem_of_commentTarget? hdata

theorem CasePlans.sourced : ∀ (plans : CasePlans) (parent : Int) {cases : List Case},
    (∀ case ∈ cases, (case.nested cfg).Subperm case.inner ∧ ∀ e ∈ case.inner, e.Traced cfg) →
      List.Forall₂ (Case.Planned cfg) cases plans.contents →
        Sourced cfg (cases.flatMap fun case => case.inner.flatMap Icu.all) (plans.posts parent)
  | .nil, _, _, _, .nil => .nil
  | .cons _ content rest, parent, case :: cases, hcases, .cons hcase h => by
    obtain ⟨hnested, hinner⟩ := hcases case mem_cons_self
    obtain ⟨sources, hsources, hposts⟩ :=
      content.sourced parent (fun e he => hinner e (anchored_subset cfg _ _ he)) hcase.nested
    exact Sourced.append ⟨sources, hsources.trans (subperm_flatMap_all hnested), hposts⟩
      (rest.sourced parent (fun case hcase => hcases case (mem_cons_of_mem _ hcase)) h)

theorem Icu.traced {e : Icu}
    (hcases : ∀ x ∈ e.all, ∀ case ∈ x.cases, (case.nested cfg).Subperm case.inner) : e.Traced cfg := by
  induction e using Icu.induction with
  | h e ih =>
    intro x parent hx
    obtain ⟨current, plans, hplan, hplans⟩ := hx.exists_cases
    have hinner := plans.sourced parent (fun case hcase => ⟨hcases e e.mem_all_self case hcase,
      fun e' he' => ih case hcase e' he' fun x hx => hcases x (Icu.all_subset hcase he' hx)⟩) hplans
    have hself : Sourced cfg [e] [⟨parent, x.1, x.2⟩] := ⟨[e], .refl _, .cons hx .nil⟩
    rw [e.all_eq, hplan, IcuPlan.posts, ← hplan]
    exact hself.append hinner

theorem RootItem.sourced (parent : Int) : ∀ (items : List RootItem) {es : List Icu},
    (∀ e ∈ es, e.Traced cfg) → List.Forall₂ (Icu.Planned cfg) es (items.filterMap expression?) →
      Sourced cfg (es.flatMap Icu.all) (items.flatMap (·.posts parent))
  | [], _, _, .nil => .nil
  | .text _ _ _ :: rest, _, hes, h => RootItem.sourced parent rest hes h
  | .icu slot _ plan _ :: rest, e :: _, hes, .cons he h =>
    (hes e mem_cons_self (slot, plan) parent he).append
      (RootItem.sourced parent rest (fun e he => hes e (mem_cons_of_mem _ he)) h)

def Message.allExpressions (scope : Scope) (message : String) : List Icu :=
  (expressions scope message).flatMap Icu.all

theorem Compiles.exists_sources {t : TemplateView} {site : Site} {message : String}
    {scope : Message.Scope} {handle : Handle} (h : Compiles t cfg site message scope handle)
    (hcases : ∀ e ∈ Message.allExpressions scope message, ∀ case ∈ e.cases, (case.nested cfg).Subperm case.inner) :
    ∃ sources : List Icu, sources.Subperm (Message.allExpressions scope message) ∧
      List.Forall₂ (fun e x => ∃ post : Post, e.Planned cfg (post.anchor, post.icu) ∧ x = (post.anchor, post.compiled))
        sources (t.registered (t.compile cfg site message scope).view) := by
  obtain ⟨items, hcompiled, hroots⟩ := exists_compiled h.reachable.sound h.vacant h.result_eq
  obtain ⟨sources, hsources, hposts⟩ := RootItem.sourced site.parent items
    (fun e he => Icu.traced fun x hx => hcases x (mem_flatMap.mpr ⟨e, he, hx⟩)) hroots
  have hmap : List.Forall₂
      (fun e x => ∃ post : Post, e.Planned cfg (post.anchor, post.icu) ∧ x = (post.anchor, post.compiled)) sources
      ((items.flatMap (·.posts site.parent)).map fun post => (post.anchor, post.compiled)) :=
    forall₂_map_right_iff.mpr (hposts.imp fun e post hpost => ⟨post, hpost, rfl⟩)
  have hcomp : Relation.Comp (List.Forall₂ _) List.Perm sources _ :=
    ⟨_, hmap, (hcompiled.perm_registered h.reachable.indexed).symm⟩
  rw [forall₂_comp_perm_eq_perm_comp_forall₂] at hcomp
  obtain ⟨sources', hperm, hregistered⟩ := hcomp
  exact ⟨sources', hperm.symm.subperm.trans hsources, hregistered⟩

end Sources

end MessageCompiler
