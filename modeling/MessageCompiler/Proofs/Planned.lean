/-
Compiling follows the plan.

* **`Plan.Registered.retained`** — what is registered stays registered.
* **`follows_compileIcu`** — an expression that is compiled gets the slots of its plan, its instructions
  are those of the plan, and the plan is registered.
-/
import MessageCompiler.Proofs.Plan
import MessageCompiler.Proofs.Survey

namespace MessageCompiler

open List
open Steps TemplateView
open Markup (Node Attr)
open Text (lower showInt)

variable {t : TemplateView} {p p' : Pass} {cfg : Config} {nested : List NestedIcu} {parent : Int} {code : CaseCode}

/-! ### Registered plans -/

variable {k : Nat} {type : NodeType} {data name : String} {attrs : List Attr} {children : List Node}
  {ns : Markup.Namespace}

theorem TemplateView.lt_of_type? (h : t.type? k = some type) : k < t.size := by
  obtain ⟨node, hnode, -⟩ := Option.map_eq_some_iff.mp h
  obtain ⟨id, hid, -⟩ := Option.bind_eq_some_iff.mp hnode
  have hslot := nodeId?_eq_some.mp hid
  rw [slot?_natCast] at hslot
  exact (Array.getElem?_eq_some_iff.mp hslot).choose

theorem TemplateView.lt_of_icu? {icu : CompiledIcu} (h : t.icu? k = some icu) : k < t.size := by
  by_cases hk : k < t.slots.size
  · exact hk
  · rw [icu?, slot?_natCast, Array.getElem?_eq_none (by omega)] at h
    cases h

/-- What slots that are not touched lead to stays there. -/
structure TemplateView.Retains (touched : Nat → Prop) (t t' : TemplateView) : Prop where
  type : ∀ k : Nat, ¬touched k → ∀ type, t.type? k = some type → t'.type? k = some type
  icu : ∀ k : Nat, ¬touched k → ∀ icu, t.icu? k = some icu → t'.icu? k = some icu
  empty : ∀ k : Nat, ¬touched k → t.slots[k]? = some .empty → t'.slots[k]? = some .empty

section Retains

variable {touched : Nat → Prop} {n : Nat} {t t₁ t' : TemplateView}

theorem TemplateView.Grows.retains (h : t.Grows touched n t') (hb : t.Bounded) : t.Retains touched t' where
  type k hk type htype := by rw [h.types hb k (lt_of_type? htype) hk, htype]
  icu k hk icu hicu := h.icus k (lt_of_icu? hicu) hk icu hicu
  empty k hk hslot := by
    rw [h.slots k (Array.getElem?_eq_some_iff.mp hslot).choose hk, hslot]

theorem TemplateView.Retains.trans (h₁ : t.Retains touched t₁) (h₂ : t₁.Retains touched t') : t.Retains touched t' where
  type k hk type htype := h₂.type k hk type (h₁.type k hk type htype)
  icu k hk icu hicu := h₂.icu k hk icu (h₁.icu k hk icu hicu)
  empty k hk hslot := h₂.empty k hk (h₁.empty k hk hslot)

theorem TemplateView.Retains.mono {touched' : Nat → Prop} (h : t.Retains touched t')
    (hsub : ∀ k, touched k → touched' k) : t.Retains touched' t' where
  type k hk := h.type k fun h => hk (hsub k h)
  icu k hk := h.icu k fun h => hk (hsub k h)
  empty k hk := h.empty k fun h => hk (hsub k h)

mutual

theorem Plan.Registered.retained (h : t.Retains touched t') :
    ∀ {plan : Plan} {parent : Int}, plan.Registered t parent → (∀ s ∈ plan.slots, ¬touched s) →
      plan.Registered t' parent
  | .nil, _, _, _ => trivial
  | .text slot _ _, _, ⟨htype, hrest⟩, hslots => by
    rw [Plan.slots, forall_mem_cons] at hslots
    exact ⟨h.type slot hslots.1 _ htype, hrest.retained h hslots.2⟩
  | .element slot _ _ _ _ _, _, ⟨htype, hcontent, hrest⟩, hslots => by
    rw [Plan.slots, forall_mem_cons, forall_mem_append] at hslots
    exact ⟨h.type slot hslots.1 _ htype, hcontent.retained h hslots.2.1, hrest.retained h hslots.2.2⟩
  | .icu slot _ _ _, _, ⟨htype, hicu, hrest⟩, hslots => by
    rw [Plan.slots, forall_mem_cons, forall_mem_append] at hslots
    exact ⟨h.type slot hslots.1 _ htype, hicu.retained h hslots.1 hslots.2.1, hrest.retained h hslots.2.2⟩

theorem IcuPlan.Registered.retained (h : t.Retains touched t') :
    ∀ {icu : IcuPlan} {parent : Int} {anchor : Nat}, icu.Registered t parent anchor →
      ¬touched anchor → (∀ s ∈ icu.slots, ¬touched s) → icu.Registered t' parent anchor
  | .mk _ _ current _, _, anchor, ⟨hicu, hcurrent, hcases⟩, hanchor, hslots => by
    rw [IcuPlan.slots, forall_mem_cons] at hslots
    exact ⟨h.icu anchor hanchor _ hicu, h.empty current hslots.1 hcurrent, hcases.retained h hslots.2⟩

theorem CasePlans.Registered.retained (h : t.Retains touched t') :
    ∀ {cases : CasePlans} {parent : Int}, cases.Registered t parent →
      (∀ s ∈ cases.slots, ¬touched s) → cases.Registered t' parent
  | .nil, _, _, _ => trivial
  | .cons _ _ _, _, ⟨hcontent, hrest⟩, hslots => by
    rw [CasePlans.slots, forall_mem_append] at hslots
    exact ⟨hcontent.retained h hslots.1, hrest.retained h hslots.2⟩

end

end Retains

/-! ### Nodes of a case -/

/-- The step has compiled nodes by the plan: the instructions, the slots and the template view agree with
it. -/
structure Walked (parent : Int) (r : Plan × Nat) (code : CaseCode) (p p' : Pass) : Prop where
  code_eq : code = ⟨r.1.create parent, r.1.remove, r.1.update⟩
  size_eq : p'.view.size = r.2
  update_eq : p'.update = p.update ++ r.1.stream
  create_eq : p'.create = p.create
  registered : p.view.Bounded → r.1.Registered p'.view parent
  surveyed : ∀ n ≤ p.view.size, p.view.Surveyed n ((r.1.posts parent).map (·.anchor)) p'.view

/-- The step has compiled an expression by the plan. -/
structure Built (parent : Int) (anchor : Nat) (r : IcuPlan × Nat) (p p' : Pass) : Prop where
  size_eq : p'.view.size = r.2
  update_eq : p'.update = p.update ++ r.1.stream anchor
  create_eq : p'.create = p.create
  registered : p.view.Bounded → r.1.Registered p'.view parent anchor
  surveyed : ∀ n ≤ anchor, p.view.Surveyed n ((r.1.posts parent anchor).map (·.anchor)) p'.view

def NestedIcu.Follows (f : NestedIcu) (plan : NestedPlan) : Prop :=
  ∀ (parent : Int) (anchor id : Nat) (p p' : Pass), p.view.Vacant anchor id →
    f parent anchor p = .ok () p' → Built parent anchor (plan p.view.size) p p'

theorem compileAttribute_eq (cfg : Config) (tag : String) (index : Nat) (a : Attr) (p : Pass) :
    ∃ p', compileAttribute cfg tag index a p = .ok ⟨(fixedAttrs [a]).map (fun a => .setAttribute index a.1 a.2), [],
          (boundAttrs cfg [a]).map (·.op index)⟩ p' ∧
      p'.view = p.view ∧ p'.update = p.update ∧ p'.create = p.create := by
  unfold compileAttribute fixedAttrs boundAttrs
  by_cases hbinding : Message.hasBinding a.value.toList = true
  · cases hallowed : cfg.attributes.has (lower (attributeName a)) with
    | true =>
      simp only [filterMap_cons, hbinding, hallowed]
      exact ⟨_, rfl, rfl, rfl, rfl⟩
    | false =>
      simp only [filterMap_cons, hbinding, hallowed]
      exact ⟨_, rfl, rfl, rfl, rfl⟩
  · simp only [filterMap_cons, hbinding]
    exact ⟨_, rfl, rfl, rfl, rfl⟩

theorem fixedAttrs_cons (a : Attr) (rest : List Attr) :
    fixedAttrs (a :: rest) = fixedAttrs [a] ++ fixedAttrs rest :=
  filterMap_append (l := [a])

theorem boundAttrs_cons (cfg : Config) (a : Attr) (rest : List Attr) :
    boundAttrs cfg (a :: rest) = boundAttrs cfg [a] ++ boundAttrs cfg rest :=
  filterMap_append (l := [a])

theorem compileAttributes_eq (cfg : Config) (tag : String) (index : Nat) :
    ∀ (attrs : List Attr) (p : Pass), ∃ p', compileAttributes cfg tag index attrs p =
        .ok ⟨(fixedAttrs attrs).map (fun a => .setAttribute index a.1 a.2), [],
          (boundAttrs cfg attrs).map (·.op index)⟩ p' ∧
      p'.view = p.view ∧ p'.update = p.update ∧ p'.create = p.create
  | [], p => ⟨p, rfl, rfl, rfl, rfl⟩
  | a :: rest, p => by
    obtain ⟨p₁, hrun₁, hview₁, hupdate₁, hcreate₁⟩ := compileAttribute_eq cfg tag index a p
    obtain ⟨p₂, hrun₂, hview₂, hupdate₂, hcreate₂⟩ := compileAttributes_eq cfg tag index rest p₁
    refine ⟨p₂, ?_, hview₂.trans hview₁, hupdate₂.trans hupdate₁, hcreate₂.trans hcreate₁⟩
    unfold compileAttributes
    refine bind_eq_ok.mpr ⟨_, p₁, hrun₁, bind_eq_ok.mpr ⟨_, p₂, hrun₂, ?_⟩⟩
    rw [fixedAttrs_cons a rest, boundAttrs_cons cfg a rest, map_append, map_append]
    rfl

def Pass.addNext (p : Pass) (type : NodeType) (value : String) : Pass :=
  { p with view := (p.view.alloc 1).addNode (.fresh p.view.size type value none) }

@[simp] theorem Pass.size_addNext (p : Pass) (type : NodeType) (value : String) :
    (p.addNext type value).view.size = p.view.size + 1 := by
  show ((p.view.alloc 1).setSlot _ _).size = _
  simp

theorem Pass.bounded_addNext (hb : p.view.Bounded) (type : NodeType) (value : String) :
    (p.addNext type value).view.Bounded :=
  bounded_addNode (bounded_alloc hb 1) _

theorem Pass.vacant_addNext (p : Pass) (type : NodeType) (value : String) :
    (p.addNext type value).view.Vacant p.view.size p.view.nodes.size :=
  vacant_addNode (p.view.alloc 1) (by simp) type value none

theorem Pass.surveyed_addNext (p : Pass) (type : NodeType) (value : String) (n : Nat) :
    p.view.Surveyed n [] (p.addNext type value).view :=
  (surveyed_alloc n p.view 1).then (surveyed_addNode n _ rfl)

theorem Pass.type?_addNext {value : String} (hgrow : (p.addNext type value).view.Grows untouched 0 p'.view)
    (hb : p.view.Bounded) :
    p'.view.type? p.view.size = some type := by
  refine (hgrow.retains (p.bounded_addNext hb type value)).type _ (fun h => h) type ?_
  obtain ⟨hid, node, hnode, -⟩ := p.vacant_addNext type value
  show (((p.addNext type value).view.nodeId? p.view.size).bind _).map _ = _
  rw [hid]
  show (((p.view.alloc 1).nodes.push _)[(p.view.alloc 1).nodes.size]?).map _ = _
  rw [Array.getElem?_push_size]
  rfl

theorem walkNode_text (cfg : Config) (nested : List NestedIcu) (parent : Int) (value : String) (p : Pass) :
    walkNode cfg nested parent (.text value) p =
      .ok ⟨[.text p.view.size (initialText value), .append p.view.size parent],
        [.node p.view.size], textUpdate p.view.size value⟩ (p.addNext .text (initialText value)) := by
  unfold walkNode
  rfl

theorem walkNode_comment (h : walkNode cfg nested parent (.comment data) p = .ok code p') :
    (commentTarget? nested data = none ∧ code = .empty ∧ p'.view = p.view.alloc 1 ∧ p'.update = p.update ∧
        p'.create = p.create) ∨
      ∃ number f, commentTarget? nested data = some (number, f) ∧
        f parent p.view.size (p.addNext .icu ("nested ICU " ++ showInt number)) = .ok () p' ∧
        code = ⟨[.anchor p.view.size ("nested ICU " ++ showInt number), .append p.view.size parent],
          [.nestedIcu p.view.size], []⟩ := by
  unfold walkNode at h
  obtain ⟨index, p₁, halloc, h⟩ := bind_eq_ok.mp h
  cases halloc
  unfold compileComment at h
  unfold commentTarget?
  cases hdigits : Message.plainOrdinal? data.toList with
  | none =>
    rw [hdigits] at h
    cases h
    exact .inl ⟨rfl, rfl, rfl, rfl, rfl⟩
  | some digits =>
    rw [hdigits] at h
    dsimp only at h ⊢
    generalize (Text.readInt? digits).bind (fun n => nested[n.toNat]?.map (n, ·)) = target at h ⊢
    cases target with
    | none =>
      cases h
      exact .inl ⟨rfl, rfl, rfl, rfl, rfl⟩
    | some target =>
      obtain ⟨_, p₂, hadd, h⟩ := bind_eq_ok.mp h
      cases hadd
      obtain ⟨_, p₃, hnested, h⟩ := bind_eq_ok.mp h
      obtain ⟨rfl, rfl⟩ := pure_eq_ok.mp h
      exact .inr ⟨target.1, target.2, rfl, hnested, rfl⟩

theorem walkNode_element (h : walkNode cfg nested parent (.element ns name attrs children) p = .ok code p') :
    (cfg.elements.has (lower name) = false ∧ code = .empty ∧ p'.view = p.view.alloc 1 ∧ p'.update = p.update ∧
        p'.create = p.create) ∨
      cfg.elements.has (lower name) = true ∧ ∃ (content : CaseCode) (p₁ : Pass),
        p₁.view = (p.addNext .element (lower name)).view ∧ p₁.update = p.update ∧ p₁.create = p.create ∧
        walkNodes cfg nested p.view.size children p₁ = .ok content p' ∧
        code = ⟨.element p.view.size (lower name) :: .append p.view.size parent ::
            ((fixedAttrs attrs).map (fun a => .setAttribute p.view.size a.1 a.2) ++ content.create),
          [.node p.view.size], (boundAttrs cfg attrs).map (·.op p.view.size) ++ content.update⟩ := by
  unfold walkNode at h
  obtain ⟨index, p₁, halloc, h⟩ := bind_eq_ok.mp h
  cases halloc
  dsimp only at h
  cases hallowed : cfg.elements.has (lower name) with
  | false =>
    rw [hallowed] at h
    cases h
    exact .inl ⟨rfl, rfl, rfl, rfl, rfl⟩
  | true =>
    rw [hallowed] at h
    obtain ⟨_, p₂, hadd, h⟩ := bind_eq_ok.mp h
    cases hadd
    obtain ⟨attributes, p₃, hattrs, h⟩ := bind_eq_ok.mp h
    obtain ⟨content, p₄, hcontent, h⟩ := bind_eq_ok.mp h
    obtain ⟨rfl, rfl⟩ := pure_eq_ok.mp h
    obtain ⟨p₅, heq, hview, hupdate, hcreate⟩ := compileAttributes_eq cfg (lower name) p.view.size attrs
      (p.addNext .element (lower name))
    have hboth := heq.symm.trans hattrs
    cases hboth
    exact .inr ⟨rfl, content, p₃, hview, hupdate, hcreate, hcontent, rfl⟩

theorem Walked.skip {r : Plan × Nat} {p₁ : Pass} (h : Walked parent r code p₁ p') (hview : p₁.view = p.view.alloc 1)
    (hupdate : p₁.update = p.update) (hcreate : p₁.create = p.create) :
    Walked parent r (CaseCode.empty.append code) p p' := { h with
  update_eq := by rw [h.update_eq, hupdate]
  create_eq := h.create_eq.trans hcreate
  registered hb := h.registered (by rw [hview]; exact bounded_alloc hb 1)
  surveyed n hn := by
    have hrest := h.surveyed n
    rw [hview, size_alloc] at hrest
    exact (surveyed_alloc n p.view 1).then (hrest (by omega)) }

theorem commentTarget?_rel {plans : List NestedPlan}
    (hfollows : ∀ k : Nat, Option.Rel NestedIcu.Follows nested[k]? plans[k]?) (data : String) :
    Option.Rel (fun a b => a.1 = b.1 ∧ NestedIcu.Follows a.2 b.2) (commentTarget? nested data)
      (commentTarget? plans data) := by
  unfold commentTarget?
  cases Message.plainOrdinal? data.toList with
  | none => exact .none
  | some digits =>
    dsimp only
    cases Text.readInt? digits with
    | none => exact .none
    | some n =>
      have hrel := hfollows n.toNat
      rw [Option.bind_some, Option.bind_some]
      cases hf : nested[n.toNat]? with
      | none =>
        rw [hf] at hrel
        cases hg : plans[n.toNat]? with
        | none => exact .none
        | some g => rw [hg] at hrel; cases hrel
      | some f =>
        rw [hf] at hrel
        cases hg : plans[n.toNat]? with
        | none => rw [hg] at hrel; cases hrel
        | some g =>
          simp_all

theorem walked_walkNodes (cfg : Config) {plans : List NestedPlan} (hgrowing : ∀ f ∈ nested, f.IsGrowing)
    (hfollows : ∀ k : Nat, Option.Rel NestedIcu.Follows nested[k]? plans[k]?) :
    ∀ (nodes : List Node) (parent : Int) (p p' : Pass) (code : CaseCode),
      walkNodes cfg nested parent nodes p = .ok code p' →
        Walked parent (planNodes cfg plans nodes p.view.size) code p p'
  | [], parent, p, p', code, h => by
    unfold walkNodes at h
    obtain ⟨rfl, rfl⟩ := pure_eq_ok.mp h
    rw [planNodes]
    exact ⟨rfl, rfl, (append_nil _).symm, rfl, fun _ => trivial, fun n _ => .refl n _⟩
  | node :: rest, parent, p, p', code, h => by
    unfold walkNodes at h
    obtain ⟨first, p₁, hfirst, h⟩ := bind_eq_ok.mp h
    obtain ⟨others, p₂, hrest, h⟩ := bind_eq_ok.mp h
    obtain ⟨rfl, rfl⟩ := pure_eq_ok.mp h
    have ih := walked_walkNodes cfg hgrowing hfollows rest parent p₁ p₂ others hrest
    have hgrow := grows_walkNodes cfg hgrowing 0 parent rest p₁ (Nat.zero_le _)
    rw [after_of_ok hrest] at hgrow
    cases node with
    | text value =>
      rw [walkNode_text] at hfirst
      cases hfirst
      rw [Pass.size_addNext] at ih
      rw [planNodes]
      refine ⟨?_, ih.size_eq, ih.update_eq, ih.create_eq, fun hb => ?_, fun n hn => ?_⟩
      · rw [ih.code_eq]
        rfl
      · exact ⟨Pass.type?_addNext hgrow hb, ih.registered (Pass.bounded_addNext hb _ _)⟩
      · exact (p.surveyed_addNext _ _ n).then (ih.surveyed n (by rw [Pass.size_addNext]; omega))
    | comment data =>
      have hrel := commentTarget?_rel hfollows data
      rw [planNodes]
      rcases walkNode_comment hfirst with ⟨hf, rfl, hview, hupdate, hcreate⟩ | ⟨number, f, hf, hnested, rfl⟩
      · rw [hf] at hrel
        cases hg : commentTarget? plans data with
        | some g => rw [hg] at hrel; cases hrel
        | none =>
          rw [hview, size_alloc] at ih
          exact ih.skip hview hupdate hcreate
      · rw [hf] at hrel
        cases hg : commentTarget? plans data with
        | none => rw [hg] at hrel; cases hrel
        | some target =>
          obtain ⟨number', plan⟩ := target
          rw [hg] at hrel
          cases hrel with
          | some hrel =>
          obtain ⟨rfl, hfollow⟩ := hrel
          have hvacant := Pass.vacant_addNext p .icu ("nested ICU " ++ showInt number)
          have hbuilt := hfollow parent p.view.size _ _ p₁ hvacant hnested
          have hgrow₁ := hgrowing f (mem_of_commentTarget? hf) 0 parent p.view.size _ _ hvacant
            (Nat.zero_le _) (Nat.zero_le _)
          rw [after_of_ok hnested] at hgrow₁
          rw [Pass.size_addNext] at hbuilt
          rw [hbuilt.size_eq] at ih
          refine ⟨?_, ih.size_eq, ?_, ih.create_eq.trans hbuilt.create_eq, fun hb => ?_, fun n hn => ?_⟩
          · rw [ih.code_eq]
            rfl
          · rw [ih.update_eq, hbuilt.update_eq, append_assoc]
            rfl
          · -- The anchor and its expression stay registered while the rest is compiled.
            have hb₀ := Pass.bounded_addNext hb .icu ("nested ICU " ++ showInt number)
            have hb₁ := hgrow₁.bounded hb₀
            exact ⟨Pass.type?_addNext (hgrow₁.trans hgrow) hb,
              (hbuilt.registered hb₀).retained (hgrow.retains hb₁) (fun h => h) (fun _ _ h => h),
              ih.registered hb₁⟩
          · rw [Plan.posts, map_append]
            have hsize : p.view.size ≤ p₁.view.size := by
              have := hgrow₁.size_le
              rw [Pass.size_addNext] at this
              omega
            exact ((p.surveyed_addNext _ _ n).then (hbuilt.surveyed n hn)).trans (ih.surveyed n (Nat.le_trans hn hsize))
    | element ns name attrs children =>
      rw [planNodes]
      rcases walkNode_element hfirst with ⟨hallowed, rfl, hview, hupdate, hcreate⟩ |
        ⟨hallowed, content, p₃, hview, hupdate, hcreate, hcontent, rfl⟩
      · rw [hview, size_alloc] at ih
        rw [hallowed]
        exact ih.skip hview hupdate hcreate
      · rw [hallowed]
        have hinner := walked_walkNodes cfg hgrowing hfollows children _ p₃ p₁ content hcontent
        have hgrow₁ := grows_walkNodes cfg hgrowing 0 p.view.size children p₃ (Nat.zero_le _)
        rw [after_of_ok hcontent, hview] at hgrow₁
        rw [hview, Pass.size_addNext] at hinner
        rw [hinner.size_eq] at ih
        refine ⟨?_, ih.size_eq, ?_, ?_, fun hb => ?_, fun n hn => ?_⟩
        · rw [ih.code_eq, hinner.code_eq]
          simp [CaseCode.append, Plan.create, Plan.remove, Plan.update]
        · rw [ih.update_eq, hinner.update_eq, hupdate, append_assoc]
          rfl
        · rw [ih.create_eq, hinner.create_eq, hcreate]
        · have hb₀ := Pass.bounded_addNext hb .element (lower name)
          have hb₁ := hgrow₁.bounded hb₀
          have hcontent := hinner.registered (by rw [hview]; exact hb₀)
          exact ⟨Pass.type?_addNext (hgrow₁.trans hgrow) hb,
            hcontent.retained (hgrow.retains hb₁) (fun _ _ h => h), ih.registered hb₁⟩
        · show p.view.Surveyed n ((Plan.posts p.view.size _ ++ Plan.posts parent _).map _) _
          rw [map_append]
          have hsize : p.view.size ≤ p₁.view.size := by
            have := hgrow₁.size_le
            rw [Pass.size_addNext] at this
            omega
          have hcontent := hinner.surveyed n
          rw [hview, Pass.size_addNext] at hcontent
          exact ((p.surveyed_addNext _ _ n).then (hcontent (by omega))).trans (ih.surveyed n (Nat.le_trans hn hsize))

/-! ### Expressions -/

/-- The step has compiled cases by the plan. -/
structure CasesBuilt (parent : Int) (r : CasePlans × Nat) (cases : List CompiledCase) (p p' : Pass) :
    Prop where
  cases_eq : cases = r.1.compiled parent
  size_eq : p'.view.size = r.2
  update_eq : p'.update = p.update ++ r.1.stream
  create_eq : p'.create = p.create
  registered : p.view.Bounded → r.1.Registered p'.view parent
  surveyed : ∀ n ≤ p.view.size, p.view.Surveyed n ((r.1.posts parent).map (·.anchor)) p'.view

theorem compileCase_eq_ok {label markup : String} {case : CompiledCase}
    (h : compileCase cfg parent label markup nested p = .ok case p') :
    ∃ code, walkNodes cfg nested parent (cfg.nodesOf markup) p = .ok code p' ∧
      case = ⟨label, code.create, code.remove, code.update⟩ := by
  unfold compileCase at h
  unfold Config.nodesOf
  cases hparse : cfg.parseFragment markup with
  | error reason =>
    rw [hparse] at h
    cases h
  | ok nodes =>
    rw [hparse] at h
    obtain ⟨code, p₁, hwalk, h⟩ := bind_eq_ok.mp h
    obtain ⟨rfl, rfl⟩ := pure_eq_ok.mp h
    exact ⟨code, hwalk, rfl⟩

theorem icu?_setIcu {anchor : Int} {id : Nat} (h : t.Vacant anchor id)
    (icu : CompiledIcu) : (t.setIcu anchor icu).icu? anchor = some icu := by
  obtain ⟨hid, node, hnode, -⟩ := h
  have hslot : (t.setIcu anchor icu).slot? anchor = some (.node id) := by
    rw [setIcu_eq hid]
    exact nodeId?_eq_some.mp hid
  unfold icu?
  rw [hslot, setIcu_eq hid]
  show (t.nodes.modify id _)[id]?.bind _ = _
  rw [Array.getElem?_modify, if_pos rfl, hnode]
  rfl

theorem slots_alloc_self (t : TemplateView) : (t.alloc 1).slots[t.size]? = some .empty := by
  show (t.slots ++ Array.replicate 1 Slot.empty)[t.slots.size]? = _
  simp

/-- The pass before the cases of an expression: the slot of the active case is there, and the instruction
that chooses it. -/
def Pass.beforeCases (p : Pass) (anchor : Nat) (main : Int) : Pass :=
  { p with view := p.view.alloc 1, update := p.update ++ [switchOp anchor main] }

theorem compileIcu_eq_ok {kind : IcuKind} {main : Int} {cases : List Case}
    {anchor : Nat} (h : compileIcu cfg (.mk kind main cases) parent anchor p = .ok () p') :
    ∃ compiled p₁, compileCases cfg parent cases (p.beforeCases anchor main) = .ok compiled p₁ ∧ p' = { p₁ with
        view := p₁.view.setIcu anchor ⟨kind, anchor, p.view.size, compiled⟩
        update := p₁.update ++ updateOps anchor (casesMask compiled) } := by
  unfold compileIcu at h
  obtain ⟨current, p₁, halloc, h⟩ := bind_eq_ok.mp h
  cases halloc
  obtain ⟨_, p₂, hemit, h⟩ := bind_eq_ok.mp h
  cases hemit
  obtain ⟨compiled, p₃, hcases, h⟩ := bind_eq_ok.mp h
  obtain ⟨_, p₄, hset, h⟩ := bind_eq_ok.mp h
  cases hset
  refine ⟨compiled, p₃, hcases, ?_⟩
  unfold updateOps
  by_cases hmask : casesMask compiled = 0#32
  · rw [hmask] at h
    cases h
    rw [if_pos hmask, append_nil]
  · dsimp only at h
    rw [if_pos (by simpa using hmask)] at h
    cases h
    rw [if_neg hmask]

mutual

theorem follows_compileIcu (cfg : Config) : ∀ e : Icu, NestedIcu.Follows (compileIcu cfg e) (planIcu cfg e)
  | .mk kind main cases => by
    intro parent anchor id p p' hvacant h
    obtain ⟨compiled, p₁, hcases, rfl⟩ := compileIcu_eq_ok h
    have hbuilt := built_compileCases cfg cases parent _ p₁ compiled hcases
    have hsize : (p.beforeCases anchor main).view.size = p.view.size + 1 := size_alloc p.view 1
    rw [hsize] at hbuilt
    have hgrow := grows_compileCases cfg cases p.view.nodes.size parent (p.beforeCases anchor main) (Nat.le_refl _)
    rw [after_of_ok hcases] at hgrow
    -- The slot of the anchor is still vacant when the expression is registered.
    have hlt : id < p.view.nodes.size := by
      obtain ⟨-, node, hnode, -⟩ := hvacant
      exact (Array.getElem?_eq_some_iff.mp hnode).choose
    have hvacant₁ : p₁.view.Vacant anchor id :=
      (hvacant.grows hlt (grows_alloc untouched _ p.view 1)).grows hlt hgrow
    have ⟨hid, node, hnode, hnone⟩ := hvacant₁
    have hslots : ∀ icu, (p₁.view.setIcu anchor icu).slots = p₁.view.slots := fun icu => by
      rw [setIcu_eq hid]
      rfl
    have hset : p₁.view.Grows untouched 0 (p₁.view.setIcu anchor ⟨kind, anchor, p.view.size, compiled⟩) :=
      grows_setIcu hid (Nat.zero_le _) (by rw [hnode]; exact hnone) untouched _
    rw [planIcu]
    refine ⟨?_, ?_, hbuilt.create_eq, fun hb => ⟨?_, ?_, ?_⟩, fun n hn => ?_⟩
    · show (p₁.view.setIcu anchor _).slots.size = _
      rw [hslots]
      exact hbuilt.size_eq
    · rw [hbuilt.update_eq, hbuilt.cases_eq, CasePlans.casesMask_compiled]
      simp [Pass.beforeCases, IcuPlan.stream]
    · rw [icu?_setIcu hvacant₁, hbuilt.cases_eq]
      rfl
    · have hnew : p.view.size < (p.beforeCases anchor main).view.size := by omega
      rw [hslots, hgrow.slots _ hnew (fun h => h)]
      exact slots_alloc_self p.view
    · have hb₁ := hgrow.bounded (bounded_alloc hb 1)
      exact (hbuilt.registered (bounded_alloc hb 1)).retained (hset.retains hb₁) (fun _ _ h => h)
    · have hanchor : anchor < p.view.size := by
        obtain ⟨hid, -⟩ := hvacant
        have hslot := nodeId?_eq_some.mp hid
        rw [slot?_natCast] at hslot
        exact (Array.getElem?_eq_some_iff.mp hslot).1
      have hcases := hbuilt.surveyed n (by omega)
      refine (((surveyed_alloc n p.view 1).then hcases).trans (surveyed_setIcu hn hid _)).mono fun k hk => ?_
      rcases mem_append.mp hk with hk | hk
      · exact mem_cons_of_mem _ hk
      · rw [mem_singleton.mp hk]
        exact mem_cons_self

theorem built_compileCases (cfg : Config) :
    ∀ (cases : List Case) (parent : Int) (p p' : Pass) (compiled : List CompiledCase),
      compileCases cfg parent cases p = .ok compiled p' →
        CasesBuilt parent (planCases cfg cases p.view.size) compiled p p'
  | [], parent, p, p', compiled, h => by
    unfold compileCases at h
    obtain ⟨rfl, rfl⟩ := pure_eq_ok.mp h
    rw [planCases]
    exact ⟨rfl, rfl, (append_nil _).symm, rfl, fun _ => trivial, fun n _ => .refl n _⟩
  | .mk label body :: rest, parent, p, p', compiled, h => by
    unfold compileCases at h
    obtain ⟨case, p₁, hcase, h⟩ := bind_eq_ok.mp h
    obtain ⟨others, p₂, hrest, h⟩ := bind_eq_ok.mp h
    obtain ⟨rfl, rfl⟩ := pure_eq_ok.mp h
    obtain ⟨code, hwalk, rfl⟩ := compileCase_eq_ok hcase
    have hgrowing := grows_nestedIcus cfg body
    have hwalked := walked_walkNodes cfg hgrowing (follows_nestedIcus cfg body) _ parent p p₁ code hwalk
    have ih := built_compileCases cfg rest parent p₁ p₂ others hrest
    have hgrow₁ := grows_walkNodes cfg hgrowing 0 parent (cfg.nodesOf (caseMarkup 0 body)) p (Nat.zero_le _)
    rw [after_of_ok hwalk] at hgrow₁
    have hgrow := grows_compileCases cfg rest 0 parent p₁ (Nat.zero_le _)
    rw [after_of_ok hrest] at hgrow
    rw [hwalked.size_eq] at ih
    rw [planCases]
    refine ⟨?_, ih.size_eq, ?_, ih.create_eq.trans hwalked.create_eq, fun hb => ?_, fun n hn => ?_⟩
    · rw [ih.cases_eq, hwalked.code_eq]
      rfl
    · rw [ih.update_eq, hwalked.update_eq, append_assoc]
      rfl
    · have hb₁ := hgrow₁.bounded hb
      exact ⟨(hwalked.registered hb).retained (hgrow.retains hb₁) (fun _ _ h => h), ih.registered hb₁⟩
    · rw [CasePlans.posts, map_append]
      exact (hwalked.surveyed n hn).trans (ih.surveyed n (Nat.le_trans hn hgrow₁.size_le))

theorem follows_nestedIcus (cfg : Config) : ∀ (body : List Segment) (k : Nat),
      Option.Rel NestedIcu.Follows (nestedIcus cfg body)[k]? (nestedPlans cfg body)[k]?
  | [], k => by
    rw [nestedIcus, nestedPlans]
    exact .none
  | .text _ :: rest, k => by
    rw [nestedIcus, nestedPlans]
    exact follows_nestedIcus cfg rest k
  | .icu e :: rest, 0 => by
    rw [nestedIcus, nestedPlans]
    exact .some (follows_compileIcu cfg e)
  | .icu e :: rest, k + 1 => by
    rw [nestedIcus, nestedPlans]
    exact follows_nestedIcus cfg rest k

end

end MessageCompiler
