/-
The update stream of a message.

In the stream, an expression is a bracket: the instruction that chooses its case comes first, the one that
updates the chosen case comes last, if there is one, and the instructions of all that is inside its cases
stand between them.
-/
import Mathlib.Data.List.Flatten
import Mathlib.Logic.Relation
import MessageCompiler.Proofs.Filling
import MessageCompiler.Proofs.Origins

namespace MessageCompiler

open List
open Markup (Node)

variable {t : TemplateView} {α β : Type} {e : Icu} {x : Nat × IcuPlan} {a' : Int}

/-! ### Anchors -/

def IcuCreateOp.anchor? : IcuCreateOp → Option Int
  | .anchor index _ => some index
  | _ => none

def CompiledCase.anchors (code : CompiledCase) : List Int := code.create.filterMap IcuCreateOp.anchor?

def Block.anchors (block : Block) : List Int := (block.create.filter (·.comment)).map (·.index)

/-- The expressions that the comments among nodes stand for, in order; nothing below an element that is not
allowed counts. -/
def anchored (cfg : Config) (nested : List Icu) : List Node → List Icu
  | [] => []
  | .text _ :: rest => anchored cfg nested rest
  | .comment data :: rest => ((commentTarget? nested data).map (·.2)).toList ++ anchored cfg nested rest
  | .element _ name _ children :: rest =>
    (if cfg.elements.has (Text.lower name) then anchored cfg nested children else []) ++ anchored cfg nested rest

/-- The expressions of a case that its markup has a place for, in order. -/
def Case.nested (cfg : Config) (case : Case) : List Icu :=
  anchored cfg (case.body.filterMap Segment.expression?) (cfg.nodesOf (caseMarkup 0 case.body))

/-- An expression of the message stands at an anchor. Those outside of any case have the anchors of the create
stream, in order, and those of a case the anchors that the case creates. -/
inductive CompiledAt (cfg : Config) (t : TemplateView) (block : Block) (roots : List Icu) : Icu → Int → Prop where
  | root {e : Icu} {a : Int} (h : (e, a) ∈ roots.zip block.anchors) : CompiledAt cfg t block roots e a
  | nested {e e' : Icu} {a a' : Int} {icu : CompiledIcu} {case : Case} {code : CompiledCase}
      (h : CompiledAt cfg t block roots e a) (hicu : t.icu? a = some icu)
      (hcase : (case, code) ∈ e.cases.zip icu.cases) (hanchor : (e', a') ∈ (case.nested cfg).zip code.anchors) :
      CompiledAt cfg t block roots e' a'

/-- A case of the expression at the anchor `a` creates the anchor `a'`. -/
def Encloses (t : TemplateView) (a a' : Int) : Prop :=
  ∃ icu, t.icu? a = some icu ∧ ∃ code ∈ icu.cases, a' ∈ code.anchors

/-! ### The expressions of a plan -/

namespace Plan

def nested : Plan → List (Nat × IcuPlan)
  | .nil => []
  | .text _ _ rest => rest.nested
  | .element _ _ _ _ content rest => content.nested ++ rest.nested
  | .icu slot _ inner rest => (slot, inner) :: rest.nested

theorem stream_eq_flatMap (plan : Plan) : plan.stream = plan.nested.flatMap fun x => x.2.stream x.1 := by
  cases plan with
  | nil => rfl
  | text _ _ rest => exact rest.stream_eq_flatMap
  | element _ _ _ _ content rest =>
    rw [Plan.stream, nested, flatMap_append, ← content.stream_eq_flatMap, ← rest.stream_eq_flatMap]
  | icu slot _ inner rest =>
    rw [Plan.stream, nested, flatMap_cons, ← rest.stream_eq_flatMap]

theorem nested_sublist (plan : Plan) : (plan.nested.flatMap fun x => x.1 :: x.2.slots).Sublist plan.slots := by
  cases plan with
  | nil => exact .slnil
  | text slot _ rest => exact rest.nested_sublist.cons slot
  | element slot _ _ _ content rest =>
    rw [Plan.slots, nested, flatMap_append]
    exact (content.nested_sublist.append rest.nested_sublist).cons slot
  | icu slot _ inner rest =>
    rw [Plan.slots, nested, flatMap_cons]
    exact ((List.Sublist.refl inner.slots).append rest.nested_sublist).cons_cons slot

theorem Registered.nested : ∀ {plan : Plan} {parent : Int}, plan.Registered t parent →
    ∀ x ∈ plan.nested, ∃ parent', x.2.Registered t parent' x.1
  | .nil, _, _, x, hx => by cases hx
  | .text _ _ rest, parent, h, x, hx => h.2.nested x hx
  | .element _ _ _ _ content rest, parent, h, x, hx => by
    rcases mem_append.mp hx with hx | hx
    · exact h.2.1.nested x hx
    · exact h.2.2.nested x hx
  | .icu slot _ inner rest, parent, h, x, hx => by
    rcases mem_cons.mp hx with rfl | hx
    · exact ⟨parent, h.2.1⟩
    · exact h.2.2.nested x hx

theorem anchors_create (plan : Plan) (parent : Int) :
    (plan.create parent).filterMap IcuCreateOp.anchor? = plan.nested.map fun x => (x.1 : Int) := by
  cases plan with
  | nil => rfl
  | text _ _ rest => exact rest.anchors_create parent
  | element slot _ fixed _ content rest =>
    have hfixed : (fixed.map fun a => IcuCreateOp.setAttribute slot a.1 a.2).filterMap IcuCreateOp.anchor? = [] := by
      simp [IcuCreateOp.anchor?]
    simp only [Plan.create, filterMap_cons, IcuCreateOp.anchor?, filterMap_append, hfixed, nil_append,
      content.anchors_create, rest.anchors_create, nested, map_append]
  | icu slot _ inner rest =>
    simp only [Plan.create, filterMap_cons, IcuCreateOp.anchor?, rest.anchors_create, nested, map_cons]

end Plan

namespace CasePlans

def contents : CasePlans → List (String × Plan)
  | .nil => []
  | .cons label content rest => (label, content) :: rest.contents

theorem stream_eq_flatMap (plans : CasePlans) : plans.stream = plans.contents.flatMap (·.2.stream) := by
  cases plans with
  | nil => rfl
  | cons _ content rest => rw [CasePlans.stream, contents, flatMap_cons, ← rest.stream_eq_flatMap]

theorem slots_eq_flatMap (plans : CasePlans) : plans.slots = plans.contents.flatMap (·.2.slots) := by
  cases plans with
  | nil => rfl
  | cons _ content rest => rw [CasePlans.slots, contents, flatMap_cons, ← rest.slots_eq_flatMap]

theorem compiled_eq_map (parent : Int) (plans : CasePlans) : plans.compiled parent =
    plans.contents.map fun c => ⟨c.1, c.2.create parent, c.2.remove, c.2.update⟩ := by
  cases plans with
  | nil => rfl
  | cons _ content rest => rw [compiled, contents, map_cons, ← rest.compiled_eq_map parent]

theorem Registered.contents {parent : Int} : ∀ {cases : CasePlans}, cases.Registered t parent →
    ∀ c ∈ cases.contents, c.2.Registered t parent
  | .nil, _, c, hc => by cases hc
  | .cons _ content rest, h, c, hc => by
    rcases mem_cons.mp hc with rfl | hc
    · exact h.1
    · exact h.2.contents c hc

end CasePlans

/-! ### Plans and sources -/

theorem nestedPlans_eq_map (cfg : Config) (body : List Segment) :
    nestedPlans cfg body = (body.filterMap Segment.expression?).map (planIcu cfg) := by
  induction body with
  | nil =>
    rw [nestedPlans]
    rfl
  | cons segment rest ih =>
    cases segment with
    | text s =>
      rw [nestedPlans, ih]
      rfl
    | icu e =>
      rw [nestedPlans, ih]
      rfl

theorem commentTarget?_map (f : α → β) (nested : List α) (data : String) :
    commentTarget? (nested.map f) data = (commentTarget? nested data).map fun x => (x.1, f x.2) := by
  unfold commentTarget?
  split
  · rfl
  · simp [Function.comp_def]

theorem planned_planNodes (cfg : Config) (es : List Icu) : ∀ (nodes : List Node) (n : Nat),
    List.Forall₂ (Icu.Planned cfg) (anchored cfg es nodes) (planNodes cfg (es.map (planIcu cfg)) nodes n).1.nested
  | [], n => by
    rw [planNodes, anchored]
    exact .nil
  | .text value :: rest, n => by
    rw [planNodes, anchored]
    exact planned_planNodes cfg es rest (n + 1)
  | .comment data :: rest, n => by
    rw [planNodes, anchored, commentTarget?_map]
    cases commentTarget? es data with
    | none => exact planned_planNodes cfg es rest (n + 1)
    | some target => exact .cons ⟨n + 1, rfl⟩ (planned_planNodes cfg es rest _)
  | .element _ name attrs children :: rest, n => by
    rw [planNodes, anchored]
    split
    · exact rel_append (planned_planNodes cfg es children (n + 1)) (planned_planNodes cfg es rest _)
    · exact planned_planNodes cfg es rest (n + 1)

def Case.Planned (cfg : Config) (case : Case) (c : String × Plan) : Prop :=
  c.1 = case.label ∧ ∃ n, c.2 = (planNodes cfg ((case.body.filterMap Segment.expression?).map (planIcu cfg))
    (cfg.nodesOf (caseMarkup 0 case.body)) n).1

variable {cfg : Config}

theorem Case.Planned.nested {case : Case} {c : String × Plan} (h : case.Planned cfg c) :
    List.Forall₂ (Icu.Planned cfg) (case.nested cfg) c.2.nested := by
  obtain ⟨-, n, hc⟩ := h
  rw [hc]
  exact planned_planNodes cfg _ _ n

theorem planned_planCases (cfg : Config) (cases : List Case) : ∀ n : Nat,
    List.Forall₂ (Case.Planned cfg) cases (planCases cfg cases n).1.contents := by
  induction cases with
  | nil =>
    intro n
    rw [planCases]
    exact .nil
  | cons c rest ih =>
    intro n
    obtain ⟨label, body⟩ := c
    rw [planCases, nestedPlans_eq_map]
    exact .cons ⟨rfl, n, rfl⟩ (ih _)

/-! ### Parts of a stream -/

/-- The part of the stream in which all instructions for some slots are. -/
def Within (ops part : List UpdateOp) (slots : List Nat) : Prop :=
  ∃ front back, ops = front ++ (part ++ back) ∧ ∀ op ∈ front ++ back, ∀ s ∈ slots, op.index ≠ s

theorem Within.trans {ops part part' : List UpdateOp} {slots slots' : List Nat} (h : Within ops part slots)
    (h' : Within part part' slots') (hsub : slots' ⊆ slots) : Within ops part' slots' := by
  obtain ⟨front, back, rfl, hapart⟩ := h
  obtain ⟨front', back', rfl, hapart'⟩ := h'
  refine ⟨front ++ front', back' ++ back, by simp, fun op hop s hs => ?_⟩
  have hcases : op ∈ front ++ back ∨ op ∈ front' ++ back' := by
    simp only [mem_append] at hop ⊢
    tauto
  rcases hcases with hop | hop
  · exact hapart op hop s (hsub hs)
  · exact hapart' op hop s hs

variable {l : List α} {b : β} {l' : List β} {a : α} {γ : Type}

theorem within_flatMap {stream : α → List UpdateOp} {slots : α → List Nat}
    (hindex : ∀ x, ∀ op ∈ stream x, ∃ s ∈ slots x, op.index = s) (hnodup : (l.flatMap slots).Nodup) {x : α}
    (hx : x ∈ l) : Within (l.flatMap stream) (stream x) (slots x) := by
  obtain ⟨l₁, l₂, rfl⟩ := append_of_mem hx
  rw [flatMap_append, flatMap_cons] at hnodup
  obtain ⟨-, hnodup₂, hfront⟩ := nodup_append.mp hnodup
  obtain ⟨-, -, hback⟩ := nodup_append.mp hnodup₂
  refine ⟨l₁.flatMap stream, l₂.flatMap stream, by rw [flatMap_append, flatMap_cons], ?_⟩
  intro op hop s hs heq
  rcases mem_append.mp hop with hop | hop
  · obtain ⟨y, hy, hop⟩ := mem_flatMap.mp hop
    obtain ⟨s', hs', heq'⟩ := hindex y op hop
    exact hfront s' (mem_flatMap.mpr ⟨y, hy, hs'⟩) s (mem_append_left _ hs) (by omega)
  · obtain ⟨y, hy, hop⟩ := mem_flatMap.mp hop
    obtain ⟨s', hs', heq'⟩ := hindex y op hop
    exact hback s hs s' (mem_flatMap.mpr ⟨y, hy, hs'⟩) (by omega)

theorem Plan.stream_index (plan : Plan) : ∀ op ∈ plan.stream, ∃ s ∈ plan.slots, op.index = s := by
  intro op hop
  obtain ⟨x, hx, hupdates⟩ := plan.mem_stream 0 hop
  exact ⟨x.anchor, (plan.anchors_sublist 0).subset (mem_map_of_mem hx), hupdates.target.1⟩

theorem IcuPlan.stream_index (plan : IcuPlan) (anchor : Nat) : ∀ op ∈ plan.stream anchor,
    ∃ s ∈ anchor :: plan.slots, op.index = s := by
  intro op hop
  obtain ⟨x, hx, hupdates⟩ := plan.mem_stream 0 anchor hop
  exact ⟨x.anchor, (plan.anchors_sublist 0 anchor).subset (mem_map_of_mem hx), hupdates.target.1⟩

theorem CasePlans.stream_index (cases : CasePlans) : ∀ op ∈ cases.stream, ∃ s ∈ cases.slots, op.index = s := by
  intro op hop
  obtain ⟨x, hx, hupdates⟩ := cases.mem_stream 0 hop
  exact ⟨x.anchor, (cases.anchors_sublist 0).subset (mem_map_of_mem hx), hupdates.target.1⟩

theorem eq_of_mem_textUpdate {slot : Nat} {value : String} {op : UpdateOp} (h : op ∈ textUpdate slot value) :
    Message.hasBinding value.toList = true ∧ op = bindingUpdate value slot .text 0 := by
  simp_all [textUpdate]

theorem RootItem.stream_index (item : RootItem) : ∀ op ∈ item.stream, ∃ s ∈ item.slots, op.index = s := by
  intro op hop
  cases item with
  | text slot value eager =>
    obtain ⟨-, rfl⟩ := eq_of_mem_textUpdate hop
    exact ⟨slot, mem_cons_self, rfl⟩
  | icu slot label plan eager => exact plan.stream_index slot op hop

/-! ### Expressions in the stream -/

theorem exists_zip_of_mem_right (hlength : l.length = l'.length) (hb : b ∈ l') : ∃ a, (a, b) ∈ l.zip l' := by
  rw [← map_snd_zip (Nat.le_of_eq hlength.symm)] at hb
  obtain ⟨⟨a, b⟩, hmem, rfl⟩ := mem_map.mp hb
  exact ⟨a, hmem⟩

theorem exists_planIcu {es : List Icu} {xs : List (Nat × IcuPlan)}
    (h : List.Forall₂ (Icu.Planned cfg) es xs) (hx : x ∈ xs) : ∃ e n, x.2 = (planIcu cfg e n).1 := by
  obtain ⟨e, he⟩ := exists_zip_of_mem_right h.length_eq hx
  exact ⟨e, (forall₂_iff_zip.mp h).2 he⟩

theorem sublist_flatMap_of_mem (f : α → List β) (h : a ∈ l) : (f a).Sublist (l.flatMap f) := by
  simpa using (singleton_sublist.mpr h).flatMap f

theorem mem_zip_map {f : β → γ} {c : γ} (h : (a, c) ∈ l.zip (l'.map f)) : ∃ b, (a, b) ∈ l.zip l' ∧ c = f b := by
  rw [zip_map_right] at h
  obtain ⟨⟨a', b⟩, hmem, heq⟩ := mem_map.mp h
  cases heq
  exact ⟨b, hmem, rfl⟩

theorem mem_zip_map_of_mem (f : β → γ) (h : (a, b) ∈ l.zip l') : (a, f b) ∈ l.zip (l'.map f) := by
  rw [zip_map_right]
  exact mem_map.mpr ⟨(a, b), h, rfl⟩

/-- The instructions of the expression at an anchor are a part of the stream, and it is registered. -/
structure Hosted (cfg : Config) (t : TemplateView) (ops : List UpdateOp) (e : Icu) (x : Nat × IcuPlan) : Prop where
  planned : e.Planned cfg x
  registered : ∃ parent, x.2.Registered t parent x.1
  nodup : (x.1 :: x.2.slots).Nodup
  within : Within ops (x.2.stream x.1) (x.1 :: x.2.slots)

section Hosted

variable {cfg : Config} {t : TemplateView} {ops : List UpdateOp}
variable {cases : CasePlans} {current : Nat} {kind : IcuKind} {main : Int} {e' : Icu} {icu : CompiledIcu}

theorem within_cases {anchor : Nat} (hnodup : (anchor :: (IcuPlan.mk kind main current cases).slots).Nodup) :
    Within ((IcuPlan.mk kind main current cases).stream anchor) cases.stream cases.slots := by
  refine ⟨[switchOp anchor main], updateOps anchor cases.mask, by rw [IcuPlan.stream]; rfl, fun op hop s hs heq => ?_⟩
  have hanchor : op.index = anchor := by
    rcases mem_append.mp hop with hop | hop
    · rw [mem_singleton.mp hop]
      rfl
    · rw [eq_of_mem_updateOps hop]
  have hne : anchor ∉ current :: cases.slots := (nodup_cons.mp hnodup).1
  grind

theorem Hosted.nested {x' : Nat × IcuPlan} {c : String × Plan} (h : Hosted cfg t ops e x)
    (hx : x.2 = .mk kind main current cases) (hc : c ∈ cases.contents) (hx' : x' ∈ c.2.nested)
    (hplanned : e'.Planned cfg x') :
    Hosted cfg t ops e' x' ∧ (x'.1 :: x'.2.slots).Sublist cases.slots := by
  obtain ⟨-, ⟨parent, hregistered⟩, hnodup, hwithin⟩ := h
  rw [hx] at hregistered hnodup hwithin
  have hcontent : c.2.slots.Sublist cases.slots := by
    grind [cases.slots_eq_flatMap, sublist_flatMap_of_mem]
  have hnested : (x'.1 :: x'.2.slots).Sublist c.2.slots := by
    have hmember : (x'.1 :: x'.2.slots).Sublist (c.2.nested.flatMap fun x => x.1 :: x.2.slots) :=
      sublist_flatMap_of_mem (fun x : Nat × IcuPlan => x.1 :: x.2.slots) hx'
    exact hmember.trans c.2.nested_sublist
  have hcases : cases.slots.Nodup := (nodup_cons.mp (nodup_cons.mp hnodup).2).2
  have hinside : Within ops cases.stream cases.slots :=
    hwithin.trans (within_cases hnodup) fun s hs => mem_cons_of_mem _ (mem_cons_of_mem _ hs)
  have hcase : Within cases.stream c.2.stream c.2.slots := by
    rw [cases.stream_eq_flatMap]
    refine within_flatMap (fun c => c.2.stream_index) ?_ hc
    rwa [← cases.slots_eq_flatMap]
  have hpart : Within c.2.stream (x'.2.stream x'.1) (x'.1 :: x'.2.slots) := by
    rw [c.2.stream_eq_flatMap]
    exact within_flatMap (fun x => x.2.stream_index x.1) ((hcases.sublist hcontent).sublist c.2.nested_sublist) hx'
  refine ⟨⟨hplanned, (hregistered.2.2.contents c hc).nested x' hx', ?_, ?_⟩, hnested.trans hcontent⟩
  · grind
  · exact (hinside.trans hcase hcontent.subset).trans hpart hnested.subset

theorem Icu.Planned.exists_cases (h : e.Planned cfg x) :
    ∃ current cases, x.2 = .mk e.kind e.main current cases ∧ List.Forall₂ (Case.Planned cfg) e.cases cases.contents := by
  obtain ⟨n, hx⟩ := h
  cases e with
  | mk kind main sources =>
    rw [planIcu] at hx
    exact ⟨n, _, hx, planned_planCases cfg sources (n + 1)⟩

/-- The registered expression has the cases of its source, with an anchor for every expression in them. -/
def Icu.Mirrored (cfg : Config) (e : Icu) (icu : CompiledIcu) : Prop :=
  icu.kind = e.kind ∧ List.Forall₂ (fun (case : Case) (code : CompiledCase) =>
    code.label = case.label ∧ code.anchors.length = (case.nested cfg).length) e.cases icu.cases

section

variable (h : Hosted cfg t ops e x)
include h

theorem Hosted.mirrored : ∃ icu, t.icu? x.1 = some icu ∧ icu.anchor = x.1 ∧ e.Mirrored cfg icu := by
  obtain ⟨parent, hregistered⟩ := h.registered
  obtain ⟨current, cases, hx, hcases⟩ := h.planned.exists_cases
  refine ⟨_, hregistered.icu?_eq, ?_⟩
  rw [hx, IcuPlan.compiled]
  refine ⟨rfl, rfl, ?_⟩
  rw [cases.compiled_eq_map, forall₂_map_right_iff]
  refine hcases.imp fun case c hc => ⟨hc.1, ?_⟩
  show (List.filterMap IcuCreateOp.anchor? _).length = _
  rw [c.2.anchors_create, length_map, hc.nested.length_eq]

theorem Hosted.enclosed {case : Case} {code : CompiledCase}
    (hicu : t.icu? x.1 = some icu) (hcase : (case, code) ∈ e.cases.zip icu.cases)
    (hanchor : (e', a') ∈ (case.nested cfg).zip code.anchors) :
    ∃ x' : Nat × IcuPlan, a' = x'.1 ∧ Hosted cfg t ops e' x' ∧ x'.1 :: x'.2.slots ⊆ x.2.slots := by
  obtain ⟨parent, hregistered⟩ := h.registered
  obtain ⟨current, cases, hx, hcases⟩ := h.planned.exists_cases
  rw [hregistered.icu?_eq, hx, IcuPlan.compiled] at hicu
  cases hicu
  rw [cases.compiled_eq_map] at hcase
  obtain ⟨c, hc, rfl⟩ := mem_zip_map hcase
  have hnested := ((forall₂_iff_zip.mp hcases).2 hc).nested
  have hanchors : CompiledCase.anchors ⟨c.1, c.2.create parent, c.2.remove, c.2.update⟩ =
      c.2.nested.map fun x => (x.1 : Int) := c.2.anchors_create parent
  rw [hanchors] at hanchor
  obtain ⟨x', hx', rfl⟩ := mem_zip_map hanchor
  obtain ⟨hhosted, hsub⟩ := h.nested hx (of_mem_zip hc).2 (of_mem_zip hx').2 ((forall₂_iff_zip.mp hnested).2 hx')
  grind [IcuPlan.slots]

theorem Hosted.of_encloses (ha : Encloses t x.1 a') :
    ∃ (e' : Icu) (x' : Nat × IcuPlan), a' = x'.1 ∧ Hosted cfg t ops e' x' ∧ x'.1 :: x'.2.slots ⊆ x.2.slots := by
  obtain ⟨icu, hicu, code, hcode, hanchor⟩ := ha
  obtain ⟨icu', hicu', -, -, hmirrored⟩ := h.mirrored
  cases hicu.symm.trans hicu'
  obtain ⟨case, hcase⟩ := exists_zip_of_mem_right hmirrored.length_eq hcode
  obtain ⟨-, hlength⟩ := (forall₂_iff_zip.mp hmirrored).2 hcase
  obtain ⟨e', he'⟩ := exists_zip_of_mem_right hlength.symm hanchor
  exact ⟨e', h.enclosed hicu hcase he'⟩

theorem Hosted.mem_slots (ha : Relation.TransGen (Encloses t) x.1 a') : ∃ s ∈ x.2.slots, a' = s := by
  suffices hinside : ∃ (e' : Icu) (x' : Nat × IcuPlan), a' = x'.1 ∧ Hosted cfg t ops e' x' ∧
      x'.1 :: x'.2.slots ⊆ x.2.slots by
    grind
  induction ha with
  | single ha => exact h.of_encloses ha
  | tail _ ha ih =>
    obtain ⟨e', x', rfl, hx', hsub⟩ := ih
    grind [hx'.of_encloses, mem_cons_of_mem]

end

/-! ### Brackets -/

/-- The instruction that updates the chosen case, unless no case has anything to update. It waits for whatever
an instruction of a case waits for. -/
def CompiledIcu.closing (icu : CompiledIcu) : List UpdateOp :=
  if icu.cases.all (·.update.isEmpty) then [] else [⟨casesMask icu.cases, [], icu.anchor, .icuUpdate⟩]

theorem updateOps_eq_closing (parent : Int) (anchor : Nat) (kind : IcuKind) (main : Int) (current : Nat)
    (cases : CasePlans) :
    updateOps anchor cases.mask = (IcuPlan.compiled parent anchor (.mk kind main current cases)).closing := by
  have hmask : cases.updates = [] ↔ cases.mask = 0#32 := by
    refine ⟨fun hnil => ?_, CasePlans.updates_eq_nil⟩
    unfold CasePlans.mask
    rw [hnil]
    rfl
  have hempty : (cases.compiled parent).all (·.update.isEmpty) = true ↔ cases.mask = 0#32 := by
    rw [← hmask, ← cases.flatMap_compiled parent, flatMap_eq_nil_iff]
    simp
  unfold updateOps CompiledIcu.closing
  rw [IcuPlan.compiled]
  simp only [hempty, cases.casesMask_compiled]

/-- The instructions of the expression `e` at the anchor `a`, and of all that is inside its cases, in the stream:
one chooses the case, the `inner` ones are for what is inside, and one updates the chosen case if need be. -/
structure Brackets (t : TemplateView) (ops : List UpdateOp) (e : Icu) (a : Int) (icu : CompiledIcu)
    (front inner back : List UpdateOp) : Prop where
  eq : ops = front ++ ⟨Mask.ofBinding e.main, [.binding e.main], a, .icuSwitch⟩ :: (inner ++ (icu.closing ++ back))
  own : ∀ op ∈ front ++ inner ++ back, op.index ≠ a
  inside : ∀ a', Relation.TransGen (Encloses t) a a' → ∀ op ∈ front ++ back, op.index ≠ a'

theorem Hosted.brackets (h : Hosted cfg t ops e x) (hicu : t.icu? x.1 = some icu) :
    ∃ front inner back, Brackets t ops e x.1 icu front inner back := by
  obtain ⟨parent, hregistered⟩ := h.registered
  obtain ⟨current, cases, hx, -⟩ := h.planned.exists_cases
  have hnodup := h.nodup
  obtain ⟨front, back, heq, hapart⟩ := h.within
  rw [hregistered.icu?_eq] at hicu
  cases hicu
  rw [hx] at hnodup
  refine ⟨front, cases.stream, back, ?_, fun op hop => ?_, fun a' ha op hop => ?_⟩
  · rw [heq, hx, IcuPlan.stream, updateOps_eq_closing parent, cons_append, append_assoc]
    rfl
  · have hcases : op ∈ front ++ back ∨ op ∈ cases.stream := by
      simp only [mem_append] at hop ⊢
      tauto
    rcases hcases with hop | hop
    · exact hapart op hop x.1 mem_cons_self
    · intro hindex
      obtain ⟨s, hs, hindex'⟩ := cases.stream_index op hop
      have hsame : x.1 = s := by omega
      exact (nodup_cons.mp hnodup).1 (hsame ▸ mem_cons_of_mem current hs)
  · obtain ⟨s, hs, rfl⟩ := h.mem_slots ha
    exact hapart op hop s (mem_cons_of_mem _ hs)

theorem Hosted.exists_compiledAt {block : Block} {roots : List Icu} : ∀ (size : Nat) {e : Icu} {x : Nat × IcuPlan},
    x.2.slots.length ≤ size → Hosted cfg t ops e x → CompiledAt cfg t block roots e x.1 → ∀ op ∈ x.2.stream x.1,
      (op.target = .icuSwitch ∨ op.target = .icuUpdate) ∧ ∃ e' x', Hosted cfg t ops e' x' ∧
        CompiledAt cfg t block roots e' op.index ∧ op.index = x'.1 := by
  intro size
  -- the slots of a nested expression are fewer, since the outer one has a slot of its own
  induction size with
  | zero =>
    intro e x hsize h
    obtain ⟨current, cases, hx, -⟩ := h.planned.exists_cases
    rw [hx, IcuPlan.slots, length_cons] at hsize
    omega
  | succ size ih =>
    intro e x hsize h hat op hop
    obtain ⟨parent, hregistered⟩ := h.registered
    obtain ⟨current, cases, hx, hcases⟩ := h.planned.exists_cases
    have hicu := hregistered.icu?_eq
    rw [hx, IcuPlan.compiled, cases.compiled_eq_map] at hicu
    rw [hx, IcuPlan.stream] at hop
    have hown : ∀ target, op.target = target → (target = .icuSwitch ∨ target = .icuUpdate) → op.index = x.1 →
        (op.target = .icuSwitch ∨ op.target = .icuUpdate) ∧ ∃ e' x', Hosted cfg t ops e' x' ∧
          CompiledAt cfg t block roots e' op.index ∧ op.index = x'.1 := by
      intro target htarget hkind hindex
      rw [htarget, hindex]
      exact ⟨hkind, e, x, h, hat, rfl⟩
    rcases mem_cons.mp hop with rfl | hop
    · exact hown .icuSwitch rfl (.inl rfl) rfl
    rcases mem_append.mp hop with hop | hop
    · rw [cases.stream_eq_flatMap] at hop
      obtain ⟨c, hc, hop⟩ := mem_flatMap.mp hop
      rw [c.2.stream_eq_flatMap] at hop
      obtain ⟨x', hx', hop⟩ := mem_flatMap.mp hop
      obtain ⟨case, hcase⟩ := exists_zip_of_mem_right hcases.length_eq hc
      have hnested := ((forall₂_iff_zip.mp hcases).2 hcase).nested
      obtain ⟨e', he'⟩ := exists_zip_of_mem_right hnested.length_eq hx'
      obtain ⟨hhosted, hsub⟩ := h.nested hx hc hx' ((forall₂_iff_zip.mp hnested).2 he')
      have hcode := mem_zip_map_of_mem
        (fun c : String × Plan => CompiledCase.mk c.1 (c.2.create parent) c.2.remove c.2.update) hcase
      have hanchor : (e', (x'.1 : Int)) ∈ (case.nested cfg).zip
          (CompiledCase.anchors ⟨c.1, c.2.create parent, c.2.remove, c.2.update⟩) := by
        unfold CompiledCase.anchors
        rw [c.2.anchors_create]
        exact mem_zip_map_of_mem _ he'
      refine ih ?_ hhosted (.nested hat hicu hcode hanchor) op hop
      have := hsub.length_le
      rw [hx, IcuPlan.slots, length_cons] at hsize
      rw [length_cons] at this
      omega
    · cases eq_of_mem_updateOps hop
      exact hown .icuUpdate rfl (.inr rfl) rfl

end Hosted

/-! ### The stream of a message -/

/-- The update stream of a message with the expressions `roots` outside of any case. -/
structure Bracketed (cfg : Config) (t : TemplateView) (block : Block) (roots : List Icu) : Prop where
  /-- A text waits for the bindings in it, of which there are some. -/
  text : ∀ op ∈ block.update, op.target = .text →
    op.bindings ≠ [] ∧ op.mask = op.bindings.foldl (fun m i => m ||| Mask.ofBinding i) 0#32
  length_anchors : block.anchors.length = roots.length
  /-- Every expression is registered at its anchor and is a bracket in the stream. -/
  expression : ∀ e a, CompiledAt cfg t block roots e a → ∃ icu, t.icu? a = some icu ∧ icu.anchor = a ∧
    e.Mirrored cfg icu ∧ ∃ front inner back, Brackets t block.update e a icu front inner back
  /-- What is not a text belongs to an expression. -/
  other : ∀ op ∈ block.update, op.target ≠ .text → (op.target = .icuSwitch ∨ op.target = .icuUpdate) ∧
    ∃ e icu, CompiledAt cfg t block roots e op.index ∧ t.icu? op.index = some icu ∧ icu.anchor = op.index

section Compiled

variable {cfg : Config} {t t' : TemplateView} {block : Block} {parent : Int} {items : List RootItem} {roots : List Icu}

section

variable (h : Compiled t t' block parent items)
include h

theorem Compiled.anchors_eq : block.anchors = (items.filterMap RootItem.expression?).map fun x => (x.1 : Int) := by
  unfold Block.anchors
  rw [h.create_eq]
  generalize items = items
  induction items with
  | nil => rfl
  | cons item items ih =>
    cases item with
    | text slot value eager => exact ih
    | icu slot label plan eager => exact congrArg ((slot : Int) :: ·) ih

theorem Compiled.hosted {slot : Nat} {label : String} {plan : IcuPlan}
    {eager : Bool} (hitem : .icu slot label plan eager ∈ items) (hplanned : e.Planned cfg (slot, plan)) :
    Hosted cfg t' block.update e (slot, plan) := by
  have hnodup := h.increasing.nodup
  have hsub : (slot :: plan.slots).Sublist (items.flatMap RootItem.slots) :=
    sublist_flatMap_of_mem RootItem.slots hitem
  refine ⟨hplanned, ⟨parent, (h.registered _ hitem).2⟩, hnodup.sublist hsub, ?_⟩
  rw [h.update_eq]
  exact within_flatMap RootItem.stream_index hnodup hitem

/-- An expression that stands at an anchor is hosted in the stream: at the top level by the plan of its item, and
then from case to case. -/
theorem Compiled.hosted_compiledAt
    (hroots : List.Forall₂ (Icu.Planned cfg) roots (items.filterMap RootItem.expression?)) {a : Int}
    (hat : CompiledAt cfg t' block roots e a) : ∃ x : Nat × IcuPlan, a = x.1 ∧ Hosted cfg t' block.update e x := by
  induction hat with
  | root hroot =>
    rw [h.anchors_eq] at hroot
    obtain ⟨x, hx, rfl⟩ := mem_zip_map hroot
    obtain ⟨item, hitem, hexpression⟩ := mem_filterMap.mp (of_mem_zip hx).2
    cases item with
    | text slot value eager => cases hexpression
    | icu slot label plan eager =>
      cases hexpression
      exact ⟨(slot, plan), rfl, h.hosted hitem ((forall₂_iff_zip.mp hroots).2 hx)⟩
  | nested _ hicu hcase hanchor ih =>
    obtain ⟨x, rfl, hx⟩ := ih
    obtain ⟨x', heq, hx', -⟩ := hx.enclosed hicu hcase hanchor
    exact ⟨x', heq, hx'⟩

end

theorem bindings_bindingUpdate_ne {value : String} (h : Message.hasBinding value.toList = true) (index : Int)
    (target : Target) : (bindingUpdate value index target 0).bindings ≠ [] := by
  intro hnil
  refine bindingUpdate_mask_ne h index target ?_
  show List.foldl _ _ (bindingUpdate value index target 0).bindings = _
  rw [hnil]
  rfl

theorem Compiled.bracketed (h : Compiled t t' block parent items)
    (hroots : List.Forall₂ (Icu.Planned cfg) roots (items.filterMap RootItem.expression?)) :
    Bracketed cfg t' block roots := by
  have hlength : block.anchors.length = roots.length := by
    rw [h.anchors_eq, length_map, hroots.length_eq]
  -- what an item adds is either the instruction for a text or those of an expression
  have hitems : ∀ op ∈ block.update, (∃ slot value, op ∈ textUpdate slot value) ∨
      ∃ e x, Hosted cfg t' block.update e x ∧ CompiledAt cfg t' block roots e x.1 ∧ op ∈ x.2.stream x.1 := by
    intro op hop
    rw [h.update_eq] at hop
    obtain ⟨item, hitem, hop⟩ := mem_flatMap.mp hop
    cases item with
    | text slot value eager => exact .inl ⟨slot, value, hop⟩
    | icu slot label plan eager =>
      have hmem : (slot, plan) ∈ items.filterMap RootItem.expression? := mem_filterMap.mpr ⟨_, hitem, rfl⟩
      obtain ⟨e, he⟩ := exists_zip_of_mem_right hroots.length_eq hmem
      refine .inr ⟨e, (slot, plan), h.hosted hitem ((forall₂_iff_zip.mp hroots).2 he), .root ?_, hop⟩
      rw [h.anchors_eq]
      exact mem_zip_map_of_mem _ he
  refine ⟨fun op hop htext => ?_, hlength, fun e a hat => ?_, fun op hop hother => ?_⟩
  · rcases hitems op hop with ⟨slot, value, hop⟩ | ⟨e, x, hx, hat, hop⟩
    · obtain ⟨hbinding, rfl⟩ := eq_of_mem_textUpdate hop
      exact ⟨bindings_bindingUpdate_ne hbinding _ _, rfl⟩
    · obtain ⟨hkind, -⟩ := hx.exists_compiledAt _ (Nat.le_refl _) hat op hop
      grind
  · obtain ⟨x, rfl, hx⟩ := h.hosted_compiledAt hroots hat
    obtain ⟨icu, hicu, hanchor, hmirrored⟩ := hx.mirrored
    exact ⟨icu, hicu, hanchor, hmirrored, hx.brackets hicu⟩
  · rcases hitems op hop with ⟨slot, value, hop⟩ | ⟨e, x, hx, hat, hop⟩
    · obtain ⟨-, rfl⟩ := eq_of_mem_textUpdate hop
      exact absurd rfl hother
    · obtain ⟨hkind, e', x', hx', hat', hindex⟩ := hx.exists_compiledAt _ (Nat.le_refl _) hat op hop
      obtain ⟨icu, hicu, hanchor, -⟩ := hx'.mirrored
      grind

end Compiled

theorem Compiles.bracketed {site : Site} {message : String} {scope : Message.Scope}
    {handle : Handle} (h : Compiles t cfg site message scope handle) :
    Bracketed cfg (t.compile cfg site message scope).view handle.block (Message.expressions scope message) := by
  obtain ⟨items, hcompiled, hroots⟩ := exists_compiled h.reachable.sound h.vacant h.result_eq
  exact hcompiled.bracketed hroots

/-- A text, and an expression in whose first case are a bound text and another expression. -/
def layeredMessage : String :=
  "x�2�\x7b�0�, select, a \x7b<b>�3�</b>\x7b�1�, plural, =0 \x7bnone\x7d other \x7b�40�\x7d\x7d\x7d other \x7b\x7d\x7d"

end MessageCompiler
