/-
What markup in a message may bring along.

With the usual lists and sanitizers, the instructions of a case create allowed elements only and bind
allowed attributes only, each with the sanitizer of its context, however the markup was read.
-/
import MessageCompiler.Proofs.Owners

namespace MessageCompiler

open List
open Markup (Node Attr)

/-! ### Allowed instructions -/

def Sanitizer.required (name : String) : Option Sanitizer :=
  if NameSet.uriAttrs.has name then some .url
  else if NameSet.srcsetAttrs.has name then some .srcset
  else none

/-- An instruction of a case writes a text, or an allowed attribute through the sanitizer it needs. -/
def Target.Allowed : Target → Prop
  | .text => True
  | .attribute name sanitizer _ =>
    NameSet.validAttrs.has (Text.lower name) = true ∧ sanitizer = Sanitizer.required (Text.lower name)
  | _ => False

def IcuCreateOp.Allowed : IcuCreateOp → Prop
  | .element _ tag => NameSet.validElements.has tag = true
  | _ => True

def CompiledIcu.Allowed (icu : CompiledIcu) : Prop :=
  ∀ c ∈ icu.cases, (∀ op ∈ c.create, op.Allowed) ∧ ∀ op ∈ c.update, op.target.Allowed

/-- The usual lists and sanitizers, whatever the way to read markup. -/
structure Config.Usual (cfg : Config) : Prop where
  elements : cfg.elements = NameSet.validElements
  attributes : cfg.attributes = NameSet.validAttrs
  sanitizer : cfg.sanitizer = NamedSanitizer.forAttribute

theorem lookup_map_const {β : Type} (names : List String) (b : β) (name : String) :
    (names.map (·, b)).lookup name = if names.contains name then some b else none := by
  induction names with
  | nil => rfl
  | cons other names ih =>
    by_cases h : name = other
    · simp [h]
    · have hne : (name == other) = false := by simpa using h
      simp [lookup_cons, hne, ih, h]

theorem rule_forAttribute (name : String) :
    (NamedSanitizer.forAttribute name).map (·.rule) = Sanitizer.required name := by
  have hcontext : SecurityContext.ofAttribute name =
      if NameSet.uriAttrs.has name then .url else if NameSet.srcsetAttrs.has name then .srcset else .none := by
    rw [SecurityContext.ofAttribute, SecurityContext.schema, lookup_append, lookup_map_const,
      lookup_map_const, NameSet.has, NameSet.has]
    split
    · rfl
    · split <;> rfl
  rw [NamedSanitizer.forAttribute, hcontext, Sanitizer.required]
  by_cases huri : NameSet.uriAttrs.has name = true
  · simp [huri]
  · by_cases hsrcset : NameSet.srcsetAttrs.has name = true
    · simp [huri, hsrcset]
    · simp [huri, hsrcset]

/-! ### Plans -/

section Plans

variable {cfg : Config}

theorem allowed_boundAttrs (hcfg : cfg.Usual) {attrs : List Attr} {slot : Nat} :
    ∀ op ∈ (boundAttrs cfg attrs).map (·.op slot), op.target.Allowed := by
  intro op hop
  obtain ⟨b, hb, rfl⟩ := mem_map.mp hop
  obtain ⟨a, -, ha⟩ := mem_filterMap.mp hb
  dsimp only at ha
  split at ha
  · split at ha
    · next hvalid =>
      cases ha
      show (Target.ofAttribute (attributeName a) (cfg.sanitizer _)).Allowed
      rw [hcfg.attributes] at hvalid
      rw [hcfg.sanitizer, Target.ofAttribute]
      split
      · trivial
      · exact ⟨hvalid, rule_forAttribute _⟩
    · cases ha
  · cases ha

theorem target_textUpdate {slot : Nat} {value : String} {op : UpdateOp} (h : op ∈ textUpdate slot value) :
    op.target = .text := by
  unfold textUpdate at h
  split at h
  · rw [mem_singleton.mp h]
    rfl
  · cases h

theorem allowed_post (hcfg : cfg.Usual) {es : List Icu} {items : List RootItem} {parent : Int}
    (hplanned : List.Forall₂ (Icu.Planned cfg) es (items.filterMap RootItem.expression?)) {post : Post}
    (hpost : post ∈ items.flatMap (·.posts parent)) : post.compiled.Allowed := by
  obtain ⟨item, hitem, hpost⟩ := mem_flatMap.mp hpost
  cases item with
  | text slot value eager => cases hpost
  | icu slot label plan eager =>
    obtain ⟨e, n, heq⟩ := exists_planIcu hplanned (mem_filterMap.mpr ⟨_, hitem, rfl⟩)
    have hplan : plan = (planIcu cfg e n).1 := heq
    rw [RootItem.posts, hplan] at hpost
    have hm : Making cfg (fun _ => True) (fun _ => True) _ _ _ := making_ops (K := IcuCreateOp.Allowed)
      (U := fun op => op.target.Allowed) (fun op hop => ?_) (fun _ tag hvalid => ?_) (fun _ _ _ op hop => ?_)
      fun _ _ _ => allowed_boundAttrs hcfg
    · exact hm.expression (fun _ _ _ _ => trivial) e n e.every_true parent slot post hpost
    · cases op with
      | element slot tag => exact absurd rfl (hop slot tag)
      | _ => trivial
    · rw [hcfg.elements] at hvalid
      exact hvalid
    · rw [target_textUpdate hop]
      trivial

end Plans

/-! ### Elements that are not allowed -/

mutual

/-- The node without the attributes and the content of elements that are not in the set. -/
def Markup.Node.pruned (elements : NameSet) : Node → Node
  | .text value => .text value
  | .comment data => .comment data
  | .element ns name attrs children =>
    if elements.has (Text.lower name) then .element ns name attrs (prunedAll elements children)
    else .element ns name [] []

def Markup.Node.prunedAll (elements : NameSet) : List Node → List Node
  | [] => []
  | node :: rest => node.pruned elements :: prunedAll elements rest

end

/-- The configuration that leaves out what is below elements that are not allowed as soon as markup is
read. -/
def Config.pruning (cfg : Config) : Config :=
  { cfg with parseFragment := fun markup => (cfg.parseFragment markup).map (Node.prunedAll cfg.elements) }

section Pruning

variable (cfg : Config)

theorem compileAttributes_pruning (tag : String) (index : Int) (attrs : List Attr) :
    compileAttributes cfg.pruning tag index attrs = compileAttributes cfg tag index attrs := by
  induction attrs with
  | nil => rfl
  | cons a rest ih =>
    have hone : compileAttribute cfg.pruning = compileAttribute cfg := rfl
    rw [compileAttributes, compileAttributes, ih, hone]

mutual

theorem walkNode_pruned (nested : List NestedIcu) : ∀ (node : Node) (parent : Int),
    walkNode cfg.pruning nested parent (node.pruned cfg.elements) = walkNode cfg nested parent node
  | .text value, parent => rfl
  | .comment data, parent => rfl
  | .element ns name attrs children, parent => by
    rw [Node.pruned]
    have helements : cfg.pruning.elements = cfg.elements := rfl
    split
    · next hallowed =>
      simp_all [walkNode, compileAttributes_pruning, walkNodes_pruned]
    · next hallowed =>
      simp_all [walkNode, Bool.not_false]

theorem walkNodes_pruned (nested : List NestedIcu) : ∀ (nodes : List Node) (parent : Int),
    walkNodes cfg.pruning nested parent (Node.prunedAll cfg.elements nodes) = walkNodes cfg nested parent nodes
  | [], parent => rfl
  | node :: rest, parent => by
    simp [Node.prunedAll, walkNodes, walkNode_pruned, walkNodes_pruned]

end

mutual

theorem compileIcu_pruning : ∀ e : Icu, compileIcu cfg.pruning e = compileIcu cfg e
  | .mk kind main cases => by
    simp [compileIcu, compileCases_pruning]

theorem compileCases_pruning : ∀ (cases : List Case) (parent : Int),
    compileCases cfg.pruning parent cases = compileCases cfg parent cases
  | [], parent => rfl
  | .mk label body :: rest, parent => by
    have hcase : compileCase cfg.pruning parent label (caseMarkup 0 body) (nestedIcus cfg body) =
        compileCase cfg parent label (caseMarkup 0 body) (nestedIcus cfg body) := by
      unfold compileCase
      show (match (cfg.parseFragment (caseMarkup 0 body)).map (Node.prunedAll cfg.elements) with
        | .error reason => _
        | .ok nodes => _) = _
      cases cfg.parseFragment (caseMarkup 0 body) with
      | error reason => rfl
      | ok nodes =>
        dsimp only [Except.map]
        rw [walkNodes_pruned]
    rw [compileCases, compileCases, nestedIcus_pruning body, hcase, compileCases_pruning rest parent]

theorem nestedIcus_pruning : ∀ body : List Segment, nestedIcus cfg.pruning body = nestedIcus cfg body
  | [] => rfl
  | .text _ :: rest => by rw [nestedIcus, nestedIcus, nestedIcus_pruning rest]
  | .icu e :: rest => by rw [nestedIcus, nestedIcus, nestedIcus_pruning rest, compileIcu_pruning e]

end

theorem compileSegments_pruning (site : Site) : ∀ (segments : List Segment) (frame : Frame),
    compileSegments cfg.pruning site frame segments = compileSegments cfg site frame segments := by
  intro segments
  induction segments with
  | nil => exact fun frame => rfl
  | cons segment rest ih =>
    intro frame
    cases segment with
    | text s => simp only [compileSegments, ih]
    | icu e => simp only [compileSegments, ih, compileIcu_pruning]

theorem compileItems_pruning (site : Site) (last : List Char) :
    ∀ (items : List (List Char × Message.Placeholder)) (frame : Frame) (outer : List Frame),
      compileItems cfg.pruning site last frame outer items = compileItems cfg site last frame outer items := by
  have hrun : ∀ (frame : Frame) (text : List Char),
      compileRun cfg.pruning site frame text = compileRun cfg site frame text := by
    intro frame text
    simp only [compileRun, compileSegments_pruning]
  intro items
  induction items with
  | nil =>
    intro frame outer
    simp only [compileItems, hrun]
  | cons item rest ih =>
    intro frame outer
    simp only [compileItems, hrun, ih]

theorem compile_pruned (t : TemplateView) (site : Site) (message : String) (scope : Message.Scope) :
    t.compile cfg.pruning site message scope = t.compile cfg site message scope := by
  simp only [TemplateView.compile, compileScoped, compileItems_pruning]

end Pruning

end MessageCompiler
