/-
The streams of a case.

The create stream of a case stands on its own: it appends every node as soon as it has created it, to the node around
the expression or to an element of the same stream, and sets attributes of such elements only. The remove stream
takes back what the create stream has appended to the node around the expression, and the update stream writes to
nodes that the create stream has created.

* **`grounded_create`** — the create stream of a plan refers to nothing but what comes before.
-/
import MessageCompiler.Proofs.Owners

namespace MessageCompiler

open List
open Markup (Node Attr)

variable {own : Int} {cfg : Config}

/-! ### Balanced cases -/

namespace IcuCreateOp

def element? : IcuCreateOp → Option Int
  | .element index _ => some index
  | _ => none

def child? : IcuCreateOp → Option Int
  | .append child _ => some child
  | _ => none

/-- The slot of the node that the instruction appends to the node in the slot `own`. -/
def childOf? (own : Int) : IcuCreateOp → Option Int
  | .append child parent => if parent = own then some child else none
  | _ => none

end IcuCreateOp

/-- The instruction removes the node in the slot, with what is inside if it is an anchor. -/
def RemoveOp.ofAnchors (anchors : List Int) (index : Int) : RemoveOp :=
  if index ∈ anchors then .nestedIcu index else .node index

/-- The instruction writes a text to a text that the stream creates, or an attribute to an element. An attribute without
a name, if the configuration lets it through, is written as a text. -/
def UpdateOp.Reaches (cfg : Config) (create : List IcuCreateOp) (op : UpdateOp) : Prop :=
  match op.target with
  | .text => (∃ value, .text op.index value ∈ create) ∨
      cfg.attributes.has "" = true ∧ ∃ tag, .element op.index tag ∈ create
  | .attribute _ _ _ => ∃ tag, .element op.index tag ∈ create
  | _ => False

/-- The streams of a case fit together; `own` is the slot of the node around the expression. -/
structure CompiledCase.Balanced (cfg : Config) (own : Int) (c : CompiledCase) : Prop where
  /-- A node is appended as soon as it is created, -/
  followed : ∀ before op after index, c.create = before ++ op :: after → op.created? = some index →
    ∃ parent rest, after = .append index parent :: rest
  /-- and not a second time. -/
  once : ∀ index ∈ c.created, (c.create.filterMap IcuCreateOp.child?).count index = 1
  /-- What it is appended to is there, -/
  appended : ∀ before child parent after, c.create = before ++ .append child parent :: after →
    parent = own ∨ ∃ tag, .element parent tag ∈ before
  /-- and so is the element whose attribute is set. -/
  attributes : ∀ before index name value after, c.create = before ++ .setAttribute index name value :: after →
    ∃ tag, .element index tag ∈ before
  removed : c.remove = (c.create.filterMap (IcuCreateOp.childOf? own)).map (RemoveOp.ofAnchors c.anchors)
  updated : ∀ op ∈ c.update, op.Reaches cfg c.create

/-! ### Create streams -/

/-- The instruction refers to elements that are there, and creates a node only if the rest of the stream appends it at
once. -/
def IcuCreateOp.GroundedIn (own : Int) (elements : List Int) (rest : List IcuCreateOp) : IcuCreateOp → Prop
  | .append _ parent => parent = own ∨ parent ∈ elements
  | .setAttribute index _ _ => index ∈ elements
  | .unknown => True
  | .text index _ => ∃ parent rest', rest = .append index parent :: rest'
  | .element index _ => ∃ parent rest', rest = .append index parent :: rest'
  | .anchor index _ => ∃ parent rest', rest = .append index parent :: rest'

/-- Every instruction of a stream is grounded in the given elements and those created before it. -/
def Grounded (own : Int) : List Int → List IcuCreateOp → Prop
  | _, [] => True
  | elements, op :: rest => op.GroundedIn own elements rest ∧ Grounded own (op.element?.toList ++ elements) rest

section Grounded

variable {own : Int}

theorem IcuCreateOp.GroundedIn.append {op : IcuCreateOp} {elements : List Int} {rest : List IcuCreateOp}
    (h : op.GroundedIn own elements rest) (more : List IcuCreateOp) : op.GroundedIn own elements (rest ++ more) := by
  have hfollowed : ∀ index, (∃ parent rest', rest = .append index parent :: rest') →
      ∃ parent rest', rest ++ more = .append index parent :: rest' := by
    grind
  cases op with
  | append child parent => exact h
  | setAttribute index name value => exact h
  | unknown => trivial
  | text index value => exact hfollowed index h
  | element index tag => exact hfollowed index h
  | anchor index label => exact hfollowed index h

theorem Grounded.append : ∀ {l l' : List IcuCreateOp} {elements : List Int}, Grounded own elements l →
    (∀ more, elements ⊆ more → l.filterMap IcuCreateOp.element? ⊆ more → Grounded own more l') →
      Grounded own elements (l ++ l')
  | [], _, elements, _, h' => h' elements (List.Subset.refl _) (nil_subset _)
  | op :: rest, l', elements, h, h' => by
    refine ⟨h.1.append l', Grounded.append h.2 fun more hmore hrest => h' more ?_ ?_⟩
    · exact fun i hi => hmore (mem_append_right _ hi)
    · intro i hi
      obtain ⟨op', hop', hget⟩ := mem_filterMap.mp hi
      rcases mem_cons.mp hop' with rfl | hop'
      · exact hmore (mem_append_left _ (by rw [hget]; exact mem_singleton_self i))
      · exact hrest (mem_filterMap.mpr ⟨op', hop', hget⟩)

theorem Grounded.at : ∀ {before after : List IcuCreateOp} {op : IcuCreateOp} {elements : List Int},
    Grounded own elements (before ++ op :: after) →
      ∃ known, op.GroundedIn own known after ∧ ∀ i ∈ known, i ∈ elements ∨ ∃ tag, .element i tag ∈ before
  | [], _, _, elements, h => ⟨elements, h.1, fun _ hi => .inl hi⟩
  | first :: before, _, _, elements, h => by
    obtain ⟨known, hop, hknown⟩ := Grounded.at h.2
    refine ⟨known, hop, fun i hi => ?_⟩
    rcases hknown i hi with hi | ⟨tag, hi⟩
    · rcases mem_append.mp hi with hi | hi
      · cases first with
        | element index tag =>
          cases mem_singleton.mp hi
          exact .inr ⟨tag, mem_cons_self⟩
        | text index value => cases hi
        | anchor index label => cases hi
        | setAttribute index name value => cases hi
        | append child parent => cases hi
        | unknown => cases hi
      · exact .inl hi
    · exact .inr ⟨tag, mem_cons_of_mem _ hi⟩

theorem grounded_create : ∀ (plan : Plan) {parent : Int} {elements : List Int}, parent = own ∨ parent ∈ elements →
    Grounded own elements (plan.create parent)
  | .nil, _, _, _ => trivial
  | .text slot _ rest, parent, elements, h => ⟨⟨parent, _, rfl⟩, h, grounded_create rest h⟩
  | .icu slot _ _ rest, parent, elements, h => ⟨⟨parent, _, rfl⟩, h, grounded_create rest h⟩
  | .element slot _ fixed _ content rest, parent, elements, h => by
    have hparent : ∀ more, (slot : Int) :: elements ⊆ more → parent = own ∨ parent ∈ more :=
      fun more hmore => h.imp id fun hmem => hmore (mem_cons_of_mem _ hmem)
    have hfixed : ∀ (attrs : List (String × String)) (more : List Int), (slot : Int) ∈ more →
        Grounded own more (attrs.map fun a => IcuCreateOp.setAttribute slot a.1 a.2) := by
      intro attrs
      induction attrs with
      | nil => exact fun more _ => trivial
      | cons a rest ih => exact fun more hslot => ⟨hslot, ih more hslot⟩
    refine ⟨⟨parent, _, rfl⟩, hparent _ (List.Subset.refl _), ?_⟩
    refine (hfixed fixed _ mem_cons_self).append fun more hmore _ => ?_
    refine (grounded_create content (.inr (hmore mem_cons_self))).append fun more' hmore' _ => ?_
    exact grounded_create rest (hparent more' (List.Subset.trans hmore hmore'))

end Grounded

/-! ### Remove streams -/

namespace Plan

theorem children_create (plan : Plan) (parent : Int) :
    (plan.create parent).filterMap IcuCreateOp.child? = plan.created.map fun s : Nat => (s : Int) :=
  plan.filterMap_create (fun _ _ _ => rfl) (fun _ _ _ => rfl) (fun _ _ _ => rfl) (fun _ _ _ => rfl) parent

theorem childrenOf_create : ∀ (plan : Plan) (parent : Int), (∀ s ∈ plan.created, own ≠ s) →
    (plan.create parent).filterMap (IcuCreateOp.childOf? own) = if parent = own then plan.remove.map (·.index) else []
  | .nil, parent, _ => by
    rw [create, remove]
    split <;> rfl
  | .text slot value rest, parent, h => by
    have hrest := rest.childrenOf_create parent fun s hs => h s (mem_cons_of_mem _ hs)
    simp only [create, filterMap_cons, IcuCreateOp.childOf?, hrest, remove]
    by_cases hparent : parent = own
    · simp [hparent, RemoveOp.index]
    · simp [hparent]
  | .element slot _ fixed _ content rest, parent, h => by
    have hcontent := content.childrenOf_create slot fun s hs =>
      h s (mem_cons_of_mem _ (mem_append_left _ hs))
    have hrest := rest.childrenOf_create parent fun s hs => h s (mem_cons_of_mem _ (mem_append_right _ hs))
    have hslot : ¬(slot : Int) = own := fun heq => h slot mem_cons_self heq.symm
    have hfixed : (fixed.map fun a => IcuCreateOp.setAttribute slot a.1 a.2).filterMap (IcuCreateOp.childOf? own) =
        [] := by
      simp [IcuCreateOp.childOf?]
    simp only [create, filterMap_cons, IcuCreateOp.childOf?, filterMap_append, hfixed, hcontent, if_neg hslot,
      hrest, remove, nil_append]
    by_cases hparent : parent = own
    · simp [hparent, RemoveOp.index]
    · simp [hparent]
  | .icu slot _ _ rest, parent, h => by
    have hrest := rest.childrenOf_create parent fun s hs => h s (mem_cons_of_mem _ hs)
    simp only [create, filterMap_cons, IcuCreateOp.childOf?, hrest, remove]
    by_cases hparent : parent = own
    · simp [hparent, RemoveOp.index]
    · simp [hparent]

theorem anchors_sublist_created (plan : Plan) : (plan.nested.map (·.1)).Sublist plan.created := by
  induction plan using Plan.created.induct with
  | case1 => exact .slnil
  | case2 slot value rest ih => exact ih.cons slot
  | case3 slot tag fixed bound content rest ihContent ihRest =>
    rw [nested, map_append, created]
    exact (ihContent.append ihRest).cons slot
  | case4 slot label icu rest ih => exact ih.cons_cons slot

/-- The instructions of a remove stream are told apart by a list that has those nodes of the plan that are anchors. -/
theorem remove_eq_map : ∀ {plan : Plan} {anchors : List Int}, plan.created.Nodup →
    (∀ s ∈ plan.created, (s : Int) ∈ anchors ↔ s ∈ plan.nested.map (·.1)) →
      plan.remove = (plan.remove.map (·.index)).map (RemoveOp.ofAnchors anchors)
  | .nil, _, _, _ => rfl
  | .text slot _ rest, anchors, hnodup, h => by
    obtain ⟨hslot, hnodup⟩ := nodup_cons.mp hnodup
    have hnot : (slot : Int) ∉ anchors := fun hmem =>
      hslot (rest.anchors_sublist_created.subset ((h slot mem_cons_self).mp hmem))
    rw [remove, map_cons, map_cons, ← remove_eq_map hnodup fun s hs => h s (mem_cons_of_mem _ hs)]
    rw [RemoveOp.index, RemoveOp.ofAnchors, if_neg hnot]
  | .element slot _ _ _ content rest, anchors, hnodup, h => by
    obtain ⟨hslot, hnodup⟩ := nodup_cons.mp hnodup
    obtain ⟨-, hnodup, hapart⟩ := nodup_append.mp hnodup
    have hanchors : (content.nested ++ rest.nested).map (·.1) ⊆ content.created ++ rest.created := by
      rw [map_append]
      exact (content.anchors_sublist_created.append rest.anchors_sublist_created).subset
    have hnot : (slot : Int) ∉ anchors := fun hmem => hslot (hanchors ((h slot mem_cons_self).mp hmem))
    have hrest : ∀ s ∈ rest.created, (s : Int) ∈ anchors ↔ s ∈ rest.nested.map (·.1) := by
      intro s hs
      rw [h s (mem_cons_of_mem _ (mem_append_right _ hs)), nested, map_append, mem_append]
      exact or_iff_right fun hmem => hapart s (content.anchors_sublist_created.subset hmem) s hs rfl
    rw [remove, map_cons, map_cons, ← remove_eq_map hnodup hrest]
    rw [RemoveOp.index, RemoveOp.ofAnchors, if_neg hnot]
  | .icu slot _ _ rest, anchors, hnodup, h => by
    obtain ⟨hslot, hnodup⟩ := nodup_cons.mp hnodup
    have hmem : (slot : Int) ∈ anchors := (h slot mem_cons_self).mpr mem_cons_self
    have hrest : ∀ s ∈ rest.created, (s : Int) ∈ anchors ↔ s ∈ rest.nested.map (·.1) := by
      intro s hs
      rw [h s (mem_cons_of_mem _ hs), nested, map_cons, mem_cons]
      exact or_iff_right fun heq : s = slot => hslot (heq ▸ hs)
    rw [remove, map_cons, map_cons, ← remove_eq_map hnodup hrest]
    rw [RemoveOp.index, RemoveOp.ofAnchors, if_pos hmem]

/-- **What is removed.** The remove stream of a plan, read off its create stream. -/
theorem remove_eq {plan : Plan} (hnodup : plan.created.Nodup) (hown : ∀ s ∈ plan.created, own ≠ s) :
    plan.remove = ((plan.create own).filterMap (IcuCreateOp.childOf? own)).map
      (RemoveOp.ofAnchors ((plan.create own).filterMap IcuCreateOp.anchor?)) := by
  rw [plan.childrenOf_create own hown, if_pos rfl]
  refine remove_eq_map hnodup fun s _ => ?_
  grind [plan.anchors_create]

end Plan

/-! ### Update streams -/

mutual

/-- The bound attributes of the plan are let through, also those inside its expressions. -/
def Plan.Permitted (cfg : Config) : Plan → Prop
  | .nil => True
  | .text _ _ rest => rest.Permitted cfg
  | .element _ _ _ bound content rest =>
    (∀ b ∈ bound, cfg.attributes.has (Text.lower b.name) = true) ∧ content.Permitted cfg ∧ rest.Permitted cfg
  | .icu _ _ icu rest => icu.Permitted cfg ∧ rest.Permitted cfg

def IcuPlan.Permitted (cfg : Config) : IcuPlan → Prop
  | .mk _ _ _ cases => cases.Permitted cfg

def CasePlans.Permitted (cfg : Config) : CasePlans → Prop
  | .nil => True
  | .cons _ content rest => content.Permitted cfg ∧ rest.Permitted cfg

end

section Permitted

variable {cfg : Config}

theorem permitted_boundAttrs (attrs : List Attr) :
    ∀ b ∈ boundAttrs cfg attrs, cfg.attributes.has (Text.lower b.name) = true := by
  intro b hb
  obtain ⟨a, -, ha⟩ := mem_filterMap.mp hb
  dsimp only at ha
  split at ha
  · split at ha
    · next hallowed =>
      cases ha
      exact hallowed
    · cases ha
  · cases ha

theorem permitted_planIcu (e : Icu) (n : Nat) : (planIcu cfg e n).1.Permitted cfg := by
  have hm : Making cfg (fun _ => True) (fun _ => True) (fun _ _ plan => plan.Permitted cfg)
      (fun _ _ icu => icu.Permitted cfg) fun _ _ cases => cases.Permitted cfg :=
    ⟨trivial, id, fun _ => id, fun _ _ h h' => ⟨permitted_boundAttrs _, h, h'⟩, And.intro, fun _ h => h, trivial,
      And.intro⟩
  exact hm.expression (fun _ _ _ _ => trivial) e n e.every_true

theorem permitted_planned {es : List Icu} {xs : List (Nat × IcuPlan)} (h : List.Forall₂ (Icu.Planned cfg) es xs) :
    ∀ x ∈ xs, x.2.Permitted cfg := by
  intro x hx
  obtain ⟨e, n, heq⟩ := exists_planIcu h hx
  rw [heq]
  exact permitted_planIcu e n

theorem UpdateOp.Reaches.mono {create create' : List IcuCreateOp} {op : UpdateOp} (h : op.Reaches cfg create)
    (hsub : create ⊆ create') : op.Reaches cfg create' := by
  unfold Reaches at h ⊢
  split at h
  · rcases h with ⟨value, hmem⟩ | ⟨hname, tag, hmem⟩
    · exact .inl ⟨value, hsub hmem⟩
    · exact .inr ⟨hname, tag, hsub hmem⟩
  · obtain ⟨tag, hmem⟩ := h
    exact ⟨tag, hsub hmem⟩
  · exact h.elim

theorem reaches_boundAttr {b : BoundAttr} (hb : cfg.attributes.has (Text.lower b.name) = true) {slot : Nat}
    {tag : String} {create : List IcuCreateOp} (hmem : .element slot tag ∈ create) :
    (b.op slot).Reaches cfg create := by
  unfold UpdateOp.Reaches BoundAttr.op bindingUpdate Target.ofAttribute
  by_cases hname : b.name.isEmpty = true
  · have hempty : b.name = "" := by simpa using hname
    have hnameless : cfg.attributes.has "" = true := by
      rw [hempty] at hb
      exact hb
    grind
  · grind

theorem Plan.reaches_create : ∀ (plan : Plan) (parent : Int), plan.Permitted cfg →
    ∀ op ∈ plan.update, op.Reaches cfg (plan.create parent)
  | .nil, _, _, op, hop => by cases hop
  | .text slot value rest, parent, h, op, hop => by
    rcases mem_append.mp hop with hop | hop
    · unfold textUpdate at hop
      split at hop
      · rw [mem_singleton.mp hop]
        exact .inl ⟨_, mem_cons_self⟩
      · cases hop
    · refine (rest.reaches_create parent h op hop).mono fun x hx => ?_
      exact mem_cons_of_mem _ (mem_cons_of_mem _ hx)
  | .element slot tag fixed bound content rest, parent, h, op, hop => by
    rcases mem_append.mp hop with hop | hop
    · obtain ⟨b, hb, rfl⟩ := mem_map.mp hop
      exact reaches_boundAttr (h.1 b hb) mem_cons_self
    · rcases mem_append.mp hop with hop | hop
      · refine (content.reaches_create slot h.2.1 op hop).mono fun x hx => ?_
        exact mem_cons_of_mem _ (mem_cons_of_mem _ (mem_append_right _ (mem_append_left _ hx)))
      · refine (rest.reaches_create parent h.2.2 op hop).mono fun x hx => ?_
        exact mem_cons_of_mem _ (mem_cons_of_mem _ (mem_append_right _ (mem_append_right _ hx)))
  | .icu slot _ inner rest, parent, h, op, hop => by
    refine (rest.reaches_create parent h.2 op hop).mono fun x hx => ?_
    exact mem_cons_of_mem _ (mem_cons_of_mem _ hx)

end Permitted

/-! ### Cases of a plan -/

theorem Plan.balanced {plan : Plan} (hpermitted : plan.Permitted cfg)
    (hnodup : plan.created.Nodup) (hown : ∀ s ∈ plan.created, own ≠ s) (label : String) :
    CompiledCase.Balanced cfg own ⟨label, plan.create own, plan.remove, plan.update⟩ := by
  have hgrounded : Grounded own [] (plan.create own) := grounded_create plan (.inl rfl)
  constructor
  · intro before op after index heq hcreated
    rw [show plan.create own = before ++ op :: after from heq] at hgrounded
    obtain ⟨known, hop, -⟩ := hgrounded.at
    cases op with
    | text i value =>
      cases hcreated
      exact hop
    | element i tag =>
      cases hcreated
      exact hop
    | anchor i label =>
      cases hcreated
      exact hop
    | append child parent => cases hcreated
    | setAttribute i name value => cases hcreated
    | unknown => cases hcreated
  · intro index hindex
    show ((plan.create own).filterMap IcuCreateOp.child?).count index = 1
    have hindex : index ∈ (plan.create own).filterMap IcuCreateOp.created? := hindex
    rw [plan.created_create] at hindex
    rw [plan.children_create]
    exact count_eq_one_of_mem (hnodup.map fun a b hab => Int.ofNat_inj.mp hab) hindex
  · intro before child parent after heq
    rw [show plan.create own = before ++ .append child parent :: after from heq] at hgrounded
    obtain ⟨known, hop, hknown⟩ := hgrounded.at
    exact hop.imp id fun hmem => (hknown parent hmem).resolve_left not_mem_nil
  · intro before index name value after heq
    rw [show plan.create own = before ++ .setAttribute index name value :: after from heq] at hgrounded
    obtain ⟨known, hop, hknown⟩ := hgrounded.at
    exact (hknown index hop).resolve_left not_mem_nil
  · exact plan.remove_eq hnodup hown
  · exact plan.reaches_create own hpermitted

/-- The expression of a message lets through what it may, and its slots come behind that of the node around it. -/
structure Post.Apart (cfg : Config) (post : Post) : Prop where
  permitted : post.icu.Permitted cfg
  increasing : post.icu.slots.Pairwise (· < ·)
  above : ∀ s ∈ post.icu.slots, post.parent < s

theorem IcuPlan.apart_posts {icu : IcuPlan} {parent : Int} {anchor : Nat}
    (h : Post.Apart cfg ⟨parent, anchor, icu⟩) : ∀ post ∈ icu.posts parent anchor, post.Apart cfg := by
  have hd : Descends
      (fun plan parent => plan.Permitted cfg ∧ plan.slots.Pairwise (· < ·) ∧ ∀ s ∈ plan.slots, parent < s)
      (fun icu parent anchor => Post.Apart cfg ⟨parent, anchor, icu⟩)
      fun cases parent => cases.Permitted cfg ∧ cases.slots.Pairwise (· < ·) ∧ ∀ s ∈ cases.slots, parent < s := {
    text := fun ⟨hpermitted, hslots, habove⟩ =>
      ⟨hpermitted, (pairwise_cons.mp hslots).2, fun s hs => habove s (mem_cons_of_mem _ hs)⟩
    element := fun ⟨hpermitted, hslots, habove⟩ => by
      obtain ⟨hslot, hslots⟩ := pairwise_cons.mp hslots
      obtain ⟨hcontent, hrest, -⟩ := pairwise_append.mp hslots
      -- inside the element, whose slot comes in front of those of its content
      exact ⟨⟨hpermitted.2.1, hcontent, fun s hs => Int.ofNat_lt.mpr (hslot s (mem_append_left _ hs))⟩,
        hpermitted.2.2, hrest, fun s hs => habove s (mem_cons_of_mem _ (mem_append_right _ hs))⟩
    icu := fun ⟨hpermitted, hslots, habove⟩ => by
      obtain ⟨hicu, hrest, -⟩ := pairwise_append.mp (pairwise_cons.mp hslots).2
      exact ⟨⟨hpermitted.1, hicu, fun s hs => habove s (mem_cons_of_mem _ (mem_append_left _ hs))⟩,
        hpermitted.2, hrest, fun s hs => habove s (mem_cons_of_mem _ (mem_append_right _ hs))⟩
    cases := fun ⟨hpermitted, hslots, habove⟩ =>
      ⟨hpermitted, (pairwise_cons.mp hslots).2, fun s hs => habove s (mem_cons_of_mem _ hs)⟩
    cons := fun ⟨hpermitted, hslots, habove⟩ => by
      obtain ⟨hcontent, hrest, -⟩ := pairwise_append.mp hslots
      exact ⟨⟨hpermitted.1, hcontent, fun s hs => habove s (mem_append_left _ hs)⟩,
        hpermitted.2, hrest, fun s hs => habove s (mem_append_right _ hs)⟩ }
  exact hd.post h

theorem CasePlans.balanced : ∀ {cases : CasePlans}, cases.Permitted cfg →
    cases.slots.Pairwise (· < ·) → (∀ s ∈ cases.slots, own < s) → ∀ c ∈ cases.compiled own, c.Balanced cfg own
  | .nil, _, _, _, c, hc => by cases hc
  | .cons label content rest, hpermitted, hslots, habove, c, hc => by
    obtain ⟨hcontent, hrest, -⟩ := pairwise_append.mp hslots
    rcases mem_cons.mp hc with rfl | hc
    · have hperm := content.perm_slots_posts own
      have hnodup : content.slots.Nodup := hcontent.imp fun hlt => Nat.ne_of_lt hlt
      refine Plan.balanced hpermitted.1 (nodup_append.mp (hperm.nodup_iff.mp hnodup)).1 (fun s hs => ?_) label
      exact Int.ne_of_lt (habove s (mem_append_left _ (hperm.symm.subset (mem_append_left _ hs))))
    · exact balanced hpermitted.2 hrest (fun s hs => habove s (mem_append_right _ hs)) c hc

theorem Post.Apart.balanced {post : Post} (h : post.Apart cfg) :
    ∀ c ∈ post.compiled.cases, c.Balanced cfg post.parent := by
  obtain ⟨parent, anchor, ⟨kind, main, current, cases⟩⟩ := post
  exact CasePlans.balanced h.permitted (pairwise_cons.mp h.increasing).2 fun s hs => h.above s (mem_cons_of_mem _ hs)

/-! ### The node around an expression -/

/-- The node at the anchor of the expression is appended to the node around it by a case of one of the others. -/
def Post.AppendedIn (others : List Post) (post : Post) : Prop :=
  ∃ other ∈ others, ∃ c ∈ other.compiled.cases, .append post.anchor post.parent ∈ c.create

theorem IcuPlan.appended_posts (icu : IcuPlan) (parent : Int) (anchor : Nat) : ∀ post ∈ icu.posts parent anchor,
    post.parent = parent ∧ post.anchor = anchor ∨ post.AppendedIn (icu.posts parent anchor) := by
  have hd : ∀ all : List Post, Descends
      (fun plan parent => (∃ other ∈ all, ∃ c ∈ other.compiled.cases, plan.create parent ⊆ c.create) ∧
        plan.posts parent ⊆ all)
      (fun icu parent anchor => Post.AppendedIn all ⟨parent, anchor, icu⟩ ∧ icu.posts parent anchor ⊆ all)
      fun cases parent => (∃ other ∈ all, cases.compiled parent ⊆ other.compiled.cases) ∧ cases.posts parent ⊆ all :=
    fun all => {
      text := fun ⟨⟨other, hother, c, hc, hcreate⟩, hposts⟩ =>
        ⟨⟨other, hother, c, hc, (cons_subset.mp (cons_subset.mp hcreate).2).2⟩, hposts⟩
      element := fun ⟨⟨other, hother, c, hc, hcreate⟩, hposts⟩ => by
        obtain ⟨-, hcreate⟩ := append_subset.mp (cons_subset.mp (cons_subset.mp hcreate).2).2
        obtain ⟨hposts, hposts'⟩ := append_subset.mp hposts
        grind
      icu := fun ⟨⟨other, hother, c, hc, hcreate⟩, hposts⟩ => by
        obtain ⟨happend, hrest⟩ := cons_subset.mp (cons_subset.mp hcreate).2
        obtain ⟨hposts, hposts'⟩ := append_subset.mp hposts
        exact ⟨⟨⟨other, hother, c, hc, happend⟩, hposts⟩, ⟨other, hother, c, hc, hrest⟩, hposts'⟩
      cases := fun ⟨_, hposts⟩ => by
        obtain ⟨hself, hposts⟩ := cons_subset.mp hposts
        exact ⟨⟨_, hself, List.Subset.refl _⟩, hposts⟩
      cons := fun ⟨⟨other, hother, hcases⟩, hposts⟩ => by
        obtain ⟨hc, hcases⟩ := cons_subset.mp hcases
        obtain ⟨hposts, hposts'⟩ := append_subset.mp hposts
        exact ⟨⟨⟨other, hother, _, hc, List.Subset.refl _⟩, hposts⟩, ⟨other, hother, hcases⟩, hposts'⟩ }
  intro post hpost
  obtain ⟨kind, main, current, cases⟩ := icu
  rcases mem_cons.mp hpost with rfl | hpost
  · exact .inl ⟨rfl, rfl⟩
  · refine .inr ((hd _).contents ⟨⟨_, mem_cons_self, List.Subset.refl _⟩, subset_cons_self _ _⟩ post hpost).1

/-- The slot of the node around an expression of the message: the parent of the message, for one that stands at an
anchor of the message itself, and otherwise the node to which a case appends the anchor. -/
def Compilation.Around (c : Compilation) (parent : Int) (anchor own : Int) : Prop :=
  own = parent ∧ anchor ∈ c.block.anchors ∨ ∃ outer ∈ c.icus, ∃ case ∈ outer.cases, .append anchor own ∈ case.create

section Compiled

variable {t t' : TemplateView} {block : Block} {parent : Int} {items : List RootItem}

theorem Compiled.around_post (h : Compiled t t' block parent items) (ht : t.IndexedFrom 0) {post : Post}
    (hpost : post ∈ items.flatMap (·.posts parent)) :
    (Compilation.mk t t' block).Around parent post.anchor post.parent := by
  obtain ⟨item, hitem, hpost⟩ := mem_flatMap.mp hpost
  cases item with
  | text slot value eager => cases hpost
  | icu slot label plan eager =>
    rcases plan.appended_posts parent slot post hpost with ⟨hparent, hanchor⟩ | ⟨outer, houter, hcase⟩
    · refine .inl ⟨hparent, ?_⟩
      have hmem : (slot, plan) ∈ items.filterMap RootItem.expression? := mem_filterMap.mpr ⟨_, hitem, rfl⟩
      rw [hanchor, h.anchors_eq]
      exact mem_map_of_mem hmem
    · refine .inr ⟨outer.compiled, ?_, hcase⟩
      exact (h.perm_icus ht).symm.subset (mem_map_of_mem (mem_flatMap.mpr ⟨_, hitem, houter⟩))

theorem Compiled.apart (h : Compiled t t' block parent items) (hparent : parent < t.size)
    (hpermitted : ∀ x ∈ items.filterMap RootItem.expression?, x.2.Permitted cfg) :
    ∀ post ∈ items.flatMap (·.posts parent), post.Apart cfg := by
  intro post hpost
  obtain ⟨item, hitem, hpost⟩ := mem_flatMap.mp hpost
  cases item with
  | text slot value eager => cases hpost
  | icu slot label plan eager =>
    have hsub : (slot :: plan.slots).Sublist (items.flatMap RootItem.slots) :=
      sublist_flatMap_of_mem RootItem.slots hitem
    obtain ⟨-, hincreasing, hbounds⟩ := h.increasing
    refine IcuPlan.apart_posts ⟨hpermitted (slot, plan) (mem_filterMap.mpr ⟨_, hitem, rfl⟩),
      (pairwise_cons.mp (hincreasing.sublist hsub)).2, fun s hs => ?_⟩ post hpost
    grind

end Compiled

/-- **The streams of a case fit together.** Every case of every expression that the message registers is balanced
around the node that the expression stands in. -/
theorem balanced_compile {t : TemplateView} (ht : t.Reachable) {cfg : Config} {site : Site} {message : String}
    {scope : Message.Scope} {handle : Handle} (hparent : site.parent < t.size)
    (hok : (t.compile cfg site message scope).result = .ok handle) :
    ∀ x ∈ t.registered (t.compile cfg site message scope).view, ∃ own,
      (Compilation.mk t (t.compile cfg site message scope).view handle.block).Around site.parent x.1 own ∧
        ∀ c ∈ x.2.cases, c.Balanced cfg own := by
  intro x hx
  rcases exists_compiles ht hok with hcompiles | ⟨-, hview, -⟩
  · obtain ⟨items, hcompiled, hplanned⟩ := exists_compiled ht.sound hcompiles.vacant hok
    obtain ⟨post, hpost, rfl⟩ := List.mem_map.mp ((hcompiled.mem_registered ht.indexed).mp hx)
    exact ⟨post.parent, hcompiled.around_post ht.indexed hpost,
      (hcompiled.apart hparent (permitted_planned hplanned) post hpost).balanced⟩
  · -- a slot with a message registers nothing again
    rw [hview] at hx
    obtain ⟨hmem, hnew⟩ := List.mem_filter.mp hx
    exact absurd hmem (of_decide_eq_true hnew)

/-- Every case is read as an element with a fixed and a bound attribute and the first expression of the case in it, the
second expression, and a bound text. -/
def twoDeepConfig : Config := ⟨⟨["b"]⟩, ⟨["lang", "title"]⟩, fun _ => none, fun _ =>
  .ok [.element .html "b" [⟨"", "lang", "x"⟩, ⟨"", "title", "\uFFFD4\uFFFD"⟩] [.comment "\uFFFD0\uFFFD"],
    .comment "\uFFFD1\uFFFD", .text "\uFFFD3\uFFFD"]⟩

def twoDeepMessage : String :=
  "\x7b\uFFFD0\uFFFD, select, a \x7b\x7b\uFFFD1\uFFFD, select, b \x7b-\x7d\x7d\x7b\uFFFD2\uFFFD, select, c \x7b-\x7d\x7d\x7d\x7d"

theorem balanced_compile_twoDeep :
    let o := (TemplateView.new 4 1).compile twoDeepConfig ⟨22, 25⟩ twoDeepMessage .root
    ((TemplateView.new 4 1).registered o.view).map (fun x => (x.1, x.2.cases.map (·.remove))) =
        [(27, [[.node 29, .nestedIcu 36, .node 42]]), (30, [[.node 32, .node 35]]), (36, [[.node 38, .node 41]])] ∧
      ∃ handle, o.result = .ok handle ∧ ∀ x ∈ (TemplateView.new 4 1).registered o.view, ∃ own,
        (Compilation.mk (.new 4 1) o.view handle.block).Around 22 x.1 own ∧ ∀ c ∈ x.2.cases, c.Balanced twoDeepConfig own := by
  intro o
  refine ⟨by decide +kernel, ?_⟩
  cases hok : o.result with
  | error e =>
    have hfine : o.result.isOk = true := by decide +kernel
    rw [hok] at hfine
    cases hfine
  | ok handle => exact ⟨handle, rfl, balanced_compile (.new 4 1) (by decide) hok⟩

end MessageCompiler
