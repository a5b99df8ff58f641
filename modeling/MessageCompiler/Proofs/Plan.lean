/-
Plans of ICU expressions.

Compiling flattens every case into three streams of instructions, and nested expressions into the one
stream of the message. A plan keeps the nesting: which slot is for which node, and which expression
stands where. What the streams do to a running view is proved along it.
-/
import MessageCompiler.Proofs.Parsed
import MessageCompiler.Proofs.PassGrowth

namespace MessageCompiler

open List
open Markup (Node Attr)

/-- An attribute of an element with a value that has bindings. -/
structure BoundAttr where
  name : String
  sanitizer : Option NamedSanitizer
  value : String
  bound : Message.hasBinding value.toList = true

def BoundAttr.op (slot : Nat) (b : BoundAttr) : UpdateOp :=
  bindingUpdate b.value slot (.ofAttribute b.name b.sanitizer) 0

mutual

/-- The content of a case, one node after the other, each in a slot of its own. -/
inductive Plan where
  | nil
  | text (slot : Nat) (value : String) (rest : Plan)
  | element (slot : Nat) (tag : String) (fixed : List (String × String)) (bound : List BoundAttr)
      (content rest : Plan)
  /-- A nested expression behind whose content its anchor stands. -/
  | icu (slot : Nat) (label : String) (icu : IcuPlan) (rest : Plan)

/-- An expression; which of its cases is active is kept in the slot `current`. -/
inductive IcuPlan where
  | mk (kind : IcuKind) (main : Int) (current : Nat) (cases : CasePlans)

/-- The cases of an expression. -/
inductive CasePlans where
  | nil
  | cons (label : String) (content : Plan) (rest : CasePlans)

end

/-! ### The instructions of a plan -/

/-- The text that a text node is created with: one with bindings has to wait for their values. -/
def initialText (value : String) : String :=
  if Message.hasBinding value.toList then "" else value

def textUpdate (slot : Nat) (value : String) : List UpdateOp :=
  if Message.hasBinding value.toList then [bindingUpdate value slot .text 0] else []

namespace Plan

def create (parent : Int) : Plan → List IcuCreateOp
  | .nil => []
  | .text slot value rest =>
    .text slot (initialText value) :: .append slot parent :: rest.create parent
  | .element slot tag fixed _ content rest =>
    .element slot tag :: .append slot parent ::
      (fixed.map (fun a => .setAttribute slot a.1 a.2) ++ (content.create slot ++ rest.create parent))
  | .icu slot label _ rest => .anchor slot label :: .append slot parent :: rest.create parent

def remove : Plan → List RemoveOp
  | .nil => []
  | .text slot _ rest => .node slot :: rest.remove
  | .element slot _ _ _ _ rest => .node slot :: rest.remove
  | .icu slot _ _ rest => .nestedIcu slot :: rest.remove

def update : Plan → List UpdateOp
  | .nil => []
  | .text slot value rest => textUpdate slot value ++ rest.update
  | .element slot _ _ bound content rest => bound.map (·.op slot) ++ (content.update ++ rest.update)
  | .icu _ _ _ rest => rest.update

end Plan

namespace CasePlans

def labels : CasePlans → List String
  | .nil => []
  | .cons label _ rest => label :: rest.labels

/-- The cases as they are registered; their content is appended to the node at the slot `parent`. -/
def compiled (parent : Int) : CasePlans → List CompiledCase
  | .nil => []
  | .cons label content rest =>
    ⟨label, content.create parent, content.remove, content.update⟩ :: rest.compiled parent

def updates : CasePlans → List UpdateOp
  | .nil => []
  | .cons _ content rest => content.update ++ rest.updates

def mask (cases : CasePlans) : Mask := cases.updates.foldl (fun m op => m ||| op.mask) 0#32

theorem flatMap_compiled (parent : Int) :
    ∀ cases : CasePlans, (cases.compiled parent).flatMap (·.update) = cases.updates
  | .nil => rfl
  | .cons _ content rest => by
    rw [compiled, flatMap_cons, flatMap_compiled parent rest, updates]

theorem casesMask_compiled (parent : Int) (cases : CasePlans) : casesMask (cases.compiled parent) = cases.mask := by
  unfold casesMask mask
  rw [flatMap_compiled]

end CasePlans

def IcuPlan.compiled (parent : Int) (anchor : Nat) : IcuPlan → CompiledIcu
  | .mk kind _ current cases => ⟨kind, anchor, current, cases.compiled parent⟩

def switchOp (anchor : Nat) (main : Int) : UpdateOp :=
  ⟨Mask.ofBinding main, [.binding main], anchor, .icuSwitch⟩

/-- The instruction that updates the chosen case, if any case has something to update. -/
def updateOps (anchor : Nat) (mask : Mask) : List UpdateOp :=
  if mask = 0#32 then [] else [⟨mask, [], anchor, .icuUpdate⟩]

mutual

def Plan.stream : Plan → List UpdateOp
  | .nil => []
  | .text _ _ rest => rest.stream
  | .element _ _ _ _ content rest => content.stream ++ rest.stream
  | .icu slot _ icu rest => icu.stream slot ++ rest.stream

def IcuPlan.stream (anchor : Nat) : IcuPlan → List UpdateOp
  | .mk _ main _ cases => switchOp anchor main :: (cases.stream ++ updateOps anchor cases.mask)

def CasePlans.stream : CasePlans → List UpdateOp
  | .nil => []
  | .cons _ content rest => content.stream ++ rest.stream

end

/-! ### The slots of a plan -/

mutual

def Plan.slots : Plan → List Nat
  | .nil => []
  | .text slot _ rest => slot :: rest.slots
  | .element slot _ _ _ content rest => slot :: (content.slots ++ rest.slots)
  | .icu slot _ icu rest => slot :: (icu.slots ++ rest.slots)

def IcuPlan.slots : IcuPlan → List Nat
  | .mk _ _ current cases => current :: cases.slots

def CasePlans.slots : CasePlans → List Nat
  | .nil => []
  | .cons _ content rest => content.slots ++ rest.slots

end

mutual

/-- The view has the nodes of the plan, and its expressions are registered at their anchors. -/
def Plan.Registered (t : TemplateView) : (parent : Int) → Plan → Prop
  | _, .nil => True
  | parent, .text slot _ rest => t.type? slot = some .text ∧ rest.Registered t parent
  | parent, .element slot _ _ _ content rest =>
    t.type? slot = some .element ∧ content.Registered t slot ∧ rest.Registered t parent
  | parent, .icu slot _ icu rest =>
    t.type? slot = some .icu ∧ icu.Registered t parent slot ∧ rest.Registered t parent

def IcuPlan.Registered (t : TemplateView) : (parent : Int) → (anchor : Nat) → IcuPlan → Prop
  | parent, anchor, .mk kind main current cases =>
    t.icu? anchor = some (IcuPlan.compiled parent anchor (.mk kind main current cases)) ∧
      t.slots[current]? = some .empty ∧ cases.Registered t parent

def CasePlans.Registered (t : TemplateView) : (parent : Int) → CasePlans → Prop
  | _, .nil => True
  | parent, .cons _ content rest => content.Registered t parent ∧ rest.Registered t parent

end

variable {anchor : Nat} {icu : IcuPlan} {parent : Int} {t : TemplateView}

theorem IcuPlan.Registered.icu?_eq (h : icu.Registered t parent anchor) :
    t.icu? anchor = some (icu.compiled parent anchor) := by
  cases icu with
  | mk kind main current cases => exact h.1

/-! ### The expressions of a plan -/

/-- An expression where it stands: the slot of the node around it, and its anchor. -/
structure Post where
  parent : Int
  anchor : Nat
  icu : IcuPlan

def Post.compiled (post : Post) : CompiledIcu := post.icu.compiled post.parent post.anchor

mutual

/-- The expressions of a plan at every depth, an expression in front of those inside it. -/
def Plan.posts (parent : Int) : Plan → List Post
  | .nil => []
  | .text _ _ rest => rest.posts parent
  | .element slot _ _ _ content rest => content.posts slot ++ rest.posts parent
  | .icu slot _ icu rest => icu.posts parent slot ++ rest.posts parent

def IcuPlan.posts (parent : Int) (anchor : Nat) : IcuPlan → List Post
  | .mk kind main current cases => ⟨parent, anchor, .mk kind main current cases⟩ :: cases.posts parent

def CasePlans.posts (parent : Int) : CasePlans → List Post
  | .nil => []
  | .cons _ content rest => content.posts parent ++ rest.posts parent

end

mutual

theorem Plan.anchors_sublist : ∀ (plan : Plan) (parent : Int), ((plan.posts parent).map (·.anchor)).Sublist plan.slots
  | .nil, _ => .slnil
  | .text slot _ rest, parent => (rest.anchors_sublist parent).cons slot
  | .element slot _ _ _ content rest, parent => by
    rw [Plan.slots, Plan.posts, map_append]
    exact ((content.anchors_sublist slot).append (rest.anchors_sublist parent)).cons slot
  | .icu slot _ icu rest, parent => by
    rw [Plan.slots, Plan.posts, map_append, ← cons_append]
    exact (icu.anchors_sublist parent slot).append (rest.anchors_sublist parent)

theorem IcuPlan.anchors_sublist : ∀ (icu : IcuPlan) (parent : Int) (anchor : Nat),
    ((icu.posts parent anchor).map (·.anchor)).Sublist (anchor :: icu.slots)
  | .mk _ _ current cases, parent, anchor => ((cases.anchors_sublist parent).cons current).cons_cons anchor

theorem CasePlans.anchors_sublist : ∀ (cases : CasePlans) (parent : Int),
    ((cases.posts parent).map (·.anchor)).Sublist cases.slots
  | .nil, _ => .slnil
  | .cons _ content rest, parent => by
    rw [CasePlans.slots, CasePlans.posts, map_append]
    exact (content.anchors_sublist parent).append (rest.anchors_sublist parent)

end

/-- What passes from a plan to its parts. -/
structure Descends (P : Plan → Int → Prop) (Q : IcuPlan → Int → Nat → Prop) (C : CasePlans → Int → Prop) : Prop where
  text : ∀ {slot value rest parent}, P (.text slot value rest) parent → P rest parent
  element : ∀ {slot tag fixed bound content rest parent}, P (.element slot tag fixed bound content rest) parent →
    P content slot ∧ P rest parent
  icu : ∀ {slot label icu rest parent}, P (.icu slot label icu rest) parent → Q icu parent slot ∧ P rest parent
  cases : ∀ {kind main current cases parent anchor}, Q (.mk kind main current cases) parent anchor → C cases parent
  cons : ∀ {label content rest parent}, C (.cons label content rest) parent → P content parent ∧ C rest parent

namespace Descends

variable {P : Plan → Int → Prop} {Q : IcuPlan → Int → Nat → Prop} {C : CasePlans → Int → Prop} (hd : Descends P Q C)
include hd

mutual

theorem plan : ∀ {plan : Plan} {parent : Int}, P plan parent → ∀ x ∈ plan.posts parent, Q x.icu x.parent x.anchor
  | .nil, _, _, x, hx => by cases hx
  | .text _ _ _, _, h, x, hx => plan (hd.text h) x hx
  | .element _ _ _ _ _ _, _, h, x, hx => by
    obtain ⟨hcontent, hrest⟩ := hd.element h
    exact (mem_append.mp hx).elim (plan hcontent x) (plan hrest x)
  | .icu _ _ _ _, _, h, x, hx => by
    obtain ⟨hicu, hrest⟩ := hd.icu h
    exact (mem_append.mp hx).elim (post hicu x) (plan hrest x)

theorem post : ∀ {icu : IcuPlan} {parent : Int} {anchor : Nat}, Q icu parent anchor →
    ∀ x ∈ icu.posts parent anchor, Q x.icu x.parent x.anchor
  | .mk _ _ _ _, _, _, h, x, hx => by
    rcases mem_cons.mp hx with rfl | hx
    · exact h
    · exact contents (hd.cases h) x hx

theorem contents : ∀ {cases : CasePlans} {parent : Int}, C cases parent →
    ∀ x ∈ cases.posts parent, Q x.icu x.parent x.anchor
  | .nil, _, _, x, hx => by cases hx
  | .cons _ _ _, _, h, x, hx => by
    obtain ⟨hcontent, hrest⟩ := hd.cons h
    exact (mem_append.mp hx).elim (plan hcontent x) (contents hrest x)

end

theorem remove {L : Nat → Prop} (htext : ∀ {slot value rest parent}, P (.text slot value rest) parent → L slot)
    (helement : ∀ {slot tag fixed bound content rest parent},
      P (.element slot tag fixed bound content rest) parent → L slot) :
    ∀ {plan : Plan} {parent : Int}, P plan parent → ∀ op ∈ plan.remove, (∃ slot : Nat, op = .node slot ∧ L slot) ∨
      ∃ (slot : Nat) (icu : IcuPlan), op = .nestedIcu slot ∧ Q icu parent slot
  | .nil, _, _, op, hop => by cases hop
  | .text slot _ _, _, h, op, hop => by
    rcases mem_cons.mp hop with rfl | hop
    · exact .inl ⟨slot, rfl, htext h⟩
    · exact remove htext helement (hd.text h) op hop
  | .element slot _ _ _ _ _, _, h, op, hop => by
    rcases mem_cons.mp hop with rfl | hop
    · exact .inl ⟨slot, rfl, helement h⟩
    · exact remove htext helement (hd.element h).2 op hop
  | .icu slot _ icu _, _, h, op, hop => by
    rcases mem_cons.mp hop with rfl | hop
    · exact .inr ⟨slot, icu, rfl, (hd.icu h).1⟩
    · exact remove htext helement (hd.icu h).2 op hop

end Descends

theorem IcuPlan.Registered.post (h : icu.Registered t parent anchor) :
    ∀ x ∈ icu.posts parent anchor, x.icu.Registered t x.parent x.anchor := by
  have hd : Descends (fun plan parent => plan.Registered t parent)
      (fun icu parent anchor => icu.Registered t parent anchor) fun cases parent => cases.Registered t parent :=
    ⟨And.right, And.right, And.right, fun h => h.2.2, id⟩
  exact hd.post h

/-- The expression has slots in the list, and stands in the node `parent` or in one with a slot in the list. -/
structure Post.Within (parent : Int) (slots : List Nat) (post : Post) : Prop where
  parent_eq : post.parent = parent ∨ ∃ s ∈ slots, post.parent = s
  sublist : post.icu.slots.Sublist slots

theorem Post.Within.mono {slots slots' : List Nat} {post : Post} (h : post.Within parent slots)
    (hsub : slots.Sublist slots') : post.Within parent slots' :=
  ⟨h.parent_eq.imp id fun ⟨s, hs, heq⟩ => ⟨s, hsub.subset hs, heq⟩, h.sublist.trans hsub⟩

theorem IcuPlan.within_posts (icu : IcuPlan) (parent : Int) (anchor : Nat) : ∀ post ∈ icu.posts parent anchor,
    post.Within parent icu.slots := by
  have hd : ∀ slots : List Nat, Descends
      (fun plan own => (own = parent ∨ ∃ s ∈ slots, own = s) ∧ plan.slots.Sublist slots)
      (fun icu own anchor => Post.Within parent slots ⟨own, anchor, icu⟩)
      fun cases own => (own = parent ∨ ∃ s ∈ slots, own = s) ∧ cases.slots.Sublist slots := fun slots => {
    text := fun ⟨hown, hsub⟩ => ⟨hown, (sublist_cons_self _ _).trans hsub⟩
    element := fun {slot _ _ _ _ _ _} ⟨hown, hsub⟩ => by
      have hsub' := (sublist_cons_self _ _).trans hsub
      exact ⟨⟨.inr ⟨slot, hsub.subset mem_cons_self, rfl⟩, (sublist_append_left _ _).trans hsub'⟩,
        hown, (sublist_append_right _ _).trans hsub'⟩
    icu := fun ⟨hown, hsub⟩ => by
      have hsub' := (sublist_cons_self _ _).trans hsub
      exact ⟨⟨hown, (sublist_append_left _ _).trans hsub'⟩, hown, (sublist_append_right _ _).trans hsub'⟩
    cases := fun ⟨hown, hsub⟩ => ⟨hown, (sublist_cons_self _ _).trans hsub⟩
    cons := fun ⟨hown, hsub⟩ =>
      ⟨⟨hown, (sublist_append_left _ _).trans hsub⟩, hown, (sublist_append_right _ _).trans hsub⟩ }
  exact (hd icu.slots).post ⟨.inl rfl, .refl _⟩

/-- The instruction is one of those that an expression itself adds to the stream of the message. -/
inductive Post.Updates : Post → UpdateOp → Prop where
  | switch {parent : Int} {anchor current : Nat} {kind : IcuKind} {main : Int} {cases : CasePlans} :
    Post.Updates ⟨parent, anchor, .mk kind main current cases⟩ (switchOp anchor main)
  | update {parent : Int} {anchor current : Nat} {kind : IcuKind} {main : Int} {cases : CasePlans} {op : UpdateOp}
    (h : op ∈ updateOps anchor cases.mask) : Post.Updates ⟨parent, anchor, .mk kind main current cases⟩ op

variable {op : UpdateOp}

theorem eq_of_mem_updateOps {mask : Mask} (h : op ∈ updateOps anchor mask) : op = ⟨mask, [], anchor, .icuUpdate⟩ := by
  simp_all [updateOps]

theorem Post.Updates.target {post : Post} (h : post.Updates op) :
    op.index = post.anchor ∧ (op.target = .icuSwitch ∨ op.target = .icuUpdate) := by
  cases h with
  | switch => exact ⟨rfl, .inl rfl⟩
  | update h =>
    rw [eq_of_mem_updateOps h]
    exact ⟨rfl, .inr rfl⟩

theorem Post.exists_append {posts posts' : List Post} {ops ops' : List UpdateOp} (h : op ∈ ops ++ ops')
    (hleft : op ∈ ops → ∃ x ∈ posts, x.Updates op) (hright : op ∈ ops' → ∃ x ∈ posts', x.Updates op) :
    ∃ x ∈ posts ++ posts', x.Updates op := by
  rcases mem_append.mp h with h | h
  · obtain ⟨x, hx, hop⟩ := hleft h
    exact ⟨x, mem_append_left _ hx, hop⟩
  · obtain ⟨x, hx, hop⟩ := hright h
    exact ⟨x, mem_append_right _ hx, hop⟩

mutual

theorem Plan.mem_stream {op : UpdateOp} : ∀ (plan : Plan) (parent : Int), op ∈ plan.stream →
    ∃ x ∈ plan.posts parent, x.Updates op
  | .nil, _, h => by cases h
  | .text _ _ rest, parent, h => rest.mem_stream parent h
  | .element slot _ _ _ content rest, parent, h =>
    Post.exists_append h (content.mem_stream slot) (rest.mem_stream parent)
  | .icu slot _ icu rest, parent, h =>
    Post.exists_append h (icu.mem_stream parent slot) (rest.mem_stream parent)

theorem IcuPlan.mem_stream {op : UpdateOp} : ∀ (icu : IcuPlan) (parent : Int) (anchor : Nat), op ∈ icu.stream anchor →
    ∃ x ∈ icu.posts parent anchor, x.Updates op
  | .mk _ _ _ cases, parent, anchor, h => by
    rcases mem_cons.mp h with rfl | h
    · exact ⟨_, mem_cons_self, .switch⟩
    · rcases mem_append.mp h with h | h
      · obtain ⟨x, hx, hop⟩ := cases.mem_stream parent h
        exact ⟨x, mem_cons_of_mem _ hx, hop⟩
      · exact ⟨_, mem_cons_self, .update h⟩

theorem CasePlans.mem_stream {op : UpdateOp} : ∀ (cases : CasePlans) (parent : Int), op ∈ cases.stream →
    ∃ x ∈ cases.posts parent, x.Updates op
  | .nil, _, h => by cases h
  | .cons _ content rest, parent, h =>
    Post.exists_append h (content.mem_stream parent) (rest.mem_stream parent)

end

/-! ### The choices of a plan -/

mutual

/-- The kinds of the expressions and the bindings that choose their cases. -/
def Plan.choices : Plan → List (IcuKind × Int)
  | .nil => []
  | .text _ _ rest => rest.choices
  | .element _ _ _ _ content rest => content.choices ++ rest.choices
  | .icu _ _ icu rest => icu.choices ++ rest.choices

def IcuPlan.choices : IcuPlan → List (IcuKind × Int)
  | .mk kind main _ cases => (kind, main) :: cases.choices

def CasePlans.choices : CasePlans → List (IcuKind × Int)
  | .nil => []
  | .cons _ content rest => content.choices ++ rest.choices

end

/-! ### Making plans -/

/-- The plan of a nested expression from the first free slot on, with the next free slot. -/
abbrev NestedPlan := Nat → IcuPlan × Nat

/-- What a comment of a case stands for: the number in it, and the expression with that number. -/
def commentTarget? {α : Type} (nested : List α) (data : String) : Option (Int × α) :=
  match Message.plainOrdinal? data.toList with
  | none => none
  | some digits => (Text.readInt? digits).bind fun n => nested[n.toNat]?.map (n, ·)

theorem mem_of_commentTarget? {α : Type} {nested : List α} {data : String} {number : Int} {f : α}
    (h : commentTarget? nested data = some (number, f)) : f ∈ nested := by
  unfold commentTarget? at h
  split at h
  · cases h
  · obtain ⟨n, -, hn⟩ := Option.bind_eq_some_iff.mp h
    grind

def fixedAttrs (attrs : List Attr) : List (String × String) :=
  attrs.filterMap fun a =>
    if Message.hasBinding a.value.toList then none else some (attributeName a, a.value)

def boundAttrs (cfg : Config) (attrs : List Attr) : List BoundAttr :=
  attrs.filterMap fun a =>
    let lower := Text.lower (attributeName a)
    if bound : Message.hasBinding a.value.toList = true then
      if cfg.attributes.has lower then some ⟨attributeName a, cfg.sanitizer lower, a.value, bound⟩ else none
    else none

/-- The plan for the nodes of a case from the first free slot on, with the next free slot. A node that is
left out takes a slot all the same. -/
def planNodes (cfg : Config) (nested : List NestedPlan) : List Node → Nat → Plan × Nat
  | [], n => (.nil, n)
  | .text value :: rest, n =>
    let r := planNodes cfg nested rest (n + 1)
    (.text n value r.1, r.2)
  | .comment data :: rest, n =>
    match commentTarget? nested data with
    | none => planNodes cfg nested rest (n + 1)
    | some (number, plan) =>
      let icu := plan (n + 1)
      let r := planNodes cfg nested rest icu.2
      (.icu n ("nested ICU " ++ Text.showInt number) icu.1 r.1, r.2)
  | .element _ name attrs children :: rest, n =>
    if cfg.elements.has (Text.lower name) then
      let content := planNodes cfg nested children (n + 1)
      let r := planNodes cfg nested rest content.2
      (.element n (Text.lower name) (fixedAttrs attrs) (boundAttrs cfg attrs) content.1 r.1, r.2)
    else planNodes cfg nested rest (n + 1)

def Config.nodesOf (cfg : Config) (markup : String) : List Node :=
  match cfg.parseFragment markup with
  | .ok nodes => nodes
  | .error _ => []

mutual

/-- The plan of an expression from the first free slot on, with the next free slot. -/
def planIcu (cfg : Config) : Icu → NestedPlan
  | .mk kind main cases, n =>
    let r := planCases cfg cases (n + 1)
    (.mk kind main n r.1, r.2)

def planCases (cfg : Config) : List Case → Nat → CasePlans × Nat
  | [], n => (.nil, n)
  | .mk label body :: rest, n =>
    let content := planNodes cfg (nestedPlans cfg body) (cfg.nodesOf (caseMarkup 0 body)) n
    let r := planCases cfg rest content.2
    (.cons label content.1 r.1, r.2)

def nestedPlans (cfg : Config) : List Segment → List NestedPlan
  | [] => []
  | .text _ :: rest => nestedPlans cfg rest
  | .icu e :: rest => planIcu cfg e :: nestedPlans cfg rest

end

/-! ### The slots of a plan that was made -/

def Increasing (lo hi : Nat) (l : List Nat) : Prop :=
  lo ≤ hi ∧ l.Pairwise (· < ·) ∧ ∀ s ∈ l, lo ≤ s ∧ s < hi

namespace Increasing

variable {lo mid hi : Nat} {l l' : List Nat}

theorem nil (lo : Nat) : Increasing lo lo [] :=
  ⟨Nat.le_refl lo, .nil, fun _ h => absurd h not_mem_nil⟩

theorem cons (h : Increasing (lo + 1) hi l) : Increasing lo hi (lo :: l) := by
  obtain ⟨hle, hpair, hmem⟩ := h
  refine ⟨by omega, pairwise_cons.mpr ⟨fun s hs => (hmem s hs).1, hpair⟩, ?_⟩
  intro s hs
  rcases mem_cons.mp hs with rfl | hs
  · omega
  · have := hmem s hs
    omega

theorem append (h : Increasing lo mid l) (h' : Increasing mid hi l') : Increasing lo hi (l ++ l') := by
  obtain ⟨hle, hpair, hmem⟩ := h
  obtain ⟨hle', hpair', hmem'⟩ := h'
  refine ⟨by omega, pairwise_append.mpr ⟨hpair, hpair', ?_⟩, ?_⟩
  · intro a ha b hb
    have := hmem a ha
    have := hmem' b hb
    omega
  · intro s hs
    rcases mem_append.mp hs with hs | hs
    · have := hmem s hs
      omega
    · have := hmem' s hs
      omega

theorem skip (h : Increasing (lo + 1) hi l) : Increasing lo hi l := by
  obtain ⟨hle, hpair, hmem⟩ := h
  refine ⟨by omega, hpair, fun s hs => ?_⟩
  have := hmem s hs
  omega

theorem nodup (h : Increasing lo hi l) : l.Nodup :=
  h.2.1.imp fun hlt => Nat.ne_of_lt hlt

theorem length_le (h : Increasing lo hi l) : l.length ≤ hi - lo := by
  induction l generalizing lo with
  | nil => exact Nat.zero_le _
  | cons a rest ih =>
    obtain ⟨hle, hpair, hmem⟩ := h
    obtain ⟨hfirst, hpair⟩ := pairwise_cons.mp hpair
    have ha := hmem a mem_cons_self
    have hrest : Increasing (a + 1) hi rest :=
      ⟨by omega, hpair, fun s hs => ⟨hfirst s hs, (hmem s (mem_cons_of_mem a hs)).2⟩⟩
    have := ih hrest
    rw [length_cons]
    omega

end Increasing

/-! ### Plans that were made -/

/-- The texts and the values of attributes among nodes and below them. -/
def valuesIn : List Node → List String
  | [] => []
  | .text value :: rest => value :: valuesIn rest
  | .comment _ :: rest => valuesIn rest
  | .element _ _ attrs children :: rest => attrs.map (·.value) ++ (valuesIn children ++ valuesIn rest)

/-- What holds of every plan that is made for expressions whose main bindings satisfy `M`, with values in the markup of
their cases that satisfy `V`. The numbers are the first free slots before and after the plan. -/
structure Making (cfg : Config) (M : Int → Prop) (V : String → Prop) (P : Nat → Nat → Plan → Prop)
    (Q : Nat → Nat → IcuPlan → Prop) (C : Nat → Nat → CasePlans → Prop) : Prop where
  nil : ∀ {n}, P n n .nil
  skip : ∀ {n m plan}, P (n + 1) m plan → P n m plan
  text : ∀ {n m value rest}, V value → P (n + 1) m rest → P n m (.text n value rest)
  element : ∀ {n k m tag attrs content rest}, cfg.elements.has tag = true → (∀ a ∈ attrs, V a.value) →
    P (n + 1) k content → P k m rest → P n m (.element n tag (fixedAttrs attrs) (boundAttrs cfg attrs) content rest)
  icu : ∀ {n k m label icu rest}, Q (n + 1) k icu → P k m rest → P n m (.icu n label icu rest)
  cases : ∀ {n m kind main cases}, M main → C (n + 1) m cases → Q n m (.mk kind main n cases)
  none : ∀ {n}, C n n .nil
  cons : ∀ {n k m label content rest}, P n k content → C k m rest → C n m (.cons label content rest)

namespace Making

variable {cfg : Config} {M : Int → Prop} {V : String → Prop} {P : Nat → Nat → Plan → Prop}
  {Q : Nat → Nat → IcuPlan → Prop} {C : Nat → Nat → CasePlans → Prop} (hm : Making cfg M V P Q C)
include hm

theorem nodes {nested : List NestedPlan} (hnested : ∀ f ∈ nested, ∀ n, Q n (f n).2 (f n).1) :
    ∀ (nodes : List Node) (n : Nat), (∀ value ∈ valuesIn nodes, V value) →
      P n (planNodes cfg nested nodes n).2 (planNodes cfg nested nodes n).1
  | [], n, _ => by
    rw [planNodes]
    exact hm.nil
  | .text value :: rest, n, hvalues => by
    rw [valuesIn] at hvalues
    obtain ⟨hvalue, hvalues⟩ := forall_mem_cons.mp hvalues
    rw [planNodes]
    exact hm.text hvalue (nodes hnested rest (n + 1) hvalues)
  | .comment data :: rest, n, hvalues => by
    rw [valuesIn] at hvalues
    rw [planNodes]
    split
    · exact hm.skip (nodes hnested rest (n + 1) hvalues)
    · next number plan htarget =>
      exact hm.icu (hnested plan (mem_of_commentTarget? htarget) (n + 1)) (nodes hnested rest _ hvalues)
  | .element _ name attrs children :: rest, n, hvalues => by
    rw [valuesIn] at hvalues
    obtain ⟨hattrs, hvalues⟩ := forall_mem_append.mp hvalues
    obtain ⟨hchildren, hrest⟩ := forall_mem_append.mp hvalues
    rw [planNodes]
    split
    · next hvalid =>
      exact hm.element hvalid (fun a ha => hattrs _ (mem_map_of_mem ha)) (nodes hnested children (n + 1) hchildren)
        (nodes hnested rest _ hrest)
    · exact hm.skip (nodes hnested rest (n + 1) hrest)

variable {shape : List Segment → Prop}
  (hshape : ∀ body, shape body → ∀ value ∈ valuesIn (cfg.nodesOf (caseMarkup 0 body)), V value)
include hshape

set_option linter.unusedSectionVars false in
mutual

theorem expression : ∀ (e : Icu) (n : Nat), e.Every M shape → Q n (planIcu cfg e n).2 (planIcu cfg e n).1
  | .mk _ _ cases, n, he => by
    rw [planIcu]
    exact hm.cases he.1 (contents cases (n + 1) he.2)

theorem contents : ∀ (cases : List Case) (n : Nat), Case.Every M shape cases →
    C n (planCases cfg cases n).2 (planCases cfg cases n).1
  | [], n, _ => by
    rw [planCases]
    exact hm.none
  | .mk _ body :: rest, n, h => by
    rw [planCases]
    exact hm.cons (hm.nodes (nested body h.1.2) _ n (hshape body h.1.1)) (contents rest _ h.2)

theorem nested : ∀ body : List Segment, Segment.Every M shape body → ∀ f ∈ nestedPlans cfg body,
    ∀ n, Q n (f n).2 (f n).1
  | [], _, f, hf => by
    rw [nestedPlans] at hf
    cases hf
  | .text _ :: rest, h, f, hf => by
    rw [nestedPlans] at hf
    exact nested rest h f hf
  | .icu e :: rest, h, f, hf => by
    rw [nestedPlans] at hf
    rcases mem_cons.mp hf with rfl | hf
    · exact fun n => expression e n h.1
    · exact nested rest h.2 f hf

end

end Making

theorem increasing_planIcu (cfg : Config) (e : Icu) (n : Nat) :
    Increasing n (planIcu cfg e n).2 (planIcu cfg e n).1.slots := by
  have hm : Making cfg (fun _ => True) (fun _ => True) (fun n m plan => Increasing n m plan.slots)
      (fun n m icu => Increasing n m icu.slots) fun n m cases => Increasing n m cases.slots :=
    ⟨.nil _, .skip, fun _ => .cons, fun _ _ h h' => (h.append h').cons, fun h h' => (h.append h').cons, fun _ h => h.cons,
      .nil _, .append⟩
  exact hm.expression (fun _ _ _ _ => trivial) e n e.every_true

theorem choices_planIcu (cfg : Config) {M : Int → Prop} {shape : List Segment → Prop} (e : Icu) (n : Nat)
    (h : e.Every M shape) : ∀ c ∈ (planIcu cfg e n).1.choices, M c.2 := by
  have hm : Making cfg M (fun _ => True) (fun _ _ plan => ∀ c ∈ plan.choices, M c.2)
      (fun _ _ icu => ∀ c ∈ icu.choices, M c.2) fun _ _ cases => ∀ c ∈ cases.choices, M c.2 := {
    nil := fun _ hc => absurd hc not_mem_nil
    skip := id
    text := fun _ => id
    element := fun _ _ h h' => forall_mem_append.mpr ⟨h, h'⟩
    icu := fun h h' => forall_mem_append.mpr ⟨h, h'⟩
    cases := fun hmain h => forall_mem_cons.mpr ⟨hmain, h⟩
    none := fun _ hc => absurd hc not_mem_nil
    cons := fun h h' => forall_mem_append.mpr ⟨h, h'⟩ }
  exact hm.expression (fun _ _ _ _ => trivial) e n h

theorem descends_choices {D : IcuKind × Int → Prop} : Descends (fun plan _ => ∀ c ∈ plan.choices, D c)
    (fun icu _ _ => ∀ c ∈ icu.choices, D c) fun cases _ => ∀ c ∈ cases.choices, D c :=
  ⟨id, forall_mem_append.mp, forall_mem_append.mp, fun h => (forall_mem_cons.mp h).2, forall_mem_append.mp⟩

def CompiledIcu.Ops (K : IcuCreateOp → Prop) (U : UpdateOp → Prop) (icu : CompiledIcu) : Prop :=
  ∀ c ∈ icu.cases, (∀ op ∈ c.create, K op) ∧ ∀ op ∈ c.update, U op

/-- The instructions for the nodes have the properties, and so have the expressions among them. -/
structure Plan.Ops (K : IcuCreateOp → Prop) (U : UpdateOp → Prop) (plan : Plan) : Prop where
  create : ∀ parent, ∀ op ∈ plan.create parent, K op
  update : ∀ op ∈ plan.update, U op
  posts : ∀ parent, ∀ x ∈ plan.posts parent, x.compiled.Ops K U

theorem making_ops {cfg : Config} {V : String → Prop} {K : IcuCreateOp → Prop} {U : UpdateOp → Prop} {M : Int → Prop}
    (hcreate : ∀ op, (∀ slot tag, op ≠ .element slot tag) → K op)
    (helement : ∀ slot tag, cfg.elements.has tag = true → K (.element slot tag))
    (htext : ∀ slot value, V value → ∀ op ∈ textUpdate slot value, U op)
    (hattrs : ∀ slot attrs, (∀ a ∈ attrs, V a.value) → ∀ op ∈ (boundAttrs cfg attrs).map (·.op slot), U op) :
    Making cfg M V (fun _ _ plan => plan.Ops K U)
      (fun _ _ icu => ∀ parent anchor, ∀ x ∈ icu.posts parent anchor, x.compiled.Ops K U)
      fun _ _ cases => ∀ parent, (∀ c ∈ cases.compiled parent, (∀ op ∈ c.create, K op) ∧ ∀ op ∈ c.update, U op) ∧
        ∀ x ∈ cases.posts parent, x.compiled.Ops K U where
  nil := ⟨fun _ _ h => absurd h not_mem_nil, fun _ h => absurd h not_mem_nil, fun _ _ h => absurd h not_mem_nil⟩
  skip := id
  text := fun hvalue h => {
    create := fun parent => forall_mem_cons.mpr ⟨hcreate _ (by simp), forall_mem_cons.mpr
      ⟨hcreate _ (by simp), h.create parent⟩⟩
    update := forall_mem_append.mpr ⟨htext _ _ hvalue, h.update⟩
    posts := h.posts }
  element := fun hvalid hvalues hcontent hrest => {
    create := fun parent => by
      refine forall_mem_cons.mpr ⟨helement _ _ hvalid, forall_mem_cons.mpr ⟨hcreate _ (by simp), ?_⟩⟩
      refine forall_mem_append.mpr ⟨fun op hop => ?_, forall_mem_append.mpr ⟨hcontent.create _, hrest.create parent⟩⟩
      obtain ⟨a, -, rfl⟩ := mem_map.mp hop
      exact hcreate _ (by simp)
    update := forall_mem_append.mpr ⟨hattrs _ _ hvalues, forall_mem_append.mpr ⟨hcontent.update, hrest.update⟩⟩
    posts := fun parent => forall_mem_append.mpr ⟨hcontent.posts _, hrest.posts parent⟩ }
  icu := fun hicu hrest => {
    create := fun parent => forall_mem_cons.mpr ⟨hcreate _ (by simp), forall_mem_cons.mpr
      ⟨hcreate _ (by simp), hrest.create parent⟩⟩
    update := hrest.update
    posts := fun parent => forall_mem_append.mpr ⟨hicu parent _, hrest.posts parent⟩ }
  cases := fun _ hcases parent _ => forall_mem_cons.mpr (hcases parent)
  none := fun _ => ⟨fun _ h => absurd h not_mem_nil, fun _ h => absurd h not_mem_nil⟩
  cons := fun hcontent hrest parent => ⟨forall_mem_cons.mpr ⟨⟨hcontent.create parent, hcontent.update⟩,
    (hrest parent).1⟩, forall_mem_append.mpr ⟨hcontent.posts parent, (hrest parent).2⟩⟩

end MessageCompiler
