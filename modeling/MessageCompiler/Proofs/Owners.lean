/-
Every slot has one owner.

A message that is compiled gets new slots: one for each node that it creates itself, one for each node that a case
of one of its expressions creates, and one for each expression to keep the chosen case in. No slot is given out
twice, whether in one message or in several.

* **`perm_slots_posts`** — the slots of a plan, by the expression that they belong to.
-/
import MessageCompiler.Proofs.Bracketing
import MessageCompiler.Proofs.Once

namespace MessageCompiler

open List

/-! ### The slots of a message -/

def IcuCreateOp.created? : IcuCreateOp → Option Int
  | .text index _ => some index
  | .element index _ => some index
  | .anchor index _ => some index
  | _ => none

def CompiledCase.created (c : CompiledCase) : List Int := c.create.filterMap IcuCreateOp.created?

/-- The slot that keeps the chosen case, and those of the nodes that the cases create. -/
def CompiledIcu.slots (icu : CompiledIcu) : List Int := icu.current :: icu.cases.flatMap (·.created)

/-- The expressions that are registered in the later of two views, with their anchors, and not in the earlier. -/
def TemplateView.registered (t t' : TemplateView) : List (Nat × CompiledIcu) := t'.icus.filter (· ∉ t.icus)

/-- A message that was compiled: the views before and after the call, and the result. -/
structure Compilation where
  before : TemplateView
  after : TemplateView
  block : Block

namespace Compilation

def icus (c : Compilation) : List CompiledIcu := (c.before.registered c.after).map (·.2)

/-- The slots of the nodes that the message creates, and those of its expressions. -/
def slots (c : Compilation) : List Int := c.block.create.map (·.index) ++ c.icus.flatMap (·.slots)

end Compilation

namespace TemplateView

/-- What the call compiles. A call that is refused compiles nothing, and neither does one for a slot that has a
compiled message already. -/
def compilation? (cfg : Config) (t : TemplateView) : Request → Option Compilation
  | .message site message scope =>
    match t.slot? site.index, (t.compile cfg site message scope).result with
    | some (.block _ _), _ => none
    | _, .ok handle => some ⟨t, (t.compile cfg site message scope).view, handle.block⟩
    | _, .error _ => none
  | .attributes _ _ _ => none

def compilations (cfg : Config) : TemplateView → List Request → List Compilation
  | _, [] => []
  | t, request :: rest => (t.compilation? cfg request).toList ++ compilations cfg (t.serve cfg request) rest

end TemplateView

/-! ### The slots of a plan by their owners -/

/-- The slots of the nodes of a plan that no expression inside it creates. -/
def Plan.created : Plan → List Nat
  | .nil => []
  | .text slot _ rest => slot :: rest.created
  | .element slot _ _ _ content rest => slot :: (content.created ++ rest.created)
  | .icu slot _ _ rest => slot :: rest.created

def CasePlans.created : CasePlans → List Nat
  | .nil => []
  | .cons _ content rest => content.created ++ rest.created

/-- The slots of an expression without those of the expressions inside it. -/
def IcuPlan.owned : IcuPlan → List Nat
  | .mk _ _ current cases => current :: cases.created

/-- What the stream of a plan says once of each node, either where it creates it or where it appends it, it
says in the order of the nodes. -/
theorem Plan.filterMap_create {f : IcuCreateOp → Option Int}
    (htext : ∀ (s : Nat) value p, [IcuCreateOp.text s value, .append s p].filterMap f = [(s : Int)])
    (helement : ∀ (s : Nat) tag p, [IcuCreateOp.element s tag, .append s p].filterMap f = [(s : Int)])
    (hanchor : ∀ (s : Nat) label p, [IcuCreateOp.anchor s label, .append s p].filterMap f = [(s : Int)])
    (hset : ∀ i name value, f (.setAttribute i name value) = none) (plan : Plan) (parent : Int) :
    (plan.create parent).filterMap f = plan.created.map fun s : Nat => (s : Int) := by
  induction plan using Plan.created.induct generalizing parent with
  | case1 => rfl
  | case2 slot value rest ih =>
    show ([IcuCreateOp.text slot (initialText value), .append slot parent] ++ rest.create parent).filterMap f = _
    rw [filterMap_append, htext, ih]
    rfl
  | case3 slot tag fixed bound content rest ihContent ihRest =>
    have hfixed : (fixed.map fun a => IcuCreateOp.setAttribute slot a.1 a.2).filterMap f = [] := by
      simp [hset]
    show ([IcuCreateOp.element slot tag, .append slot parent] ++
      (_ ++ (content.create slot ++ rest.create parent))).filterMap f = _
    grind [created]
  | case4 slot label icu rest ih =>
    show ([IcuCreateOp.anchor slot label, .append slot parent] ++ rest.create parent).filterMap f = _
    rw [filterMap_append, hanchor, ih]
    rfl

theorem Plan.created_create (plan : Plan) (parent : Int) :
    (plan.create parent).filterMap IcuCreateOp.created? = plan.created.map fun s : Nat => (s : Int) :=
  plan.filterMap_create (fun _ _ _ => rfl) (fun _ _ _ => rfl) (fun _ _ _ => rfl) (fun _ _ _ => rfl) parent

theorem CasePlans.created_compiled (parent : Int) (cases : CasePlans) :
    (cases.compiled parent).flatMap (·.created) = cases.created.map fun s : Nat => (s : Int) := by
  induction cases using CasePlans.created.induct with
  | case1 => rfl
  | case2 label content rest ih =>
    rw [compiled, flatMap_cons, ih, created, map_append, ← content.created_create parent]
    rfl

theorem Post.slots_compiled (post : Post) : post.compiled.slots = post.icu.owned.map fun s : Nat => (s : Int) := by
  obtain ⟨parent, anchor, ⟨kind, main, current, cases⟩⟩ := post
  show (current : Int) :: (cases.compiled parent).flatMap (·.created) = _
  rw [cases.created_compiled]
  rfl

mutual

theorem Plan.perm_slots_posts : ∀ (plan : Plan) (parent : Int),
    plan.slots.Perm (plan.created ++ (plan.posts parent).flatMap (·.icu.owned))
  | .nil, _ => .refl _
  | .text slot _ rest, parent => (rest.perm_slots_posts parent).cons slot
  | .element slot _ _ _ content rest, parent => by
    rw [Plan.slots, Plan.created, Plan.posts, flatMap_append, cons_append]
    refine List.Perm.cons slot (((content.perm_slots_posts slot).append (rest.perm_slots_posts parent)).trans ?_)
    exact perm_interleave _ _ _ _
  | .icu slot _ icu rest, parent => by
    rw [Plan.slots, Plan.created, Plan.posts, flatMap_append, cons_append]
    refine List.Perm.cons slot (((icu.perm_slots_posts parent slot).append (rest.perm_slots_posts parent)).trans ?_)
    exact perm_append_comm_assoc _ _ _

theorem IcuPlan.perm_slots_posts : ∀ (icu : IcuPlan) (parent : Int) (anchor : Nat),
    icu.slots.Perm ((icu.posts parent anchor).flatMap (·.icu.owned))
  | .mk _ _ current cases, parent, _ => (cases.perm_slots_posts parent).cons current

theorem CasePlans.perm_slots_posts : ∀ (cases : CasePlans) (parent : Int),
    cases.slots.Perm (cases.created ++ (cases.posts parent).flatMap (·.icu.owned))
  | .nil, _ => .refl _
  | .cons _ content rest, parent => by
    rw [CasePlans.slots, CasePlans.created, CasePlans.posts, flatMap_append]
    refine ((content.perm_slots_posts parent).append (rest.perm_slots_posts parent)).trans ?_
    exact perm_interleave _ _ _ _

end

/-! ### One message -/

namespace RootItem

theorem perm_slots_posts (parent : Int) : ∀ items : List RootItem, (items.flatMap slots).Perm
    (items.map slot ++ (items.flatMap (·.posts parent)).flatMap (·.icu.owned))
  | [] => .refl _
  | item :: rest => by
    have hitem : item.inner.Perm ((item.posts parent).flatMap (·.icu.owned)) := by
      cases item with
      | text slot value eager => exact .refl _
      | icu slot label plan eager => exact plan.perm_slots_posts parent slot
    rw [flatMap_cons, map_cons, flatMap_cons, flatMap_append, cons_append]
    refine List.Perm.cons item.slot ((hitem.append (perm_slots_posts parent rest)).trans ?_)
    exact perm_append_comm_assoc _ _ _

theorem anchors_sublist (parent : Int) : ∀ items : List RootItem,
    ((items.flatMap (·.posts parent)).map (·.anchor)).Sublist (items.flatMap slots)
  | [] => .slnil
  | item :: rest => by
    have hitem : ((item.posts parent).map (·.anchor)).Sublist item.slots := by
      cases item with
      | text slot value eager => exact nil_sublist _
      | icu slot label plan eager => exact plan.anchors_sublist parent slot
    rw [flatMap_cons, flatMap_cons, map_append]
    exact hitem.append (anchors_sublist parent rest)

theorem Registered.post {t : TemplateView} {parent : Int} {item : RootItem} (h : item.Registered t parent) :
    ∀ x ∈ item.posts parent, x.icu.Registered t x.parent x.anchor := by
  cases item with
  | text slot value eager => exact fun x hx => by cases hx
  | icu slot label plan eager => exact h.2.post

end RootItem

namespace TemplateView

variable {t t' : TemplateView} {n : Nat}

theorem Unchanged.indexedFrom (h : t.Unchanged t') (ht : t.IndexedFrom n) : t'.IndexedFrom n := by
  intro k id hk hslot
  rw [h.slots] at hslot
  obtain ⟨node, hnode, hat⟩ := ht k id hk hslot
  exact ⟨node, (h.nodes id (Array.getElem?_eq_some_iff.mp hnode).1).trans hnode, hat⟩

theorem Reachable.indexed (ht : t.Reachable) : t.IndexedFrom 0 := by
  induction ht with
  | new decls vars =>
    intro k id _ h
    cases eq_empty_of_slots_new h
  | @compile t ht cfg site message scope ih =>
    cases hresult : (t.compile cfg site message scope).result with
    | error e => exact (unchanged_compile hresult).indexedFrom ih
    | ok handle =>
      rcases exists_compiles ht hresult with hcompiles | ⟨-, hview, -⟩
      · obtain ⟨items, hcompiled⟩ := compiled_compile ht.sound hcompiles.vacant hresult
        exact (hcompiled.surveyed 0 (Nat.zero_le _)).indexed ih
      · rw [hview]
        exact ih
  | @compileAttributes t ht cfg index element values ih =>
    rcases compileAttributes_view t cfg index element values with hview | ⟨ops, -, hview⟩
    · rw [hview]
      exact ih
    · rw [hview]
      exact ih.setSlot index fun _ h => by cases h
  | addNode ht index type value parent hindex ih => exact (surveyed_addNode 0 _ rfl).indexed ih
  | alloc ht count ih => exact (surveyed_alloc 0 _ count).indexed ih
  | @setIcu t ht index icu hindex ih =>
    unfold TemplateView.setIcu
    split
    · next id _ => exact ih.modifyNode id fun _ => rfl
    · exact ih.setSlot index fun _ h => by cases h

theorem mem_icus {t : TemplateView} {k : Nat} {icu : CompiledIcu} : (k, icu) ∈ t.icus ↔ t.icu? k = some icu := by
  unfold icus
  rw [mem_filterMap]
  constructor
  · rintro ⟨i, -, hi⟩
    obtain ⟨icu', hicu, heq⟩ := Option.map_eq_some_iff.mp hi
    cases heq
    exact hicu
  · intro h
    exact ⟨k, mem_range.mpr (lt_of_icu? h), by rw [h]; rfl⟩

theorem nodup_icus (t : TemplateView) : t.icus.Nodup := by
  have hslots : t.icus.map Prod.fst = (List.range t.size).filter fun i : Nat => (t.icu? i).isSome := by
    unfold icus
    rw [map_filterMap, ← filterMap_eq_filter]
    refine filterMap_congr fun i _ => ?_
    cases h : t.icu? i <;> simp [Option.guard, h]
  refine List.Nodup.of_map Prod.fst ?_
  rw [hslots]
  exact nodup_range.filter _

end TemplateView

section Compiled

variable {t t' : TemplateView} {block : Block} {parent : Int} {items : List RootItem}

section

variable (h : Compiled t t' block parent items)
include h

theorem Compiled.icu?_post {post : Post}
    (hpost : post ∈ items.flatMap (·.posts parent)) : t'.icu? post.anchor = some post.compiled := by
  obtain ⟨item, hitem, hpost⟩ := mem_flatMap.mp hpost
  exact ((h.registered item hitem).post post hpost).icu?_eq

theorem Compiled.mem_registered (ht : t.IndexedFrom 0) {x : Nat × CompiledIcu} :
    x ∈ t.registered t' ↔ x ∈ (items.flatMap (·.posts parent)).map fun post => (post.anchor, post.compiled) := by
  obtain ⟨k, icu⟩ := x
  rw [TemplateView.registered, mem_filter, decide_eq_true_eq, TemplateView.mem_icus, TemplateView.mem_icus, mem_map]
  constructor
  · rintro ⟨hicu, hnew⟩
    have hmem := ((h.surveyed 0 (Nat.zero_le _)).found ht k icu (Nat.zero_le _) hicu).resolve_left hnew
    obtain ⟨post, hpost, rfl⟩ := mem_map.mp hmem
    exact ⟨post, hpost, congrArg _ (Option.some.inj ((h.icu?_post hpost).symm.trans hicu))⟩
  · rintro ⟨post, hpost, heq⟩
    cases heq
    refine ⟨h.icu?_post hpost, fun hold => ?_⟩
    have hslot := (RootItem.anchors_sublist parent items).subset (mem_map_of_mem hpost)
    exact Nat.not_lt.mpr (h.increasing.2.2 post.anchor hslot).1 (TemplateView.lt_of_icu? hold)

theorem Compiled.perm_registered (ht : t.IndexedFrom 0) :
    (t.registered t').Perm ((items.flatMap (·.posts parent)).map fun post => (post.anchor, post.compiled)) := by
  have hposts : ((items.flatMap (·.posts parent)).map fun x => (x.anchor, x.compiled)).Nodup := by
    refine List.Nodup.of_map Prod.fst ?_
    rw [map_map]
    exact h.increasing.nodup.sublist (RootItem.anchors_sublist parent items)
  exact (perm_ext_iff_of_nodup (t'.nodup_icus.filter _) hposts).mpr fun x => h.mem_registered ht

theorem Compiled.perm_icus (ht : t.IndexedFrom 0) :
    (Compilation.mk t t' block).icus.Perm ((items.flatMap (·.posts parent)).map (·.compiled)) := by
  have hmap := (h.perm_registered ht).map Prod.snd
  rw [map_map] at hmap
  exact hmap

theorem Compiled.map_index_create :
    block.create.map (·.index) = (items.map RootItem.slot).map fun s : Nat => (s : Int) := by
  rw [h.create_eq, map_map, map_map]
  exact map_congr_left fun item _ => item.index_create

theorem Compiled.index_create_lt : (block.create.map (·.index)).Pairwise (· < ·) ∧
      ∀ c ∈ block.create.map (·.index), (t.size : Int) ≤ c ∧ c < t'.size := by
  obtain ⟨-, hincreasing, hbounds⟩ := h.increasing
  rw [h.map_index_create]
  constructor
  · rw [pairwise_map]
    exact (hincreasing.sublist (map_slot_sublist items)).imp fun hlt => Int.ofNat_lt.mpr hlt
  · intro c hc
    obtain ⟨k, hk, rfl⟩ := mem_map.mp hc
    have hbound := hbounds k ((map_slot_sublist items).subset hk)
    omega

/-- **The slots of a message.** They are the new slots that its plan names, each once. -/
theorem Compiled.perm_slots (ht : t.IndexedFrom 0) :
    (Compilation.mk t t' block).slots.Perm ((items.flatMap RootItem.slots).map fun s : Nat => (s : Int)) := by
  have hicus : ((Compilation.mk t t' block).icus.flatMap (·.slots)).Perm
      (((items.flatMap (·.posts parent)).flatMap (·.icu.owned)).map fun s : Nat => (s : Int)) := by
    refine ((h.perm_icus ht).flatMap_right _).trans (.of_eq ?_)
    rw [flatMap_map, map_flatMap]
    exact flatMap_congr fun post _ => post.slots_compiled
  show (block.create.map (·.index) ++ _).Perm _
  rw [h.map_index_create]
  grind [RootItem.perm_slots_posts]

end

end Compiled

/-! ### Sequences of calls -/

namespace TemplateView

variable {t : TemplateView} {cfg : Config}

theorem compiled_of_compilation? (ht : t.Reachable) {request : Request} {c : Compilation}
    (h : t.compilation? cfg request = some c) :
    ∃ after block parent items, c = ⟨t, after, block⟩ ∧ after = t.serve cfg request ∧
      Compiled t after block parent items := by
  cases request with
  | attributes index element values => cases h
  | message site message scope =>
    rw [compilation?] at h
    split at h
    · cases h
    · next handle hok hnew =>
      cases h
      obtain ⟨items, hcompiled⟩ := compiled_compile ht.sound hnew hok
      exact ⟨_, _, site.parent, items, rfl, rfl, hcompiled⟩
    · cases h

theorem slots_compilation? (ht : t.Reachable) {request : Request} {c : Compilation}
    (h : t.compilation? cfg request = some c) :
    c.slots.Nodup ∧ (∀ s ∈ c.slots, t.size ≤ s ∧ s < (t.serve cfg request).size) ∧ c.before = t ∧
      c.after = t.serve cfg request ∧ (c.block.create.map (·.index)).Pairwise (· < ·) := by
  obtain ⟨after, block, parent, items, rfl, hafter, hcompiled⟩ := compiled_of_compilation? ht h
  refine ⟨?_, fun s hs => ?_, rfl, hafter, ?_⟩
  · refine (hcompiled.perm_slots ht.indexed).nodup_iff.mpr (hcompiled.increasing.nodup.map ?_)
    exact fun a b hab => Int.ofNat_inj.mp hab
  · obtain ⟨k, hk, rfl⟩ := mem_map.mp ((hcompiled.perm_slots ht.indexed).subset hs)
    have hbound := hcompiled.increasing.2.2 k hk
    rw [hafter] at hbound
    omega
  · exact hcompiled.index_create_lt.1

theorem size_le_serve (request : Request) : t.size ≤ (t.serve cfg request).size := (le_serve request).2

/-- **Every slot has one owner.** Along any sequence of calls that compile messages and attributes, with or without
success, the slots of all messages, of all their expressions and of all cases are distinct; those of a message are
new when it is compiled, and it creates its nodes in the order of their slots. -/
theorem nodup_slots_compilations (ht : t.Reachable) (cfg : Config) (requests : List Request) :
    ((t.compilations cfg requests).flatMap (·.slots)).Nodup ∧
      ∀ c ∈ t.compilations cfg requests, (∀ s ∈ c.slots, c.before.size ≤ s ∧ s < c.after.size) ∧
        t.size ≤ c.before.size ∧ (c.block.create.map (·.index)).Pairwise (· < ·) := by
  induction requests generalizing t with
  | nil => exact ⟨.nil, fun c hc => by cases hc⟩
  | cons request rest ih =>
    obtain ⟨hnodup, hrest⟩ := ih (ht.serve cfg request)
    have hsize : t.size ≤ (t.serve cfg request).size := size_le_serve request
    have hlater : ∀ c ∈ (t.serve cfg request).compilations cfg rest,
        (∀ s ∈ c.slots, c.before.size ≤ s ∧ s < c.after.size) ∧ t.size ≤ c.before.size ∧
          (c.block.create.map (·.index)).Pairwise (· < ·) := by
      intro c hc
      obtain ⟨hbounds, hbefore, hcreate⟩ := hrest c hc
      exact ⟨hbounds, Nat.le_trans hsize hbefore, hcreate⟩
    rw [compilations]
    cases hfirst : t.compilation? cfg request with
    | none => exact ⟨hnodup, hlater⟩
    | some c₀ =>
      obtain ⟨hnodup₀, hbounds₀, hbefore₀, hafter₀, hcreate₀⟩ := slots_compilation? ht hfirst
      refine ⟨List.nodup_append.mpr ⟨hnodup₀, hnodup, fun s hs s' hs' heq => ?_⟩, ?_⟩
      · -- what is compiled later begins where the view ends now
        obtain ⟨c, hc, hs'⟩ := List.mem_flatMap.mp hs'
        obtain ⟨hbounds, hbefore, -⟩ := hrest c hc
        have := hbounds₀ s hs
        have := hbounds s' hs'
        omega
      · refine List.forall_mem_cons.mpr ⟨⟨?_, Nat.le_of_eq (congrArg size hbefore₀).symm, hcreate₀⟩, hlater⟩
        rw [hbefore₀, hafter₀]
        exact hbounds₀

end TemplateView

/-- Every case is read as an element with the first expression of the case in it, and a bound text. -/
def nestingConfig : Config := ⟨⟨["b"]⟩, ⟨[]⟩, fun _ => none, fun _ =>
  .ok [.element .html "b" [] [.comment "\uFFFD0\uFFFD"], .text "\uFFFD3\uFFFD"]⟩

/-- A bound text, and an expression with another one in its first case. -/
def nestingMessage : String :=
  "\uFFFD2\uFFFD\x7b\uFFFD0\uFFFD, select, a \x7b\x7b\uFFFD1\uFFFD, select, b \x7b-\x7d\x7d\x7d c \x7b-\x7d\x7d"

/-- Two messages with nested expressions; between them are one that is refused after it has got slots, one for a slot
that is taken, and attributes. -/
def crowdedRequests : List Request :=
  [.message ⟨-1, 22⟩ nestingMessage .root, .message ⟨-1, 25⟩ "\uFFFD#1\uFFFD\x7b\uFFFD0\uFFFD, select, a \x7bb\x7d\x7d" .root,
    .message ⟨-1, 22⟩ "other" .root, .attributes 23 22 ["title", "\uFFFD0\uFFFD"],
    .message ⟨22, 25⟩ ("\uFFFD#2\uFFFD" ++ nestingMessage ++ "\uFFFD/#2\uFFFD") .root]

theorem TemplateView.nodup_slots_compilations_crowded :
    (((new 4 1).compilations nestingConfig crowdedRequests).map fun c => (c.before.size, c.after.size, c.slots)) =
        [(27, 40, [27, 28, 29, 30, 31, 36, 37, 39, 32, 33, 35]),
          (40, 53, [40, 41, 42, 43, 44, 49, 50, 52, 45, 46, 48])] ∧
      (((new 4 1).compilations nestingConfig crowdedRequests).flatMap (·.slots)).Nodup :=
  ⟨by decide +kernel, (nodup_slots_compilations (.new 4 1) nestingConfig crowdedRequests).1⟩

end MessageCompiler
