/-
A failed compilation leaves the view as it was.

Putting a view back restores its slots and the template nodes that were in declared slots. That is
enough because no other template node that was there before has changed: what a pass changes in place it
has created itself.

* **`unchanged_restore`** — a view that has grown and is put back is the view from before.
* **`Reachable.sound`** — every reachable view is sound.
-/
import MessageCompiler.Compile.Standard
import MessageCompiler.Proofs.Reachable

namespace MessageCompiler

open Steps

namespace TemplateView

/-- Everything that can be seen of `t` is the same in `t'`; `t'` may have further nodes that no slot
refers to. -/
structure Unchanged (t t' : TemplateView) : Prop where
  slots : t'.slots = t.slots
  nodes_le : t.nodes.size ≤ t'.nodes.size
  nodes : ∀ id < t.nodes.size, t'.nodes[id]? = t.nodes[id]?
  bindingStart : t'.bindingStart = t.bindingStart
  serial : t'.serial = t.serial

theorem Unchanged.refl (t : TemplateView) : t.Unchanged t :=
  ⟨rfl, Nat.le_refl _, fun _ _ => rfl, rfl, rfl⟩

variable {t t' : TemplateView}

theorem Unchanged.slot?_eq (h : t.Unchanged t') (i : Int) : t'.slot? i = t.slot? i := by
  unfold slot?
  rw [h.slots]

theorem Unchanged.nodeId?_eq (h : t.Unchanged t') (i : Int) : t'.nodeId? i = t.nodeId? i := by
  unfold nodeId?
  rw [h.slot?_eq]

theorem Unchanged.node?_eq (hs : t.Sound) (h : t.Unchanged t') (i : Int) : t'.node? i = t.node? i := by
  show (t'.nodeId? i).bind (fun id => t'.nodes[id]?) = (t.nodeId? i).bind (fun id => t.nodes[id]?)
  rw [h.nodeId?_eq]
  cases hid : t.nodeId? i with
  | none => rfl
  | some id => exact h.nodes id (hs.nodeId?_lt hid)

theorem Unchanged.icu?_eq (hs : t.Sound) (h : t.Unchanged t') (i : Int) : t'.icu? i = t.icu? i := by
  unfold icu?
  rw [h.slot?_eq]
  cases hslot : t.slot? i with
  | none => rfl
  | some s =>
    cases s with
    | node id =>
      have hlt := hs.nodeId?_lt (nodeId?_eq_some.mpr hslot)
      show t'.nodes[id]?.bind _ = t.nodes[id]?.bind _
      rw [h.nodes id hlt]
    | empty => rfl
    | icu icu => rfl
    | block serial block => rfl
    | attributes ops => rfl

theorem Unchanged.sound (hs : t.Sound) (h : t.Unchanged t') : t'.Sound where
  bounded i id hi := by
    rw [h.slots] at hi
    exact Nat.lt_of_lt_of_le (hs.bounded i id hi) h.nodes_le
  header_le := by
    rw [h.bindingStart]
    exact hs.header_le
  bindingStart_le := by
    rw [h.bindingStart]
    unfold size
    rw [h.slots]
    exact hs.bindingStart_le

/-! ### Putting a view back -/

theorem foldl_setIfInBounds_self {nodes : Array TemplateNode} :
    ∀ l : List (Nat × TemplateNode), (∀ q ∈ l, nodes[q.1]? = some q.2) →
      l.foldl (fun nodes q => nodes.setIfInBounds q.1 q.2) nodes = nodes := by
  intro l
  induction l with
  | nil => intro _; rfl
  | cons q rest ih =>
    intro h
    obtain ⟨hlt, hq⟩ := Array.getElem?_eq_some_iff.mp (h q List.mem_cons_self)
    have hset : nodes.setIfInBounds q.1 q.2 = nodes := by
      rw [Array.setIfInBounds_def, dif_pos hlt, ← hq]
      exact Array.set_getElem_self hlt
    grind

theorem mem_declaredNodes {q : Nat × TemplateNode} (hq : q ∈ t.declaredNodes) : t.nodes[q.1]? = some q.2 := by
  unfold declaredNodes at hq
  obtain ⟨i, -, hi⟩ := List.mem_filterMap.mp hq
  split at hi
  · split at hi
    · next id _ =>
      obtain ⟨node, hnode, rfl⟩ := Option.map_eq_some_iff.mp hi
      exact hnode
    · cases hi
  · cases hi

theorem nodes_restore {touched : Nat → Prop} (h : t.Grows touched t.nodes.size t') :
    (t'.restore t.checkpoint).nodes = t'.nodes := by
  refine foldl_setIfInBounds_self _ fun q hq => ?_
  have hnode := mem_declaredNodes hq
  obtain ⟨hlt, -⟩ := Array.getElem?_eq_some_iff.mp hnode
  rw [h.nodes q.1 hlt, hnode]

theorem unchanged_restore {touched : Nat → Prop} (h : t.Grows touched t.nodes.size t') :
    t.Unchanged (t'.restore t.checkpoint) := { h with
  slots := rfl
  nodes_le := by
    rw [nodes_restore h]
    exact h.nodes_le
  nodes id hid := by rw [nodes_restore h, h.nodes id hid] }

variable {cfg : Config}

/-! ### The ways in which compiling ends -/

/-- A call goes through with a pass over the part of the message. -/
structure Compiling (t : TemplateView) (cfg : Config) (site : Site) (message : String) (scope : Message.Scope)
    (part : List Char) (p : Pass) : Prop where
  index : header ≤ site.index ∧ t.contains site.index = true
  vacant : ∀ serial block, t.slot? site.index ≠ some (.block serial block)
  part_eq : Message.partFor scope message.toList = .ok part
  run : compileScoped cfg site (releaseSpaces part) ⟨t, [], [], []⟩ = .ok () p

section Compiling

variable {cfg : Config} {site : Site} {message : String} {scope : Message.Scope} {part : List Char} {p : Pass}

theorem Compiling.grows (h : t.Compiling cfg site message scope part p) : t.Grows t.declares t.nodes.size p.view := by
  have hgrow := grows_compileScoped cfg site (releaseSpaces part) ⟨t, [], [], []⟩
  rwa [after_of_ok h.run] at hgrow

theorem Compiling.exists_index (h : t.Compiling cfg site message scope part p) :
    ∃ k : Nat, site.index = k ∧ k < t.size := by
  obtain ⟨k, hk⟩ := Int.eq_ofNat_of_zero_le (Int.le_trans (Int.natCast_nonneg header) h.index.1)
  have hinside := h.index.2
  rw [hk] at hinside
  simp only [contains, Bool.and_eq_true, decide_eq_true_eq, Int.toNat_natCast] at hinside
  exact ⟨k, hk, hinside.2⟩

theorem compile_cases (t : TemplateView) (cfg : Config) (site : Site) (message : String) (scope : Message.Scope) :
    t.Unchanged (t.compile cfg site message scope).view ∨ ∃ part p, t.Compiling cfg site message scope part p ∧
        (t.compile cfg site message scope).view = compiledView p site.index ∧
        (t.compile cfg site message scope).result = .ok ⟨p.view.serial, ⟨p.create, p.update⟩⟩ := by
  have hstep := compileStep t cfg site message scope
  generalize (t.compile cfg site message scope).view = t', (t.compile cfg site message scope).result = r at hstep ⊢
  cases hstep with
  | rejected e => exact .inl (.refl t)
  | known serial block hslot => exact .inl (.refl t)
  | failed part cause p hrun =>
    have hgrow := grows_compileScoped cfg site (releaseSpaces part) ⟨t, [], [], []⟩
    rw [after_of_error hrun] at hgrow
    exact .inl (unchanged_restore hgrow)
  | compiled part p hindex hslot hpart hrun => exact .inr ⟨part, p, ⟨hindex, hslot, hpart, hrun⟩, rfl, rfl⟩

theorem compile_ok_cases {handle : Handle} (h : (t.compile cfg site message scope).result = .ok handle) :
    (t.slot? site.index = some (.block handle.serial handle.block) ∧ (t.compile cfg site message scope).view = t) ∨
      ∃ part p, t.Compiling cfg site message scope part p ∧
        (t.compile cfg site message scope).view = compiledView p site.index ∧
        handle = ⟨p.view.serial, ⟨p.create, p.update⟩⟩ := by
  have hstep := compileStep t cfg site message scope
  rw [h] at hstep
  generalize (t.compile cfg site message scope).view = t' at hstep ⊢
  cases hstep with
  | known serial block hslot => exact .inl ⟨hslot, rfl⟩
  | compiled part p hindex hslot hpart hrun => exact .inr ⟨part, p, ⟨hindex, hslot, hpart, hrun⟩, rfl, rfl⟩

theorem exists_compiling {handle : Handle} (hslot : ∀ serial block, t.slot? site.index ≠ some (.block serial block))
    (h : (t.compile cfg site message scope).result = .ok handle) :
    ∃ part p, t.Compiling cfg site message scope part p ∧
      (t.compile cfg site message scope).view = compiledView p site.index ∧
      handle = ⟨p.view.serial, ⟨p.create, p.update⟩⟩ :=
  (compile_ok_cases h).resolve_left fun hknown => hslot _ _ hknown.1

end Compiling

/-! ### Reachable views are sound -/

theorem Sound.compiledView {p : Pass} (hs : p.view.Sound) (index : Int) : (compiledView p index).Sound := by
  have hserial : { p.view with serial := p.view.serial + 1 }.Sound :=
    ⟨hs.bounded, hs.header_le, hs.bindingStart_le⟩
  exact hserial.setSlot index fun id hid => by cases hid

theorem Sound.compile (hs : t.Sound) (cfg : Config) (site : Site) (message : String)
    (scope : Message.Scope) : (t.compile cfg site message scope).view.Sound := by
  rcases compile_cases t cfg site message scope with hsame | ⟨part, p, h, hview, -⟩
  · exact hsame.sound hs
  · rw [hview]
    exact (hs.grows h.grows).compiledView site.index

theorem Sound.edit (hs : t.Sound) (e : Edit) : (t.edit e).Sound := by
  cases e with
  | compile cfg site message scope => exact hs.compile cfg site message scope
  | compileAttributes cfg index element values =>
    rw [TemplateView.edit]
    rcases compileAttributes_view t cfg index element values with hview | ⟨ops, -, hview⟩
    · rw [hview]
      exact hs
    · rw [hview]
      exact hs.setSlot index fun id hid => by cases hid
  | addNode index type value parent => exact hs.grows (grows_addNode (fun k _ => k.zero_le) (Nat.zero_le _))
  | alloc count => exact hs.grows (grows_alloc untouched 0 _ count)
  | setIcu index icu => exact hs.setIcu index icu

theorem Reachable.sound (h : t.Reachable) : t.Sound := by
  induction h using Reachable.editInduction with
  | new decls vars => exact sound_new decls vars
  | edit e _ _ hs => exact hs.edit e

/-! ### Failures -/

theorem unchanged_compile {site : Site} {message : String} {scope : Message.Scope}
    {e : CompileError} (h : (t.compile cfg site message scope).result = .error e) :
    t.Unchanged (t.compile cfg site message scope).view := by
  grind [compile_cases]

theorem unchanged_compileAttributes {index element : Int} {values : List String}
    {e : CompileError} (h : (t.compileAttributes cfg index element values).result = .error e) :
    t.Unchanged (t.compileAttributes cfg index element values).view := by
  rcases compileAttributes_view t cfg index element values with hview | ⟨ops, hops, -⟩
  · rw [hview]
    exact Unchanged.refl t
  · rw [hops] at h
    cases h

/-- A failure of either kind of compilation leaves the view as it was: the number of its slots, what is in
them, the nodes and expressions that they lead to, and every other node that there was. -/
theorem unchanged_of_error (h : t.Reachable) :
    (∀ (cfg : Config) (site : Site) (message : String) (scope : Message.Scope) (e : CompileError),
      (t.compile cfg site message scope).result = .error e →
        let t' := (t.compile cfg site message scope).view
        t.Unchanged t' ∧ ∀ i, t'.node? i = t.node? i ∧ t'.icu? i = t.icu? i) ∧
    (∀ (cfg : Config) (index element : Int) (values : List String) (e : CompileError),
      (t.compileAttributes cfg index element values).result = .error e →
        let t' := (t.compileAttributes cfg index element values).view
        t.Unchanged t' ∧ ∀ i, t'.node? i = t.node? i ∧ t'.icu? i = t.icu? i) := by
  constructor
  · intro cfg site message scope e he
    have hsame := unchanged_compile he
    exact ⟨hsame, fun i => ⟨hsame.node?_eq h.sound i, hsame.icu?_eq h.sound i⟩⟩
  · intro cfg index element values e he
    have hsame := unchanged_compileAttributes he
    exact ⟨hsame, fun i => ⟨hsame.node?_eq h.sound i, hsame.icu?_eq h.sound i⟩⟩

/-- A message that is refused for its last text, after it has added slots and nodes and taken over the
placeholder of an earlier message. -/
theorem unchanged_of_error_late :
    let t := ((new 4 1).compile .standard ⟨-1, 22⟩ "a\uFFFD#1\uFFFDb\uFFFD/#1\uFFFD" .root).view
    let o := t.compile .standard ⟨-1, 24⟩ "c\uFFFD#1\uFFFDd\x7b\uFFFD0\uFFFD, select, a \x7bb\x7d" .root
    o.result.isOk = false ∧ t.Unchanged o.view ∧ ∀ i, o.view.node? i = t.node? i := by
  intro t o
  have hfail : o.result.isOk = false := by decide +kernel
  cases he : o.result with
  | ok handle =>
    rw [he] at hfail
    cases hfail
  | error e =>
    have ht : t.Reachable := (Reachable.new 4 1).compile _ _ _ _
    obtain ⟨hsame, hnode⟩ := (unchanged_of_error ht).1 _ _ _ _ e he
    exact ⟨rfl, hsame, fun i => (hnode i).1⟩

end TemplateView

end MessageCompiler
