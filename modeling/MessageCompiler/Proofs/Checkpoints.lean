/-
Going back to a checkpoint.

A checkpoint has the slots of a view and the template nodes in its declared slots. Between taking it and going back to
it, slots may be added and filled, messages and attributes compiled, and expressions registered. All of these leave
the template nodes alone that were there before, except that an expression may be registered on one of them; and a
node that is not in a declared slot keeps it.

* **`bears_editAll`** — what becomes of the nodes that were there.
-/
import MessageCompiler.Proofs.Owners

namespace MessageCompiler

open List
open Steps

/-- The node with the expression registered on it, if there is one. -/
def TemplateNode.withIcu (node : TemplateNode) (icu : Option CompiledIcu) : TemplateNode :=
  { node with icu := icu.or node.icu }

namespace TemplateView

/-- The expression that the edit registers on the node with that number. -/
def edited? (t : TemplateView) (id : Nat) : Edit → Option CompiledIcu
  | .setIcu index icu => if t.nodeId? index = some id then some icu else none
  | _ => none

/-- The expression that the edits register last on the node with that number. -/
def lastIcu (id : Nat) : TemplateView → List Edit → Option CompiledIcu
  | _, [] => none
  | t, e :: rest => ((t.edit e).lastIcu id rest).or (t.edited? id e)

variable {t t' : TemplateView}

/-! ### What becomes of the nodes -/

/-- The nodes of `t` are still there, with the given expressions registered on them. -/
structure Bears (icu : Nat → Option CompiledIcu) (t t' : TemplateView) : Prop where
  nodes_le : t.nodes.size ≤ t'.nodes.size
  nodes : ∀ id < t.nodes.size, t'.nodes[id]? = t.nodes[id]?.map (·.withIcu (icu id))
  bindingStart : t'.bindingStart = t.bindingStart

theorem Bears.of_nodes_eq (hle : t.nodes.size ≤ t'.nodes.size)
    (hnodes : ∀ id < t.nodes.size, t'.nodes[id]? = t.nodes[id]?) (hstart : t'.bindingStart = t.bindingStart) :
    Bears (fun _ => none) t t' := by
  refine ⟨hle, fun id hid => ?_, hstart⟩
  rw [hnodes id hid]
  exact Option.map_id'.symm

theorem Grows.bears {touched : Nat → Prop} (h : t.Grows touched t.nodes.size t') : Bears (fun _ => none) t t' :=
  .of_nodes_eq h.nodes_le h.nodes h.bindingStart

theorem Unchanged.bears (h : t.Unchanged t') : Bears (fun _ => none) t t' :=
  .of_nodes_eq h.nodes_le h.nodes h.bindingStart

theorem Bears.trans {icu icu' : Nat → Option CompiledIcu} {t₁ : TemplateView} (h : Bears icu t t₁)
    (h' : Bears icu' t₁ t') : Bears (fun id => (icu' id).or (icu id)) t t' where
  nodes_le := Nat.le_trans h.nodes_le h'.nodes_le
  nodes id hid := by
    rw [h'.nodes id (Nat.lt_of_lt_of_le hid h.nodes_le), h.nodes id hid, Option.map_map]
    congr 1
    funext node
    unfold TemplateNode.withIcu
    rw [Option.or_assoc]
    rfl
  bindingStart := h'.bindingStart.trans h.bindingStart

theorem bears_setSlot (t : TemplateView) (i : Int) (s : Slot) : Bears (fun _ => none) t (t.setSlot i s) :=
  .of_nodes_eq (by simp) (fun _ _ => by simp) (by simp)

theorem bears_setIcu (t : TemplateView) (i : Int) (icu : CompiledIcu) :
    Bears (fun id => t.edited? id (.setIcu i icu)) t (t.setIcu i icu) := by
  cases hfound : t.nodeId? i with
  | none =>
    have hset : t.setIcu i icu = t.setSlot i (.icu icu) := by
      unfold setIcu
      rw [hfound]
    have hnone : (fun id => t.edited? id (.setIcu i icu)) = fun _ => none := by
      funext id
      rw [edited?, hfound, if_neg (by simp)]
    rw [hset, hnone]
    exact t.bears_setSlot i _
  | some found =>
    rw [setIcu_eq hfound]
    refine ⟨by simp [modifyNode], fun id _ => ?_, rfl⟩
    show (t.nodes.modify found _)[id]? = _
    rw [Array.getElem?_modify, edited?, hfound]
    by_cases heq : found = id
    · rw [if_pos heq, if_pos (congrArg some heq)]
      rfl
    · rw [if_neg heq, if_neg fun h => heq (Option.some.inj h)]
      exact Option.map_id'.symm

theorem bears_compile (t : TemplateView) (cfg : Config) (site : Site) (message : String) (scope : Message.Scope) :
    Bears (fun _ => none) t (t.compile cfg site message scope).view := by
  rcases compile_cases t cfg site message scope with hsame | ⟨part, p, h, hview, -⟩
  · exact hsame.bears
  · rw [hview]
    exact h.grows.bears.trans (.of_nodes_eq (by simp [compiledView]) (fun _ _ => by simp [compiledView])
      (by simp [compiledView]))

theorem bears_edit (t : TemplateView) (e : Edit) : Bears (t.edited? · e) t (t.edit e) := by
  cases e with
  | alloc count => exact (grows_alloc untouched _ t count).bears
  | addNode index type value parent =>
    have hgrow : t.Grows (fun _ => True) t.nodes.size (t.addNode (.fresh index type value parent)) :=
      grows_addNode (fun _ _ => trivial) (Nat.le_refl _)
    exact hgrow.bears
  | setIcu index icu => exact t.bears_setIcu index icu
  | compile cfg site message scope => exact t.bears_compile cfg site message scope
  | compileAttributes cfg index element values =>
    rcases compileAttributes_view t cfg index element values with hview | ⟨ops, -, hview⟩
    · rw [edit, hview]
      exact (Unchanged.refl t).bears
    · rw [edit, hview]
      exact t.bears_setSlot index _

theorem bears_editAll : ∀ (edits : List Edit) (t : TemplateView), Bears (t.lastIcu · edits) t (t.editAll edits)
  | [], t => (Unchanged.refl t).bears
  | e :: rest, t => (t.bears_edit e).trans (bears_editAll rest (t.edit e))

/-! ### The nodes of a checkpoint -/

theorem getElem?_foldl_setIfInBounds {saved : Array TemplateNode} {id : Nat} :
    ∀ (l : List (Nat × TemplateNode)) (nodes : Array TemplateNode), (∀ q ∈ l, saved[q.1]? = some q.2) →
      id < nodes.size → (l.foldl (fun nodes q => nodes.setIfInBounds q.1 q.2) nodes)[id]? =
        if id ∈ l.map (·.1) then saved[id]? else nodes[id]?
  | [], nodes, _, _ => rfl
  | q :: rest, nodes, hsaved, hid => by
    rw [foldl_cons, getElem?_foldl_setIfInBounds rest _
      (fun q' hq' => hsaved q' (mem_cons_of_mem _ hq')) (by rwa [Array.size_setIfInBounds])]
    rw [map_cons]
    by_cases hrest : id ∈ rest.map (·.1)
    · rw [if_pos hrest, if_pos (mem_cons_of_mem _ hrest)]
    · rw [if_neg hrest, Array.getElem?_setIfInBounds]
      by_cases hq : q.1 = id
      · rw [if_pos hq, if_pos (hq ▸ hid), if_pos (hq ▸ mem_cons_self), ← hq, hsaved q mem_cons_self]
      · have hnot : id ∉ q.1 :: rest.map (·.1) := fun h => (mem_cons.mp h).elim (fun h => hq h.symm) hrest
        rw [if_neg hq, if_neg hnot]

def Declares (t : TemplateView) (i : Nat) : Prop := header ≤ i ∧ i < t.bindingStart

instance (t : TemplateView) (i : Nat) : Decidable (t.Declares i) := inferInstanceAs (Decidable (_ ∧ _))

theorem mem_map_declaredNodes (hb : t.Bounded) {id : Nat} :
    id ∈ t.declaredNodes.map (·.1) ↔ ∃ i, t.Declares i ∧ t.slots[i]? = some (.node id) := by
  constructor
  · intro h
    obtain ⟨q, hq, rfl⟩ := mem_map.mp h
    obtain ⟨i, hi, heq⟩ := mem_filterMap.mp hq
    split at heq
    · next hheader =>
      split at heq
      · next id hid =>
        obtain ⟨node, -, rfl⟩ := Option.map_eq_some_iff.mp heq
        rw [nodeId?_eq_some, slot?_natCast] at hid
        exact ⟨i, ⟨hheader, mem_range.mp hi⟩, hid⟩
      · cases heq
    · cases heq
  · rintro ⟨i, ⟨hheader, hlt⟩, hslot⟩
    have hlt' : id < t.nodes.size := hb i id hslot
    refine mem_map.mpr ⟨(id, t.nodes[id]), mem_filterMap.mpr ⟨i, mem_range.mpr hlt, ?_⟩, rfl⟩
    have hid : t.nodeId? i = some id := nodeId?_eq_some.mpr ((slot?_natCast t i).trans hslot)
    grind

/-- A node in a slot is written back if and only if the slot is a declared one, as no node is in two slots. -/
theorem mem_map_declaredNodes_iff (hb : t.Bounded) (hindexed : t.IndexedFrom 0) {i id : Nat}
    (hslot : t.slots[i]? = some (.node id)) : id ∈ t.declaredNodes.map (·.1) ↔ t.Declares i := by
  rw [mem_map_declaredNodes hb]
  refine ⟨?_, fun h => ⟨i, h, hslot⟩⟩
  rintro ⟨k, hk, hslot'⟩
  obtain ⟨node, hnode, hat⟩ := hindexed i id (Nat.zero_le _) hslot
  obtain ⟨same, hsame, hat'⟩ := hindexed k id (Nat.zero_le _) hslot'
  cases hnode.symm.trans hsame
  have hik : i = k := by omega
  exact hik ▸ hk

/-! ### Going back -/

/-- **Going back to a checkpoint undoes all but what was registered outside of declared slots.** After any edits,
every slot holds what it held when the checkpoint was taken, and there are as many of them. A node in a declared slot
is as it was. A node in another slot is as it was too, except that it anchors the expression that was registered last
on it since then, if there was one. -/
theorem restore_editAll (ht : t.Reachable) (edits : List Edit) :
    let t' := (t.editAll edits).restore t.checkpoint
    t'.slots = t.slots ∧ t'.bindingStart = t.bindingStart ∧
      ∀ (i id : Nat) (node : TemplateNode), t.slots[i]? = some (.node id) → t.nodes[id]? = some node →
        t'.nodes[id]? = some (if t.Declares i then node else node.withIcu (t.lastIcu id edits)) := by
  have hbears := t.bears_editAll edits
  refine ⟨rfl, hbears.bindingStart, fun i id node hslot hnode => ?_⟩
  have hid : id < t.nodes.size := ht.sound.bounded i id hslot
  have hwritten := getElem?_foldl_setIfInBounds t.declaredNodes (t.editAll edits).nodes (fun q hq => mem_declaredNodes hq)
    (Nat.lt_of_lt_of_le hid hbears.nodes_le)
  refine hwritten.trans ?_
  rw [hbears.nodes id hid, hnode]
  by_cases hdeclared : t.Declares i
  · rw [if_pos hdeclared, if_pos ((mem_map_declaredNodes_iff ht.sound.bounded ht.indexed hslot).mpr hdeclared)]
  · rw [if_neg hdeclared,
      if_neg fun h => hdeclared ((mem_map_declaredNodes_iff ht.sound.bounded ht.indexed hslot).mp h)]
    rfl

/-- A view with a message: a placeholder in the declared slot 23, and an expression with its anchor in the slot 27. -/
def anchoredView : TemplateView :=
  ((new 4 0).compile .standard ⟨-1, 22⟩ "�#1�a�/#1�\x7b�0�, select, other \x7bb\x7d\x7d" .root).view

def bareIcu : CompiledIcu := ⟨.select, 5, 6, []⟩

theorem anchoredView_reachable : anchoredView.Reachable := (Reachable.new 4 0).compile _ _ _ _

/-- Edits that add slots, compile a message over the placeholder and attributes over the first message, put a node into
a declared slot, and register expressions on the placeholder and on the anchor. -/
theorem restore_editAll_mixed :
    let edits : List Edit := [.setIcu 23 bareIcu, .alloc 2, .compile .standard ⟨-1, 24⟩ "�#1�c�/#1�" .root,
      .compileAttributes .standard 22 23 ["title", "�0�"], .addNode 25 .element "p" none, .setIcu 27 bareIcu]
    let t' := (anchoredView.editAll edits).restore anchoredView.checkpoint
    t'.slots = anchoredView.slots ∧ t'.nodes[0]? = anchoredView.nodes[0]? ∧
      t'.nodes[2]? = anchoredView.nodes[2]?.map (·.withIcu (some bareIcu)) := by
  intro edits t'
  obtain ⟨hslots, -, hnodes⟩ := restore_editAll anchoredView_reachable edits
  have hplaceholder : anchoredView.slots[23]? = some (.node 0) := by decide +kernel
  have hanchor : anchoredView.slots[27]? = some (.node 2) := by decide +kernel
  refine ⟨hslots, ?_, ?_⟩
  · cases hnode : anchoredView.nodes[0]? with
    | none =>
      have hsome : anchoredView.nodes[0]?.isSome = true := by decide +kernel
      rw [hnode] at hsome
      cases hsome
    | some node =>
      have hdeclared : anchoredView.Declares 23 := by decide +kernel
      have h := hnodes 23 0 node hplaceholder hnode
      rwa [if_pos hdeclared] at h
  · cases hnode : anchoredView.nodes[2]? with
    | none =>
      have hsome : anchoredView.nodes[2]?.isSome = true := by decide +kernel
      rw [hnode] at hsome
      cases hsome
    | some node =>
      have hdeclared : ¬anchoredView.Declares 27 := by decide +kernel
      have hlast : anchoredView.lastIcu 2 edits = some bareIcu := by decide +kernel
      have h := hnodes 27 2 node hanchor hnode
      rwa [if_neg hdeclared, hlast] at h

/-- **An expression that is registered on an anchor stays there.** Going back to the checkpoint does not give the
anchor of a compiled message its own expression back. -/
theorem restore_editAll_ne : anchoredView.Reachable ∧ anchoredView.contains 27 = true ∧
      ((anchoredView.editAll [.setIcu 27 bareIcu]).restore anchoredView.checkpoint).node? 27 ≠
        anchoredView.node? 27 :=
  ⟨anchoredView_reachable, by decide +kernel, by decide +kernel⟩

end TemplateView

end MessageCompiler
