/-
Where expressions get registered.

An expression is registered on the node in the slot of its anchor. A slot that the view has got for a message has a
node with the index of the slot, so that no other slot leads to the same node, and what is registered on it is
registered in one slot only.
-/
import MessageCompiler.Proofs.PassGrowth

namespace MessageCompiler

namespace TemplateView

/-- From the slot `n` on, a slot with a node has the node of that index. -/
def IndexedFrom (n : Nat) (t : TemplateView) : Prop :=
  ∀ k id, n ≤ k → t.slots[k]? = some (.node id) → ∃ node, t.nodes[id]? = some node ∧ node.index = k

/-- Every expression from the slot `n` on that is registered in `t'` and was not in `t` is at one of the anchors. -/
structure Surveyed (n : Nat) (anchors : List Nat) (t t' : TemplateView) : Prop where
  indexed : t.IndexedFrom n → t'.IndexedFrom n
  found : t.IndexedFrom n → ∀ (k : Nat) (icu : CompiledIcu), n ≤ k → t'.icu? k = some icu →
    t.icu? k = some icu ∨ k ∈ anchors

variable {n : Nat} {t t₁ t₂ : TemplateView} {anchors anchors' : List Nat}

theorem Surveyed.refl (n : Nat) (t : TemplateView) : t.Surveyed n [] t := ⟨id, fun _ _ _ _ h => .inl h⟩

theorem Surveyed.trans (h₁ : t.Surveyed n anchors t₁) (h₂ : t₁.Surveyed n anchors' t₂) :
    t.Surveyed n (anchors ++ anchors') t₂ where
  indexed ht := h₂.indexed (h₁.indexed ht)
  found ht k icu hk h := by
    rcases h₂.found (h₁.indexed ht) k icu hk h with h | h
    · exact (h₁.found ht k icu hk h).imp id fun h => List.mem_append_left _ h
    · exact .inr (List.mem_append_right _ h)

theorem Surveyed.then (h₁ : t.Surveyed n [] t₁) (h₂ : t₁.Surveyed n anchors t₂) : t.Surveyed n anchors t₂ :=
  h₁.trans h₂

theorem Surveyed.mono (h : t.Surveyed n anchors t₁) (hsub : anchors ⊆ anchors') : t.Surveyed n anchors' t₁ :=
  ⟨h.indexed, fun ht k icu hk hicu => (h.found ht k icu hk hicu).imp id fun hmem => hsub hmem⟩

theorem Surveyed.of_indexed (h : t.IndexedFrom n → t.Surveyed n anchors t₁) : t.Surveyed n anchors t₁ :=
  ⟨fun ht => (h ht).indexed ht, fun ht => (h ht).found ht⟩

variable {k : Nat} {s : Slot} {f : TemplateNode → TemplateNode}

theorem icu?_eq_some {icu : CompiledIcu} : t.icu? k = some icu ↔
    (∃ id node, t.slots[k]? = some (.node id) ∧ t.nodes[id]? = some node ∧ node.icu = some icu) ∨
      t.slots[k]? = some (.icu icu) := by
  rw [icu?, slot?_natCast]
  grind

theorem surveyed_alloc (n : Nat) (t : TemplateView) (count : Nat) : t.Surveyed n [] (t.alloc count) where
  indexed ht k id hk h := ht k id hk (slots_alloc_eq_some (by simp) h)
  found _ k icu _ h := by
    refine .inl (icu?_eq_some.mpr ?_)
    rcases icu?_eq_some.mp h with ⟨id, node, hslot, hnode, hicu⟩ | hslot
    · exact .inl ⟨id, node, slots_alloc_eq_some (by simp) hslot, hnode, hicu⟩
    · exact .inr (slots_alloc_eq_some (by simp) hslot)

theorem surveyed_addNode (n : Nat) (t : TemplateView) {node : TemplateNode} (hnode : node.icu = none) :
    t.Surveyed n [] (t.addNode node) := by
  -- a node that was there has its old number, and the slot of the new one leads to the last number
  have hold : ∀ {id : Nat} {old : TemplateNode}, t.nodes[id]? = some old → (t.addNode node).nodes[id]? = some old := by
    intro id old h
    have hid : id < t.nodes.size := (Array.getElem?_eq_some_iff.mp h).1
    exact (Array.getElem?_push_lt hid).trans ((Array.getElem?_eq_getElem hid).symm.trans h)
  have hnew : (t.addNode node).nodes[t.nodes.size]? = some node := Array.getElem?_push_size
  constructor
  · intro ht k id hk h
    rcases slots_setSlot_eq_some h with ⟨hi, hid⟩ | ⟨-, h⟩
    · cases hid
      exact ⟨node, hnew, hi⟩
    · obtain ⟨old, hget, hindex⟩ := ht k id hk h
      exact ⟨old, hold hget, hindex⟩
  · intro ht k icu hk h
    refine .inl (icu?_eq_some.mpr ?_)
    rcases icu?_eq_some.mp h with ⟨id, found, hslot, hfound, hicu⟩ | hslot
    · rcases slots_setSlot_eq_some hslot with ⟨-, hid⟩ | ⟨-, hslot⟩
      · cases hid
        rw [hnew] at hfound
        cases hfound
        rw [hnode] at hicu
        cases hicu
      · obtain ⟨old, hget, -⟩ := ht k id hk hslot
        rw [hold hget] at hfound
        cases hfound
        exact .inl ⟨id, _, hslot, hget, hicu⟩
    · rcases slots_setSlot_eq_some hslot with ⟨-, hs⟩ | ⟨-, hslot⟩
      · cases hs
      · exact .inr hslot

theorem IndexedFrom.setSlot (ht : t.IndexedFrom n) (i : Int) (hnode : ∀ id, s ≠ .node id) :
    (t.setSlot i s).IndexedFrom n := by
  intro k id hk h
  rcases slots_setSlot_eq_some h with ⟨-, hs⟩ | ⟨-, h⟩
  · exact absurd hs.symm (hnode id)
  · rw [nodes_setSlot]
    exact ht k id hk h

theorem surveyed_setSlot (n : Nat) (t : TemplateView) (i : Int) (hnode : ∀ id, s ≠ .node id)
    (hicu : ∀ icu, s ≠ .icu icu) : t.Surveyed n [] (t.setSlot i s) where
  indexed ht := ht.setSlot i hnode
  found _ k icu _ h := by
    refine .inl (icu?_eq_some.mpr ?_)
    rcases icu?_eq_some.mp h with ⟨id, node, hslot, hget, hfound⟩ | hslot
    · rcases slots_setSlot_eq_some hslot with ⟨-, hs⟩ | ⟨-, hslot⟩
      · exact absurd hs.symm (hnode id)
      · rw [nodes_setSlot] at hget
        exact .inl ⟨id, node, hslot, hget, hfound⟩
    · rcases slots_setSlot_eq_some hslot with ⟨-, hs⟩ | ⟨-, hslot⟩
      · exact absurd hs.symm (hicu icu)
      · exact .inr hslot

theorem IndexedFrom.modifyNode (ht : t.IndexedFrom n) (id : Nat) (hindex : ∀ node, (f node).index = node.index) :
    (t.modifyNode id f).IndexedFrom n := by
  intro k id' hk h
  obtain ⟨node, hnode, hat⟩ := ht k id' hk h
  rw [show (t.modifyNode id f).nodes = t.nodes.modify id f from rfl, Array.getElem?_modify]
  split
  · exact ⟨f node, by rw [hnode]; rfl, (hindex node).trans hat⟩
  · exact ⟨node, hnode, hat⟩

/-- A node that is changed keeps its index; what it anchors it has anchored before, or it is at one of the anchors. -/
theorem surveyed_modifyNode (n : Nat) (t : TemplateView) (id : Nat) (hindex : ∀ node, (f node).index = node.index)
    (hicu : ∀ node, t.nodes[id]? = some node → (f node).icu = node.icu ∨ ∃ k ∈ anchors, node.index = (k : Int)) :
    t.Surveyed n anchors (t.modifyNode id f) := by
  have hnodes : ∀ {id' : Nat} {node' : TemplateNode}, (t.modifyNode id f).nodes[id']? = some node' →
      ∃ node, t.nodes[id']? = some node ∧ (node' = node ∨ id = id' ∧ node' = f node) := by
    intro id' node' h
    rw [show (t.modifyNode id f).nodes = t.nodes.modify id f from rfl, Array.getElem?_modify] at h
    split at h
    · next heq =>
      obtain ⟨node, hnode, hf⟩ := Option.map_eq_some_iff.mp h
      exact ⟨node, hnode, .inr ⟨heq, hf.symm⟩⟩
    · exact ⟨node', h, .inl rfl⟩
  have hslots : (t.modifyNode id f).slots = t.slots := rfl
  refine ⟨fun ht => ht.modifyNode id hindex, fun ht k icu hk h => ?_⟩
  rcases icu?_eq_some.mp h with ⟨id', node', hslot, hget, hfound⟩ | hslot
  · obtain ⟨node, hnode, heq⟩ := hnodes hget
    rw [hslots] at hslot
    rcases heq with rfl | ⟨rfl, rfl⟩
    · exact .inl (icu?_eq_some.mpr (.inl ⟨id', _, hslot, hnode, hfound⟩))
    · rcases hicu node hnode with heq | ⟨anchor, hanchor, heq⟩
      · exact .inl (icu?_eq_some.mpr (.inl ⟨id, node, hslot, hnode, heq ▸ hfound⟩))
      · obtain ⟨same, hsame, hat⟩ := ht k id hk hslot
        rw [hnode] at hsame
        cases hsame
        rw [heq] at hat
        exact .inr (Int.ofNat_inj.mp hat ▸ hanchor)
  · exact .inl (icu?_eq_some.mpr (.inr hslot))

theorem surveyed_setIcu {anchor id : Nat} (hn : n ≤ anchor) (hid : t.nodeId? anchor = some id) (icu : CompiledIcu) :
    t.Surveyed n [anchor] (t.setIcu anchor icu) := by
  refine .of_indexed fun ht => ?_
  rw [setIcu_eq hid]
  refine surveyed_modifyNode n t id (fun _ => rfl) fun node hnode => .inr ⟨anchor, List.mem_singleton_self _, ?_⟩
  have hslot := nodeId?_eq_some.mp hid
  rw [slot?_natCast] at hslot
  obtain ⟨same, hsame, hat⟩ := ht anchor id hn hslot
  rw [hnode] at hsame
  cases hsame
  exact hat

theorem surveyed_precede (n : Nat) (node : TemplateNode) :
    ∀ (nodes : List Nat) (t : TemplateView), t.Surveyed n [] (t.precede nodes node) := by
  intro nodes
  induction nodes with
  | nil => exact fun t => .refl n t
  | cons id rest ih =>
    intro t
    rw [precede_cons]
    refine Surveyed.then (surveyed_modifyNode n t id (fun earlier => ?_) fun earlier _ => ?_) (ih _)
    · unfold TemplateNode.followedBy
      split <;> rfl
    · exact .inl (node.followedBy_keeps earlier).1

theorem surveyed_createdView (n : Nat) (frame : Frame) (t : TemplateView) (type : NodeType) (value : String) :
    t.Surveyed n [] (frame.createdView t type value) := by
  have hnew : (t.alloc 1).Surveyed n [] ((t.alloc 1).addNode (.fresh t.size type value none)) := surveyed_addNode n _ rfl
  have hadded := (surveyed_alloc n t 1).then (hnew.then (surveyed_precede n (.fresh t.size type value none) frame.nodes _))
  unfold Frame.createdView addChild
  cases frame.placeholder with
  | none => exact hadded
  | some o => exact hadded.then (surveyed_modifyNode n _ o.node (fun _ => rfl) fun _ _ => .inl rfl)

end TemplateView

end MessageCompiler
