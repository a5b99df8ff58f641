/-
What compiling a message leaves alone.

A message gets new slots for its own nodes, takes the slots of the placeholders that it opens, and its block goes to
the slot it is compiled for. All other slots hold what they held, and no template node that was there before has
changed, wherever it may be referred to.
-/
import MessageCompiler.Proofs.Origins
import MessageCompiler.Proofs.Reaching

namespace MessageCompiler

open Steps TemplateView

namespace TemplateView

variable {t t' : TemplateView}

theorem leads_of_slots_eq (hb : t.Bounded) {k : Nat} (hslot : t'.slots[k]? = t.slots[k]?)
    (hnodes : ∀ id < t.nodes.size, t'.nodes[id]? = t.nodes[id]?) :
    t'.node? k = t.node? k ∧ t'.icu? k = t.icu? k := by
  have hsame : ∀ id, t.slots[k]? = some (.node id) → t'.nodes[id]? = t.nodes[id]? := fun id hid =>
    hnodes id (hb k id hid)
  refine ⟨?_, icu?_of_slots_eq hslot fun id hid => by rw [hsame id hid]⟩
  have hid : t'.nodeId? k = t.nodeId? k := by
    unfold nodeId?
    rw [slot?_natCast, slot?_natCast, hslot]
  show (t'.nodeId? k).bind (t'.nodes[·]?) = (t.nodeId? k).bind (t.nodes[·]?)
  rw [hid]
  cases h : t.nodeId? k with
  | none => rfl
  | some id =>
    have hs := nodeId?_eq_some.mp h
    rw [slot?_natCast] at hs
    exact hsame id hs

end TemplateView

/-- **Compiling a message touches only its own slots.** A slot of the view other than that of the message and those
of the placeholders that its part opens holds what it held, and leads to the same node and the same expression. Every
template node that there was is as it was, and so is what is registered on it. The placeholders are in declared slots;
where these end stays the same, and no slot goes away. -/
theorem undisturbed_compile {t : TemplateView} {cfg : Config} {site : Site} {message : String} {scope : Message.Scope}
    {handle : Handle} (h : Compiles t cfg site message scope handle) :
    let t' := (t.compile cfg site message scope).view
    let opened := Message.slotsOf (Message.outline scope message)
    (∀ i : Nat, i < t.size → (i : Int) ≠ site.index → i ∉ opened →
        t'.slots[i]? = t.slots[i]? ∧ t'.node? i = t.node? i ∧ t'.icu? i = t.icu? i) ∧
      (∀ id < t.nodes.size, t'.nodes[id]? = t.nodes[id]?) ∧
      (∀ s ∈ opened, header ≤ s ∧ s < t.bindingStart) ∧ t'.bindingStart = t.bindingStart ∧ t.size ≤ t'.size := by
  obtain ⟨part, p, hpass, hview, -⟩ := exists_compiling h.vacant h.result_eq
  rw [hview]
  -- One look at the pass says which slots change, another one that all nodes that change are new.
  have hnodes := hpass.grows.nodes
  obtain ⟨hgrow, hdeclared⟩ := (traverses_compileScoped hpass.run).grows
  rw [← Message.slotsOf_outline hpass.part_eq] at hgrow hdeclared
  have hkept : ∀ id < t.nodes.size, (compiledView p site.index).nodes[id]? = t.nodes[id]? := by
    intro id hid
    unfold compiledView
    rw [nodes_setSlot]
    exact hnodes id hid
  refine ⟨fun i hi hne hout => ?_, hkept, hdeclared, ?_, ?_⟩
  · have hslot : (compiledView p site.index).slots[i]? = t.slots[i]? :=
      (slots_setSlot_ne hne.symm _).trans (hgrow.slots i hi hout)
    exact ⟨hslot, leads_of_slots_eq h.reachable.sound.bounded hslot hkept⟩
  · exact (bindingStart_setSlot _ _ _).trans hgrow.bindingStart
  · have hsize : (compiledView p site.index).size = p.view.size := size_setSlot _ _ _
    exact hsize ▸ hgrow.size_le

/-- A view that has a message with a placeholder and an expression. -/
def inhabitedView : TemplateView :=
  ((TemplateView.new 4 1).compile .standard ⟨-1, 22⟩
    "a�#1�b�/#1�\x7b�0�, select, other \x7bc\x7d\x7d" .root).view

/-- A message that opens the placeholder of the other message again, and another one inside it. -/
theorem undisturbed_compile_beside :
    let message := "�#1��#3�\x7b�1�, select, other \x7bd\x7d\x7d�/#3��/#1�"
    let t' := (inhabitedView.compile .standard ⟨-1, 24⟩ message .root).view
    Message.slotsOf (Message.outline .root message) = [23, 25] ∧
      (∀ i : Nat, i < 32 → (i : Int) ≠ 24 → i ∉ [23, 25] → t'.slots[i]? = inhabitedView.slots[i]?) ∧
      ∀ id < 5, t'.nodes[id]? = inhabitedView.nodes[id]? := by
  intro message t'
  have hopened : Message.slotsOf (Message.outline .root message) = [23, 25] := by decide +kernel
  have hreachable : inhabitedView.Reachable := (Reachable.new 4 1).compile _ _ _ _
  cases hok : (inhabitedView.compile .standard ⟨-1, 24⟩ message .root).result with
  | error e =>
    have hfine : (inhabitedView.compile .standard ⟨-1, 24⟩ message .root).result.isOk = true := by decide +kernel
    rw [hok] at hfine
    cases hfine
  | ok handle =>
    have hvacant : ∀ serial block, inhabitedView.slot? 24 ≠ some (.block serial block) := by
      intro serial block hblock
      have hempty : inhabitedView.slot? 24 = some .empty := by decide +kernel
      cases hempty.symm.trans hblock
    have hcompiles : Compiles inhabitedView .standard ⟨-1, 24⟩ message .root handle := ⟨hreachable, hvacant, hok⟩
    obtain ⟨hslots, hnodes, -⟩ := undisturbed_compile hcompiles
    have hsize : inhabitedView.size = 32 := by decide +kernel
    have hcount : inhabitedView.nodes.size = 5 := by decide +kernel
    rw [hopened, hsize] at hslots
    rw [hcount] at hnodes
    exact ⟨hopened, fun i hi hne hout => (hslots i hi hne hout).1, hnodes⟩

end MessageCompiler
