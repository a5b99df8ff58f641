/-
How a template view grows.

Compiling adds slots at the end of a view and template nodes at the end of its store, and may use some
of the slots that are there.

* **`Grows`** — the view after a step: only slots that count as touched have changed, no template node
  before a given number has, and an expression that was registered stays registered.
-/
import MessageCompiler.Compile.Message
import MessageCompiler.Proofs.Steps

namespace MessageCompiler

namespace TemplateView

variable {i : Int} {id k : Nat} {s : Slot}

def Bounded (t : TemplateView) : Prop :=
  ∀ i id : Nat, t.slots[i]? = some (.node id) → id < t.nodes.size

def type? (t : TemplateView) (i : Int) : Option NodeType := (t.node? i).map (·.type)

/-- `t'` comes from `t` by adding slots and nodes and changing touched slots and nodes from `n` on. -/
structure Grows (touched : Nat → Prop) (n : Nat) (t t' : TemplateView) : Prop where
  size_le : t.size ≤ t'.size
  slots : ∀ i < t.size, ¬touched i → t'.slots[i]? = t.slots[i]?
  nodes_le : t.nodes.size ≤ t'.nodes.size
  nodes : ∀ id < n, t'.nodes[id]? = t.nodes[id]?
  bounded : t.Bounded → t'.Bounded
  icus : ∀ i < t.size, ¬touched i → ∀ icu, t.icu? i = some icu → t'.icu? i = some icu
  types : t.Bounded → ∀ i < t.size, ¬touched i → t'.type? i = t.type? i
  bindingStart : t'.bindingStart = t.bindingStart
  serial : t'.serial = t.serial

def untouched : Nat → Prop := fun _ => False

variable {touched : Nat → Prop} {n : Nat} {t t₁ t₂ : TemplateView}

namespace Grows

theorem refl (touched : Nat → Prop) (n : Nat) (t : TemplateView) : Grows touched n t t :=
  ⟨Nat.le_refl _, fun _ _ _ => rfl, Nat.le_refl _, fun _ _ => rfl, id, fun _ _ _ _ h => h, fun _ _ _ _ => rfl, rfl, rfl⟩

theorem trans' {first second : Nat → Prop} (h₁ : Grows first n t t₁) (h₂ : Grows second n t₁ t₂)
    (h : ∀ i < t.size, first i ∨ second i → touched i) : Grows touched n t t₂ where
  size_le := Nat.le_trans h₁.size_le h₂.size_le
  slots i hi ht := by
    have hfirst : ¬first i := fun hf => ht (h i hi (Or.inl hf))
    have hsecond : ¬second i := fun hs => ht (h i hi (Or.inr hs))
    rw [h₂.slots i (Nat.lt_of_lt_of_le hi h₁.size_le) hsecond, h₁.slots i hi hfirst]
  nodes_le := Nat.le_trans h₁.nodes_le h₂.nodes_le
  nodes id hid := by rw [h₂.nodes id hid, h₁.nodes id hid]
  bounded h := h₂.bounded (h₁.bounded h)
  icus i hi ht icu hicu := by
    have hfirst : ¬first i := fun hf => ht (h i hi (Or.inl hf))
    have hsecond : ¬second i := fun hs => ht (h i hi (Or.inr hs))
    exact h₂.icus i (Nat.lt_of_lt_of_le hi h₁.size_le) hsecond icu (h₁.icus i hi hfirst icu hicu)
  types hb i hi ht := by
    have hfirst : ¬first i := fun hf => ht (h i hi (Or.inl hf))
    have hsecond : ¬second i := fun hs => ht (h i hi (Or.inr hs))
    rw [h₂.types (h₁.bounded hb) i (Nat.lt_of_lt_of_le hi h₁.size_le) hsecond, h₁.types hb i hi hfirst]
  bindingStart := h₂.bindingStart.trans h₁.bindingStart
  serial := h₂.serial.trans h₁.serial

theorem trans (h₁ : Grows touched n t t₁) (h₂ : Grows touched n t₁ t₂) : Grows touched n t t₂ :=
  h₁.trans' h₂ fun _ _ h => h.elim id id

theorem weaken {more : Nat → Prop} {m : Nat} (h : Grows touched n t t₁)
    (ht : ∀ i < t.size, touched i → more i) (hm : m ≤ n) : Grows more m t t₁ := { h with
  slots i hi hmore := h.slots i hi fun htouched => hmore (ht i hi htouched)
  nodes id hid := h.nodes id (Nat.lt_of_lt_of_le hid hm)
  icus i hi hmore := h.icus i hi fun htouched => hmore (ht i hi htouched)
  types hb i hi hmore := h.types hb i hi fun htouched => hmore (ht i hi htouched) }

end Grows

/-! ### What the operations on a view do -/

@[simp] theorem size_alloc (t : TemplateView) (count : Nat) : (t.alloc count).size = t.size + count := by
  simp [alloc, size]

section

variable (t : TemplateView) (i : Int) (s : Slot)

@[simp] theorem size_setSlot : (t.setSlot i s).size = t.size := by
  unfold setSlot
  split <;> simp [size]

@[simp] theorem nodes_setSlot : (t.setSlot i s).nodes = t.nodes := by
  unfold setSlot
  split <;> rfl

@[simp] theorem bindingStart_setSlot : (t.setSlot i s).bindingStart = t.bindingStart := by
  unfold setSlot
  split <;> rfl

@[simp] theorem serial_setSlot : (t.setSlot i s).serial = t.serial := by
  unfold setSlot
  split <;> rfl

end

theorem slots_setSlot_ne (h : i ≠ k) (s : Slot) : (t.setSlot i s).slots[k]? = t.slots[k]? := by
  unfold setSlot
  split
  · rfl
  · show (t.slots.setIfInBounds i.toNat s)[k]? = t.slots[k]?
    rw [Array.getElem?_setIfInBounds_ne (by omega)]

theorem slots_setSlot_self (h : k < t.size) (s : Slot) : (t.setSlot k s).slots[k]? = some s := by
  unfold setSlot
  show (t.slots.setIfInBounds (k : Int).toNat s)[k]? = some s
  have hk : k < t.slots.size := h
  simp [hk]

theorem slots_alloc (h : k < t.size) (count : Nat) : (t.alloc count).slots[k]? = t.slots[k]? :=
  Array.getElem?_append_left h

theorem slots_alloc_eq_some {count : Nat} (hs : s ≠ .empty) (h : (t.alloc count).slots[k]? = some s) :
    t.slots[k]? = some s := by
  by_cases hk : k < t.size
  · rwa [slots_alloc hk] at h
  · have hadded : (t.alloc count).slots[k]? = (Array.replicate count Slot.empty)[k - t.size]? :=
      Array.getElem?_append_right (Nat.le_of_not_lt hk)
    rw [hadded, Array.getElem?_replicate] at h
    split at h
    · exact absurd (Option.some.inj h).symm hs
    · cases h

theorem slots_setSlot_eq_some {s' : Slot} (h : (t.setSlot i s).slots[k]? = some s') :
    i = k ∧ s' = s ∨ i ≠ k ∧ t.slots[k]? = some s' := by
  by_cases hi : i = k
  · subst hi
    have hk : k < t.size := by
      rw [← size_setSlot t k s]
      exact (Array.getElem?_eq_some_iff.mp h).1
    simp_all [slots_setSlot_self]
  · grind [slots_setSlot_ne]

theorem slot?_natCast (t : TemplateView) (k : Nat) : t.slot? k = t.slots[k]? := by
  unfold slot?
  rw [if_neg (by omega)]
  rfl

/-! ### What a slot leads to -/

theorem nodeId?_eq_some : t.nodeId? i = some id ↔ t.slot? i = some (.node id) := by
  unfold nodeId?
  constructor
  · intro h
    split at h
    · next heq =>
      cases h
      exact heq
    · cases h
  · intro h
    rw [h]

theorem type?_of_empty {t : TemplateView} (h : t.slots[k]? = some .empty) : t.type? k = none := by
  unfold type? node? nodeId?
  rw [slot?_natCast, h]
  rfl

theorem slot?_eq_some : t.slot? i = some s ↔ ∃ k : Nat, i = k ∧ t.slots[k]? = some s := by
  constructor
  · intro h
    unfold slot? at h
    split at h
    · cases h
    · exact ⟨i.toNat, by omega, h⟩
  · rintro ⟨k, rfl, h⟩
    rw [slot?_natCast, h]

theorem icu?_of_slots_eq (hslot : t₁.slots[k]? = t.slots[k]?) (hnodes : ∀ id, t.slots[k]? = some (.node id) →
      t₁.nodes[id]?.bind (·.icu) = t.nodes[id]?.bind (·.icu)) : t₁.icu? k = t.icu? k := by
  unfold icu?
  rw [slot?_natCast, slot?_natCast, hslot]
  cases hs : t.slots[k]? with
  | none => rfl
  | some s =>
    cases s with
    | node id => exact hnodes id hs
    | empty => rfl
    | icu icu => rfl
    | block serial block => rfl
    | attributes ops => rfl

theorem type?_of_slots_eq (hslot : t₁.slots[k]? = t.slots[k]?) (hnodes : ∀ id, t.slots[k]? = some (.node id) →
      t₁.nodes[id]?.map (·.type) = t.nodes[id]?.map (·.type)) : t₁.type? k = t.type? k := by
  have hid : t₁.nodeId? k = t.nodeId? k := by
    unfold nodeId?
    rw [slot?_natCast, slot?_natCast, hslot]
  show ((t₁.nodeId? k).bind fun id => t₁.nodes[id]?).map _ = ((t.nodeId? k).bind fun id => t.nodes[id]?).map _
  rw [hid]
  cases h : t.nodeId? k with
  | none => rfl
  | some id =>
    have hs := nodeId?_eq_some.mp h
    rw [slot?_natCast] at hs
    exact hnodes id hs

/-! ### Bounded views -/

theorem bounded_alloc (h : t.Bounded) (count : Nat) : (t.alloc count).Bounded :=
  fun i id hi => h i id (slots_alloc_eq_some (by simp) hi)

theorem bounded_setSlot (h : t.Bounded) (hs : ∀ id, s = .node id → id < t.nodes.size)
    (i : Int) : (t.setSlot i s).Bounded := by
  intro k id hk
  rw [nodes_setSlot]
  rcases slots_setSlot_eq_some hk with ⟨-, heq⟩ | ⟨-, hk⟩
  · exact hs id heq.symm
  · exact h k id hk

theorem bounded_modifyNode (h : t.Bounded) (id : Nat) (f : TemplateNode → TemplateNode) :
    (t.modifyNode id f).Bounded := by
  intro k i hk
  show i < (t.nodes.modify id f).size
  rw [Array.size_modify]
  exact h k i hk

theorem bounded_addNode (h : t.Bounded) (node : TemplateNode) : (t.addNode node).Bounded := by
  intro k id hk
  show id < (t.nodes.push node).size
  rw [Array.size_push]
  rcases slots_setSlot_eq_some hk with ⟨-, heq⟩ | ⟨-, hk⟩
  · cases heq
    exact Nat.lt_succ_self _
  · exact Nat.lt_succ_of_lt (h k id hk)

/-! ### Growing views -/

theorem grows_alloc (touched : Nat → Prop) (n : Nat) (t : TemplateView) (count : Nat) :
    Grows touched n t (t.alloc count) where
  size_le := by simp
  slots i hi _ := slots_alloc hi count
  nodes_le := Nat.le_refl _
  nodes _ _ := rfl
  bounded h := bounded_alloc h count
  icus i hi _ icu hicu := by
    rw [icu?_of_slots_eq (slots_alloc hi count) fun _ _ => rfl, hicu]
  types _ i hi _ := type?_of_slots_eq (slots_alloc hi count) fun _ _ => rfl
  bindingStart := rfl
  serial := rfl

theorem grows_setSlot (h : ∀ k : Nat, i = k → touched k) (n : Nat)
    (hs : ∀ id, s = .node id → id < t.nodes.size) : Grows touched n t (t.setSlot i s) where
  size_le := by simp
  slots k _ hk := slots_setSlot_ne (fun hik => hk (h k hik)) s
  nodes_le := by simp
  nodes id _ := by simp
  bounded hb := bounded_setSlot hb hs i
  icus k _ hk icu hicu := by
    rw [icu?_of_slots_eq (slots_setSlot_ne (fun hik => hk (h k hik)) s) fun _ _ => by simp, hicu]
  types _ k _ hk :=
    type?_of_slots_eq (slots_setSlot_ne (fun hik => hk (h k hik)) s) fun _ _ => by simp
  bindingStart := by simp
  serial := by simp

theorem grows_modifyNode (touched : Nat → Prop) (h : n ≤ id)
    {f : TemplateNode → TemplateNode} (hf : ∀ node, (f node).icu = node.icu ∧ (f node).type = node.type) :
    Grows touched n t (t.modifyNode id f) where
  size_le := Nat.le_refl _
  slots _ _ _ := rfl
  nodes_le := by simp [modifyNode]
  nodes k hk := by
    show (t.nodes.modify id f)[k]? = t.nodes[k]?
    rw [Array.getElem?_modify, if_neg (by omega)]
  bounded hb := bounded_modifyNode hb id f
  icus k _ _ icu hicu := by
    rw [← hicu]
    refine icu?_of_slots_eq rfl fun i _ => ?_
    show (t.nodes.modify id f)[i]?.bind (·.icu) = t.nodes[i]?.bind (·.icu)
    rw [Array.getElem?_modify]
    split
    · cases t.nodes[i]? with
      | none => rfl
      | some node => exact (hf node).1
    · rfl
  types _ k _ _ := type?_of_slots_eq rfl fun i _ => by
    show (t.nodes.modify id f)[i]?.map (·.type) = t.nodes[i]?.map (·.type)
    rw [Array.getElem?_modify]
    split
    · cases t.nodes[i]? with
      | none => rfl
      | some node => exact congrArg some (hf node).2
    · rfl
  bindingStart := rfl
  serial := rfl

theorem grows_addNode {node : TemplateNode} (h : ∀ k : Nat, node.index = k → touched k)
    (hn : n ≤ t.nodes.size) : Grows touched n t (t.addNode node) where
  size_le := by
    show t.size ≤ (t.setSlot node.index (.node t.nodes.size)).size
    simp
  slots k hk htouched := by
    show (t.setSlot node.index (.node t.nodes.size)).slots[k]? = t.slots[k]?
    exact slots_setSlot_ne (fun hik => htouched (h k hik)) _
  nodes_le := by simp [addNode]
  nodes id hid := by
    show (t.nodes.push node)[id]? = t.nodes[id]?
    grind
  bounded hb := bounded_addNode hb node
  icus k hk htouched icu hicu := by
    have hslot : (t.addNode node).slots[k]? = t.slots[k]? :=
      slots_setSlot_ne (fun hik => htouched (h k hik)) _
    rw [icu?_of_slots_eq hslot fun id hid => ?_, hicu]
    -- A slot that leads to an expression refers to a node that exists.
    have hlt : id < t.nodes.size := by
      rw [icu?, slot?_natCast, hid] at hicu
      grind
    show (t.nodes.push node)[id]?.bind (·.icu) = _
    grind
  types hb k hk htouched := by
    refine type?_of_slots_eq (slots_setSlot_ne (fun hik => htouched (h k hik)) _) fun id hid => ?_
    have hlt := hb k id hid
    show (t.nodes.push node)[id]?.map (·.type) = _
    grind
  bindingStart := by
    show (t.setSlot node.index (.node t.nodes.size)).bindingStart = t.bindingStart
    simp
  serial := by
    show (t.setSlot node.index (.node t.nodes.size)).serial = t.serial
    simp

theorem nodeId?_addNode (t : TemplateView) (node : TemplateNode) (hindex : node.index = k)
    (hk : k < t.size) : (t.addNode node).nodeId? k = some t.nodes.size := by
  have hslot : (t.addNode node).slots[k]? = some (.node t.nodes.size) := by
    show (t.setSlot node.index (.node t.nodes.size)).slots[k]? = _
    rw [hindex]
    exact slots_setSlot_self hk _
  unfold nodeId?
  rw [slot?_natCast, hslot]

theorem setIcu_eq (hid : t.nodeId? i = some id) (icu : CompiledIcu) :
    t.setIcu i icu = t.modifyNode id fun node => { node with icu := some icu } := by
  unfold setIcu
  rw [hid]

theorem grows_setIcu (hid : t.nodeId? i = some id) (hn : n ≤ id)
    (hnone : t.nodes[id]?.bind (·.icu) = none) (touched : Nat → Prop) (icu : CompiledIcu) :
    Grows touched n t (t.setIcu i icu) := by
  rw [setIcu_eq hid]
  refine ⟨Nat.le_refl _, fun _ _ _ => rfl, by simp [modifyNode], ?_, fun hb => bounded_modifyNode hb id _,
    ?_, ?_, rfl, rfl⟩
  · intro k hk
    show (t.nodes.modify id _)[k]? = t.nodes[k]?
    rw [Array.getElem?_modify, if_neg (by omega)]
  · intro k _ _ other hother
    rw [← hother]
    refine icu?_of_slots_eq rfl fun j hj => ?_
    show (t.nodes.modify id _)[j]?.bind (·.icu) = t.nodes[j]?.bind (·.icu)
    rw [Array.getElem?_modify, if_neg ?_]
    -- A slot with that node would have led to no expression.
    rintro rfl
    rw [icu?, slot?_natCast, hj] at hother
    exact absurd (hnone.symm.trans hother) (by simp)
  · intro _ k _ _
    refine type?_of_slots_eq rfl fun j _ => ?_
    show (t.nodes.modify id _)[j]?.map (·.type) = t.nodes[j]?.map (·.type)
    rw [Array.getElem?_modify]
    split
    · cases t.nodes[j]? <;> rfl
    · rfl

theorem Grows.nodeId? (h : Grows untouched n t t₁) (hid : t.nodeId? i = some id) : t₁.nodeId? i = some id := by
  obtain ⟨k, rfl, hk⟩ := slot?_eq_some.mp (nodeId?_eq_some.mp hid)
  obtain ⟨hlt, -⟩ := Array.getElem?_eq_some_iff.mp hk
  refine nodeId?_eq_some.mpr (slot?_eq_some.mpr ⟨k, rfl, ?_⟩)
  rw [h.slots k hlt (fun htouched => htouched), hk]

end TemplateView

end MessageCompiler
