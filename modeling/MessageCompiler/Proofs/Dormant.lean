/-
Instructions for what is not shown.

The stream of a message has the instructions of all cases, also of those that are not shown. Whatever
such an instruction does, it stays among the slots of its case and among nodes that are not below the
host.
-/
import Mathlib.Data.List.Nodup
import MessageCompiler.Proofs.Shows

namespace MessageCompiler

open List
open Markup (Content Tree)
open Live LiveView

variable {x : LiveSlot} {c : Nat × Nat} {depth : Nat} {N S : List Nat} {C : List (Nat × Nat)}

variable {anchor id root s : Nat} {value : String} {parent : Int} {v : LiveView} {ref : Int × Option Nat}
  {icu : IcuPlan}

/-! ### Zones -/

/-- Different slots of a view: `N` are for nodes, those in `C` for cases. -/
structure Zone (n : Nat) (N : List Nat) (C : List (Nat × Nat)) : Prop where
  node_lt : ∀ s ∈ N, s < n
  current_lt : ∀ c ∈ C, c.1 < n
  disjoint : ∀ s ∈ N, ∀ c ∈ C, s ≠ c.1
  unique : ∀ c ∈ C, ∀ c' ∈ C, c.1 = c'.1 → c = c'

namespace LiveView

/-- Since `v₀` nothing has happened outside of the slots or below the root, and the slots are still dormant. -/
structure Rests (root : Nat) (N : List Nat) (C : List (Nat × Nat)) (v₀ v : LiveView) : Prop where
  start : v₀.Sound root
  keeps : v₀.Keeps root (N ++ C.map (·.1)) nowhere v
  dormant : v.Dormant root N C
  below : ∀ id, v.Below root id ↔ v₀.Below root id

namespace Rests

variable {root : Nat} {N : List Nat} {C : List (Nat × Nat)} {v₀ v v' : LiveView}

theorem refl (hs : v.Sound root) (hd : v.Dormant root N C) : v.Rests root N C v :=
  ⟨hs, .refl hs _ _, hd, fun _ => .rfl⟩

theorem trans (h : v₀.Rests root N C v) (h' : v.Rests root N C v') : v₀.Rests root N C v' :=
  ⟨h.start, h.keeps.trans h.start h'.keeps, h'.dormant, fun id => (h'.below id).trans (h.below id)⟩

variable (h : v₀.Rests root N C v)

include h

theorem loose (hs : s ∈ N) (hid : v.node? s = some id) : ¬v.Below root id :=
  h.dormant.loose s hs id (slot_of_node? hid)

theorem withTree {t : Tree} (ht : Unrooted root v t) : v₀.Rests root N C (v.withTree t) where
  start := h.start
  keeps := h.keeps.trans h.start (keeps_unrooted h.keeps.sound ht _ _)
  dormant := ⟨fun s hs id hid hbelow => h.dormant.loose s hs id hid ((ht.below_iff id).mp hbelow), h.dormant.settled⟩
  below id := (ht.below_iff id).trans (h.below id)

theorem set (hs : s < v₀.slots.size) (hmem : s ∈ N ++ C.map (·.1)) (hnode : ∀ id, x ≠ .node id)
    (hsettled : ∀ c ∈ C, c.1 = s → x = .empty ∨ ∃ k fresh, x = .chosen k fresh ∧ k < c.2) :
    v₀.Rests root N C (v.set s x) := by
  have hlt : s < v.slots.size := h.keeps.size.symm ▸ hs
  refine ⟨h.start, h.keeps.trans h.start (keeps_set h.keeps.sound hlt hmem hnode _), ⟨?_, ?_⟩, h.below⟩
  · intro k hk id hid
    rw [slots_set hlt] at hid
    split at hid
    · exact absurd (Option.some.inj hid) (hnode id)
    · exact h.dormant.loose k hk id hid
  · intro c hc
    unfold Settled
    rw [slots_set hlt]
    split
    · next heq =>
      rcases hsettled c hc heq with rfl | ⟨k, fresh, rfl, hk⟩
      · exact .inl rfl
      · exact .inr ⟨k, fresh, rfl, hk⟩
    · exact h.dormant.settled c hc

variable (hz : Zone v₀.slots.size N C)

include hz

theorem node_lt (hs : s ∈ N) : s < v.slots.size := h.keeps.size.symm ▸ hz.node_lt s hs

theorem setCurrent (hc : c ∈ C) (hnode : ∀ id, x ≠ .node id)
    (hsettled : x = .empty ∨ ∃ k fresh, x = .chosen k fresh ∧ k < c.2) : v₀.Rests root N C (v.set c.1 x) :=
  h.set (hz.current_lt c hc) (mem_append_right _ (mem_map_of_mem hc)) hnode fun c' hc' heq =>
    (hz.unique c' hc' c hc heq).symm ▸ hsettled

theorem addNew (hs : s ∈ N) (content : Content) : v₀.Rests root N C (v.addNew s content) := by
  have hlt := h.node_lt hz hs
  refine ⟨h.start, h.keeps.trans h.start (keeps_addNew h.keeps.sound hlt (mem_append_left _ hs) content _), ⟨?_, ?_⟩,
    fun id => (below_addNew s content id).trans (h.below id)⟩
  · intro k hk id hid hbelow
    rw [slots_addNew hlt] at hid
    rw [below_addNew] at hbelow
    split at hid
    · cases hid
      exact absurd (h.keeps.sound.below_lt hbelow) (Nat.lt_irrefl _)
    · exact h.dormant.loose k hk id hid hbelow
  · intro c hc
    unfold Settled
    rw [slots_addNew hlt, if_neg (hz.disjoint s hs c hc).symm]
    exact h.dormant.settled c hc

end Rests

end LiveView

/-! ### Instructions for the content of a case -/

/-- The view with the node `id` where an instruction puts it: in front of the anchor if it belongs to the
parent of the expression, else behind the children of the node in the slot `parent`. -/
def LiveView.placeIn (v : LiveView) (anchor id : Nat) (parent : Int) (ref : Int × Option Nat) : LiveView :=
  if parent = ref.1 then
    match ref.2 with
    | some p => v.withTree (v.tree.insertBefore p id (some anchor))
    | none => v
  else
    match v.node? parent with
    | some p => v.withTree (v.tree.append p id)
    | none => v

section CaseOp

variable {t : TemplateView} {anchor : Nat} {ref : Option (Int × Option Nat)} {v : LiveView}
  {Q : Option (Int × Option Nat) → LiveView → Prop}

theorem yields_caseOp_text (hs : s < v.slots.size)
    (h : Q ref (v.addNew s (.text value))) : Yields (caseOp t anchor ref (.text s value)) v Q :=
  Yields.andThen yields_create (Yields.andThen (yields_setSlot hs) (yields_pure h))

theorem yields_caseOp_element {tag : String} (hs : s < v.slots.size)
    (h : Q ref (v.addNew s (.element .html tag []))) : Yields (caseOp t anchor ref (.element s tag)) v Q :=
  Yields.andThen yields_create (Yields.andThen (yields_setSlot hs) (yields_pure h))

theorem yields_caseOp_anchor {c : Nat} {label : String} {nested : CompiledIcu} (hs : s < v.slots.size)
    (hnested : t.icu? s = some nested) (hcurrent : nested.current = c) (hc : c < v.slots.size)
    (h : Q ref ((v.addNew s (.comment label)).set c .empty)) :
    Yields (caseOp t anchor ref (.anchor s label)) v Q := by
  refine Yields.andThen yields_create (Yields.andThen (yields_setSlot hs) ?_)
  rw [hnested]
  dsimp only
  rw [hcurrent]
  have hc' : c < (v.addNew s (.comment label)).slots.size := by
    unfold addNew
    rw [size_set]
    exact hc
  exact Yields.andThen (yields_setSlot hc') (yields_pure h)

theorem yields_caseOp_setAttribute {name : String} (h : Q ref (match v.node? s with
      | some id => v.withTree (modifyContent id (withAttribute name value) v.tree)
      | none => v)) :
    Yields (caseOp t anchor ref (.setAttribute s name value)) v Q := by
  refine Yields.andThen yields_node? ?_
  cases hnode : v.node? s with
  | none =>
    rw [hnode] at h
    exact yields_pure h
  | some id =>
    rw [hnode] at h
    exact Yields.andThen yields_change (yields_pure h)

theorem yields_caseOp_append (hnode : v.node? s = some id) (h : Q (some (ref.getD (parent, v.tree.parent? anchor)))
      (v.placeIn anchor id parent (ref.getD (parent, v.tree.parent? anchor)))) :
    Yields (caseOp t anchor ref (.append s parent)) v Q := by
  refine Yields.andThen yields_node? ?_
  rw [hnode]
  refine yields_get fun r hr => ?_
  rw [hr]
  generalize ref.getD (parent, v.tree.parent? anchor) = place at h ⊢
  obtain ⟨slot, node⟩ := place
  unfold placeIn at h
  dsimp only at h ⊢
  split at h
  · next heq =>
    rw [if_pos heq]
    cases node with
    | none => exact yields_pure h
    | some p => exact Yields.andThen yields_change (yields_pure h)
  · next hne =>
    rw [if_neg hne]
    refine Yields.andThen yields_node? ?_
    cases hparent : v.node? parent with
    | none =>
      rw [hparent] at h
      exact yields_pure h
    | some p =>
      rw [hparent] at h
      exact Yields.andThen yields_change (yields_pure h)

end CaseOp

/-! ### Operations that rest -/

/-- The operation succeeds in every view that has rested since `v₀`, and rests. -/
def Resting (root : Nat) (N : List Nat) (C : List (Nat × Nat)) (v₀ : LiveView) {α : Type} (x : LiveM α) : Prop :=
  ∀ v, v₀.Rests root N C v → Yields x v fun _ => v₀.Rests root N C

section Resting

variable {root : Nat} {N : List Nat} {C : List (Nat × Nat)} {v₀ : LiveView} {α β : Type}

theorem resting_pure (a : α) : Resting root N C v₀ (pure a) := fun _ h => yields_pure h

theorem Resting.bind {x : LiveM α} {f : α → LiveM β} (hx : Resting root N C v₀ x)
    (hf : ∀ a, Resting root N C v₀ (f a)) : Resting root N C v₀ (x >>= f) :=
  fun v h => (hx v h).bind hf

theorem resting_forM {f : α → LiveM Unit} : ∀ {l : List α}, (∀ a ∈ l, Resting root N C v₀ (f a)) →
    Resting root N C v₀ (l.forM f)
  | [], _ => resting_pure ()
  | a :: _, h =>
    (h a mem_cons_self).bind fun _ => resting_forM fun b hb => h b (mem_cons_of_mem a hb)

theorem resting_vacate (hz : Zone v₀.slots.size N C) (hs : s ∈ N) : Resting root N C v₀ (vacate s) := by
  intro v h
  refine Yields.andThen yields_node? ?_
  cases hnode : v.node? s with
  | none => exact yields_pure h
  | some id =>
    refine Yields.andThen yields_change (yields_setSlot (h.node_lt hz hs) ?_)
    exact (h.withTree (h.keeps.sound.unrooted_detach (h.loose hs hnode))).set (hz.node_lt s hs)
      (mem_append_left _ hs) (by simp) fun _ _ _ => .inl rfl

theorem resting_write {t : TemplateView} {run : List UpdateOp → Mask → LiveM Unit}
    {values : List String} {changes : Mask} {op : UpdateOp} (hop : op.Writes) (hs : s ∈ N)
    (hindex : op.index = s) : Resting root N C v₀ (applyUpdate t depth run values changes op) := by
  intro v h
  refine yields_write hop ?_
  split
  · unfold commitAt
    rw [hindex]
    cases hnode : v.node? s with
    | none => exact h
    | some id => exact h.withTree (h.keeps.sound.unrooted_modifyContent (h.loose hs hnode) _)
  · exact h

theorem resting_setCurrent (hz : Zone v₀.slots.size N C) (hc : c ∈ C)
    (hnode : ∀ id, x ≠ .node id) (hsettled : x = .empty ∨ ∃ k fresh, x = .chosen k fresh ∧ k < c.2) :
    Resting root N C v₀ (setSlot c.1 x) :=
  fun _ h => yields_setSlot (h.keeps.size.symm ▸ hz.current_lt c hc) (h.setCurrent hz hc hnode hsettled)

theorem resting_current {icu : CompiledIcu} (hc : c ∈ C) (hcurrent : icu.current = c.1)
    {f : Option (Nat × Bool) → LiveM β}
    (hf : ∀ active, (∀ x, active = some x → x.1 < c.2) → Resting root N C v₀ (f active)) :
    Resting root N C v₀ (currentCase icu >>= f) := by
  intro v h
  rcases h.dormant.settled c hc with hempty | ⟨k, fresh, hchosen, hk⟩
  · exact Yields.andThen (yields_currentCase hcurrent hempty) (hf none nofun v h)
  · exact Yields.andThen (yields_currentCase hcurrent hchosen) (hf (some (k, fresh)) (fun _ hx => by cases hx; exact hk) v h)

end Resting

/-! ### Removing -/

/-- The expression is registered, and keeps to the zone. -/
structure IcuPlan.InZone (t : TemplateView) (N : List Nat) (C : List (Nat × Nat)) (depth : Nat) (icu : IcuPlan)
    (parent : Int) (anchor : Nat) : Prop where
  registered : icu.Registered t parent anchor
  anchor : anchor ∈ N
  nodes : icu.nodeSlots ⊆ N
  currents : icu.currents ⊆ C
  depth_le : icu.slots.length ≤ depth

section Remove

variable {root : Nat} {N : List Nat} {C : List (Nat × Nat)} {v₀ : LiveView} {t : TemplateView}

theorem descends_zone : Descends
    (fun plan parent => plan.Registered t parent ∧ plan.nodeSlots ⊆ N ∧ plan.currents ⊆ C ∧ plan.slots.length ≤ depth)
    (IcuPlan.InZone t N C depth)
    fun cases parent => cases.Registered t parent ∧ cases.nodeSlots ⊆ N ∧ cases.currents ⊆ C ∧
      cases.slots.length ≤ depth where
  text := fun ⟨hreg, hN, hC, hdepth⟩ => ⟨hreg.2, (cons_subset.mp hN).2, hC, Nat.le_of_lt hdepth⟩
  element := fun ⟨hreg, hN, hC, hdepth⟩ => by
    obtain ⟨hNcontent, hNrest⟩ := append_subset.mp (cons_subset.mp hN).2
    obtain ⟨hCcontent, hCrest⟩ := append_subset.mp hC
    rw [Plan.slots, length_cons, length_append] at hdepth
    exact ⟨⟨hreg.2.1, hNcontent, hCcontent, by omega⟩, hreg.2.2, hNrest, hCrest, by omega⟩
  icu := fun ⟨hreg, hN, hC, hdepth⟩ => by
    obtain ⟨hslot, hN⟩ := cons_subset.mp hN
    obtain ⟨hNicu, hNrest⟩ := append_subset.mp hN
    obtain ⟨hCicu, hCrest⟩ := append_subset.mp hC
    rw [Plan.slots, length_cons, length_append] at hdepth
    exact ⟨⟨hreg.2.1, hslot, hNicu, hCicu, by omega⟩, hreg.2.2, hNrest, hCrest, by omega⟩
  cases := fun ⟨hreg, _, hN, hC, hdepth⟩ => ⟨hreg.2.2, hN, (cons_subset.mp hC).2, Nat.le_of_lt hdepth⟩
  cons := fun ⟨hreg, hN, hC, hdepth⟩ => by
    obtain ⟨hNcontent, hNrest⟩ := append_subset.mp hN
    obtain ⟨hCcontent, hCrest⟩ := append_subset.mp hC
    rw [CasePlans.slots, length_append] at hdepth
    exact ⟨⟨hreg.1, hNcontent, hCcontent, by omega⟩, hreg.2, hNrest, hCrest, by omega⟩

theorem resting_removeCase (hz : Zone v₀.slots.size N C) : ∀ (depth : Nat) (icu : IcuPlan) (parent : Int)
    (anchor : Nat), icu.InZone t N C depth parent anchor →
      Resting root N C v₀ (removeCase t depth (icu.compiled parent anchor))
  | 0, .mk _ _ _ _, _, _, h => absurd h.depth_le (Nat.not_succ_le_zero _)
  | depth + 1, .mk kind main current cases, parent, anchor, h => by
    obtain ⟨hcurrent, hC⟩ := cons_subset.mp h.currents
    rw [removeCase_succ]
    refine resting_current hcurrent rfl fun active hactive => ?_
    cases active with
    | none => exact resting_pure ()
    | some active =>
      intro v hv
      obtain ⟨label, content, hcontent, hc⟩ := CasePlans.exists_content parent (hactive _ rfl)
      refine Yields.andThen (yields_caseAt hc) ?_
      have hinside := descends_zone.content ⟨h.registered.2.2, h.nodes, hC, Nat.le_of_succ_le_succ h.depth_le⟩ hcontent
      have hremove : Resting root N C v₀ (content.remove.forM (removeOp t depth)) := resting_forM fun op hop => by
        rcases descends_zone.remove (L := (· ∈ N)) (fun h => h.2.1 mem_cons_self)
          (fun h => h.2.1 mem_cons_self) hinside op hop with ⟨slot, rfl, hslot⟩ | ⟨slot, icu, rfl, hicu⟩
        · exact (resting_pure ()).bind fun _ => resting_vacate hz hslot
        · unfold removeOp
          dsimp only
          rw [hicu.registered.icu?_eq]
          exact (resting_removeCase hz depth icu parent slot hicu).bind fun _ => resting_vacate hz hicu.anchor
      exact hremove.bind (fun _ => resting_setCurrent hz hcurrent (by simp) (.inl rfl)) v hv

end Remove

/-! ### Creating -/

/-- The instruction keeps to the zone; `parent` is the slot of the parent of the expression. -/
def IcuCreateOp.Within (t : TemplateView) (N : List Nat) (C : List (Nat × Nat)) (parent : Int) : IcuCreateOp → Prop
  | .text index _ => ∃ s ∈ N, index = s
  | .element index _ => ∃ s ∈ N, index = s
  | .anchor index _ =>
    (∃ s ∈ N, index = s) ∧ ∃ nested, t.icu? index = some nested ∧ ∃ c ∈ C, nested.current = c.1
  | .setAttribute index _ _ => ∃ s ∈ N, index = s
  | .append child p => (∃ s ∈ N, child = s) ∧ (p = parent ∨ ∃ s ∈ N, p = s)
  | .unknown => True

section Create

variable {root : Nat} {N : List Nat} {C : List (Nat × Nat)} {t : TemplateView} {v₀ v : LiveView}

theorem within_create (parent : Int) : ∀ (plan : Plan) (parent' : Int), plan.Registered t parent' →
    plan.nodeSlots ⊆ N → plan.currents ⊆ C → (parent' = parent ∨ ∃ s ∈ N, parent' = (s : Int)) →
      ∀ op ∈ plan.create parent', op.Within t N C parent
  | .nil, _, _, _, _, _ => forall_mem_nil _
  | .text slot _ rest, parent', hreg, hN, hC, hparent => by
    obtain ⟨hslot, hN⟩ := cons_subset.mp hN
    rw [Plan.create, forall_mem_cons, forall_mem_cons]
    exact ⟨⟨slot, hslot, rfl⟩, ⟨⟨slot, hslot, rfl⟩, hparent⟩, within_create parent rest parent' hreg.2 hN hC hparent⟩
  | .element slot _ _ _ content rest, parent', hreg, hN, hC, hparent => by
    obtain ⟨hslot, hN⟩ := cons_subset.mp hN
    rw [append_subset] at hN
    rw [Plan.currents, append_subset] at hC
    rw [Plan.create, forall_mem_cons, forall_mem_cons, forall_mem_append, forall_mem_append]
    refine ⟨⟨slot, hslot, rfl⟩, ⟨⟨slot, hslot, rfl⟩, hparent⟩, forall_mem_map.mpr fun _ _ => ⟨slot, hslot, rfl⟩, ?_, ?_⟩
    · exact within_create parent content slot hreg.2.1 hN.1 hC.1 (.inr ⟨slot, hslot, rfl⟩)
    · exact within_create parent rest parent' hreg.2.2 hN.2 hC.2 hparent
  | .icu slot _ (.mk _ _ _ _) rest, parent', hreg, hN, hC, hparent => by
    obtain ⟨hslot, hN⟩ := cons_subset.mp hN
    obtain ⟨hicuC, hrestC⟩ := append_subset.mp hC
    rw [Plan.create, forall_mem_cons, forall_mem_cons]
    exact ⟨⟨⟨slot, hslot, rfl⟩, _, hreg.2.1.1, _, (cons_subset.mp hicuC).1, rfl⟩, ⟨⟨slot, hslot, rfl⟩, hparent⟩,
      within_create parent rest parent' hreg.2.2 (append_subset.mp hN).2 hrestC hparent⟩

/-- The parent of the expression is in the slot `parent`, or nowhere, and it is not below the root. -/
structure DeadRef (root : Nat) (parent : Int) (v : LiveView) (ref : Int × Option Nat) : Prop where
  slot : ref.1 = parent
  node : ∀ p, ref.2 = some p → p < v.tree.size ∧ ¬v.Below root p

theorem rests_placeIn (h : v₀.Rests root N C v) (anchor : Nat) {p : Int} (hid : id < v.tree.size)
    (hbelow : ¬v.Below root id) (href : DeadRef root parent v₀ ref) (hp : p = parent ∨ ∃ s ∈ N, p = (s : Int)) :
    v₀.Rests root N C (v.placeIn anchor id p ref) := by
  have hs := h.keeps.sound
  unfold placeIn
  split
  · next hslot =>
    cases hnode : ref.2 with
    | none => exact h
    | some q =>
      obtain ⟨hlt, hq⟩ := href.node q hnode
      obtain ⟨pre, post, hplaced⟩ :=
        hs.linked.exists_placed (Nat.lt_of_lt_of_le hlt h.keeps.tree_le) hid (some anchor)
      exact h.withTree (hs.unrooted_placed hplaced (fun hbelow => hq ((h.below q).mp hbelow)) hbelow)
  · next hslot =>
    rcases hp with rfl | ⟨s, hsN, rfl⟩
    · exact absurd href.slot.symm hslot
    · cases hnode : v.node? s with
      | none => exact h
      | some q =>
        exact h.withTree (hs.unrooted_placed (hs.linked.placed_append (node?_lt hs hnode) hid) (h.loose hsN hnode) hbelow)

section

variable (hz : Zone v₀.slots.size N C)
include hz

theorem rests_anchor (h : v₀.Rests root N C v) (hsN : s ∈ N) {nested : CompiledIcu}
    (hnested : t.icu? s = some nested) (hc : c ∈ C) (hcurrent : nested.current = c.1) (label : String)
    (ref : Option (Int × Option Nat)) :
    Yields (caseOp t anchor ref (.anchor s label)) v fun ref' v' => ref' = ref ∧ v₀.Rests root N C v' ∧
      ∃ id, v'.node? s = some id := by
  have hlt := h.node_lt hz hsN
  have hlt' : c.1 < v.slots.size := h.keeps.size.symm ▸ hz.current_lt c hc
  refine yields_caseOp_anchor hlt hnested hcurrent hlt' ⟨rfl, ?_, v.tree.size, ?_⟩
  · exact (h.addNew hz hsN _).setCurrent hz hc (by simp) (.inl rfl)
  · refine node?_of_slot ?_
    rw [slots_set ((size_set _ _ _).symm ▸ hlt'), if_neg (hz.disjoint s hsN c hc)]
    exact slot_of_node? (node?_addNew hlt _)

theorem rests_caseOp (h : v₀.Rests root N C v) (href : DeadRef root parent v₀ ref)
    {op : IcuCreateOp} (hop : op.Within t N C parent) :
    Yields (caseOp t anchor (some ref) op) v fun ref' v' => ref' = some ref ∧ v₀.Rests root N C v' := by
  cases op with
  | text index value =>
    obtain ⟨s, hsN, rfl⟩ := hop
    exact yields_caseOp_text (h.node_lt hz hsN) ⟨rfl, h.addNew hz hsN _⟩
  | element index tag =>
    obtain ⟨s, hsN, rfl⟩ := hop
    exact yields_caseOp_element (h.node_lt hz hsN) ⟨rfl, h.addNew hz hsN _⟩
  | anchor index label =>
    obtain ⟨⟨s, hsN, rfl⟩, nested, hnested, c, hc, hcurrent⟩ := hop
    exact (rests_anchor hz h hsN hnested hc hcurrent label _).mono fun _ _ h => ⟨h.1, h.2.1⟩
  | setAttribute index name value =>
    obtain ⟨s, hsN, rfl⟩ := hop
    refine yields_caseOp_setAttribute ⟨rfl, ?_⟩
    cases hnode : v.node? s with
    | none => exact h
    | some id => exact h.withTree (h.keeps.sound.unrooted_modifyContent (h.loose hsN hnode) _)
  | append child p =>
    obtain ⟨⟨s, hsN, rfl⟩, hp⟩ := hop
    cases hnode : v.node? s with
    | none =>
      refine Yields.andThen yields_node? ?_
      rw [hnode]
      exact yields_pure ⟨rfl, h⟩
    | some id =>
      refine yields_caseOp_append hnode ⟨rfl, ?_⟩
      exact rests_placeIn h anchor (node?_lt h.keeps.sound hnode) (h.loose hsN hnode) href hp
  | unknown => exact yields_pure ⟨rfl, h⟩

theorem rests_caseOps (anchor : Nat) (href : DeadRef root parent v₀ ref) :
    ∀ {ops : List IcuCreateOp}, (∀ op ∈ ops, op.Within t N C parent) →
      Resting root N C v₀ (ops.foldlM (caseOp t anchor) (some ref))
  | [], _ => resting_pure _
  | op :: ops, hops => fun v h => by
    refine yields_foldlM_cons (rests_caseOp hz h href (hops op mem_cons_self)) ?_
    rintro _ v₁ ⟨rfl, h₁⟩
    exact rests_caseOps anchor href (fun op hop => hops op (mem_cons_of_mem _ hop)) v₁ h₁

/-- The content of a case whose anchor is not below the root. The first node that is put somewhere
belongs to the parent of the anchor, so that no other node is taken for it. -/
theorem rests_create (h : v₀.Rests root N C v) (hanchor : ¬v₀.Below root anchor)
    {plan : Plan} (hreg : plan.Registered t parent) (hN : plan.nodeSlots ⊆ N) (hC : plan.currents ⊆ C) :
    Yields (applyCase t anchor none (plan.create parent)) v fun _ => v₀.Rests root N C := by
  have hwithin := within_create parent plan parent hreg hN hC (.inl rfl)
  rw [applyCase_eq]
  refine Yields.bind (P := fun _ => v₀.Rests root N C) ?_ fun _ _ h => yields_pure h
  -- Creating the first node, which is not put anywhere yet.
  have hfirst : ∀ (op : IcuCreateOp) (slot : Nat) (ops : List IcuCreateOp), slot ∈ N →
      (∀ o ∈ op :: .append slot parent :: ops, o.Within t N C parent) →
      (Yields (caseOp t anchor none op) v fun ref' v' => ref' = none ∧ v₀.Rests root N C v' ∧
        ∃ id, v'.node? slot = some id) →
      Yields ((op :: .append slot parent :: ops).foldlM (caseOp t anchor) none) v fun _ => v₀.Rests root N C := by
    intro op slot ops hslot hops hop
    refine yields_foldlM_cons hop ?_
    rintro _ v₁ ⟨rfl, h₁, id, hid⟩
    have hs := h₁.keeps.sound
    have href : DeadRef root parent v₁ (parent, v₁.tree.parent? anchor) :=
      ⟨rfl, fun p hp => ⟨hs.linked.parent_lt hp,
        Below.of_parent (fun hbelow => hanchor ((h₁.below anchor).mp hbelow)) hp⟩⟩
    have hplace := rests_placeIn (.refl hs h₁.dormant) anchor (node?_lt hs hid) (h₁.loose hslot hid) href (.inl rfl)
    have hrest := rests_caseOps (h₁.keeps.size.symm ▸ hz) anchor href fun o ho =>
      hops o (mem_cons_of_mem _ (mem_cons_of_mem _ ho))
    refine (yields_foldlM_cons (yields_caseOp_append (Q := fun ref' v' =>
      ref' = some (parent, v₁.tree.parent? anchor) ∧ v₁.Rests root N C v') hid ⟨rfl, hplace⟩) ?_).mono
        fun _ _ h₂ => h₁.trans h₂
    rintro _ v₂ ⟨rfl, h₂⟩
    exact hrest v₂ h₂
  cases plan with
  | nil => exact yields_pure h
  | text slot value rest =>
    have hslot : slot ∈ N := hN mem_cons_self
    have hlt := h.node_lt hz hslot
    exact hfirst _ slot _ hslot hwithin (yields_caseOp_text hlt ⟨rfl, h.addNew hz hslot _, _, node?_addNew hlt _⟩)
  | element slot tag fixed bound content rest =>
    have hslot : slot ∈ N := hN mem_cons_self
    have hlt := h.node_lt hz hslot
    exact hfirst _ slot _ hslot hwithin (yields_caseOp_element hlt ⟨rfl, h.addNew hz hslot _, _, node?_addNew hlt _⟩)
  | icu slot label icu rest =>
    obtain ⟨kind, main, current, cases⟩ := icu
    have hslot : slot ∈ N := hN mem_cons_self
    exact hfirst _ slot _ hslot hwithin (rests_anchor hz h hslot hreg.2.1.1 (hC mem_cons_self) rfl label none)

end

end Create

/-! ### Switching and updating -/

/-- Every choice is by a binding that exists, and a plural category is known wherever it may be asked
for. -/
def Decides (locale : Locale) (values : List String) (choices : List (IcuKind × Int)) : Prop :=
  ∀ c ∈ choices, 0 ≤ c.2 ∧ (c.1 = .plural → Plural.category? locale (valueAt values c.2) ≠ none)

theorem writes_mono {op : UpdateOp} {l l' : List Nat} (hsub : l ⊆ l') (h : op.Writes ∧ ∃ s ∈ l, op.index = s) :
    op.Writes ∧ ∃ s ∈ l', op.index = s :=
  h.imp_right (Exists.imp fun _ hs => hs.imp_left (hsub ·))

theorem Plan.update_writes : ∀ (plan : Plan) (op : UpdateOp), op ∈ plan.update →
    op.Writes ∧ ∃ s ∈ plan.nodeSlots, op.index = s
  | .nil, _, hop => absurd hop not_mem_nil
  | .text slot _ rest, op, hop => by
    rcases mem_append.mp hop with hop | hop
    · exact (textUpdate_writes hop).imp_right fun h => ⟨slot, mem_cons_self, h⟩
    · exact writes_mono (subset_cons_self _ _) (rest.update_writes op hop)
  | .element slot _ _ _ content rest, op, hop => by
    rw [Plan.update, mem_append, mem_append] at hop
    rcases hop with hop | hop | hop
    · exact (boundAttr_writes hop).imp_right fun h => ⟨slot, mem_cons_self, h⟩
    · exact writes_mono (fun _ hs => mem_cons_of_mem slot (mem_append_left _ hs)) (content.update_writes op hop)
    · exact writes_mono (fun _ hs => mem_cons_of_mem slot (mem_append_right _ hs)) (rest.update_writes op hop)
  | .icu slot _ _ rest, op, hop =>
    writes_mono (fun _ hs => mem_cons_of_mem slot (mem_append_right _ hs)) (rest.update_writes op hop)

section Switch

variable {root : Nat} {N : List Nat} {C : List (Nat × Nat)} {v₀ : LiveView} {t : TemplateView}
  (hz : Zone v₀.slots.size N C)

include hz

theorem resting_switchCase (h : icu.InZone t N C depth parent anchor)
    (hcategory : (icu.compiled parent anchor).kind = .plural → Plural.category? v₀.locale value ≠ none) :
    Resting root N C v₀ (switchCase t depth (icu.compiled parent anchor) value) := by
  intro v hv
  obtain ⟨kind, main, current, cases⟩ := icu
  have hcurrent : (current, cases.labels.length) ∈ C := h.currents mem_cons_self
  unfold switchCase
  refine Yields.andThen yields_node? ?_
  cases hnode : v.node? (IcuPlan.compiled parent anchor (.mk kind main current cases)).anchor with
  | none => exact yields_pure hv
  | some id =>
    have hid : ¬v₀.Below root id := fun hbelow => hv.loose h.anchor hnode ((hv.below id).mpr hbelow)
    have hcase : caseFor (IcuPlan.compiled parent anchor (.mk kind main current cases)) v₀.locale value =
        .ok (chooseCase kind v₀.locale cases.labels value) := caseFor_compiled hcategory _ _ _ _
    refine yields_get fun r hr => ?_
    rw [hr, hv.keeps.locale, hcase]
    refine Yields.andThen yields_pure ?_
    refine resting_current hcurrent rfl (fun active _ => ?_) v hv
    split
    · exact resting_pure ()
    · refine (resting_removeCase hz depth (.mk kind main current cases) parent anchor h).bind fun _ => ?_
      cases hchoice : chooseCase kind v₀.locale cases.labels value with
      | none => exact resting_pure ()
      | some k =>
        have hk := chooseCase_lt hchoice
        obtain ⟨label, content, hcontent, hcompiled⟩ := CasePlans.exists_content parent hk
        obtain ⟨hreg, hN, hC, -⟩ := descends_zone.content (descends_zone.cases h) hcontent
        intro v₁ h₁
        refine Yields.andThen (yields_caseAt hcompiled) (Yields.andThen yields_report ?_)
        refine (resting_setCurrent hz hcurrent (by simp) (.inr ⟨k, true, rfl, hk⟩) v₁ h₁).bind fun _ v₂ h₂ => ?_
        exact rests_create hz h₂ hid hreg hN hC

variable {values : List String} {depth : Nat}

theorem resting_updateCase {removeDepth : Nat} (h : icu.InZone t N C removeDepth parent anchor) (changes : Mask) :
    Resting root N C v₀ (updateCase (applyUpdatesTo t values (depth + 1)) (icu.compiled parent anchor) changes) := by
  obtain ⟨kind, main, current, cases⟩ := icu
  have hcurrent : (current, cases.labels.length) ∈ C := h.currents mem_cons_self
  -- What remains once the case is no longer fresh.
  have hrun : ∀ k, k < cases.labels.length → ∀ mask : Mask, Resting root N C v₀ (do
      let case ← caseAt (IcuPlan.compiled parent anchor (.mk kind main current cases)) k
      applyUpdatesTo t values (depth + 1) case.update mask) := by
    intro k hk mask v hv
    obtain ⟨label, content, hcontent, hcompiled⟩ := CasePlans.exists_content parent hk
    refine Yields.andThen (yields_caseAt hcompiled) (resting_forM (fun op hop => ?_) v hv)
    obtain ⟨hwrites, s, hslot, hindex⟩ := Plan.update_writes content op hop
    exact resting_write hwrites ((descends_zone.content (descends_zone.cases h) hcontent).2.1 hslot) hindex
  unfold updateCase
  refine resting_current hcurrent rfl fun active hactive => ?_
  cases active with
  | none => exact resting_pure ()
  | some active =>
    obtain ⟨k, fresh⟩ := active
    have hk : k < cases.labels.length := hactive _ rfl
    cases fresh with
    | false => exact hrun k hk changes
    | true =>
      have hset : Resting root N C v₀ (setSlot current (.chosen k false)) :=
        resting_setCurrent hz hcurrent (by simp) (.inr ⟨k, false, rfl, hk⟩)
      exact hset.bind fun _ => hrun k hk Mask.all

omit hz in
theorem composed_switchOp (values : List String) {main : Int} (hmain : 0 ≤ main) (anchor : Nat) :
    composed values (switchOp anchor main).parts = pure (valueAt values main) := by
  have hparts : PartsNonneg (switchOp anchor main).parts := by
    intro i hi
    cases mem_singleton.mp hi
    exact hmain
  rw [composed_eq values hparts]
  exact congrArg pure String.append_empty

theorem resting_switchOp {main : Int} (h : icu.InZone t N C depth parent anchor) (hmain : 0 ≤ main)
    (hcategory : (icu.compiled parent anchor).kind = .plural → Plural.category? v₀.locale (valueAt values main) ≠ none)
    (run : List UpdateOp → Mask → LiveM Unit) (changes : Mask) :
    Resting root N C v₀ (applyUpdate t depth run values changes (switchOp anchor main)) := by
  have hswitch : Resting root N C v₀ (switchCase t depth (icu.compiled parent anchor)
    (valueAt values main)) := resting_switchCase hz h hcategory
  unfold applyUpdate
  split
  · unfold applyChanged
    rw [composed_switchOp values hmain, pure_bind]
    dsimp only [switchOp]
    rw [h.registered.icu?_eq]
    exact hswitch
  · unfold applyPending
    rw [composed_switchOp values hmain]
    dsimp only [switchOp]
    rw [h.registered.icu?_eq]
    intro v hv
    obtain ⟨kind, main, current, cases⟩ := icu
    refine Yields.andThen yields_node? ?_
    split
    · refine resting_current (h.currents mem_cons_self) rfl (fun active _ => ?_) v hv
      split
      · rw [pure_bind]
        exact hswitch
      · exact resting_pure ()
    · exact yields_pure hv

theorem resting_updateOp {removeDepth : Nat} (h : icu.InZone t N C removeDepth parent anchor) (updateDepth : Nat)
    (changes : Mask) {mask : Mask} : ∀ op ∈ updateOps anchor mask, Resting root N C v₀
      (applyUpdate t updateDepth (applyUpdatesTo t values (depth + 1)) values changes op) := by
  intro op hop
  rw [eq_of_mem_updateOps hop]
  unfold applyUpdate
  split
  · unfold applyChanged
    have hparts : PartsNonneg [] := fun i hi => by cases hi
    rw [composed_eq values hparts, pure_bind]
    dsimp only
    rw [h.registered.icu?_eq]
    exact resting_updateCase hz h changes
  · unfold applyPending
    dsimp only
    rw [h.registered.icu?_eq]
    have hupdate : Resting root N C v₀ (updateCase (applyUpdatesTo t values (depth + 1)) _ _) :=
      resting_updateCase hz h 0#32
    obtain ⟨kind, main, current, cases⟩ := icu
    refine resting_current (h.currents mem_cons_self) rfl fun active _ => ?_
    split
    · exact hupdate
    · exact resting_pure ()

end Switch

section Stream

variable {root : Nat} {N : List Nat} {C : List (Nat × Nat)} {v₀ : LiveView} {t : TemplateView}
  {values : List String} {depth updateDepth : Nat} {changes : Mask}

theorem Decides.mono {locale : Locale} {choices choices' : List (IcuKind × Int)} (h : Decides locale values choices)
    (hsub : choices' ⊆ choices) : Decides locale values choices' :=
  fun c hc => h c (hsub hc)

theorem resting_stream (hz : Zone v₀.slots.size N C) {posts : List Post}
    (hzone : ∀ x ∈ posts, x.icu.InZone t N C depth x.parent x.anchor)
    (hdecides : ∀ x ∈ posts, Decides v₀.locale values x.icu.choices) {ops : List UpdateOp}
    (hops : ∀ op ∈ ops, ∃ x ∈ posts, x.Updates op) : Resting root N C v₀
      (ops.forM (applyUpdate t depth (applyUpdatesTo t values (updateDepth + 1)) values changes)) := by
  refine resting_forM fun op hop => ?_
  obtain ⟨x, hx, hupdates⟩ := hops op hop
  have h := hzone x hx
  cases hupdates with
  | switch =>
    obtain ⟨hmain, hcategory⟩ := hdecides _ hx _ mem_cons_self
    exact resting_switchOp hz h hmain hcategory _ changes
  | update hop => exact resting_updateOp hz h depth changes op hop

end Stream

/-! ### The zone of a plan -/

theorem zone_of_perm {n : Nat} (h : (N ++ C.map (·.1)).Perm S)
    (hnodup : S.Nodup) (hlt : ∀ s ∈ S, s < n) : Zone n N C := by
  obtain ⟨-, hC, hdisjoint⟩ := nodup_append.mp (h.nodup_iff.mpr hnodup)
  have hmem : ∀ c ∈ C, c.1 ∈ C.map (·.1) := fun c hc => mem_map.mpr ⟨c, hc, rfl⟩
  exact {
    node_lt := fun s hs => hlt s (h.mem_iff.mp (mem_append_left _ hs))
    current_lt := fun c hc => hlt c.1 (h.mem_iff.mp (mem_append_right _ (hmem c hc)))
    disjoint := fun s hs c hc => hdisjoint s hs c.1 (hmem c hc)
    unique := fun c hc c' hc' heq => inj_on_of_nodup_map hC hc hc' heq }

theorem Resting.keeps {α : Type} {x : LiveM α} (hx : Resting root N C v x)
    (hperm : (N ++ C.map (·.1)).Perm S) (hs : v.Sound root) (hd : v.Dormant root N C) :
    Yields x v fun _ v' => v.Keeps root S nowhere v' ∧ v'.Dormant root N C :=
  (hx v (.refl hs hd)).mono fun _ _ h => ⟨h.keeps.widen hperm.subset, h.dormant⟩

theorem yields_restingStream {t : TemplateView} {updateDepth : Nat}
    {values : List String} {changes : Mask} (hperm : (N ++ C.map (·.1)).Perm S) (hs : v.Sound root) (hnodup : S.Nodup)
    (hlt : ∀ s ∈ S, s < v.slots.size) (hd : v.Dormant root N C) {posts : List Post}
    (hzone : ∀ x ∈ posts, x.icu.InZone t N C depth x.parent x.anchor)
    (hdecides : ∀ x ∈ posts, Decides v.locale values x.icu.choices) {ops : List UpdateOp}
    (hops : ∀ op ∈ ops, ∃ x ∈ posts, x.Updates op) :
    Yields (ops.forM (applyUpdate t depth (applyUpdatesTo t values (updateDepth + 1)) values changes)) v fun _ v' =>
      v.Keeps root S nowhere v' ∧ v'.Dormant root N C :=
  (resting_stream (zone_of_perm hperm hnodup hlt) hzone hdecides hops).keeps hperm hs hd

end MessageCompiler
