/-
Views before any value is bound.

Starting a message creates the nodes of its root items, and elements are attached to placeholders in any
order. Whatever becomes of the tree, the slots inside expressions stay empty.

* **`yields_start`**, **`yields_attachNew`** — starting a message and attaching an element keep it.
-/
import MessageCompiler.Proofs.Standing

namespace MessageCompiler

open List
open Markup (Content Tree)
open Live LiveView

variable {item : RootItem} {t : TemplateView} {id s : Nat}

/-- Creates an element and attaches it to the placeholder in a slot; if there is none, the element is not
used. -/
def Live.attachNew (t : TemplateView) (placeholder : Int × String) : LiveM Unit := do
  let id ← createElement placeholder.2
  let _ ← attach t placeholder.1 id
  return ()

/-- The view renders into the root, and nothing is in the slots inside expressions. -/
structure LiveView.Prepared (root : Nat) (items : List RootItem) (size : Nat) (locale : Locale)
    (v : LiveView) : Prop where
  sound : v.Sound root
  host : v.host = some root
  locale_eq : v.locale = locale
  size_eq : v.slots.size = size
  inner : ∀ item ∈ items, ∀ s ∈ item.inner, v.slots[s]? = some .empty

theorem slot_notMem_inner {items : List RootItem} (hnodup : (items.flatMap RootItem.slots).Nodup)
    (hitem : item ∈ items) : ∀ other ∈ items, item.slot ∉ other.inner := by
  intro other hother hmem
  obtain ⟨hown, hpairwise⟩ := nodup_flatMap.mp hnodup
  by_cases hne : other = item
  · rw [hne] at hmem
    exact (nodup_cons.mp (hown item hitem)).1 hmem
  · have hsymm : Std.Symm (Function.onFun List.Disjoint RootItem.slots) := ⟨fun _ _ h => disjoint_symm h⟩
    exact hpairwise.forall hother hitem hne (mem_cons_of_mem _ hmem) mem_cons_self

section Prepared

variable {root n : Nat} {items : List RootItem} {locale : Locale} {v : LiveView}

theorem prepared_new (t : TemplateView) (tag : String) (locale : Locale)
    (hlt : ∀ item ∈ items, ∀ s ∈ item.inner, s < t.size) :
    (LiveView.new t (some tag) locale).Prepared 0 items t.size locale := by
  have hslots : ∀ s : Nat, (LiveView.new t (some tag) locale).slots[s]? =
      if s < t.size then some .empty else none := fun s => Array.getElem?_replicate
  have hnode : ∀ s id : Nat, (LiveView.new t (some tag) locale).slots[s]? ≠ some (.node id) := by
    intro s id hslot
    rw [hslots] at hslot
    split at hslot <;> cases hslot
  exact {
    sound := {
      linked := Tree.linked_empty.create _
      root_lt := Nat.zero_lt_one
      root_parent := rfl
      slot_lt := fun s id h => absurd h (hnode s id)
      slot_ne := fun s id h => absurd h (hnode s id)
      slot_inj := fun s _ id h => absurd h (hnode s id) }
    host := rfl
    locale_eq := rfl
    size_eq := Array.size_replicate
    inner := fun item hitem s hs => by rw [hslots, if_pos (hlt item hitem s hs)] }

namespace LiveView.Prepared

section

variable (h : v.Prepared root items n locale)
include h

theorem placed {t : Tree} {p c : Nat} {pre post : List Nat}
    (hplaced : Tree.Placed v.tree t p c pre post) (hne : c ≠ root) :
    (v.withTree t).Prepared root items n locale := { h with
  sound := h.sound.placed hplaced hne }

theorem create (content : Content) : (v.withTree (v.tree.create content)).Prepared root items n locale := { h with
  sound := {
    linked := h.sound.linked.create content
    root_lt := by
      show root < (v.tree.create content).size
      rw [Tree.size_create]
      exact Nat.lt_succ_of_lt h.sound.root_lt
    root_parent := (v.tree.parent?_create content root).trans h.sound.root_parent
    slot_lt := fun s id hslot => by
      show id < (v.tree.create content).size
      rw [Tree.size_create]
      exact Nat.lt_succ_of_lt (h.sound.slot_lt s id hslot)
    slot_ne := h.sound.slot_ne
    slot_inj := h.sound.slot_inj } }

theorem addNew (hs : s < n) (hinner : ∀ item ∈ items, s ∉ item.inner) (content : Content) :
    (v.addNew s content).Prepared root items n locale := by
  have hlt : s < v.slots.size := h.size_eq.symm ▸ hs
  have hk : v.Keeps root [s] nowhere (v.addNew s content) :=
    keeps_addNew h.sound hlt mem_cons_self content nowhere
  exact { h with
    sound := hk.sound
    size_eq := hk.size.trans h.size_eq
    inner := fun item hitem k hk' => by
      rw [slots_addNew hlt, if_neg]
      · exact h.inner item hitem k hk'
      · rintro rfl
        exact hinner item hitem hk' }

end

end LiveView.Prepared

/-! ### Starting a message -/

/-- The node of an instruction, which is created unless there is one. -/
def Live.nodeFor (op : CreateOp) : LiveM Nat := do
  match ← node? op.index with
  | some id => pure id
  | none =>
    let id ← if op.comment then createComment op.text else createText op.text
    setSlot op.index (.node id)
    pure id

/-- Appends the node to the host unless it waits for a placeholder. -/
def Live.appendEager (op : CreateOp) (id : Nat) : LiveM Unit := do
  if op.eager then
    match (← get).view.host with
    | some host => appendChild host id
    | none => return ()

theorem applyCreateOp_eq (op : CreateOp) : applyCreateOp op = nodeFor op >>= appendEager op := by
  have hadded : ∀ x : LiveM Nat, (x >>= fun id => setSlot op.index (.node id) >>= fun _ => appendEager op id) =
      (x >>= fun id => setSlot op.index (.node id) >>= fun _ => pure id) >>= appendEager op := by
    intro x
    simp only [bind_assoc, pure_bind]
  unfold applyCreateOp nodeFor
  rw [bind_assoc]
  refine bind_congr fun id => ?_
  cases id with
  | some id => rfl
  | none =>
    cases op.comment with
    | true => exact hadded (createComment op.text)
    | false => exact hadded (createText op.text)

def RootItem.content : RootItem → Content
  | .text _ value _ => .text (initialText value)
  | .icu _ label _ _ => .comment label

theorem yields_nodeFor {Q : Nat → LiveView → Prop} (hlt : item.slot < v.slots.size)
    (hsome : ∀ id, v.node? item.slot = some id → Q id v)
    (hnone : v.node? item.slot = none → Q v.tree.size (v.addNew item.slot item.content)) :
    Yields (nodeFor item.create) v Q := by
  unfold nodeFor
  rw [item.index_create]
  refine Yields.andThen yields_node? ?_
  cases hnode : v.node? item.slot with
  | some id => exact yields_pure (hsome id hnode)
  | none =>
    have hset : Yields (do
        setSlot item.slot (.node v.tree.size)
        pure v.tree.size) (v.withTree (v.tree.create item.content)) Q :=
      Yields.andThen (yields_setSlot hlt) (yields_pure (hnone hnode))
    cases item with
    | text slot value eager => exact Yields.andThen Live.yields_create hset
    | icu slot label plan eager => exact Yields.andThen Live.yields_create hset

theorem yields_appendEager {op : CreateOp} {Q : Unit → LiveView → Prop} (hhost : v.host = some root)
    (h : Q () (if op.eager then v.withTree (v.tree.append root id) else v)) :
    Yields (appendEager op id) v Q := by
  unfold appendEager
  split at h
  · next heager =>
    rw [if_pos heager]
    refine yields_get fun r hr => ?_
    rw [hr, hhost]
    exact yields_change h
  · next heager =>
    rw [if_neg heager]
    exact yields_pure h

theorem yields_createItem (h : v.Prepared root items n locale) (hlt : item.slot < n)
    (hinner : ∀ other ∈ items, item.slot ∉ other.inner) :
    Yields (applyCreateOp item.create) v fun _ v' => v'.Prepared root items n locale := by
  have hlt' : item.slot < v.slots.size := h.size_eq.symm ▸ hlt
  rw [applyCreateOp_eq]
  refine (yields_nodeFor (Q := fun id v' => v'.Prepared root items n locale ∧
    v'.slots[item.slot]? = some (.node id)) hlt' ?_ ?_).bind ?_
  · intro id hid
    exact ⟨h, slot_of_node? hid⟩
  · intro _
    exact ⟨h.addNew hlt hinner _, slot_of_node? (node?_addNew hlt' _)⟩
  · rintro id v' ⟨h', hslot⟩
    refine yields_appendEager h'.host ?_
    split
    · exact h'.placed (h'.sound.linked.placed_append h'.sound.root_lt (h'.sound.slot_lt _ id hslot))
        (h'.sound.slot_ne _ id hslot)
    · exact h'

theorem yields_applyCreate (hnodup : (items.flatMap RootItem.slots).Nodup)
    (hlt : ∀ item ∈ items, item.slot < n) : ∀ (todo : List RootItem) (v : LiveView),
      (∀ item ∈ todo, item ∈ items) → v.Prepared root items n locale →
        Yields (applyCreate (todo.map RootItem.create)) v fun _ v' => v'.Prepared root items n locale
  | [], v, _, h => yields_pure h
  | item :: todo, v, hsub, h => by
    have hitem := hsub item mem_cons_self
    refine yields_forM_cons (yields_createItem h (hlt item hitem) (slot_notMem_inner hnodup hitem)) fun v' h' => ?_
    exact yields_applyCreate hnodup hlt todo v' (fun other hother => hsub other (mem_cons_of_mem item hother)) h'

theorem yields_start {block : Block} {Q : LiveView → Prop} (hblock : block.create = items.map RootItem.create)
    (hcreate : Yields (applyCreate (items.map RootItem.create)) v fun _ v' => Q v') :
    Yields (LiveBlock.start block) v fun b v' => b = ⟨block, .new⟩ ∧ Q v' := by
  unfold LiveBlock.start
  rw [hblock]
  exact hcreate.bind fun _ _ hv => yields_pure ⟨rfl, hv⟩

theorem yields_start_new {block : Block} (hblock : block.create = items.map RootItem.create)
    (hnodup : (items.flatMap RootItem.slots).Nodup) (hlt : ∀ item ∈ items, ∀ s ∈ item.slots, s < t.size)
    (host : String) : Yields (LiveBlock.start block) (.new t (some host) locale) fun b v =>
      b = ⟨block, .new⟩ ∧ v.Prepared 0 items t.size locale := by
  have hnew : (LiveView.new t (some host) locale).Prepared 0 items t.size locale :=
    prepared_new t host locale fun item hitem s hs => hlt item hitem s (mem_cons_of_mem _ hs)
  exact yields_start hblock (yields_applyCreate hnodup (fun item hitem => hlt item hitem _ mem_cons_self)
    items _ (fun _ hitem => hitem) hnew)

/-! ### Attaching elements -/

theorem exists_slot_of_node? {i : Int} (h : v.node? i = some id) : ∃ s : Nat, v.slots[s]? = some (.node id) := by
  unfold LiveView.node? at h
  split at h
  · cases h
  · split at h
    · next hslot =>
      cases h
      exact ⟨_, hslot⟩
    · cases h

theorem yields_adopt : ∀ (children : List Int) (v : LiveView),
    v.Prepared root items n locale → v.slots[s]? = some (.node id) → Yields (children.forM fun child => do
        match ← node? child with
        | some k => appendChild id k
        | none => pure ()) v fun _ v' => v'.Prepared root items n locale
  | [], v, h, _ => yields_pure h
  | child :: rest, v, h, hslot => by
    refine yields_forM_cons (P := fun _ v' => v'.Prepared root items n locale ∧
      v'.slots[s]? = some (.node id)) ?_ fun v' h' => yields_adopt rest v' h'.1 h'.2
    refine Yields.andThen yields_node? ?_
    cases hnode : v.node? child with
    | none => exact yields_pure ⟨h, hslot⟩
    | some k =>
      obtain ⟨s', hk⟩ := exists_slot_of_node? hnode
      refine yields_change ⟨h.placed (h.sound.linked.placed_append ?_ ?_) (h.sound.slot_ne s' k hk), hslot⟩
      · exact h.sound.slot_lt s id hslot
      · exact h.sound.slot_lt s' k hk

theorem yields_insertAdopt (h : v.Prepared root items n locale)
    (hslot : v.slots[s]? = some (.node id)) {parent : Option Nat}
    (hparent : ∀ p, parent = some p → p < v.tree.size) (ref : Option Nat) (children : List Int) :
    Yields (do
      match parent with
      | some p => insertBefore p id ref
      | none => pure ()
      children.forM fun child => do
        match ← node? child with
        | some k => appendChild id k
        | none => pure ()) v fun _ v' => v'.Prepared root items n locale := by
  cases parent with
  | none => exact yields_adopt children v h hslot
  | some p =>
    obtain ⟨pre, post, hplaced⟩ := h.sound.linked.exists_placed (hparent p rfl) (h.sound.slot_lt s _ hslot) ref
    have hadopt := yields_adopt children _ (h.placed hplaced (h.sound.slot_ne s _ hslot)) hslot
    exact Yields.andThen yields_change hadopt

theorem yields_attachNode {tag : String} {node : TemplateNode} (hindex : node.index = s)
    (h : v.Prepared root items n locale) (hs : s < n) (hinner : ∀ item ∈ items, s ∉ item.inner) :
    Yields (attachNode node v.tree.size) (v.withTree (v.tree.create (.element .html tag []))) fun _ v' =>
      v'.Prepared root items n locale := by
  have hlt : s < v.slots.size := h.size_eq.symm ▸ hs
  have hnew := h.addNew hs hinner (.element .html tag [])
  have hslot := slot_of_node? (node?_addNew hlt (.element .html tag []))
  unfold attachNode
  rw [hindex]
  refine Yields.andThen (yields_setSlot hlt) ?_
  show Yields _ (v.addNew s (.element .html tag [])) _
  refine yields_get fun r hr => ?_
  rw [hr]
  refine yields_insertAdopt hnew hslot (fun p hp => ?_) _ node.children
  split at hp
  · obtain ⟨s', hs'⟩ := exists_slot_of_node? hp
    exact hnew.sound.slot_lt s' p hs'
  · cases hnew.host.symm.trans hp
    exact hnew.sound.root_lt

theorem yields_attachNew (h : v.Prepared root items t.size locale)
    (htype : ∀ item ∈ items, ∀ s ∈ item.inner, t.type? s ≠ some .placeholder) (placeholder : Int × String) :
    Yields (attachNew t placeholder) v fun _ v' => v'.Prepared root items t.size locale := by
  obtain ⟨index, tag⟩ := placeholder
  refine Yields.andThen Live.yields_create ?_
  refine Yields.bind (P := fun _ v' => v'.Prepared root items t.size locale) ?_ fun _ _ h' => yields_pure h'
  unfold Live.attach
  cases hnode : t.node? index with
  | none => exact yields_pure (h.create _)
  | some node =>
    dsimp only
    split
    · next hplaceholder =>
      obtain ⟨id, hid, -⟩ := Option.bind_eq_some_iff.mp hnode
      obtain ⟨s, rfl, hslot⟩ := TemplateView.slot?_eq_some.mp (TemplateView.nodeId?_eq_some.mp hid)
      have hs : s < t.size := (Array.getElem?_eq_some_iff.mp hslot).choose
      have hinner : ∀ item ∈ items, s ∉ item.inner := by
        intro item hitem hmem
        refine htype item hitem s hmem ?_
        unfold TemplateView.type?
        rw [hnode, ← hplaceholder]
        rfl
      exact (yields_attachNode rfl h hs hinner).bind fun _ _ h' => yields_pure h'
    · exact yields_pure (h.create _)

theorem yields_attachAll (htype : ∀ item ∈ items, ∀ s ∈ item.inner, t.type? s ≠ some .placeholder) :
    ∀ (placeholders : List (Int × String)) (v : LiveView), v.Prepared root items t.size locale →
      Yields (placeholders.forM (attachNew t)) v fun _ v' => v'.Prepared root items t.size locale
  | [], _, h => yields_pure h
  | placeholder :: rest, _, h =>
    yields_forM_cons (yields_attachNew h htype placeholder) fun v' h' => yields_attachAll htype rest v' h'

/-! ### Items before any value is bound -/

theorem IcuPlan.idle_of_empty (plan : IcuPlan) (h : ∀ s ∈ plan.slots, v.slots[s]? = some .empty) :
    plan.Idle root v := by
  refine plan.idle_iff.mpr ⟨fun s hs => ?_, fun c hc => .inl ?_⟩
  · exact loose_of_empty (h s (plan.slots_perm.mem_iff.mp (mem_append_left _ hs)))
  · exact h c.1 (plan.slots_perm.mem_iff.mp (mem_append_right _ (mem_map.mpr ⟨c, hc, rfl⟩)))

theorem IcuPlan.shows_of_empty (plan : IcuPlan) (h : ∀ s ∈ plan.slots, v.slots[s]? = some .empty) (p : Nat) :
    plan.Shows root v none p [] := by
  have hidle : plan.Idle root v := plan.idle_of_empty h
  cases plan with
  | mk kind main current cases => exact ⟨h current mem_cons_self, rfl, hidle.2⟩

theorem LiveView.Prepared.supports (h : v.Prepared root items n locale) :
    v.Supports root items (fun _ => []) v ∧ ∀ item ∈ items, item.Stands root v (fun _ => []) none v := by
  refine ⟨{
    sound := h.sound
    locale := rfl
    host := rfl
    size := rfl
    seat := fun _ _ _ hid => hid.1
    loose := fun _ _ hloose => hloose
    below := fun _ hid => hid
    parent := fun _ _ => rfl
    children := fun id _ => by simp
    content := fun _ _ _ => rfl
    free := ?_
    front_nil := fun _ _ => rfl }, ?_⟩
  · rintro id - item hitem ⟨s, hs, hslot⟩
    rw [h.inner item hitem s hs] at hslot
    cases hslot
  · intro item hitem
    cases item with
    | text slot value eager =>
      intro k _
      refine ⟨rfl, ?_⟩
      have hsame : shown none (textUpdate slot value) = id := rfl
      rw [hsame, Option.map_id]
      rfl
    | icu slot label plan eager =>
      have hempty := h.inner _ hitem
      exact ⟨fun _ => plan.idle_of_empty hempty, fun _ _ p _ => plan.shows_of_empty hempty p⟩

end Prepared

/-! ### The kinds of slots -/

section Kinds

variable {t : TemplateView}

mutual

theorem Plan.Registered.type_ne : ∀ {plan : Plan} {parent : Int}, plan.Registered t parent →
    ∀ s ∈ plan.slots, t.type? s ≠ some .placeholder
  | .nil, _, _ => forall_mem_nil _
  | .text _ _ _, _, h => forall_mem_cons.mpr ⟨by simp [h.1], h.2.type_ne⟩
  | .element _ _ _ _ _ _, _, h =>
    forall_mem_cons.mpr ⟨by simp [h.1], forall_mem_append.mpr ⟨h.2.1.type_ne, h.2.2.type_ne⟩⟩
  | .icu _ _ _ _, _, h =>
    forall_mem_cons.mpr ⟨by simp [h.1], forall_mem_append.mpr ⟨h.2.1.type_ne, h.2.2.type_ne⟩⟩

theorem IcuPlan.Registered.type_ne : ∀ {icu : IcuPlan} {parent : Int} {anchor : Nat},
    icu.Registered t parent anchor → ∀ s ∈ icu.slots, t.type? s ≠ some .placeholder
  | .mk _ _ _ _, _, _, h =>
    forall_mem_cons.mpr ⟨by simp [TemplateView.type?_of_empty h.2.1], h.2.2.type_ne⟩

theorem CasePlans.Registered.type_ne : ∀ {cases : CasePlans} {parent : Int}, cases.Registered t parent →
    ∀ s ∈ cases.slots, t.type? s ≠ some .placeholder
  | .nil, _, _ => forall_mem_nil _
  | .cons _ _ _, _, h => forall_mem_append.mpr ⟨h.1.type_ne, h.2.type_ne⟩

end

theorem RootItem.Registered.type_ne {parent : Int} (h : item.Registered t parent) :
    ∀ s ∈ item.inner, t.type? s ≠ some .placeholder := by
  cases item with
  | text slot value eager => exact fun s hs => absurd hs not_mem_nil
  | icu slot label plan eager => exact h.2.type_ne

end Kinds

end MessageCompiler
