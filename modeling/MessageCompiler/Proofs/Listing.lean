/-
Where the nodes of a message are listed.

A node that a message creates inside a placeholder has to wait for the element, and is listed in the template node of
the placeholder. The slot of the placeholder leads to this template node until the placeholder is opened again, by the
same message or by a later one: from then on nothing leads to the node.

* **`Outlives`** — what the edits of a view leave of the lists.
-/
import MessageCompiler.Proofs.Checkpoints
import MessageCompiler.Proofs.Enclosure

namespace MessageCompiler

open List
open Steps TemplateView

variable {outline : List (Option Nat × Piece)}

/-! ### What waits for a placeholder -/

def TemplateNode.children? (node : TemplateNode) : Option (List Int) :=
  if node.type = .placeholder then some node.children else none

namespace TemplateView

/-- The slots of the nodes that wait for the placeholder with that template node. -/
def children? (t : TemplateView) (id : Nat) : Option (List Int) := t.nodes[id]?.bind (·.children?)

def children (t : TemplateView) (id : Nat) : List Int := (t.children? id).getD []

/-- The slots of the nodes that wait for the placeholder in a slot. -/
def childrenAt (t : TemplateView) (k : Nat) : List Int := ((t.nodeId? k).map t.children).getD []

variable {t t₁ t' : TemplateView} {id k : Nat} {c : Int} {s : Slot}

theorem childrenAt_of_slots (h : t.slots[k]? = some (.node id)) : t.childrenAt k = t.children id := by
  rw [childrenAt, nodeId?_eq_some.mpr ((slot?_natCast t k).trans h)]
  rfl

theorem exists_of_mem_childrenAt (h : c ∈ t.childrenAt k) : ∃ id, t.slots[k]? = some (.node id) ∧ c ∈ t.children id := by
  unfold childrenAt at h
  cases hid : t.nodeId? k with
  | none =>
    rw [hid] at h
    cases h
  | some id =>
    rw [hid] at h
    exact ⟨id, (slot?_natCast t k).symm.trans (nodeId?_eq_some.mp hid), h⟩

theorem exists_of_mem_children (h : c ∈ t.children id) :
    ∃ node, t.nodes[id]? = some node ∧ node.type = .placeholder ∧ c ∈ node.children := by
  unfold children children? TemplateNode.children? at h
  cases hnode : t.nodes[id]? with
  | none =>
    rw [hnode] at h
    cases h
  | some node =>
    rw [hnode, Option.bind_some] at h
    split at h
    · next htype => exact ⟨node, rfl, htype, h⟩
    · cases h

theorem children_of_node {node : TemplateNode} (hnode : t.nodes[id]? = some node) (htype : node.type = .placeholder) :
    t.children id = node.children := by
  rw [children, children?, hnode, Option.bind_some, TemplateNode.children?, if_pos htype]
  rfl

theorem Recalls.children_eq {new : List (Option Nat × Int)}
    (h : t.Recalls outline new t') (hslot : t'.slots[k]? = some (.node id)) (hid : t'.Lodges id) :
    t.slots[k]? = some (.node id) ∧ t'.children id = t.children id ++ listed new id ∨
      t.nodes.size ≤ id ∧ t'.children id = listed new id := by
  obtain ⟨node', hnode', htype'⟩ := hid
  rw [children_of_node hnode' htype']
  refine (h.slots k id node' hslot hnode' htype').imp ?_ fun hnew => ⟨hnew.1, hnew.2.1⟩
  simp_all [children_of_node]

end TemplateView

/-! ### What later edits leave -/

namespace TemplateView

/-- What a template node in a slot of `t'` lists is in a slot that was added, unless the node was in the same slot
of `t`. -/
structure Outlives (t t' : TemplateView) : Prop where
  size_le : t.size ≤ t'.size
  slots : ∀ (k id : Nat) (c : Int), t'.slots[k]? = some (.node id) → c ∈ t'.children id →
    t.slots[k]? = some (.node id) ∨ (t.size : Int) ≤ c ∧ c < t'.size

variable {t t₁ t' : TemplateView}

theorem Bears.children_eq {icu : Nat → Option CompiledIcu} (h : Bears icu t t') {id : Nat} (hid : id < t.nodes.size) :
    t'.children id = t.children id := by
  unfold children children?
  rw [h.nodes id hid]
  cases t.nodes[id]? <;> rfl

theorem Outlives.of_recalls {new : List (Option Nat × Int)} (h : t.Recalls outline new t') (hsize : t.size ≤ t'.size)
    (hnew : ∀ x ∈ new, (t.size : Int) ≤ x.2 ∧ x.2 < t'.size) : t.Outlives t' := by
  refine ⟨hsize, fun k id c hslot hc => ?_⟩
  obtain ⟨node, hnode, htype, -⟩ := exists_of_mem_children hc
  refine (h.children_eq hslot ⟨node, hnode, htype⟩).imp And.left fun hchildren => ?_
  rw [hchildren.2] at hc
  obtain ⟨x, hx, rfl⟩ := mem_map.mp hc
  exact hnew x (mem_filter.mp hx).1

theorem Outlives.of_quiet (h : t.Recalls [] [] t') (hsize : t.size ≤ t'.size) : t.Outlives t' :=
  .of_recalls h hsize fun _ hx => absurd hx not_mem_nil

theorem outlives_edit (hs : t.Sound) (e : Edit) : t.Outlives (t.edit e) := by
  cases e with
  | alloc count => exact .of_quiet (t.recalls_alloc count) (by simp [edit])
  | setIcu index icu =>
    refine .of_quiet (t.recalls_setIcu index icu) ?_
    rw [edit, setIcu]
    split
    · exact Nat.le_refl _
    · simp
  | addNode index type value parent =>
    refine ⟨Nat.le_of_eq (size_setSlot _ _ _).symm, fun k id c hslot hc => ?_⟩
    rcases slots_setSlot_eq_some hslot with ⟨-, heq⟩ | ⟨-, hslot⟩
    · cases heq
      obtain ⟨node, hnode, -, hc⟩ := exists_of_mem_children hc
      have hpush : (t.nodes.push (.fresh index type value parent))[t.nodes.size]? = some node := hnode
      rw [Array.getElem?_push_size] at hpush
      cases hpush
      cases hc
    · exact .inl hslot
  | compile cfg site message scope =>
    rw [edit]
    rcases compile_cases t cfg site message scope with hsame | ⟨part, p, hpass, hview, hok⟩
    · exact .of_quiet (hsame.recalls t hs.bounded) (Nat.le_of_eq (congrArg Array.size hsame.slots).symm)
    · obtain ⟨items, hcompiled⟩ := compiled_compile hs hpass.vacant hok
      obtain ⟨new, hcreate, -, hrecalls, -⟩ := hpass.exists_new hs
      have hbounds := hcompiled.index_create_lt.2
      rw [hview] at hcompiled hbounds ⊢
      refine .of_recalls hrecalls hcompiled.increasing.1 (forall_mem_map.mpr fun x hx => hbounds _ ?_)
      grind
  | compileAttributes cfg index element values =>
    rw [edit]
    rcases compileAttributes_view t cfg index element values with hview | ⟨ops, -, hview⟩
    · rw [hview]
      exact ⟨Nat.le_refl _, fun _ _ _ hslot _ => .inl hslot⟩
    · rw [hview]
      exact .of_quiet (t.recalls_setSlot index fun id heq => by cases heq) (Nat.le_of_eq (size_setSlot _ _ _).symm)

theorem outlives_editAll : ∀ (edits : List Edit) (t : TemplateView), t.Sound → t.Outlives (t.editAll edits)
  | [], t, _ => ⟨Nat.le_refl _, fun _ _ _ hslot _ => .inl hslot⟩
  | e :: rest, t, hs => by
    have hfirst := outlives_edit hs e
    have hrest := outlives_editAll rest _ (hs.edit e)
    have hsize := hfirst.size_le
    have hsize' := hrest.size_le
    refine ⟨Nat.le_trans hsize hsize', fun k id c hslot hc => ?_⟩
    rcases hrest.slots k id c hslot hc with hslot | hc
    · have hlist := (bears_editAll rest (t.edit e)).children_eq ((hs.edit e).bounded k id hslot)
      refine (hfirst.slots k id c hslot (hlist ▸ hc)).imp_right fun hnew => ?_
      show (t.size : Int) ≤ c ∧ c < ((t.edit e).editAll rest).size
      omega
    · exact .inr ⟨by omega, hc.2⟩

theorem Sound.count_childrenAt (hs : t.Sound) (edits : List Edit) {c : Int} (hc : c < t.size) (k : Nat) :
    ((t.editAll edits).childrenAt k).count c =
      if (t.editAll edits).slots[k]? = t.slots[k]? then (t.childrenAt k).count c else 0 := by
  split
  · next hslot =>
    have hid : (t.editAll edits).nodeId? k = t.nodeId? k := by
      unfold nodeId?
      rw [slot?_natCast, slot?_natCast, hslot]
    unfold childrenAt
    rw [hid]
    cases hfound : t.nodeId? k with
    | none => rfl
    | some id =>
      have hlt := hs.bounded k id ((slot?_natCast t k).symm.trans (nodeId?_eq_some.mp hfound))
      exact congrArg (count c) ((bears_editAll edits t).children_eq hlt)
  · next hslot =>
    refine count_eq_zero.mpr fun hmem => ?_
    obtain ⟨id, hid, hlisted⟩ := exists_of_mem_childrenAt hmem
    rcases (outlives_editAll edits t hs).slots k id c hid hlisted with hold | ⟨hle, -⟩
    · exact hslot (hid.trans hold.symm)
    · omega

theorem Reachable.lt_of_mem_childrenAt (ht : t.Reachable) {k : Nat} {c : Int} (h : c ∈ t.childrenAt k) : c < t.size := by
  obtain ⟨decls, vars, edits, rfl⟩ := ht.exists_edits
  obtain ⟨id, hslot, hc⟩ := exists_of_mem_childrenAt h
  rcases (outlives_editAll edits _ (sound_new decls vars)).slots k id c hslot hc with hold | ⟨-, hlt⟩
  · cases eq_empty_of_slots_new hold
  · exact hlt

end TemplateView

/-! ### The nodes of a compiled message -/

theorem count_index_filter {new : List (Option Nat × CreateOp)} (hnodup : (new.map (·.2.index)).Nodup)
    {x : Option Nat × CreateOp} (hx : x ∈ new) (id : Nat) :
    ((new.filter (·.1 == some id)).map (·.2.index)).count x.2.index = if x.1 = some id then 1 else 0 := by
  have hmem : x.2.index ∈ (new.filter (·.1 == some id)).map (·.2.index) ↔ x.1 = some id := by
    constructor
    · intro h
      obtain ⟨y, hy, heq⟩ := mem_map.mp h
      rw [← inj_on_of_nodup_map hnodup (mem_filter.mp hy).1 hx heq]
      exact beq_iff_eq.mp (mem_filter.mp hy).2
    · exact fun h => mem_map_of_mem (mem_filter.mpr ⟨hx, beq_iff_eq.mpr h⟩)
  split
  · next h => exact count_eq_one_of_mem (hnodup.sublist (filter_sublist.map _)) (hmem.mpr h)
  · next h => exact count_eq_zero.mpr fun hin => h (hmem.mp hin)

section Counts

variable {t : TemplateView} {cfg : Config} {site : Site} {message : String} {scope : Message.Scope} {handle : Handle}

theorem TemplateView.Recalls.count_children {t' : TemplateView} {new : List (Option Nat × CreateOp)} (ht : t.Reachable)
    (h : t.Recalls outline (new.map fun x => (x.1, x.2.index)) t') (hnodup : (new.map (·.2.index)).Nodup)
    (hbounds : ∀ x ∈ new, (t.size : Int) ≤ x.2.index) {x : Option Nat × CreateOp} (hx : x ∈ new) {k id : Nat}
    (hslot : t'.slots[k]? = some (.node id)) (hid : t'.Lodges id) :
    (t'.children id).count x.2.index = if x.1 = some id then 1 else 0 := by
  have hlisted : (listed (new.map fun x => (x.1, x.2.index)) id).count x.2.index = if x.1 = some id then 1 else 0 := by
    rw [← count_index_filter hnodup hx id, listed, filter_map, map_map]
    rfl
  rcases h.children_eq hslot hid with ⟨hold, hchildren⟩ | ⟨-, hchildren⟩
  · rw [hchildren, count_append, hlisted, count_eq_zero.mpr, Nat.zero_add]
    rw [← childrenAt_of_slots hold]
    exact fun hmem => absurd (ht.lt_of_mem_childrenAt hmem) (Int.not_lt.mpr (hbounds x hx))
  · rw [hchildren, hlisted]

theorem Compiles.count_childrenAt (h : Compiles t cfg site message scope handle) :
    Forall₂ (fun op around => op.eager = around.isNone ∧ ∀ k : Nat,
      ((t.compile cfg site message scope).view.childrenAt k).count op.index = if Lasting around k then 1 else 0)
      handle.block.create (Message.housing scope message) := by
  have hs := h.reachable.sound
  obtain ⟨items, hcompiled⟩ := compiled_compile hs h.vacant h.result_eq
  obtain ⟨part, p, hpass, hview, rfl⟩ := exists_compiling h.vacant h.result_eq
  obtain ⟨new, hcreate, heager, hrecalls, hseats⟩ := hpass.exists_new hs
  obtain ⟨hincreasing, hbounds⟩ := hcompiled.index_create_lt
  have hindices : p.create.map (·.index) = new.map (·.2.index) := by
    rw [hcreate, map_map]
    rfl
  have hnodup : (new.map (·.2.index)).Nodup := hindices ▸ hincreasing.imp fun hlt => Int.ne_of_lt hlt
  have hle : ∀ x ∈ new, (t.size : Int) ≤ x.2.index := fun x hx => (hbounds _ (hindices ▸ mem_map_of_mem hx)).1
  rw [hview]
  show Forall₂ _ p.create _
  rw [hcreate, forall₂_map_left_iff]
  refine ((forall₂_and_left _ _).mpr ⟨fun x hx => And.intro hx (heager x hx), forall₂_map_left_iff.mp hseats⟩).imp ?_
  rintro x around ⟨⟨hx, heager⟩, hnone, hseat⟩
  refine ⟨heager.trans hnone, fun k => ?_⟩
  split
  · next hlasting =>
    cases hhome : x.1 with
    | none =>
      obtain ⟨later, rfl, -⟩ := hlasting
      rw [hhome] at hnone
      cases hnone
    | some id =>
      obtain ⟨hid, hslots⟩ := hseat id hhome
      have hslot := (hslots k).mpr hlasting
      rw [childrenAt_of_slots hslot, hrecalls.count_children h.reachable hnodup hle hx hslot hid, if_pos hhome]
  · next hlasting =>
    refine count_eq_zero.mpr fun hmem => ?_
    obtain ⟨id, hslot, hc⟩ := exists_of_mem_childrenAt hmem
    obtain ⟨node, hnode, htype, -⟩ := exists_of_mem_children hc
    have hcount := hrecalls.count_children h.reachable hnodup hle hx hslot ⟨node, hnode, htype⟩
    grind

theorem Compiles.count_childrenAt_editAll (h : Compiles t cfg site message scope handle) (edits : List Edit) :
    let t₁ := (t.compile cfg site message scope).view
    Forall₂ (fun op around => op.eager = around.isNone ∧ ∀ k : Nat, ((t₁.editAll edits).childrenAt k).count op.index =
      if Lasting around k ∧ (t₁.editAll edits).slots[k]? = t₁.slots[k]? then 1 else 0)
      handle.block.create (Message.housing scope message) := by
  intro t₁
  have hs := h.reachable.sound
  have hs₁ : t₁.Sound := hs.compile cfg site message scope
  obtain ⟨items, hcompiled⟩ := compiled_compile hs h.vacant h.result_eq
  have hlt : ∀ op ∈ handle.block.create, op.index < t₁.size := fun op hop =>
    (hcompiled.index_create_lt.2 _ (mem_map_of_mem hop)).2
  refine ((forall₂_and_left _ _).mpr ⟨hlt, h.count_childrenAt⟩).imp ?_
  rintro op around ⟨hop, heager, hcount⟩
  refine ⟨heager, fun k => ?_⟩
  rw [hs₁.count_childrenAt edits hop, hcount]
  by_cases hslot : (t₁.editAll edits).slots[k]? = t₁.slots[k]? <;> simp [hslot]

/-- **Which nodes are within reach.** The result of a call was compiled by this call or by an earlier one, and the view
has been edited since then. A node is eager if and only if it is inside no placeholder. Any other one is listed once,
by the template node in the slot of the innermost placeholder around it, and in no other slot, if and only if neither
the message opens that placeholder again nor the slot has been changed since; and it is listed nowhere otherwise. -/
theorem count_childrenAt_compile (ht : t.Reachable) (h : (t.compile cfg site message scope).result = .ok handle) :
    ∃ t₀ cfg₀ site₀ message₀ scope₀ edits, Compiles t₀ cfg₀ site₀ message₀ scope₀ handle ∧
      let t₁ := (t₀.compile cfg₀ site₀ message₀ scope₀).view
      let t' := (t.compile cfg site message scope).view
      t' = t₁.editAll edits ∧ ((∀ serial block, t.slot? site.index ≠ some (.block serial block)) →
          t₀ = t ∧ message₀ = message ∧ scope₀ = scope ∧ edits = []) ∧
        Forall₂ (fun op around => op.eager = around.isNone ∧ ∀ k : Nat, (t'.childrenAt k).count op.index =
          if Lasting around k ∧ t'.slots[k]? = t₁.slots[k]? then 1 else 0)
          handle.block.create (Message.housing scope₀ message₀) := by
  rcases compile_ok_cases h with ⟨hknown, hview⟩ | ⟨part, p, hpass, -, -⟩
  · obtain ⟨k, -, hk⟩ := slot?_eq_some.mp hknown
    obtain ⟨-, t₀, cfg₀, site₀, message₀, scope₀, edits, hcompiles, rfl⟩ := ht.exists_origin hk
    refine ⟨t₀, cfg₀, site₀, message₀, scope₀, edits, hcompiles, hview, fun hvacant => absurd hknown (hvacant _ _), ?_⟩
    rw [hview]
    exact hcompiles.count_childrenAt_editAll edits
  · have hcompiles : Compiles t cfg site message scope handle := ⟨ht, hpass.vacant, h⟩
    exact ⟨t, cfg, site, message, scope, [], hcompiles, rfl, fun _ => ⟨rfl, rfl, rfl, rfl⟩,
      hcompiles.count_childrenAt_editAll []⟩

end Counts

/-- A message opens the placeholder in slot 24 twice, once inside another one, and a later message opens it again. -/
def relistedView : TemplateView :=
  let t := ((new 4 1).compile .standard ⟨-1, 22⟩ "a�#1�b�#2�c�/#2�d�/#1��#2�e�/#2�" .root).view
  (t.compile .standard ⟨-1, 25⟩ "�#2�f�/#2�" .root).view

/-- The first message is asked for again: of its five nodes, only `b` and `d` are listed. -/
theorem count_childrenAt_compile_relisted :
    ∃ handle, (relistedView.compile .standard ⟨-1, 22⟩ "" .root).result = .ok handle ∧
      ∃ t₀ cfg₀ site₀ message₀ scope₀ edits, Compiles t₀ cfg₀ site₀ message₀ scope₀ handle ∧
        (relistedView.compile .standard ⟨-1, 22⟩ "" .root).view =
          (t₀.compile cfg₀ site₀ message₀ scope₀).view.editAll edits ∧
        handle.block.create.map (fun op => (op.eager, ((relistedView.childrenAt 23).count op.index))) =
          [(true, 0), (false, 1), (false, 0), (false, 1), (false, 0)] := by
  have hreachable : relistedView.Reachable := ((Reachable.new 4 1).compile _ _ _ _).compile _ _ _ _
  cases hok : (relistedView.compile .standard ⟨-1, 22⟩ "" .root).result with
  | error e =>
    have hsome : (relistedView.compile .standard ⟨-1, 22⟩ "" .root).result.toOption.isSome = true := by decide +kernel
    rw [hok] at hsome
    cases hsome
  | ok handle =>
    obtain ⟨t₀, cfg₀, site₀, message₀, scope₀, edits, hcompiles, hedits, -⟩ := count_childrenAt_compile hreachable hok
    refine ⟨handle, rfl, t₀, cfg₀, site₀, message₀, scope₀, edits, hcompiles, hedits, ?_⟩
    have hlisted : (relistedView.compile .standard ⟨-1, 22⟩ "" .root).result.toOption.map (fun handle =>
        handle.block.create.map (fun op => (op.eager, ((relistedView.childrenAt 23).count op.index)))) =
          some [(true, 0), (false, 1), (false, 0), (false, 1), (false, 0)] := by decide +kernel
    rw [hok] at hlisted
    exact Option.some.inj hlisted

/-- **A placeholder that is opened twice loses what was inside it first.** The node of `a` is listed nowhere. -/
theorem exists_unlisted :
    ∃ handle, ((new 4 1).compile .standard ⟨-1, 22⟩ "�#1�a�/#1��#1�b�/#1�" .root).result = .ok handle ∧
      ∃ op ∈ handle.block.create, op.eager = false ∧
        ∀ k < ((new 4 1).compile .standard ⟨-1, 22⟩ "�#1�a�/#1��#1�b�/#1�" .root).view.size,
          op.index ∉ ((new 4 1).compile .standard ⟨-1, 22⟩ "�#1�a�/#1��#1�b�/#1�" .root).view.childrenAt k := by
  refine ⟨⟨0, ⟨[⟨27, "a", false, false⟩, ⟨28, "b", false, false⟩], []⟩⟩, by decide +kernel,
    ⟨27, "a", false, false⟩, mem_cons_self, rfl, by decide +kernel⟩

end MessageCompiler
