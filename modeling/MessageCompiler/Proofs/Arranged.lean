/-
Elements go to the places of their placeholders.

An element that is attached to a placeholder goes in front of the first later piece that is there already,
and takes the pieces inside the placeholder.
-/
import MessageCompiler.Proofs.Layout
import MessageCompiler.Proofs.Prepared

namespace MessageCompiler

open List
open Markup (Content Tree)
open Live LiveView

/-! ### Changes to the tree -/

namespace Markup.Tree

variable {t t₁ t' : Tree}

theorem Linked.placed_front (h : t.Linked) {p c : Nat} {pre post : List Nat} (hp : p < t.size) (hc : c < t.size)
    (hnone : t.parent? c = none) (hchildren : t.children p = pre ++ post) :
    Placed t (t.insertBefore p c post.head?) p c pre post := by
  have hnotin : c ∉ t.children p := by
    intro hmem
    rw [(h.child p c).mp hmem] at hnone
    cases hnone
  have herase : (t.children p).erase c = pre ++ post := (erase_of_not_mem hnotin).trans hchildren
  cases post with
  | nil =>
    have happend := h.placed_append hp hc
    rw [herase, append_nil] at happend
    show Placed t ((t.detach c).append p c) p c pre []
    rw [append_detach]
    exact happend
  | cons r post =>
    have hr : r ∈ t.children p := hchildren ▸ mem_append_right _ mem_cons_self
    have hne : r ≠ c := by
      rintro rfl
      exact hnotin hr
    exact h.placed_insertBefore hc ((h.child p r).mp hr) hne herase

/-- The nodes `kids`, which were nowhere, have become the last children of `p`. -/
structure Adopted (p : Nat) (kids : List Nat) (t t' : Tree) : Prop where
  content?_eq : ∀ k, t'.content? k = t.content? k
  parent?_eq : ∀ k, t'.parent? k = if k ∈ kids then some p else t.parent? k
  children_self : t'.children p = t.children p ++ kids
  children_ne : ∀ q, q ≠ p → t'.children q = t.children q

theorem Adopted.nil (p : Nat) (t : Tree) : Adopted p [] t t :=
  ⟨fun _ => rfl, fun k => by simp, (append_nil _).symm, fun _ _ => rfl⟩

theorem Linked.adopted_cons (h : t.Linked) {p c : Nat} {kids : List Nat} (hp : p < t.size) (hc : c < t.size)
    (hnone : t.parent? c = none) (h' : Adopted p kids (t.append p c) t') : Adopted p (c :: kids) t t' := by
  have hplaced := h.placed_append hp hc
  refine ⟨fun k => (h'.content?_eq k).trans (hplaced.content?_eq k), fun k => ?_, ?_, fun q hq => ?_⟩
  · rw [h'.parent?_eq, hplaced.parent?_eq]
    by_cases hk : k = c
    · simp [hk]
    · simp [hk]
  · rw [h'.children_self, hplaced.children_self, h.erase_of_none hnone, append_assoc]
    rfl
  · rw [h'.children_ne q hq, hplaced.children_ne q hq, h.erase_of_none hnone]

end Markup.Tree

/-! ### Nodes in frames -/

/-- The nodes for the pieces directly in a frame that are there, in the order of the message. -/
def LiveView.nodesIn (v : LiveView) (places : List Place) (frame : Option Nat) : List Nat :=
  (places.filter (·.frame == frame)).filterMap fun x => v.node? x.slot

def CreateOp.content (op : CreateOp) : Content := if op.comment then .comment op.text else .text op.text

section NodesIn

variable {v v' : LiveView} {places before after : List Place} {x : Place} {frame : Option Nat}

theorem nodesIn_split (v : LiveView) (before : List Place) (x : Place) (after : List Place) (frame : Option Nat) :
    v.nodesIn (before ++ x :: after) frame = v.nodesIn before frame ++
      ((if x.frame = frame then (v.node? x.slot).toList else []) ++ v.nodesIn after frame) := by
  unfold LiveView.nodesIn
  rw [filter_append, filterMap_append, filter_cons]
  by_cases hframe : x.frame = frame
  · rw [if_pos hframe, if_pos (beq_iff_eq.mpr hframe), filterMap_cons]
    cases v.node? x.slot <;> rfl
  · rw [if_neg hframe, if_neg (fun heq => hframe (beq_iff_eq.mp heq))]
    rfl

theorem nodesIn_congr (h : ∀ x ∈ places, x.frame = frame → v'.node? x.slot = v.node? x.slot) :
    v'.nodesIn places frame = v.nodesIn places frame := by
  refine filterMap_congr fun x hx => ?_
  grind

theorem head?_nodesIn (h : ∀ y ∈ after, y.frame = x.frame → ((v.node? y.slot).isSome ↔ x.Awaits y = true)) :
    (v.nodesIn after x.frame).head? = (after.find? x.Awaits).bind fun y => v.node? y.slot := by
  induction after with
  | nil => rfl
  | cons y after ih =>
    have hrest := ih fun z hz => h z (mem_cons_of_mem y hz)
    have hsplit := nodesIn_split v [] y after x.frame
    rw [nil_append] at hsplit
    rw [hsplit]
    by_cases hframe : y.frame = x.frame
    · have hy := h y mem_cons_self hframe
      rw [if_pos hframe]
      cases hnode : v.node? y.slot with
      | some id =>
        rw [hnode] at hy
        rw [List.find?_cons_of_pos (hy.mp rfl), Option.bind_some, hnode]
        rfl
      | none =>
        rw [hnode] at hy
        rw [List.find?_cons_of_neg fun hawaits => Bool.false_ne_true (hy.mpr hawaits)]
        exact hrest
    · have hawaits : ¬x.Awaits y = true := by
        unfold Place.Awaits
        simp [hframe]
      rw [if_neg hframe, List.find?_cons_of_neg hawaits]
      exact hrest

theorem nodesIn_inside {slot : Nat}
    (h : ∀ y ∈ places, y.frame = some slot → y.piece.own = false → v.node? y.slot = none) :
    v.nodesIn places (some slot) = (Place.inside places slot).filterMap fun s : Nat => v.node? s := by
  induction places with
  | nil => rfl
  | cons y places ih =>
    have hrest := ih fun z hz => h z (mem_cons_of_mem y hz)
    unfold LiveView.nodesIn Place.inside at hrest ⊢
    by_cases hframe : y.frame = some slot
    · by_cases hown : y.piece.own = true
      · simp [hframe, hown, hrest, filterMap_cons]
      · rw [Bool.not_eq_true] at hown
        have hnone := h y mem_cons_self hframe hown
        simp [hframe, hown, hnone, hrest]
    · simp [hframe, hrest]

end NodesIn

/-- The node of a frame: the host, or the element of a placeholder. -/
def LiveView.frameNode? (v : LiveView) : (frame : Option Nat) → Option Nat
  | none => v.host
  | some s => v.node? s

/-- The frame is the top level or the inside of one of the placeholders. -/
def IsFrame (places : List Place) (frame : Option Nat) : Prop :=
  ∀ s, frame = some s → ∃ x ∈ places, x.piece = .placeholder s

/-- Where the nodes of the pieces are as long as placeholders may still be without elements. -/
structure Arranged (root : Nat) (places : List Place) (v : LiveView) : Prop where
  sound : v.Sound root
  host : v.host = some root
  children : ∀ frame, IsFrame places frame → ∀ q, v.frameNode? frame = some q →
    v.tree.children q = v.nodesIn places frame
  /-- What belongs inside a placeholder waits for its element. -/
  waiting : ∀ x ∈ places, x.piece.own = true → v.frameNode? x.frame = none →
    ∀ n, v.node? x.slot = some n → v.tree.parent? n = none

section Frames

variable {root q : Nat} {places : List Place} {v : LiveView} {frame frame' : Option Nat}

theorem LiveView.Sound.frameNode?_lt (hs : v.Sound root) (hhost : v.host = some root)
    (h : v.frameNode? frame = some q) : q < v.tree.size := by
  cases frame with
  | none =>
    cases hhost.symm.trans h
    exact hs.root_lt
  | some s => exact node?_lt hs h

theorem LiveView.Sound.frameNode?_inj (hs : v.Sound root) (hhost : v.host = some root)
    (h : v.frameNode? frame = some q) (h' : v.frameNode? frame' = some q) : frame = frame' := by
  cases frame with
  | none =>
    cases frame' with
    | none => rfl
    | some s =>
      cases hhost.symm.trans h
      exact absurd rfl (hs.slot_ne s root (slot_of_node? h'))
  | some s =>
    cases frame' with
    | none =>
      cases hhost.symm.trans h'
      exact absurd rfl (hs.slot_ne s root (slot_of_node? h))
    | some s' => rw [hs.slot_inj s s' q (slot_of_node? h) (slot_of_node? h')]

end Frames

/-! ### Attaching an element -/

/-- The node is nowhere yet, and empty. -/
structure LiveView.Fresh (root : Nat) (v : LiveView) (id : Nat) : Prop where
  lt : id < v.tree.size
  ne_root : id ≠ root
  parent : v.tree.parent? id = none
  children : v.tree.children id = []
  unheld : ∀ s : Nat, v.slots[s]? ≠ some (.node id)

variable {s : Nat}

theorem LiveView.Sound.set {root id : Nat} {v : LiveView} (hs : v.Sound root) (hid : v.Fresh root id)
    (hlt : s < v.slots.size) : (v.set s (.node id)).Sound root := { hs with
  slot_lt k n hk := by
    rw [slots_set hlt] at hk
    split at hk
    · cases hk
      exact hid.lt
    · exact hs.slot_lt k n hk
  slot_ne k n hk := by
    rw [slots_set hlt] at hk
    split at hk
    · cases hk
      exact hid.ne_root
    · exact hs.slot_ne k n hk
  slot_inj k k' n hk hk' := by
    rw [slots_set hlt] at hk hk'
    split at hk <;> split at hk'
    · next h h' => exact h.trans h'.symm
    · cases hk
      exact absurd hk' (hid.unheld k')
    · cases hk'
      exact absurd hk (hid.unheld k)
    · exact hs.slot_inj k k' n hk hk' }

def Live.adopt (id : Nat) (child : Int) : LiveM Unit := do
  match ← node? child with
  | some k => appendChild id k
  | none => pure ()

def TemplateNode.around? (node : TemplateNode) (v : LiveView) : Option Nat :=
  match node.parent with
  | some p => v.node? p
  | none => v.host

theorem attachNode_eq (node : TemplateNode) (id : Nat) : attachNode node id = (do
      setSlot node.index (.node id)
      let r ← get
      match node.around? r.view with
      | some p =>
        insertBefore p id (node.insertBefore.bind r.view.node?)
        node.children.forM (adopt id)
      | none => node.children.forM (adopt id)) := rfl

theorem yields_adoptAll {root id : Nat} : ∀ (slots : List Nat) (v : LiveView), v.Sound root → id < v.tree.size →
    slots.Nodup →
    (∀ s ∈ slots, ∃ n, v.slots[s]? = some (.node n) ∧ v.tree.parent? n = none) →
      Yields ((slots.map fun s : Nat => (s : Int)).forM (adopt id)) v fun _ v' => ∃ tree, v' = v.withTree tree ∧ v'.Sound root ∧
          Tree.Adopted id (slots.filterMap fun s : Nat => v.node? s) v.tree tree
  | [], v, hs, _, _, _ => yields_pure ⟨v.tree, rfl, hs, .nil id v.tree⟩
  | s :: slots, v, hs, hid, hnodup, hslots => by
    obtain ⟨hnotin, hnodup⟩ := nodup_cons.mp hnodup
    obtain ⟨n, hslot, hparent⟩ := hslots s mem_cons_self
    have hnode : v.node? s = some n := node?_of_slot hslot
    have hn : n < v.tree.size := hs.slot_lt s n hslot
    have hplaced := hs.linked.placed_append hid hn
    have hs₁ : (v.withTree (v.tree.append id n)).Sound root := hs.placed hplaced (hs.slot_ne s n hslot)
    rw [map_cons]
    refine yields_forM_cons (P := fun _ v' => v' = v.withTree (v.tree.append id n)) ?_ ?_
    · refine Yields.andThen yields_node? ?_
      rw [hnode]
      exact yields_change rfl
    · rintro _ rfl
      have hrest : ∀ k ∈ slots, ∃ m, (v.withTree (v.tree.append id n)).slots[k]? = some (.node m) ∧
          (v.tree.append id n).parent? m = none := by
        intro k hk
        obtain ⟨m, hm, hnone⟩ := hslots k (mem_cons_of_mem s hk)
        refine ⟨m, hm, ?_⟩
        rw [hplaced.parent?_eq, if_neg]
        · exact hnone
        · rintro rfl
          exact hnotin (hs.slot_inj k s m hm hslot ▸ hk)
      refine (yields_adoptAll slots _ hs₁ (hplaced.size_eq.symm ▸ hid) hnodup hrest).mono ?_
      rintro _ v' ⟨tree, rfl, hs', hadopted⟩
      refine ⟨tree, rfl, hs', ?_⟩
      simp only [filterMap_cons, hnode]
      exact hs.linked.adopted_cons hid hn hparent hadopted

/-- The element of a placeholder may be attached: the message's own nodes are there, and of the other
placeholders those with smaller slots have theirs. -/
structure Due (places : List Place) (v : LiveView) (x : Place) : Prop where
  vacant : v.node? x.slot = none
  others : ∀ y ∈ places, y ≠ x → ((v.node? y.slot).isSome ↔ y.piece.own = true ∨ y.slot < x.slot)
  nested : ∀ y ∈ places, y.piece.own = false → ∀ s, y.frame = some s → s < y.slot

section Attach

variable {root id : Nat} {t : TemplateView} {places before after : List Place} {x : Place} {v : LiveView}

theorem Reflects.node? (h : Reflects t places) (hx : places = before ++ x :: after) (hown : x.piece.own = false) :
    t.node? x.slot = some (x.template places after) := by
  have hmem : x ∈ places := hx ▸ mem_append_right _ mem_cons_self
  have hid : t.nodeId? x.slot = some x.node := by
    rw [TemplateView.nodeId?_eq_some, TemplateView.slot?_natCast]
    exact h.slots x hmem
  show (t.nodeId? x.slot).bind _ = _
  rw [hid]
  exact h.template before x after hx hown

theorem Reflects.slot_ne (h : Reflects t places) (hx : places = before ++ x :: after) :
    ∀ y ∈ before ++ after, y.slot ≠ x.slot := by
  have hnodup := h.slots_nodup
  rw [hx, map_append, map_cons] at hnodup
  have hapart := (nodup_cons.mp (perm_middle.nodup_iff.mp hnodup)).1
  intro y hy heq
  rw [← map_append] at hapart
  exact hapart (heq ▸ mem_map_of_mem hy)

theorem Due.exists_frameNode (hdue : Due places v x) (hr : Reflects t places) (h : Arranged root places v)
    (hmem : x ∈ places) (hown : x.piece.own = false) : ∃ p, v.frameNode? x.frame = some p := by
  cases hframe : x.frame with
  | none => exact ⟨root, h.host⟩
  | some s =>
    obtain ⟨y, hy, hpiece⟩ := hr.framed x hmem s hframe
    have hslot : y.slot = s := hr.placeholder y hy s hpiece
    have hlt : s < x.slot := hdue.nested x hmem hown s hframe
    have hne : y ≠ x := by
      rintro rfl
      omega
    have hsome : (v.node? y.slot).isSome := (hdue.others y hy hne).mpr (.inr (hslot ▸ hlt))
    rw [hslot] at hsome
    exact Option.isSome_iff_exists.mp hsome

theorem Due.head?_nodesIn (hdue : Due places v x) (hr : Reflects t places) (hx : places = before ++ x :: after) :
    (v.nodesIn after x.frame).head? = (after.find? x.Awaits).bind fun y => v.node? y.slot := by
  refine MessageCompiler.head?_nodesIn fun y hy hframe => ?_
  have hmem : y ∈ places := hx ▸ mem_append_right _ (mem_cons_of_mem x hy)
  have hne : y ≠ x := by
    rintro rfl
    exact hr.slot_ne hx y (mem_append_right _ hy) rfl
  rw [hdue.others y hmem hne]
  unfold Place.Awaits
  simp [hframe]

theorem node?_set (hs : s < v.slots.size) (id k : Nat) :
    (v.set s (.node id)).node? k = if k = s then some id else v.node? k := by
  rw [node?_natCast, node?_natCast, slots_set hs]
  by_cases hk : k = s
  · rw [if_pos hk, if_pos hk]
  · rw [if_neg hk, if_neg hk]

theorem Reflects.nodesIn_set (hr : Reflects t places) (hx : places = before ++ x :: after)
    (hs : x.slot < v.slots.size) (hvacant : v.node? x.slot = none) (id : Nat) (frame : Option Nat) :
    (v.set x.slot (.node id)).nodesIn places frame =
      if frame = x.frame then v.nodesIn before frame ++ id :: v.nodesIn after frame else v.nodesIn places frame := by
  have hsame : ∀ y ∈ before ++ after, (v.set x.slot (.node id)).node? y.slot = v.node? y.slot := by
    intro y hy
    rw [node?_set hs, if_neg (hr.slot_ne hx y hy)]
  rw [hx, nodesIn_split, nodesIn_split, nodesIn_congr fun y hy _ => hsame y (mem_append_left _ hy),
    nodesIn_congr fun y hy _ => hsame y (mem_append_right _ hy), node?_set hs, if_pos rfl, hvacant]
  by_cases hframe : x.frame = frame
  · rw [if_pos hframe, if_pos hframe, if_pos hframe.symm]
    rfl
  · rw [if_neg hframe, if_neg hframe, if_neg (Ne.symm hframe)]

theorem Due.node?_inside (hdue : Due places v x) {y : Place} (hy : y ∈ places) (hframe : y.frame = some x.slot)
    (hown : y.piece.own = false) : v.node? y.slot = none := by
  have hlt : x.slot < y.slot := hdue.nested y hy hown x.slot hframe
  have hne : y ≠ x := by
    rintro rfl
    exact Nat.lt_irrefl _ hlt
  refine Option.not_isSome_iff_eq_none.mp fun hsome => ?_
  rcases (hdue.others y hy hne).mp hsome with hown' | hlt'
  · rw [hown] at hown'
    cases hown'
  · omega

theorem frameNode?_set (hs : s < v.slots.size) (id : Nat) (frame : Option Nat) :
    (v.set s (.node id)).frameNode? frame = if frame = some s then some id else v.frameNode? frame := by
  cases frame with
  | none => rfl
  | some k =>
    show (v.set s (.node id)).node? k = _
    rw [node?_set hs]
    simp only [Option.some.injEq]
    rfl

theorem Arranged.attached (h : Arranged root places v) (hr : Reflects t places) (hx : places = before ++ x :: after)
    (hown : x.piece.own = false) (hdue : Due places v x) (hid : v.Fresh root id) (hs : x.slot < v.slots.size)
    {p : Nat} (hp : v.frameNode? x.frame = some p) {tree₁ tree₂ : Tree}
    (hplaced : Tree.Placed v.tree tree₁ p id (v.nodesIn before x.frame) (v.nodesIn after x.frame))
    (hadopted : Tree.Adopted id ((Place.inside places x.slot).filterMap fun s : Nat => v.node? s) tree₁ tree₂)
    (hsound : ((v.set x.slot (.node id)).withTree tree₂).Sound root) :
    Arranged root places ((v.set x.slot (.node id)).withTree tree₂) := by
  have hmem : x ∈ places := hx ▸ mem_append_right _ mem_cons_self
  have hframe : x.frame ≠ some x.slot := by
    intro heq
    exact Nat.lt_irrefl _ (hdue.nested x hmem hown x.slot heq)
  have hne : ∀ frame q, v.frameNode? frame = some q → q ≠ id := by
    rintro frame q hq rfl
    cases frame with
    | none => exact hid.ne_root (Option.some.inj (hq.symm.trans h.host))
    | some s => exact hid.unheld s (slot_of_node? hq)
  refine ⟨hsound, h.host, fun frame hisFrame q hq => ?_, fun y hy hyown hnone n hn => ?_⟩
  · show tree₂.children q = (v.set x.slot (.node id)).nodesIn places frame
    have hq' : (v.set x.slot (.node id)).frameNode? frame = some q := hq
    rw [frameNode?_set hs] at hq'
    split at hq'
    · -- The element itself.
      next heq =>
      cases hq'
      have hempty : tree₁.children id = [] := by
        rw [hplaced.children_ne id (hne _ p hp).symm, hid.children]
        rfl
      rw [hadopted.children_self, hempty, nil_append, hr.nodesIn_set hx hs hdue.vacant, heq, if_neg (Ne.symm hframe)]
      exact (nodesIn_inside fun _ hy hyframe hyown => hdue.node?_inside hy hyframe hyown).symm
    · -- Another frame, which may be the one around the placeholder.
      next hother =>
      rw [hadopted.children_ne q (hne frame q hq'), hr.nodesIn_set hx hs hdue.vacant]
      split
      · next heq =>
        subst heq
        rw [hp] at hq'
        cases hq'
        exact hplaced.children_self
      · next hframe' =>
        have hqp : q ≠ p := by
          rintro rfl
          exact hframe' (h.sound.frameNode?_inj h.host hq' hp)
        rw [hplaced.children_ne q hqp, h.sound.linked.erase_of_none hid.parent]
        exact h.children frame hisFrame q hq'
  · have hnone' : (v.set x.slot (.node id)).frameNode? y.frame = none := hnone
    rw [frameNode?_set hs] at hnone'
    split at hnone'
    · cases hnone'
    · next hyframe =>
      have hyx : y.slot ≠ x.slot := by
        intro heq
        rw [hr.eq_of_slot hy hmem heq, hown] at hyown
        cases hyown
      have hn' : (v.set x.slot (.node id)).node? y.slot = some n := hn
      rw [node?_set hs, if_neg hyx] at hn'
      have hkid : n ∉ (Place.inside places x.slot).filterMap fun s : Nat => v.node? s := by
        intro hkid
        obtain ⟨s, hs', hnode⟩ := mem_filterMap.mp hkid
        obtain ⟨z, hz, hzs⟩ := mem_map.mp hs'
        obtain ⟨hzmem, hzframe⟩ := mem_filter.mp hz
        have hslots : s = y.slot := h.sound.slot_inj s y.slot n (slot_of_node? hnode) (slot_of_node? hn')
        rw [hr.eq_of_slot hzmem hy (hzs.trans hslots)] at hzframe
        exact hyframe (by simpa using (Bool.and_eq_true_iff.mp hzframe).1)
      have hnid : n ≠ id := by
        rintro rfl
        exact hid.unheld y.slot (slot_of_node? hn')
      show tree₂.parent? n = none
      rw [hadopted.parent?_eq, if_neg hkid, hplaced.parent?_eq, if_neg hnid]
      exact h.waiting y hy hyown hnone' n hn'

theorem Due.exists_kid (hdue : Due places v x) (h : Arranged root places v) (hown : x.piece.own = false)
    (hs : s ∈ Place.inside places x.slot) : ∃ n, v.slots[s]? = some (.node n) ∧ v.tree.parent? n = none := by
  obtain ⟨y, hy, rfl⟩ := mem_map.mp hs
  obtain ⟨hmem, hinside⟩ := mem_filter.mp hy
  obtain ⟨hframe, hyown⟩ := Bool.and_eq_true_iff.mp hinside
  have hne : y ≠ x := by
    rintro rfl
    rw [hown] at hyown
    cases hyown
  obtain ⟨n, hn⟩ := Option.isSome_iff_exists.mp ((hdue.others y hmem hne).mpr (.inl hyown))
  refine ⟨n, slot_of_node? hn, h.waiting y hmem hyown ?_ n hn⟩
  rw [beq_iff_eq.mp hframe]
  exact hdue.vacant

theorem around?_template (hs : x.slot < v.slots.size) (hframe : x.frame ≠ some x.slot) :
    (x.template places after).around? (v.set x.slot (.node id)) = v.frameNode? x.frame := by
  cases hx : x.frame with
  | none =>
    simp only [TemplateNode.around?, Place.template, hx, Option.map_none]
    rfl
  | some s =>
    have hne : s ≠ x.slot := fun heq => hframe (hx.trans (congrArg some heq))
    simp only [TemplateNode.around?, Place.template, hx, Option.map_some]
    rw [node?_set hs, if_neg hne]
    rfl

/-- The tree after the first step of attaching: the element is in the node of its frame, if that is there. -/
def Place.hang (x : Place) (v : LiveView) (id : Nat) (ref : Option Nat) : Tree :=
  match v.frameNode? x.frame with
  | some p => v.tree.insertBefore p id ref
  | none => v.tree

theorem Place.placed_hang (hv : v.Sound root) (hhost : v.host = some root) (hid : v.Fresh root id)
    (hs : x.slot < v.slots.size) (ref : Option Nat) :
    ((v.set x.slot (.node id)).withTree (x.hang v id ref)).Sound root ∧ (x.hang v id ref).size = v.tree.size ∧
      ∀ k, (x.hang v id ref).parent? k = if k = id then v.frameNode? x.frame else v.tree.parent? k := by
  unfold Place.hang
  cases hp : v.frameNode? x.frame with
  | none =>
    refine ⟨hv.set hid hs, rfl, fun k => ?_⟩
    show v.tree.parent? k = if k = id then none else v.tree.parent? k
    split
    · next heq => rw [heq, hid.parent]
    · rfl
  | some p =>
    obtain ⟨pre, post, hplaced⟩ := hv.linked.exists_placed (hv.frameNode?_lt hhost hp) hid.lt ref
    exact ⟨(hv.set hid hs).placed hplaced hid.ne_root, hplaced.size_eq, hplaced.parent?_eq⟩

theorem yields_attach_hang (hr : Reflects t places) (hx : places = before ++ x :: after) (hown : x.piece.own = false)
    (hframe : x.frame ≠ some x.slot) (hv : v.Sound root) (hhost : v.host = some root) (hid : v.Fresh root id)
    (hs : x.slot < v.slots.size) (hvacant : v.node? x.slot = none)
    (hkid : ∀ s ∈ Place.inside places x.slot, ∃ n, v.slots[s]? = some (.node n) ∧ v.tree.parent? n = none) :
    Yields (attach t x.slot id) v fun result v' => result = .ok () ∧
      ∃ tree, v' = (v.set x.slot (.node id)).withTree tree ∧ v'.Sound root ∧
        Tree.Adopted id ((Place.inside places x.slot).filterMap fun s : Nat => v.node? s)
          (x.hang v id ((x.template places after).insertBefore.bind (v.set x.slot (.node id)).node?)) tree := by
  have hne : ∀ s ∈ Place.inside places x.slot, s ≠ x.slot := by
    rintro s hs' rfl
    obtain ⟨n, hslot, -⟩ := hkid _ hs'
    rw [node?_of_slot hslot] at hvacant
    cases hvacant
  have hsame : (Place.inside places x.slot).filterMap (fun s : Nat => (v.set x.slot (.node id)).node? s) =
      (Place.inside places x.slot).filterMap fun s : Nat => v.node? s :=
    filterMap_congr fun s hs' => by rw [node?_set hs, if_neg (hne s hs')]
  obtain ⟨hsound, hsize, hparent⟩ := Place.placed_hang hv hhost hid hs
    ((x.template places after).insertBefore.bind (v.set x.slot (.node id)).node?)
  unfold Live.attach
  rw [hr.node? hx hown]
  dsimp only
  rw [if_pos (show (x.template places after).type = .placeholder from rfl)]
  refine Yields.bind ?_ fun _ v' hv' => yields_pure ⟨rfl, hv'⟩
  show Yields (attachNode (x.template places after) id) v _
  rw [attachNode_eq]
  refine Yields.andThen (yields_setSlot hs) ?_
  refine yields_get fun r hr' => ?_
  rw [hr', around?_template hs hframe, ← hsame]
  have hadopt := yields_adoptAll (Place.inside places x.slot)
    ((v.set x.slot (.node id)).withTree (x.hang v id _)) hsound (hsize.symm ▸ hid.lt)
    (hr.slots_nodup.sublist (filter_sublist.map _)) fun s hs' => by
      obtain ⟨n, hslot, hnone⟩ := hkid s hs'
      have hnid : n ≠ id := by
        rintro rfl
        exact hid.unheld s hslot
      exact ⟨n, (slots_set hs _ s).trans ((if_neg (hne s hs')).trans hslot),
        (hparent n).trans ((if_neg hnid).trans hnone)⟩
  unfold Place.hang at hadopt ⊢
  cases hp : v.frameNode? x.frame with
  | none =>
    rw [hp] at hadopt
    exact hadopt
  | some p =>
    rw [hp] at hadopt
    exact Yields.andThen yields_change hadopt

/-- **Attaching** the element of the next placeholder puts it where the message has the placeholder. -/
theorem yields_attach (h : Arranged root places v) (hr : Reflects t places) (hx : places = before ++ x :: after)
    (hown : x.piece.own = false) (hdue : Due places v x) (hid : v.Fresh root id) (hs : x.slot < v.slots.size) :
    Yields (attach t x.slot id) v fun _ v' => Arranged root places v' ∧
      v'.slots = (v.set x.slot (.node id)).slots ∧ ∀ k, v'.tree.content? k = v.tree.content? k := by
  have hmem : x ∈ places := hx ▸ mem_append_right _ mem_cons_self
  obtain ⟨p, hp⟩ := hdue.exists_frameNode hr h hmem hown
  have hframe : x.frame ≠ some x.slot := fun heq => Nat.lt_irrefl _ (hdue.nested x hmem hown x.slot heq)
  have hchildren : v.tree.children p = v.nodesIn before x.frame ++ v.nodesIn after x.frame := by
    rw [h.children x.frame (hr.framed x hmem) p hp, hx, nodesIn_split, hdue.vacant]
    split <;> rfl
  have hplaced := h.sound.linked.placed_front (h.sound.frameNode?_lt h.host hp) hid.lt hid.parent hchildren
  have href : ((x.template places after).insertBefore.bind (v.set x.slot (.node id)).node?) =
      (v.nodesIn after x.frame).head? := by
    rw [hdue.head?_nodesIn hr hx]
    unfold Place.template
    cases hfind : after.find? x.Awaits with
    | none => rfl
    | some y =>
      have hne := hr.slot_ne hx y (mem_append_right _ (mem_of_find?_eq_some hfind))
      simp [node?_set hs, hne]
  refine (yields_attach_hang hr hx hown hframe h.sound h.host hid hs hdue.vacant fun s hs' =>
    hdue.exists_kid h hown hs').mono ?_
  rintro _ v' ⟨-, tree, rfl, hs', hadopted⟩
  rw [href, Place.hang, hp] at hadopted
  refine ⟨h.attached hr hx hown hdue hid hs hp hplaced hadopted hs', rfl, fun k => ?_⟩
  exact (hadopted.content?_eq k).trans (hplaced.content?_eq k)

end Attach

end MessageCompiler
