/-
Views whose tree is a forest.

Links that agree may still run in a circle: a node may be put into itself. They do not if only nodes without children
are put anywhere, and never into themselves. In a live view these are new nodes, and the nodes that messages create
outside of expressions; nothing is ever put into one of the latter.
-/
import MessageCompiler.Proofs.LiveFrame

namespace MessageCompiler

open Markup (Tree Content)

namespace Markup.Tree

/-! ### Ancestors -/

/-- A chain of parents leads from the node up to `a`. -/
inductive Ancestor (t : Tree) (a : Nat) : Nat → Prop where
  | parent {b : Nat} (h : t.parent? b = some a) : Ancestor t a b
  | above {b p : Nat} (hparent : t.parent? b = some p) (h : Ancestor t a p) : Ancestor t a b

/-- The nodes form trees: parents and children agree, no node has two parents, and none is its own ancestor. -/
structure Forest (t : Tree) : Prop where
  linked : t.Linked
  single : ∀ c p q, c ∈ t.children p → c ∈ t.children q → p = q
  acyclic : ∀ n, ¬t.Ancestor n n

variable {t t' : Tree}

theorem Linked.forest (h : t.Linked) (hacyclic : ∀ n, ¬t.Ancestor n n) : t.Forest where
  linked := h
  single c p q hp hq := Option.some.inj (((h.child p c).mp hp).symm.trans ((h.child q c).mp hq))
  acyclic := hacyclic

theorem forest_empty : Tree.empty.Forest := by
  refine linked_empty.forest fun n h => ?_
  have hnone : ∀ k, Tree.empty.parent? k = none := fun k => by simp [Tree.empty, parent?]
  cases h with
  | parent h => exact absurd ((hnone n).symm.trans h) (by simp)
  | above h _ => exact absurd ((hnone n).symm.trans h) (by simp)

theorem Ancestor.of_parents {a b : Nat} (h : t.Ancestor a b)
    (hsub : ∀ k p, t.parent? k = some p → t'.parent? k = some p) : t'.Ancestor a b := by
  induction h with
  | parent h => exact .parent (hsub _ _ h)
  | above hparent _ ih => exact .above (hsub _ _ hparent) ih

theorem Ancestor.exists_child {a b : Nat} (h : t.Ancestor a b) : ∃ k, t.parent? k = some a := by
  induction h with
  | parent h => exact ⟨_, h⟩
  | above _ _ ih => exact ih

namespace Forest

theorem of_parents (h : t.Forest) (hlinked : t'.Linked)
    (hsub : ∀ k p, t'.parent? k = some p → t.parent? k = some p) : t'.Forest :=
  hlinked.forest fun n hn => h.acyclic n (hn.of_parents hsub)

theorem create (h : t.Forest) (content : Content) : (t.create content).Forest :=
  h.of_parents (h.linked.create content) fun k p hp => by rwa [parent?_create] at hp

theorem modifyContent (h : t.Forest) (id : Nat) (g : Content → Content) : (Live.modifyContent id g t).Forest :=
  h.of_parents (h.linked.modifyContent id g) fun k p hp => by rwa [parent?_modifyContent] at hp

theorem detach (h : t.Forest) (c : Nat) : (t.detach c).Forest := by
  refine h.of_parents (h.linked.detach c) fun k p hp => ?_
  rw [parent?_detach] at hp
  split at hp
  · cases hp
  · exact hp

/-- A node without children is put into another node: it is nobody's ancestor, and for the others nothing changes. -/
theorem placed (h : t.Forest) {p c : Nat} {pre post : List Nat} (hp : Placed t t' p c pre post)
    (hc : t.children c = []) (hne : p ≠ c) : t'.Forest := by
  have hleaf : ∀ k, t'.parent? k ≠ some c := by
    intro k hk
    rw [hp.parent?_eq] at hk
    split at hk
    · exact hne (Option.some.inj hk)
    · have hmem := (h.linked.child c k).mpr hk
      rw [hc] at hmem
      cases hmem
  have hold : ∀ {a b : Nat}, t'.Ancestor a b → b ≠ c → t.Ancestor a b := by
    intro a b hab
    induction hab with
    | @parent b hparent =>
      intro hb
      rw [hp.parent?_eq, if_neg hb] at hparent
      exact .parent hparent
    | @above b q hparent _ ih =>
      intro hb
      have hq : q ≠ c := fun heq => hleaf b (heq ▸ hparent)
      rw [hp.parent?_eq, if_neg hb] at hparent
      exact .above hparent (ih hq)
  refine (h.linked.placed hp).forest fun n hn => ?_
  by_cases hnc : n = c
  · obtain ⟨k, hk⟩ := hn.exists_child
    exact hleaf k (hnc ▸ hk)
  · exact h.acyclic n (hold hn hnc)

end Forest

end Markup.Tree

/-! ### Views -/

namespace LiveView

/-- The tree of the view is a forest, its slots hold different nodes other than the host, and what the leaf slots hold
has no children. -/
structure Planted (leaf : Nat → Prop) (v : LiveView) : Prop where
  forest : v.tree.Forest
  host_lt : ∀ h, v.host = some h → h < v.tree.size
  host_ne : ∀ (h s : Nat), v.host = some h → v.slots[s]? ≠ some (.node h)
  slot_lt : ∀ s id : Nat, v.slots[s]? = some (.node id) → id < v.tree.size
  slot_inj : ∀ s s' id : Nat, v.slots[s]? = some (.node id) → v.slots[s']? = some (.node id) → s = s'
  childless : ∀ s id : Nat, leaf s → v.slots[s]? = some (.node id) → v.tree.children id = []

/-- The node is there and in no leaf slot, so it may get children. -/
structure Takes (leaf : Nat → Prop) (v : LiveView) (p : Nat) : Prop where
  lt : p < v.tree.size
  ne : ∀ s : Nat, leaf s → v.slots[s]? ≠ some (.node p)

variable {leaf : Nat → Prop} {v : LiveView}

theorem node?_eq_some {i : Int} {id : Nat} :
    v.node? i = some id ↔ ∃ k : Nat, i = k ∧ v.slots[k]? = some (.node id) := by
  constructor
  · intro h
    by_cases hi : i < 0
    · rw [node?, if_pos hi] at h
      cases h
    · obtain ⟨k, rfl⟩ := Int.eq_ofNat_of_zero_le (Int.not_lt.mp hi)
      exact ⟨k, rfl, slot_of_node? h⟩
  · rintro ⟨k, rfl, h⟩
    exact node?_of_slot h

theorem planted_new (leaf : Nat → Prop) (t : TemplateView) (host : Option String) (locale : Locale) :
    (LiveView.new t host locale).Planted leaf := by
  have hslots : ∀ s id : Nat, (LiveView.new t host locale).slots[s]? ≠ some (.node id) := by
    intro s id h
    have hempty : (Array.replicate t.size LiveSlot.empty)[s]? = some (.node id) := h
    rw [Array.getElem?_replicate] at hempty
    split at hempty <;> cases hempty
  refine ⟨?_, ?_, fun h s _ => hslots s h, fun s id h => absurd h (hslots s id),
    fun s _ id h => absurd h (hslots s id), fun s id _ h => absurd h (hslots s id)⟩
  · cases host with
    | none => exact Tree.forest_empty
    | some tag => exact Tree.forest_empty.create _
  · intro h hhost
    cases host with
    | none => cases hhost
    | some tag =>
      cases hhost
      exact Nat.lt_of_lt_of_eq (Nat.zero_lt_succ _) (Tree.size_create _ _).symm

namespace Planted

section

variable (h : v.Planted leaf)
include h

theorem takes_host {host : Nat} (hhost : v.host = some host) : v.Takes leaf host :=
  ⟨h.host_lt host hhost, fun s _ => h.host_ne host s hhost⟩

theorem takes_slot {s p : Nat} (hs : ¬leaf s) (hslot : v.slots[s]? = some (.node p)) : v.Takes leaf p :=
  ⟨h.slot_lt s p hslot, fun s' hs' hslot' => hs (h.slot_inj s s' p hslot hslot' ▸ hs')⟩

theorem takes_parent {p c : Nat} (hparent : v.tree.parent? c = some p) : v.Takes leaf p := by
  have hmem := (h.forest.linked.child p c).mpr hparent
  refine ⟨h.forest.linked.parent_lt hparent, fun s hs hslot => ?_⟩
  rw [h.childless s p hs hslot] at hmem
  cases hmem

theorem withTree {t : Tree} (hforest : t.Forest) (hsize : v.tree.size ≤ t.size)
    (hleaf : ∀ s id : Nat, leaf s → v.slots[s]? = some (.node id) → t.children id = []) :
    (v.withTree t).Planted leaf := { h with
  forest := hforest
  host_lt p hp := Nat.lt_of_lt_of_le (h.host_lt p hp) hsize
  slot_lt s id hs := Nat.lt_of_lt_of_le (h.slot_lt s id hs) hsize
  childless := hleaf }

theorem create (content : Content) : (v.withTree (v.tree.create content)).Planted leaf := by
  refine h.withTree (h.forest.create content) ?_ fun s id hs hslot => ?_
  · rw [Tree.size_create]
    exact Nat.le_succ _
  · rw [Tree.children_create]
    exact h.childless s id hs hslot

theorem modifyContent (id : Nat) (g : Content → Content) :
    (v.withTree (Live.modifyContent id g v.tree)).Planted leaf := by
  refine h.withTree (h.forest.modifyContent id g) (Nat.le_of_eq (Tree.size_modifyContent id g v.tree).symm)
    fun s k hs hslot => ?_
  rw [Tree.children_modifyContent]
  exact h.childless s k hs hslot

theorem detach (c : Nat) : (v.withTree (v.tree.detach c)).Planted leaf := by
  refine h.withTree (h.forest.detach c) (Nat.le_of_eq (Tree.size_detach v.tree c).symm) fun s k hs hslot => ?_
  rw [h.forest.linked.children_detach, h.childless s k hs hslot]
  rfl

theorem placed {t : Tree} {p c : Nat} {pre post : List Nat}
    (hp : Tree.Placed v.tree t p c pre post) (htakes : v.Takes leaf p) (hc : v.tree.children c = []) (hne : p ≠ c) :
    (v.withTree t).Planted leaf := by
  refine h.withTree (h.forest.placed hp hc hne) (Nat.le_of_eq hp.size_eq.symm) fun s k hs hslot => ?_
  rw [hp.children_ne k fun heq => htakes.ne s hs (heq ▸ hslot), h.childless s k hs hslot]
  rfl

theorem set {i : Nat} (hi : i < v.slots.size) {x : LiveSlot} (hx : ∀ id, x ≠ .node id) : (v.set i x).Planted leaf := by
  have hslot : ∀ k id : Nat, (v.set i x).slots[k]? = some (.node id) → v.slots[k]? = some (.node id) := by
    intro k id hk
    rw [slots_set hi] at hk
    split at hk
    · exact absurd (Option.some.inj hk) (hx id)
    · exact hk
  exact ⟨h.forest, h.host_lt, fun p s hp hs => h.host_ne p s hp (hslot s p hs),
    fun s id hs => h.slot_lt s id (hslot s id hs),
    fun s s' id hs hs' => h.slot_inj s s' id (hslot s id hs) (hslot s' id hs'),
    fun s id hl hs => h.childless s id hl (hslot s id hs)⟩

theorem hold {i id : Nat} (hi : i < v.slots.size) (hid : id < v.tree.size)
    (hhost : v.host ≠ some id) (hnew : ∀ s : Nat, v.slots[s]? ≠ some (.node id)) (hleaf : v.tree.children id = []) :
    (v.set i (.node id)).Planted leaf := by
  have hslot : ∀ k id' : Nat, (v.set i (.node id)).slots[k]? = some (.node id') →
      k = i ∧ id' = id ∨ k ≠ i ∧ v.slots[k]? = some (.node id') := by
    intro k id' hk
    rw [slots_set hi] at hk
    split at hk
    · next heq =>
      cases hk
      exact .inl ⟨heq, rfl⟩
    · next hne => exact .inr ⟨hne, hk⟩
  refine ⟨h.forest, h.host_lt, fun p s hp hs => ?_, fun s k hs => ?_, fun s s' k hs hs' => ?_, fun s k hl hs => ?_⟩
  · rcases hslot s p hs with ⟨-, rfl⟩ | ⟨-, hs⟩
    · exact hhost hp
    · exact h.host_ne p s hp hs
  · rcases hslot s k hs with ⟨-, rfl⟩ | ⟨-, hs⟩
    · exact hid
    · exact h.slot_lt s k hs
  · rcases hslot s k hs with ⟨rfl, rfl⟩ | ⟨-, hold⟩
    · rcases hslot s' k hs' with ⟨rfl, -⟩ | ⟨-, hold'⟩
      · rfl
      · exact absurd hold' (hnew s')
    · rcases hslot s' k hs' with ⟨-, rfl⟩ | ⟨-, hold'⟩
      · exact absurd hold (hnew s)
      · exact h.slot_inj s s' k hold hold'
  · rcases hslot s k hs with ⟨-, rfl⟩ | ⟨-, hs⟩
    · exact hleaf
    · exact h.childless s k hl hs

end

theorem children_size (v : LiveView) : v.tree.children v.tree.size = [] := by
  refine List.eq_nil_iff_forall_not_mem.mpr fun c hc => ?_
  exact Nat.lt_irrefl _ (Tree.lt_of_mem_children hc)

theorem addNew (h : v.Planted leaf) {i : Nat} (hi : i < v.slots.size) (content : Content) :
    (v.addNew i content).Planted leaf := by
  refine (h.create content).hold hi ?_ ?_ ?_ ?_
  · show v.tree.size < (v.tree.create content).size
    rw [Tree.size_create]
    exact Nat.lt_succ_self _
  · exact fun hhost => Nat.lt_irrefl _ (h.host_lt _ hhost)
  · exact fun s hs => Nat.lt_irrefl _ (h.slot_lt s _ hs)
  · show (v.tree.create content).children v.tree.size = []
    rw [Tree.children_create]
    exact children_size v

end Planted

end LiveView

end MessageCompiler
