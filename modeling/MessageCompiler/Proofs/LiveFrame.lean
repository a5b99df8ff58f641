/-
What an operation on a live view leaves alone.

Slots of content that is not shown any more may still refer to nodes that were taken out of the tree.
Instructions go on changing those nodes. What counts is that they never reach a node below the host.
-/
import MessageCompiler.Proofs.Rooted
import MessageCompiler.Proofs.Yields

namespace MessageCompiler

open Markup (Tree Content Cell)

namespace Markup.Tree

/-! ### Changing the content of a node -/

section Content

variable (id : Nat) (g : Content → Content) (t : Tree) (k : Nat)

theorem content?_modifyContent :
    (Live.modifyContent id g t).content? k = if k = id then (t.content? k).map g else t.content? k := by
  unfold Live.modifyContent
  cases hid : t.content? id with
  | none =>
    show t.content? k = _
    by_cases heq : k = id
    · rw [if_pos heq, heq, hid]
      rfl
    · rw [if_neg heq]
  | some content =>
    show (t.setContent id (g content)).content? k = _
    unfold content?
    rw [cells_setContent]
    by_cases heq : k = id
    · rw [if_pos heq.symm, if_pos heq, heq, cells_of_content? hid]
      rfl
    · rw [if_neg (Ne.symm heq), if_neg heq]

theorem parent?_modifyContent : (Live.modifyContent id g t).parent? k = t.parent? k := by
  unfold Live.modifyContent
  cases t.content? id with
  | none => rfl
  | some content => exact t.parent?_setContent id _ k

theorem children_modifyContent : (Live.modifyContent id g t).children k = t.children k := by
  unfold Live.modifyContent
  cases t.content? id with
  | none => rfl
  | some content => exact t.children_setContent id _ k

theorem size_modifyContent : (Live.modifyContent id g t).size = t.size := by
  unfold Live.modifyContent
  cases t.content? id with
  | none => rfl
  | some content => exact t.size_setContent id _

variable {t} in
theorem Linked.modifyContent (h : t.Linked) : (Live.modifyContent id g t).Linked := by
  unfold Live.modifyContent
  cases t.content? id with
  | none => exact h
  | some content => exact h.setContent id _

end Content

end Markup.Tree

namespace LiveView

variable {c i id p s : Nat} {t : Tree} {post pre : List Nat}

/-- The view renders below `root`, its tree is linked, and its slots refer to different nodes. -/
structure Sound (root : Nat) (v : LiveView) : Prop where
  linked : v.tree.Linked
  root_lt : root < v.tree.size
  root_parent : v.tree.parent? root = none
  slot_lt : ∀ s id : Nat, v.slots[s]? = some (.node id) → id < v.tree.size
  slot_ne : ∀ s id : Nat, v.slots[s]? = some (.node id) → id ≠ root
  slot_inj : ∀ s s' id : Nat, v.slots[s]? = some (.node id) → v.slots[s']? = some (.node id) → s = s'

def Holds (v : LiveView) (slots : List Nat) (id : Nat) : Prop :=
  ∃ s ∈ slots, v.slots[s]? = some (.node id)

def Below (root : Nat) (v : LiveView) (id : Nat) : Prop := v.tree.Rooted root id

/-- From `v` to `v'` nothing has changed below the root but what the slots in `S` hold and the lists of
children of `hosts`; and no other slot has changed. -/
structure Keeps (root : Nat) (S : List Nat) (hosts : Nat → Prop) (v v' : LiveView) : Prop where
  sound : v'.Sound root
  locale : v'.locale = v.locale
  host : v'.host = v.host
  size : v'.slots.size = v.slots.size
  tree_le : v.tree.size ≤ v'.tree.size
  slots : ∀ s, s ∉ S → v'.slots[s]? = v.slots[s]?
  /-- No slot gets a node that was there before. -/
  held : ∀ s id : Nat, id < v.tree.size → v'.slots[s]? = some (.node id) → v.slots[s]? = some (.node id)
  below : ∀ id, v.Below root id → ¬v.Holds S id → v'.Below root id
  content : ∀ id, v.Below root id → ¬v.Holds S id → v'.tree.content? id = v.tree.content? id
  parent : ∀ id, v.Below root id → ¬v.Holds S id → v'.tree.parent? id = v.tree.parent? id
  children : ∀ id, v.Below root id → ¬v.Holds S id → ¬hosts id → v'.tree.children id = v.tree.children id
  /-- What another slot holds does not get below the root. -/
  dead : ∀ s id : Nat, s ∉ S → v.slots[s]? = some (.node id) → v'.Below root id → v.Below root id

def nowhere : Nat → Prop := fun _ => False

variable {root : Nat} {S S' : List Nat} {hosts hosts' : Nat → Prop} {v v₁ v' : LiveView}

theorem Sound.below_lt (h : v.Sound root) (hid : v.Below root id) : id < v.tree.size :=
  hid.lt h.root_lt

theorem Below.child (hp : v.Below root p) (hparent : v.tree.parent? c = some p) : v.Below root c :=
  Tree.Rooted.child hparent hp

theorem Sound.below_parent (h : v.Sound root) (hc : v.Below root c)
    (hparent : v.tree.parent? c = some p) : v.Below root p :=
  hc.parent h.root_parent hparent

namespace Keeps

theorem refl (h : v.Sound root) (S : List Nat) (hosts : Nat → Prop) : v.Keeps root S hosts v where
  sound := h
  locale := rfl
  host := rfl
  size := rfl
  tree_le := Nat.le_refl _
  slots _ _ := rfl
  held _ _ _ h := h
  below _ h _ := h
  content _ _ _ := rfl
  parent _ _ _ := rfl
  children _ _ _ _ := rfl
  dead _ _ _ _ h := h

theorem not_holds (h : v.Keeps root S hosts v₁) {id : Nat} (hlt : id < v.tree.size)
    (hid : ¬v.Holds S id) : ¬v₁.Holds S id := by
  rintro ⟨s, hs, hslot⟩
  exact hid ⟨s, hs, h.held s id hlt hslot⟩

theorem trans (hs : v.Sound root) (h₁ : v.Keeps root S hosts v₁) (h₂ : v₁.Keeps root S hosts v') :
    v.Keeps root S hosts v' where
  sound := h₂.sound
  locale := h₂.locale.trans h₁.locale
  host := h₂.host.trans h₁.host
  size := h₂.size.trans h₁.size
  tree_le := Nat.le_trans h₁.tree_le h₂.tree_le
  slots s hS := (h₂.slots s hS).trans (h₁.slots s hS)
  held s id hlt hslot :=
    h₁.held s id hlt (h₂.held s id (Nat.lt_of_lt_of_le hlt h₁.tree_le) hslot)
  below id hid hS := h₂.below id (h₁.below id hid hS) (h₁.not_holds (hs.below_lt hid) hS)
  content id hid hS :=
    (h₂.content id (h₁.below id hid hS) (h₁.not_holds (hs.below_lt hid) hS)).trans (h₁.content id hid hS)
  parent id hid hS :=
    (h₂.parent id (h₁.below id hid hS) (h₁.not_holds (hs.below_lt hid) hS)).trans (h₁.parent id hid hS)
  children id hid hS hhost :=
    (h₂.children id (h₁.below id hid hS) (h₁.not_holds (hs.below_lt hid) hS) hhost).trans (h₁.children id hid hS hhost)
  dead s id hS hslot hid :=
    h₁.dead s id hS hslot (h₂.dead s id hS ((h₁.slots s hS).trans hslot) hid)

theorem weaken (h : v.Keeps root S hosts v') (hS : ∀ s ∈ S, s ∈ S')
    (hhosts : ∀ id, v.Below root id → hosts id → hosts' id ∨ v.Holds S' id) :
    v.Keeps root S' hosts' v' := by
  have hholds : ∀ id, ¬v.Holds S' id → ¬v.Holds S id := by
    rintro id hid ⟨s, hs, hslot⟩
    exact hid ⟨s, hS s hs, hslot⟩
  exact { h with
    slots := fun s hs => h.slots s fun hmem => hs (hS s hmem)
    below := fun id hid hnot => h.below id hid (hholds id hnot)
    content := fun id hid hnot => h.content id hid (hholds id hnot)
    parent := fun id hid hnot => h.parent id hid (hholds id hnot)
    children := fun id hid hnot hhost => h.children id hid (hholds id hnot) fun hh =>
      (hhosts id hid hh).elim hhost hnot
    dead := fun s id hs => h.dead s id fun hmem => hs (hS s hmem) }

theorem widen (h : v.Keeps root S hosts v') (hS : S ⊆ S') : v.Keeps root S' hosts v' :=
  h.weaken (fun _ hs => hS hs) fun _ _ hh => .inl hh

theorem quiet (h : v.Keeps root S nowhere v') (hS : S ⊆ S') : v.Keeps root S' hosts v' :=
  h.weaken (fun _ hs => hS hs) fun _ _ hh => hh.elim

theorem cell (h : v.Keeps root S hosts v') {id : Nat} (hid : v.Below root id) (hS : ¬v.Holds S id)
    (hhost : ¬hosts id) : v'.tree.cells[id]? = v.tree.cells[id]? :=
  Tree.cells_ext (h.content id hid hS) (h.parent id hid hS) (h.children id hid hS hhost)

end Keeps

/-! ### Slots -/

theorem slots_set (hi : i < v.slots.size) (s : LiveSlot) (k : Nat) :
    (v.set i s).slots[k]? = if k = i then some s else v.slots[k]? := by
  show (v.slots.setIfInBounds i s)[k]? = _
  rw [Array.getElem?_setIfInBounds]
  by_cases hk : k = i
  · rw [if_pos hk.symm, if_pos hk, if_pos hi]
  · rw [if_neg (fun h => hk h.symm), if_neg hk]

theorem size_set (v : LiveView) (i : Nat) (s : LiveSlot) : (v.set i s).slots.size = v.slots.size :=
  Array.size_setIfInBounds

theorem node?_natCast (v : LiveView) (s : Nat) : v.node? s =
      match v.slots[s]? with
      | some (.node id) => some id
      | _ => none := by
  unfold node?
  rw [if_neg (by omega)]
  rfl

theorem slot_of_node? (h : v.node? s = some id) : v.slots[s]? = some (.node id) := by
  rw [node?_natCast] at h
  split at h
  · next hslot =>
    cases h
    exact hslot
  · cases h

theorem node?_of_slot (h : v.slots[s]? = some (.node id)) : v.node? s = some id := by
  rw [node?_natCast, h]

theorem node?_lt (hs : v.Sound root) (h : v.node? s = some id) : id < v.tree.size :=
  hs.slot_lt s id (slot_of_node? h)

theorem keeps_set (hs : v.Sound root) (hi : i < v.slots.size) (hS : i ∈ S) {s : LiveSlot}
    (hnode : ∀ id, s ≠ .node id) (hosts : Nat → Prop) : v.Keeps root S hosts (v.set i s) := by
  have hslot : ∀ k id : Nat, (v.set i s).slots[k]? = some (.node id) → v.slots[k]? = some (.node id) := by
    intro k id hk
    rw [slots_set hi] at hk
    split at hk
    · exact absurd (Option.some.inj hk) (hnode id)
    · exact hk
  exact {
    sound := { hs with
      slot_lt := fun k id hk => hs.slot_lt k id (hslot k id hk)
      slot_ne := fun k id hk => hs.slot_ne k id (hslot k id hk)
      slot_inj := fun k k' id hk hk' => hs.slot_inj k k' id (hslot k id hk) (hslot k' id hk') }
    locale := rfl
    host := rfl
    size := size_set v i s
    tree_le := Nat.le_refl _
    slots := fun k hk => by
      rw [slots_set hi, if_neg]
      rintro rfl
      exact hk hS
    held := fun k id _ hk => hslot k id hk
    below := fun _ h _ => h
    content := fun _ _ _ => rfl
    parent := fun _ _ _ => rfl
    children := fun _ _ _ _ => rfl
    dead := fun _ _ _ _ h => h }

def addNew (v : LiveView) (i : Nat) (content : Content) : LiveView :=
  (v.withTree (v.tree.create content)).set i (.node v.tree.size)

theorem slots_addNew (hi : i < v.slots.size) (content : Content) (k : Nat) :
    (v.addNew i content).slots[k]? = if k = i then some (.node v.tree.size) else v.slots[k]? :=
  slots_set (v := v.withTree (v.tree.create content)) hi _ k

theorem node?_addNew (hi : i < v.slots.size) (content : Content) : (v.addNew i content).node? i = some v.tree.size := by
  refine node?_of_slot ?_
  rw [slots_addNew hi, if_pos rfl]

theorem below_addNew (i : Nat) (content : Content) (id : Nat) :
    (v.addNew i content).Below root id ↔ v.Below root id := by
  have hparent : ∀ k, (v.addNew i content).tree.parent? k = v.tree.parent? k :=
    v.tree.parent?_create content
  exact ⟨fun h => h.of_parents fun k _ => (hparent k).symm, fun h => h.of_parents fun k _ => hparent k⟩

theorem keeps_addNew (hs : v.Sound root) (hi : i < v.slots.size) (hS : i ∈ S)
    (content : Content) (hosts : Nat → Prop) : v.Keeps root S hosts (v.addNew i content) := by
  have hslots := slots_addNew hi content
  have hparent : ∀ k, (v.addNew i content).tree.parent? k = v.tree.parent? k :=
    v.tree.parent?_create content
  have hbelow : ∀ id, (v.addNew i content).Below root id ↔ v.Below root id := below_addNew i content
  have hsize : (v.addNew i content).tree.size = v.tree.size + 1 := v.tree.size_create content
  exact {
    sound := {
      linked := hs.linked.create content
      root_lt := by
        rw [hsize]
        exact Nat.lt_succ_of_lt hs.root_lt
      root_parent := (hparent root).trans hs.root_parent
      slot_lt := fun k id hk => by
        rw [hslots] at hk
        rw [hsize]
        split at hk
        · cases hk
          omega
        · have := hs.slot_lt k id hk
          omega
      slot_ne := fun k id hk => by
        rw [hslots] at hk
        split at hk
        · cases hk
          have := hs.root_lt
          omega
        · exact hs.slot_ne k id hk
      slot_inj := fun k k' id hk hk' => by
        rw [hslots] at hk hk'
        -- The new node is in no slot of the view before.
        split at hk <;> split at hk'
        · omega
        · cases hk
          exact absurd (hs.slot_lt k' _ hk') (Nat.lt_irrefl _)
        · cases hk'
          exact absurd (hs.slot_lt k _ hk) (Nat.lt_irrefl _)
        · exact hs.slot_inj k k' id hk hk' }
    locale := rfl
    host := rfl
    size := size_set _ i _
    tree_le := by
      rw [hsize]
      exact Nat.le_succ _
    slots := fun k hk => by
      rw [hslots, if_neg]
      rintro rfl
      exact hk hS
    held := fun k id hlt hk => by
      rw [hslots] at hk
      split at hk
      · cases hk
        exact absurd hlt (Nat.lt_irrefl _)
      · exact hk
    below := fun id hid _ => (hbelow id).mpr hid
    content := fun id hid _ => by
      have hlt := hs.below_lt hid
      show (v.tree.create content).content? id = v.tree.content? id
      unfold Tree.content?
      rw [Tree.cells_create, if_neg (by omega)]
    parent := fun id _ _ => hparent id
    children := fun id _ _ _ => v.tree.children_create content id
    dead := fun _ id _ _ hid => (hbelow id).mp hid }

/-! ### Trees -/

theorem Sound.withTree (hs : v.Sound root) (hlinked : t.Linked) (hsize : t.size = v.tree.size)
    (hroot : t.parent? root = none) : (v.withTree t).Sound root := { hs with
  linked := hlinked
  root_lt := by
    show root < t.size
    rw [hsize]
    exact hs.root_lt
  root_parent := hroot
  slot_lt s id hslot := by
    show id < t.size
    rw [hsize]
    exact hs.slot_lt s id hslot }

theorem Sound.placed (hs : v.Sound root)
    (hplaced : Tree.Placed v.tree t p c pre post) (hne : c ≠ root) : (v.withTree t).Sound root := by
  refine hs.withTree (hs.linked.placed hplaced) hplaced.size_eq ?_
  rw [hplaced.parent?_eq, if_neg hne.symm]
  exact hs.root_parent

/-- The change concerns only nodes that are not below the root, and puts none of them there. -/
structure Unrooted (root : Nat) (v : LiveView) (t : Tree) : Prop where
  linked : t.Linked
  size_eq : t.size = v.tree.size
  cells : ∀ id, v.Below root id → t.cells[id]? = v.tree.cells[id]?
  parents : ∀ c p, ¬v.Below root c → t.parent? c = some p → ¬v.Below root p

theorem Unrooted.below (h : Unrooted root v t) (hid : t.Rooted root id) : v.Below root id := by
  induction hid with
  | root => exact .root
  | @child c p hcp _ ih =>
    by_cases hc : v.Below root c
    · exact hc
    · exact absurd ih (h.parents c p hc hcp)

theorem Unrooted.parent?_eq (h : Unrooted root v t) (hid : v.Below root id) : t.parent? id = v.tree.parent? id := by
  unfold Tree.parent?
  rw [h.cells id hid]

theorem Unrooted.below_iff (h : Unrooted root v t) (id : Nat) : t.Rooted root id ↔ v.Below root id :=
  ⟨h.below, fun hid => hid.of_parents fun _ => h.parent?_eq⟩

theorem keeps_unrooted (hs : v.Sound root) (h : Unrooted root v t) (S : List Nat)
    (hosts : Nat → Prop) : v.Keeps root S hosts (v.withTree t) := by
  have hroot : t.parent? root = none := (h.parent?_eq .root).trans hs.root_parent
  exact {
    sound := hs.withTree h.linked h.size_eq hroot
    locale := rfl
    host := rfl
    size := rfl
    tree_le := Nat.le_of_eq h.size_eq.symm
    slots := fun _ _ => rfl
    held := fun _ _ _ h => h
    below := fun id hid _ => (h.below_iff id).mpr hid
    content := fun id hid _ => by
      show t.content? id = v.tree.content? id
      unfold Tree.content?
      rw [h.cells id hid]
    parent := fun _ hid _ => h.parent?_eq hid
    children := fun id hid _ _ => by
      show t.children id = v.tree.children id
      unfold Tree.children
      rw [h.cells id hid]
    dead := fun _ _ _ _ hid => h.below hid }

theorem keeps_placed (hs : v.Sound root)
    (hplaced : Tree.Placed v.tree t p c pre post) (hc : v.Holds S c) (hfree : v.tree.parent? c = none)
    (hleaf : ∀ k, v.tree.parent? k ≠ some c) (hp : hosts p ∨ v.Holds S p) :
    v.Keeps root S hosts (v.withTree t) := by
  obtain ⟨i, hiS, hi⟩ := hc
  have hne : c ≠ root := hs.slot_ne i c hi
  have hnot : ¬v.Below root c := by
    intro hbelow
    cases hbelow with
    | root => exact hne rfl
    | child hparent _ =>
      rw [hfree] at hparent
      cases hparent
  have hparent : ∀ id, id ≠ c → t.parent? id = v.tree.parent? id := fun id hid => by
    rw [hplaced.parent?_eq, if_neg hid]
  have herase : ∀ q, (v.tree.children q).erase c = v.tree.children q := fun q => by
    refine List.erase_of_not_mem fun hmem => ?_
    rw [(hs.linked.child q c).mp hmem] at hfree
    cases hfree
  -- Nothing is below the new node, so only the node itself may get below the root.
  have hback : ∀ id, t.Rooted root id → id ≠ c → v.Below root id := by
    intro id hid
    induction hid with
    | root => exact fun _ => .root
    | @child k q hkq _ ih =>
      intro hk
      rw [hparent k hk] at hkq
      exact (ih (fun hq => hleaf k (hq ▸ hkq))).child hkq
  exact {
    sound := hs.placed hplaced hne
    locale := rfl
    host := rfl
    size := rfl
    tree_le := Nat.le_of_eq hplaced.size_eq.symm
    slots := fun _ _ => rfl
    held := fun _ _ _ h => h
    below := fun id hid _ => hid.of_parents fun k hk => hparent k fun heq => hnot (heq ▸ hk)
    content := fun id _ _ => hplaced.content?_eq id
    parent := fun id hid _ => hparent id fun heq => hnot (heq ▸ hid)
    children := fun id _ hnotS hhost => by
      rw [← herase id]
      refine hplaced.children_ne id fun heq => ?_
      rcases hp with hp | hp
      · exact hhost (heq ▸ hp)
      · exact hnotS (heq ▸ hp)
    dead := fun k id hk hslot hid => by
      refine hback id hid fun heq => ?_
      rw [heq] at hslot
      exact hk (hs.slot_inj k i c hslot hi ▸ hiS) }

/-- A node that one of the slots holds is taken away from a host, with what is below it: all that is in
one of the slots too. -/
theorem keeps_detach (hs : v.Sound root) (hc : v.Holds S c) (hparent : v.tree.parent? c = some p)
    (hp : hosts p ∨ v.Holds S p)
    (hclosed : ∀ k q, v.tree.parent? k = some q → v.Holds S q → v.Below root q → v.Holds S k) :
    v.Keeps root S hosts (v.withTree (v.tree.detach c)) := by
  have hback : ∀ id, (v.tree.detach c).Rooted root id → v.Below root id := by
    intro id hid
    induction hid with
    | root => exact .root
    | @child k q hkq _ ih =>
      rw [Tree.parent?_detach] at hkq
      split at hkq
      · cases hkq
      · exact ih.child hkq
  have hsame : ∀ id, ¬v.Holds S id → (v.tree.detach c).parent? id = v.tree.parent? id := fun id hid => by
    rw [Tree.parent?_detach, if_neg]
    rintro rfl
    exact hid hc
  have hroot : (v.tree.detach c).parent? root = none := by
    rw [Tree.parent?_detach]
    split
    · rfl
    · exact hs.root_parent
  exact {
    sound := hs.withTree (hs.linked.detach c) (v.tree.size_detach c) hroot
    locale := rfl
    host := rfl
    size := rfl
    tree_le := Nat.le_of_eq (v.tree.size_detach c).symm
    slots := fun _ _ => rfl
    held := fun _ _ _ h => h
    below := fun id hid hnot => by
      -- The chain of parents does not pass through the node, or its end would be in a slot as well.
      induction hid with
      | root => exact .root
      | @child k q hkq hq ih =>
        have hnotq : ¬v.Holds S q := fun hheld => hnot (hclosed k q hkq hheld hq)
        exact (ih hnotq).child ((hsame k hnot).trans hkq)
    content := fun id _ _ => v.tree.content?_detach c id
    parent := fun id _ hnot => hsame id hnot
    children := fun id _ hnot hhost => by
      show (v.tree.detach c).children id = _
      rw [hs.linked.children_detach]
      refine List.erase_of_not_mem fun hmem => ?_
      have heq := (hs.linked.child id c).mp hmem
      rw [hparent] at heq
      rcases hp with hp | hp
      · exact hhost (Option.some.inj heq ▸ hp)
      · exact hnot (Option.some.inj heq ▸ hp)
    dead := fun _ id _ _ hid => hback id hid }

theorem keeps_setContent (hs : v.Sound root) (hc : v.Holds S c) (content : Content)
    (hosts : Nat → Prop) : v.Keeps root S hosts (v.withTree (v.tree.setContent c content)) := by
  have hparent : ∀ id, (v.tree.setContent c content).parent? id = v.tree.parent? id :=
    v.tree.parent?_setContent c content
  exact {
    sound := hs.withTree (hs.linked.setContent c content) (v.tree.size_setContent c content)
      ((hparent root).trans hs.root_parent)
    locale := rfl
    host := rfl
    size := rfl
    tree_le := Nat.le_of_eq (v.tree.size_setContent c content).symm
    slots := fun _ _ => rfl
    held := fun _ _ _ h => h
    below := fun id hid _ => hid.of_parents fun k _ => hparent k
    content := fun id _ hnot => by
      show (v.tree.setContent c content).content? id = v.tree.content? id
      unfold Tree.content?
      rw [Tree.cells_setContent, if_neg]
      rintro rfl
      exact hnot hc
    parent := fun id _ _ => hparent id
    children := fun id _ _ _ => v.tree.children_setContent c content id
    dead := fun _ id _ _ hid => hid.of_parents fun k _ => (hparent k).symm }

/-! ### Nodes that are not below the root -/

theorem Below.of_parent (hnot : ¬v.Below root c) (hparent : v.tree.parent? c = some p) : ¬v.Below root p :=
  fun hp => hnot (hp.child hparent)

theorem Sound.unrooted_refl (hs : v.Sound root) : Unrooted root v v.tree where
  linked := hs.linked
  size_eq := rfl
  cells _ _ := rfl
  parents _ _ hc hcp := Below.of_parent hc hcp

theorem Sound.unrooted_detach (hs : v.Sound root) (hc : ¬v.Below root c) : Unrooted root v (v.tree.detach c) where
  linked := hs.linked.detach c
  size_eq := v.tree.size_detach c
  cells id hid := by
    refine Tree.cells_ext (v.tree.content?_detach c id) ?_ ?_
    · rw [Tree.parent?_detach, if_neg]
      rintro rfl
      exact hc hid
    · rw [hs.linked.children_detach]
      refine List.erase_of_not_mem fun hmem => hc ?_
      exact hid.child ((hs.linked.child id c).mp hmem)
  parents k q hk hkq := by
    rw [Tree.parent?_detach] at hkq
    split at hkq
    · cases hkq
    · exact Below.of_parent hk hkq

theorem Sound.unrooted_modifyContent (hs : v.Sound root) (hc : ¬v.Below root c)
    (f : Content → Content) : Unrooted root v (Live.modifyContent c f v.tree) := by
  unfold Live.modifyContent
  split
  · next content _ =>
    exact {
      linked := hs.linked.setContent c (f content)
      size_eq := v.tree.size_setContent c (f content)
      cells := fun id hid => by
        rw [Tree.cells_setContent, if_neg]
        rintro rfl
        exact hc hid
      parents := fun k q hk hkq => by
        rw [Tree.parent?_setContent] at hkq
        exact Below.of_parent hk hkq }
  · exact hs.unrooted_refl

theorem Sound.unrooted_placed (hs : v.Sound root)
    (hplaced : Tree.Placed v.tree t p c pre post) (hp : ¬v.Below root p) (hc : ¬v.Below root c) :
    Unrooted root v t where
  linked := hs.linked.placed hplaced
  size_eq := hplaced.size_eq
  cells id hid := by
    refine Tree.cells_ext (hplaced.content?_eq id) ?_ ?_
    · rw [hplaced.parent?_eq, if_neg]
      rintro rfl
      exact hc hid
    · rw [hplaced.children_ne id (by rintro rfl; exact hp hid)]
      refine List.erase_of_not_mem fun hmem => hc ?_
      exact hid.child ((hs.linked.child id c).mp hmem)
  parents k q hk hkq := by
    rw [hplaced.parent?_eq] at hkq
    split at hkq
    · cases hkq
      exact hp
    · exact Below.of_parent hk hkq

end LiveView

end MessageCompiler
