/-
Removing what is shown.

The content of a case goes away by its outermost nodes, that of a nested expression before its anchor.
Afterwards the slots of the case are idle, whatever those of inner nodes still hold.

* **`Exchanges`** — an operation puts other nodes where neighbouring children of a node were.
* **`Exchanges.seq`** — what is done in different slots for neighbours may be followed on its own.
-/
import MessageCompiler.Proofs.Dormant

namespace MessageCompiler

open List
open Markup (Content Tree)
open Live LiveView

variable {p root : Nat} {S : List Nat}

/-! ### Regions -/

namespace LiveView

/-- Different slots of the view, none of which holds `p`, for what is to be shown below `p`. -/
structure Region (root : Nat) (S : List Nat) (p : Nat) (v : LiveView) : Prop where
  sound : v.Sound root
  below : v.Below root p
  free : ¬v.Holds S p
  nodup : S.Nodup
  lt : ∀ s ∈ S, s < v.slots.size

section Parts

variable {slot : Nat} {a b : List Nat}

theorem nodup_parts (h : (slot :: (a ++ b)).Nodup) : slot ∉ a ∧ slot ∉ b ∧ ∀ s ∈ a, ∀ s' ∈ b, s ≠ s' := by
  grind

theorem sublist_node : (slot :: a).Sublist (slot :: (a ++ b)) := (sublist_append_left _ _).cons_cons slot

theorem sublist_after : b.Sublist (slot :: (a ++ b)) := (sublist_append_right _ _).cons slot

end Parts

variable {root p : Nat} {S S₁ S' : List Nat} {hosts : Nat → Prop} {v v' : LiveView}

namespace Region

theorem mono (h : v.Region root S p) (hsub : S'.Sublist S) : v.Region root S' p := { h with
  free hheld := h.free (hheld.mono fun _ hs => hsub.subset hs)
  nodup := h.nodup.sublist hsub
  lt s hs := h.lt s (hsub.subset hs) }

theorem keeps (h : v.Region root S p) (hk : v.Keeps root S₁ hosts v') (hfree : ¬v.Holds S₁ p) : v'.Region root S p where
  sound := hk.sound
  below := hk.below p h.below hfree
  free := fun ⟨s, hs, hslot⟩ => h.free ⟨s, hs, hk.held s p (h.sound.below_lt h.below) hslot⟩
  nodup := h.nodup
  lt s hs := by
    rw [hk.size]
    exact h.lt s hs

theorem inner {slot id : Nat} (h : v.Region root (slot :: S) p) (hslot : v.slots[slot]? = some (.node id))
    (hparent : v.tree.parent? id = some p) : v.Region root S id where
  sound := h.sound
  below := h.below.child hparent
  free := fun ⟨s, hs, hid⟩ =>
    (nodup_cons.mp h.nodup).1 (h.sound.slot_inj s slot id hid hslot ▸ hs)
  nodup := (nodup_cons.mp h.nodup).2
  lt s hs := h.lt s (mem_cons_of_mem slot hs)

end Region

theorem Keeps.carries_of_nodup (hs : v.Sound root) (hk : v.Keeps root S (· = p) v')
    (hdisjoint : ∀ s ∈ S', s ∉ S) (hfree : ¬v.Holds S' p) : Carries root S' v v' :=
  hk.carries hs hdisjoint fun _ hid hheld => hfree (hid ▸ hheld)

namespace Region

variable {A B : List Nat}

section

variable (h : v.Region root (A ++ B) p)
include h

theorem left : v.Region root A p := h.mono (sublist_append_left _ _)

theorem right : v.Region root B p := h.mono (sublist_append_right _ _)

theorem carries_right (hk : v.Keeps root A (· = p) v') : Carries root B v v' :=
  hk.carries_of_nodup h.sound (fun s hs hmem => (nodup_append.mp h.nodup).2.2 s hmem s hs rfl) h.right.free

theorem carries_left (hk : v.Keeps root B (· = p) v') : Carries root A v v' :=
  hk.carries_of_nodup h.sound (fun s hs hmem => (nodup_append.mp h.nodup).2.2 s hs s hmem rfl) h.left.free

end

end Region

end LiveView

/-! ### Neighbours -/

/-- What is said of neighbouring children of a node: which nodes they are, and what else is in their slots. -/
abbrev Scene := LiveView → List Nat → Prop

namespace Scene

def beside (P P' : Scene) : Scene := fun v tops => ∃ front back, tops = front ++ back ∧ P v front ∧ P' v back

def gone (P : LiveView → Prop) : Scene := fun v tops => tops = [] ∧ P v

def bare : Scene := fun _ tops => tops = []

def node (p slot : Nat) (content : Content) (inside : Nat → Scene) : Scene := fun v tops =>
  ∃ id kids, tops = [id] ∧ v.slots[slot]? = some (.node id) ∧
    v.tree.cells[id]? = some ⟨content, some p, kids⟩ ∧ inside id v kids

def Framed (root p : Nat) (S : List Nat) (P : Scene) : Prop :=
  ∀ (v v' : LiveView) (tops : List Nat), v.Below root p → P v tops → Carries root S v v' → P v' tops

theorem beside_gone (P P' : LiveView → Prop) : (gone P).beside (gone P') = gone fun v => P v ∧ P' v := by
  funext v tops
  refine propext ⟨?_, ?_⟩
  · rintro ⟨_, _, rfl, ⟨rfl, h⟩, rfl, h'⟩
    exact ⟨rfl, h, h'⟩
  · rintro ⟨rfl, h, h'⟩
    exact ⟨[], [], rfl, ⟨rfl, h⟩, rfl, h'⟩

theorem Framed.mono {S' : List Nat} {P : Scene} (h : Framed root p S P) (hS : S ⊆ S') :
    Framed root p S' P :=
  fun v v' tops hp hP hc => h v v' tops hp hP (hc.mono fun _ hs => hS hs)

theorem framed_gone {P : LiveView → Prop}
    (h : ∀ {v v' : LiveView}, P v → Carries root S v v' → P v') : Framed root p S (gone P) :=
  fun _ _ _ _ hP hc => ⟨hP.1, h hP.2 hc⟩

theorem framed_bare (root p : Nat) (S : List Nat) : Framed root p S bare := fun _ _ _ _ h _ => h

theorem Framed.node {slot : Nat} {inside : Nat → Scene} (h : ∀ id, Framed root id S (inside id)) (content : Content) :
    Framed root p (slot :: S) (node p slot content inside) := by
  rintro v v' _ hp ⟨id, kids, rfl, hslot, hcell, hinside⟩ hc
  have hid := below_of_cell hp hcell
  refine ⟨id, kids, rfl, (hc.slots slot mem_cons_self).trans hslot, ?_, ?_⟩
  · exact (hc.cells slot mem_cons_self id hslot hid).trans hcell
  · exact h id _ _ _ hid hinside (hc.mono fun _ hs => mem_cons_of_mem slot hs)

theorem Framed.beside {A B : List Nat} {P P' : Scene} (h : Framed root p A P)
    (h' : Framed root p B P') : Framed root p (A ++ B) (P.beside P') := by
  rintro v v' _ hp ⟨front, back, rfl, hfront, hback⟩ hc
  exact ⟨front, back, rfl, h _ _ _ hp hfront (hc.mono fun _ => mem_append_left _),
    h' _ _ _ hp hback (hc.mono fun _ => mem_append_right _)⟩

end Scene

open Scene

/-- The operation puts nodes for which `Q` holds where nodes for which `P` holds were among the children of `p`, and
changes nothing but what the slots hold. -/
def Exchanges (root : Nat) (locale : Locale) (p : Nat) (S : List Nat) (P : Scene) (x : LiveM Unit) (Q : Scene) : Prop :=
  ∀ (v : LiveView) (pre tops post : List Nat), v.locale = locale → v.Region root S p → P v tops →
    v.tree.children p = pre ++ (tops ++ post) → Yields x v fun _ v' => v.Keeps root S (· = p) v' ∧
      ∃ tops', Q v' tops' ∧ v'.tree.children p = pre ++ (tops' ++ post)

namespace Exchanges

variable {root p slot : Nat} {locale : Locale} {S S' A B : List Nat} {P P' Q Q' R : Scene} {x y : LiveM Unit}

theorem refl (h : ∀ v tops, P v tops → Q v tops) : Exchanges root locale p S P (pure ()) Q :=
  fun v _ tops _ _ hregion hP hchildren =>
    yields_pure ⟨.refl hregion.sound _ _, tops, h v tops hP, hchildren⟩

theorem imp (h : Exchanges root locale p S P x Q) (hP : ∀ v tops, v.locale = locale → P' v tops → P v tops)
    (hQ : ∀ v tops, v.locale = locale → Q v tops → Q' v tops) : Exchanges root locale p S P' x Q' :=
  fun v pre tops post hl hregion hP' hchildren =>
    (h v pre tops post hl hregion (hP v tops hl hP') hchildren).mono fun _ v' ⟨hk, tops', hQ', hchildren'⟩ =>
      ⟨hk, tops', hQ v' tops' (hk.locale.trans hl) hQ', hchildren'⟩

theorem of_nodup (h : S.Nodup → Exchanges root locale p S P x Q) : Exchanges root locale p S P x Q :=
  fun v pre tops post hl hregion => h hregion.nodup v pre tops post hl hregion

theorem perm (h : Exchanges root locale p S P x Q) (hperm : S.Perm S') : Exchanges root locale p S' P x Q := by
  intro v pre tops post hl hregion hP hchildren
  have hregion' : v.Region root S p := { hregion with
    free := fun hheld => hregion.free (hheld.mono fun _ => hperm.mem_iff.mp)
    nodup := hperm.nodup_iff.mpr hregion.nodup
    lt := fun s hs => hregion.lt s (hperm.mem_iff.mp hs) }
  exact (h v pre tops post hl hregion' hP hchildren).mono fun _ v' ⟨hk, hQ⟩ => ⟨hk.widen hperm.subset, hQ⟩

theorem trans (hx : Exchanges root locale p S P x Q) (hy : Exchanges root locale p S Q y R) :
    Exchanges root locale p S P (x >>= fun _ => y) R := by
  intro v pre tops post hl hregion hP hchildren
  refine (hx v pre tops post hl hregion hP hchildren).bind fun _ v₁ ⟨h₁, tops₁, hQ, hchildren₁⟩ => ?_
  refine (hy v₁ pre tops₁ post (h₁.locale.trans hl) (hregion.keeps h₁ hregion.free) hQ hchildren₁).mono ?_
  exact fun _ v₂ ⟨h₂, hR⟩ => ⟨h₁.trans hregion.sound h₂, hR⟩

/-- **Neighbours do not disturb each other.** One operation after the other, each for its own slots. -/
theorem seq (hx : Exchanges root locale p A P x Q) (hy : Exchanges root locale p B P' y Q')
    (hP' : Framed root p B P') (hQ : Framed root p A Q) :
    Exchanges root locale p (A ++ B) (P.beside P') (x >>= fun _ => y) (Q.beside Q') := by
  rintro v pre _ post hl hregion ⟨front, back, rfl, hP, hback⟩ hchildren
  rw [append_assoc] at hchildren
  refine (hx v pre front (back ++ post) hl hregion.left hP hchildren).bind fun _ v₁ ⟨h₁, front', hfront, hchildren₁⟩ => ?_
  have hregion₁ := hregion.keeps h₁ hregion.left.free
  rw [← append_assoc] at hchildren₁
  refine (hy v₁ (pre ++ front') back post (h₁.locale.trans hl) hregion₁.right
    (hP' _ _ _ hregion.below hback (hregion.carries_right h₁)) hchildren₁).mono ?_
  rintro _ v₂ ⟨h₂, back', hback', hchildren₂⟩
  refine ⟨?_, front' ++ back', ⟨front', back', rfl, hQ _ _ _ hregion₁.below hfront (hregion₁.carries_left h₂), hback'⟩, ?_⟩
  · exact (h₁.widen (subset_append_left _ _)).trans hregion.sound (h₂.widen (subset_append_right _ _))
  · rw [hchildren₂, append_assoc, append_assoc]

theorem left (hx : Exchanges root locale p A P x Q) (hR : Framed root p B R) (hQ : Framed root p A Q) :
    Exchanges root locale p (A ++ B) (P.beside R) x (Q.beside R) := by
  have h := hx.seq (.refl fun _ _ h => h) hR hQ
  rwa [bind_pure] at h

theorem right (hy : Exchanges root locale p B P y Q) (hR : Framed root p A R) (hP : Framed root p B P) :
    Exchanges root locale p (A ++ B) (R.beside P) y (R.beside Q) := by
  have h := Exchanges.seq (.refl fun _ _ h => h) hy hP hR
  rwa [pure_bind] at h

theorem inner {inside inside' : Nat → Scene} {content : Content}
    (h : ∀ id, Exchanges root locale id S (inside id) x (inside' id)) :
    Exchanges root locale p (slot :: S) (node p slot content inside) x (node p slot content inside') := by
  rintro v pre _ post hl hregion ⟨id, kids, rfl, hslot, hcell, hinside⟩ hchildren
  have hparent := Tree.parent?_of_cell hcell
  have hinner := hregion.inner hslot hparent
  have hne : p ≠ id := fun heq => hregion.free (heq ▸ holds_cons.mpr (.inl hslot))
  have hkids : v.tree.children id = [] ++ (kids ++ []) := by
    rw [Tree.children_of_cell hcell, append_nil, nil_append]
  refine (h id v [] kids [] hl hinner hinside hkids).mono fun _ v₁ ⟨h₁, kids', hinside', hkids'⟩ => ?_
  rw [nil_append, append_nil] at hkids'
  refine ⟨h₁.weaken (fun _ hs => mem_cons_of_mem slot hs) fun _ _ heq => .inr (heq ▸ holds_cons.mpr (.inl hslot)),
    [id], ⟨id, kids', rfl, (h₁.slots slot (nodup_cons.mp hregion.nodup).1).trans hslot, ?_, hinside'⟩, ?_⟩
  · have hcontent := h₁.content id hinner.below hinner.free
    rw [Tree.content?_of_cell hcell] at hcontent
    rw [Tree.cells_of_content? hcontent, h₁.parent id hinner.below hinner.free, hparent, hkids']
  · rw [h₁.children p hregion.below (fun h => hregion.free (holds_cons.mpr (.inr h))) hne, hchildren]

end Exchanges

/-! ### What is shown, piece by piece -/

section Pieces

variable {root p k slot : Nat} {own nested values : Option (List String)}

def Plan.scene (root : Nat) (own nested : Option (List String)) (p : Nat) (plan : Plan) : Scene :=
  fun v tops => plan.Shows root v own nested p tops

def IcuPlan.scene (root : Nat) (values : Option (List String)) (p : Nat) (icu : IcuPlan) : Scene :=
  fun v tops => icu.Shows root v values p tops

def CasePlans.scene (root : Nat) (own nested : Option (List String)) (p k : Nat) (cases : CasePlans) : Scene :=
  fun v tops => cases.Shows root v own nested p k tops

def IcuPlan.anchored (root : Nat) (values : Option (List String)) (p slot : Nat) (label : String) (icu : IcuPlan) : Scene :=
  (icu.scene root values p).beside (node p slot (.comment label) fun _ => bare)

def choosing (current : Nat) (slot : LiveSlot) : Scene := gone fun v => v.slots[current]? = some slot

def IcuPlan.vacant (root : Nat) : IcuPlan → Scene
  | .mk _ _ current cases => (choosing current .empty).beside (gone (cases.Idle root))

theorem scene_text (slot : Nat) (value : String) (rest : Plan) : (Plan.text slot value rest).scene root own nested p =
    (node p slot (textContent own slot value) fun _ => bare).beside (rest.scene root own nested p) := by
  funext v tops
  refine propext ⟨?_, ?_⟩
  · rintro ⟨id, tops', rfl, hslot, hcell, hrest⟩
    exact ⟨[id], tops', rfl, ⟨id, [], rfl, hslot, hcell, rfl⟩, hrest⟩
  · rintro ⟨_, tops', rfl, ⟨id, _, rfl, hslot, hcell, rfl⟩, hrest⟩
    exact ⟨id, tops', rfl, hslot, hcell, hrest⟩

theorem scene_element (slot : Nat) (tag : String) (fixed : List (String × String)) (bound : List BoundAttr)
    (content rest : Plan) : (Plan.element slot tag fixed bound content rest).scene root own nested p =
      (node p slot (elementContent own slot tag fixed bound) fun id => content.scene root own nested id).beside
        (rest.scene root own nested p) := by
  funext v tops
  refine propext ⟨?_, ?_⟩
  · rintro ⟨id, kids, tops', rfl, hslot, hcell, hcontent, hrest⟩
    exact ⟨[id], tops', rfl, ⟨id, kids, rfl, hslot, hcell, hcontent⟩, hrest⟩
  · rintro ⟨_, tops', rfl, ⟨id, kids, rfl, hslot, hcell, hcontent⟩, hrest⟩
    exact ⟨id, kids, tops', rfl, hslot, hcell, hcontent, hrest⟩

theorem scene_icu (slot : Nat) (label : String) (icu : IcuPlan) (rest : Plan) :
    (Plan.icu slot label icu rest).scene root own nested p =
      (icu.anchored root nested p slot label).beside (rest.scene root own nested p) := by
  funext v tops
  refine propext ⟨?_, ?_⟩
  · rintro ⟨front, id, tops', rfl, hslot, hcell, hicu, hrest⟩
    exact ⟨front ++ [id], tops', by simp, ⟨front, [id], rfl, hicu, id, [], rfl, hslot, hcell, rfl⟩, hrest⟩
  · rintro ⟨_, tops', rfl, ⟨front, _, rfl, hicu, id, _, rfl, hslot, hcell, rfl⟩, hrest⟩
    exact ⟨front, id, tops', by simp, hslot, hcell, hicu, hrest⟩

theorem scene_first (label : String) (content : Plan) (rest : CasePlans) :
    (CasePlans.cons label content rest).scene root own nested p 0 =
      (content.scene root own nested p).beside (gone (rest.Idle root)) := by
  funext v tops
  refine propext ⟨fun h => ⟨tops, [], (append_nil _).symm, h.1, rfl, h.2⟩, ?_⟩
  rintro ⟨front, _, rfl, hcontent, rfl, hidle⟩
  rw [append_nil]
  exact ⟨hcontent, hidle⟩

theorem scene_later (label : String) (content : Plan) (rest : CasePlans) :
    (CasePlans.cons label content rest).scene root own nested p (k + 1) =
      (gone (content.Idle root)).beside (rest.scene root own nested p k) := by
  funext v tops
  refine propext ⟨fun h => ⟨[], tops, rfl, ⟨rfl, h.1⟩, h.2⟩, ?_⟩
  rintro ⟨_, back, rfl, ⟨rfl, hidle⟩, hrest⟩
  exact ⟨hidle, hrest⟩

theorem Plan.framed (plan : Plan) : Framed root p plan.slots (plan.scene root own nested p) :=
  fun _ _ _ => Plan.Shows.frame

variable (icu : IcuPlan)

theorem IcuPlan.framed : Framed root p icu.slots (icu.scene root values p) :=
  fun _ _ _ => IcuPlan.Shows.frame

theorem IcuPlan.framed_anchored (slot : Nat) (label : String) :
    Framed root p (slot :: icu.slots) (icu.anchored root values p slot label) :=
  (icu.framed.beside (.node (fun id => framed_bare root id []) _)).mono (perm_append_singleton slot icu.slots).subset

theorem CasePlans.framed (cases : CasePlans) : Framed root p cases.slots (cases.scene root own nested p k) :=
  fun _ _ _ => CasePlans.Shows.frame

theorem framed_choosing (current : Nat) (slot : LiveSlot) : Framed root p [current] (choosing current slot) :=
  framed_gone fun h hc => (hc.slots current mem_cons_self).trans h

theorem Plan.framed_idle (plan : Plan) : Framed root p plan.slots (gone (plan.Idle root)) := framed_gone Plan.Idle.frame

theorem CasePlans.framed_idle (cases : CasePlans) : Framed root p cases.slots (gone (cases.Idle root)) :=
  framed_gone CasePlans.Idle.frame

theorem IcuPlan.framed_vacant : Framed root p icu.slots (icu.vacant root) := by
  cases icu with
  | mk _ _ current cases => exact (framed_choosing current .empty).beside cases.framed_idle

end Pieces

/-! ### Removing -/

section Remove

variable {id p slot : Nat}

variable {root : Nat} {t : TemplateView} {v v' : LiveView}

theorem Markup.Tree.cells_detach {t : Tree} {c k : Nat} (h : t.parent? c = some p) (hc : k ≠ c) (hp : k ≠ p) :
    (t.detach c).cells[k]? = t.cells[k]? := by
  unfold Tree.detach
  rw [h]
  dsimp only
  rw [Tree.cells_setParent, if_neg hc.symm, Tree.cells_setChildren, if_neg hp.symm]

/-- The view after a node has been taken out of the tree and out of its slot. -/
def LiveView.takeOut (v : LiveView) (slot id : Nat) : LiveView :=
  (v.withTree (v.tree.detach id)).set slot .empty

theorem yields_takeOut (hslot : v.slots[slot]? = some (.node id)) {Q : Unit → LiveView → Prop}
    (h : Q () (v.takeOut slot id)) :
    Yields (vacate slot) v Q := by
  refine Yields.andThen yields_node? ?_
  rw [node?_of_slot hslot]
  have hlt : slot < v.slots.size := (Array.getElem?_eq_some_iff.mp hslot).1
  exact Yields.andThen yields_change (yields_setSlot hlt h)

theorem slots_takeOut (hlt : slot < v.slots.size) (k : Nat) :
    (v.takeOut slot id).slots[k]? = if k = slot then some .empty else v.slots[k]? :=
  slots_set (v := v.withTree (v.tree.detach id)) hlt _ k

theorem keeps_takeOut (hs : v.Sound root)
    (hslot : v.slots[slot]? = some (.node id)) (hS : slot ∈ S) (hparent : v.tree.parent? id = some p)
    (hclosed : ∀ c q, v.tree.parent? c = some q → v.Holds S q → v.Below root q → v.Holds S c) :
    v.Keeps root S (· = p) (v.takeOut slot id) := by
  have hlt : slot < v.slots.size := (Array.getElem?_eq_some_iff.mp hslot).1
  have hdetach : v.Keeps root S (· = p) (v.withTree (v.tree.detach id)) :=
    keeps_detach hs ⟨slot, hS, hslot⟩ hparent (.inl rfl) hclosed
  exact hdetach.trans hs (keeps_set hdetach.sound hlt hS (by simp) _)

theorem children_takeOut (hs : v.Sound root) {pre post : List Nat} (hchildren : v.tree.children p = pre ++ id :: post) :
    (v.takeOut slot id).tree.children p = pre ++ post := by
  show (v.tree.detach id).children p = _
  rw [hs.linked.children_detach, hchildren]
  have hnodup := hs.linked.nodup p
  rw [hchildren] at hnodup
  have hnotin : id ∉ pre := fun hmem =>
    (nodup_append.mp hnodup).2.2 id hmem id mem_cons_self rfl
  rw [erase_append_right _ hnotin, erase_cons_head]

theorem not_below_takeOut (hs : v.Sound root) (hslot : v.slots[slot]? = some (.node id)) :
    ¬(v.takeOut slot id).Below root id := by
  intro hbelow
  cases hbelow with
  | root => exact hs.slot_ne slot _ hslot rfl
  | child hparent _ =>
    have hnone : (v.tree.detach id).parent? id = none := by rw [Tree.parent?_detach, if_pos rfl]
    cases hnone.symm.trans hparent

theorem below_of_takeOut {k : Nat} (hk : (v.takeOut slot id).Below root k) : v.Below root k := by
  induction hk with
  | root => exact .root
  | @child c p hcp _ ih =>
    have hparent : (v.tree.detach id).parent? c = some p := hcp
    rw [Tree.parent?_detach] at hparent
    split at hparent
    · cases hparent
    · exact ih.child hparent

theorem carries_takeOut (hs : v.Sound root)
    (hslot : v.slots[slot]? = some (.node id)) (hS : slot ∉ S) (hparent : v.tree.parent? id = some p)
    (hp : ¬v.Holds S p) : Carries root S v (v.takeOut slot id) where
  locale := rfl
  slots s hmem := by
    rw [slots_takeOut (Array.getElem?_eq_some_iff.mp hslot).1, if_neg]
    rintro rfl
    exact hS hmem
  cells s hmem k hk _ := by
    refine Tree.cells_detach hparent ?_ ?_
    · rintro rfl
      exact hS (hs.slot_inj s slot k hk hslot ▸ hmem)
    · rintro rfl
      exact hp ⟨s, hmem, hk⟩
  dead _ _ _ _ hbelow := below_of_takeOut hbelow

theorem loose_of_empty (h : v.slots[slot]? = some .empty) : v.Loose root slot := by
  intro id hid
  rw [h] at hid
  cases hid

theorem LiveView.Closed.holds {tops : List Nat} (h : v.Closed root S tops) (hs : v.Sound root) (c q : Nat)
    (hc : v.tree.parent? c = some q) (hq : v.Holds S q) (hbelow : v.Below root q) : v.Holds S c :=
  h.children q hq hbelow c ((hs.linked.child q c).mpr hc)

theorem exchanges_vacate {I : LiveView → Prop} (locale : Locale) (p slot : Nat) (content : Content)
    (inside : Nat → Scene) (hclosed : ∀ id v kids, inside id v kids → v.Closed root S kids)
    (hframed : ∀ id, Framed root id S (inside id))
    (hidle : ∀ id v kids, v.Sound root → ¬v.Below root id → inside id v kids → I v) :
    Exchanges root locale p (slot :: S) (node p slot content inside) (vacate slot)
      (gone fun v => v.Loose root slot ∧ I v) := by
  rintro v pre _ post - hregion ⟨id, kids, rfl, hslot, hcell, hinside⟩ hchildren
  have hs := hregion.sound
  have hparent := Tree.parent?_of_cell hcell
  have hkeeps := keeps_takeOut hs hslot mem_cons_self hparent (((hclosed id v kids hinside).cell hslot hcell).holds hs)
  have hcarries := carries_takeOut hs hslot (nodup_cons.mp hregion.nodup).1 hparent fun h =>
    hregion.free (holds_cons.mpr (.inr h))
  have hempty : (v.takeOut slot id).slots[slot]? = some .empty := by
    rw [slots_takeOut (hregion.lt slot mem_cons_self), if_pos rfl]
  have hI : I (v.takeOut slot id) := hidle id _ kids hkeeps.sound (not_below_takeOut hs hslot)
    (hframed id _ _ _ (below_of_cell hregion.below hcell) hinside hcarries)
  exact yields_takeOut hslot ⟨hkeeps, [], ⟨rfl, loose_of_empty hempty, hI⟩, children_takeOut hs hchildren⟩

theorem exchanges_vacate_leaf {locale : Locale} (slot : Nat) (content : Content) :
    Exchanges root locale p [slot] (node p slot content fun _ => bare) (vacate slot) (gone fun v => v.Loose root slot) := by
  refine (exchanges_vacate (I := fun _ => True) locale p slot content (fun _ => bare) (fun id v kids hkids => ?_)
    (fun id => framed_bare root id []) fun _ _ _ _ _ _ => trivial).imp (fun _ _ _ h => h) fun _ _ _ h => ⟨h.1, h.2.1⟩
  rw [show kids = [] from hkids]
  exact .nil

theorem exchanges_choose {locale : Locale} {current : Nat} {s s' : LiveSlot} (hs : ∀ id, s' ≠ .node id) :
    Exchanges root locale p [current] (choosing current s) (setSlot current s') (choosing current s') := by
  rintro v pre _ post - hregion ⟨rfl, -⟩ hchildren
  have hlt := hregion.lt current mem_cons_self
  refine yields_setSlot hlt ⟨keeps_set hregion.sound hlt mem_cons_self hs _, [], ⟨rfl, ?_⟩, hchildren⟩
  exact (slots_set hlt s' current).trans (if_pos rfl)

variable {locale : Locale}

mutual

theorem exchanges_remove : ∀ (plan : Plan) (parent : Int) (own nested : Option (List String)) (depth p : Nat),
    plan.Registered t parent → plan.slots.length ≤ depth →
      Exchanges root locale p plan.slots (plan.scene root own nested p) (plan.remove.forM (removeOp t depth))
        (gone (plan.Idle root))
  | .nil, _, _, _, _, _, _, _ => .refl fun _ _ h => ⟨h, trivial⟩
  | .text slot value rest, parent, own, nested, depth, p, hreg, hdepth => by
    have hrest := exchanges_remove rest parent own nested depth p hreg.2 (Nat.le_of_lt hdepth)
    rw [scene_text]
    have hall := (exchanges_vacate_leaf slot (textContent own slot value)).seq hrest rest.framed
      (framed_gone fun h hc => h.frame hc mem_cons_self)
    rw [beside_gone] at hall
    exact hall
  | .element slot tag fixed bound content rest, parent, own, nested, depth, p, hreg, hdepth => by
    rw [Plan.slots, length_cons, length_append] at hdepth
    have hrest := exchanges_remove rest parent own nested depth p hreg.2.2 (by omega)
    -- The content is below the element, and goes away with it.
    have helement := exchanges_vacate (I := content.Idle root) locale p slot
      (elementContent own slot tag fixed bound) (fun id => content.scene root own nested id) (fun _ _ _ h => h.closed)
      (fun _ => content.framed) (fun _ _ _ hs hid h => h.idle hs hid)
    rw [scene_element]
    have hall := helement.seq hrest rest.framed
      (framed_gone fun h hc => ⟨h.1.frame hc mem_cons_self, h.2.frame (hc.mono fun _ => mem_cons_of_mem slot)⟩)
    rw [beside_gone] at hall
    exact hall.imp (fun _ _ _ h => h) fun _ _ _ ⟨hnil, ⟨hloose, hcontent⟩, hrest⟩ => ⟨hnil, hloose, hcontent, hrest⟩
  | .icu slot label icu rest, parent, own, nested, depth, p, hreg, hdepth => by
    rw [Plan.slots, length_cons, length_append] at hdepth
    have hrest := exchanges_remove rest parent own nested depth p hreg.2.2 (by omega)
    have hcase := exchanges_removeCase icu parent slot nested depth p hreg.2.1 (by omega)
    have hicu : Exchanges root locale p (slot :: icu.slots) (icu.anchored root nested p slot label)
        (removeOp t depth (.nestedIcu slot)) (gone fun v => icu.Idle root v ∧ v.Loose root slot) := by
      unfold removeOp
      dsimp only
      rw [hreg.2.1.icu?_eq]
      have hboth := (hcase.seq (exchanges_vacate_leaf slot (.comment label)) (.node (fun id => framed_bare root id []) _)
        icu.framed_vacant).perm (perm_append_singleton slot icu.slots)
      refine hboth.imp (fun _ _ _ h => h) ?_
      obtain ⟨kind, main, current, cases⟩ := icu
      rintro v _ - ⟨_, _, rfl, ⟨_, _, rfl, ⟨rfl, hempty⟩, rfl, hcases⟩, rfl, hloose⟩
      exact ⟨rfl, ⟨.inl hempty, hcases⟩, hloose⟩
    rw [scene_icu]
    have hall := hicu.seq hrest rest.framed
      (framed_gone fun h hc => ⟨h.1.frame (hc.mono fun _ => mem_cons_of_mem slot), h.2.frame hc mem_cons_self⟩)
    rw [beside_gone] at hall
    exact hall.imp (fun _ _ _ h => h) fun _ _ _ ⟨hnil, ⟨hicu, hloose⟩, hrest⟩ => ⟨hnil, hloose, hicu, hrest⟩

theorem exchanges_removeCase : ∀ (icu : IcuPlan) (parent : Int) (anchor : Nat) (values : Option (List String))
    (depth p : Nat), icu.Registered t parent anchor → icu.slots.length ≤ depth →
      Exchanges root locale p icu.slots (icu.scene root values p) (removeCase t depth (icu.compiled parent anchor))
        (icu.vacant root)
  | .mk kind main current cases, parent, anchor, values, depth, p, hreg, hdepth => by
    rw [IcuPlan.slots, length_cons] at hdepth
    obtain ⟨depth, rfl⟩ : ∃ d, depth = d + 1 := ⟨depth - 1, by omega⟩
    intro v pre tops post hl hregion hshows hchildren
    rw [removeCase_succ]
    rcases IcuPlan.shows_iff.mp hshows with ⟨-, hempty, rfl, hidle⟩ | ⟨k, fresh, hchoice, hchosen, -, hcases⟩
    · refine Yields.andThen (yields_currentCase rfl hempty) ?_
      exact yields_pure ⟨.refl hregion.sound _ _, [], ⟨[], [], rfl, ⟨rfl, hempty⟩, rfl, hidle⟩, hchildren⟩
    · refine Yields.andThen (yields_currentCase rfl hchosen) ?_
      obtain ⟨label, content, -, hcompiled⟩ := CasePlans.exists_content parent (chosenFor_lt hchoice)
      refine Yields.andThen (yields_caseAt hcompiled) ?_
      have hremove := (exchanges_removeAt cases parent values values depth k _ p hreg.2.2 (by omega)
        hcompiled).right (framed_choosing current (.chosen k fresh)) cases.framed
      have hall := hremove.trans ((exchanges_choose (by simp)).left cases.framed_idle (framed_choosing current .empty))
      exact hall v pre tops post hl hregion ⟨[], tops, rfl, ⟨rfl, hchosen⟩, hcases⟩ hchildren

theorem exchanges_removeAt : ∀ (cases : CasePlans) (parent : Int) (own nested : Option (List String))
    (depth k : Nat) (c : CompiledCase) (p : Nat), cases.Registered t parent → cases.slots.length ≤ depth →
      (cases.compiled parent)[k]? = some c →
        Exchanges root locale p cases.slots (cases.scene root own nested p k) (c.remove.forM (removeOp t depth))
          (gone (cases.Idle root))
  | .nil, _, _, _, _, _, _, _, _, _, hc => by cases hc
  | .cons label content rest, parent, own, nested, depth, 0, c, p, hreg, hdepth, hc => by
    rw [CasePlans.slots, length_append] at hdepth
    cases hc
    have hcontent := exchanges_remove content parent own nested depth p hreg.1 (by omega)
    rw [scene_first]
    have hall := hcontent.left rest.framed_idle content.framed_idle
    rw [beside_gone] at hall
    exact hall
  | .cons label content rest, parent, own, nested, depth, k + 1, c, p, hreg, hdepth, hc => by
    rw [CasePlans.slots, length_append] at hdepth
    have hrest := exchanges_removeAt rest parent own nested depth k c p hreg.2 (by omega) hc
    rw [scene_later]
    have hall := hrest.right content.framed_idle rest.framed
    rw [beside_gone] at hall
    exact hall

end

end Remove

end MessageCompiler
