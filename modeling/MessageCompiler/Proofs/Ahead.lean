/-
Updating before and after elements are attached.

What an update creates and removes are nodes that are newer than any element, and they stand in front of the
anchors of expressions. An element that is attached is put in front of an older node, and takes older nodes.
As long as none of these is an anchor, it does not matter which comes first.
-/
import MessageCompiler.Proofs.Tandem

namespace MessageCompiler

open Markup (Content Move Tree)
open Live LiveView

/-- Nodes that slots get, and moves of nodes. -/
structure Patch where
  held : List (Nat × Nat)
  moves : List Move

namespace LiveView

def holding (held : List (Nat × Nat)) (v : LiveView) : LiveView :=
  held.foldl (fun v h => v.set h.1 (.node h.2)) v

def patched (p : Patch) (v : LiveView) : LiveView :=
  (v.holding p.held).withTree (v.tree.moveAll p.moves)

variable {i : Nat} {held : List (Nat × Nat)}

theorem set_comm (v : LiveView) {j : Nat} (h : i ≠ j) (s s' : LiveSlot) :
    (v.set i s).set j s' = (v.set j s').set i s := by
  unfold LiveView.set
  rw [Array.setIfInBounds_comm _ _ h]

theorem holding_set (h : ∀ d ∈ held, d.1 ≠ i) (v : LiveView) (s : LiveSlot) :
    (v.set i s).holding held = (v.holding held).set i s := by
  induction held generalizing v with
  | nil => rfl
  | cons d rest ih =>
    show ((v.set i s).set d.1 (.node d.2)).holding rest = _
    rw [set_comm v (Ne.symm (h d List.mem_cons_self)), ih fun d' hd' => h d' (List.mem_cons_of_mem d hd')]
    rfl

theorem holding_withTree (held : List (Nat × Nat)) (v : LiveView) (tree : Tree) :
    (v.withTree tree).holding held = (v.holding held).withTree tree := by
  induction held generalizing v with
  | nil => rfl
  | cons d rest ih => exact ih (v.set d.1 (.node d.2))

theorem slots_holding (h : ∀ d ∈ held, d.1 ≠ i) (v : LiveView) : (v.holding held).slots[i]? = v.slots[i]? := by
  induction held generalizing v with
  | nil => rfl
  | cons d rest ih =>
    have hd : (v.set d.1 (.node d.2)).slots[i]? = v.slots[i]? :=
      Array.getElem?_setIfInBounds_ne (h d List.mem_cons_self)
    exact (ih (fun d' hd' => h d' (List.mem_cons_of_mem d hd')) _).trans hd

theorem size_holding (held : List (Nat × Nat)) (v : LiveView) : (v.holding held).slots.size = v.slots.size := by
  induction held generalizing v with
  | nil => rfl
  | cons d rest ih => exact (ih _).trans (size_set v d.1 _)

theorem locale_holding (held : List (Nat × Nat)) (v : LiveView) : (v.holding held).locale = v.locale := by
  induction held generalizing v with
  | nil => rfl
  | cons d rest ih => exact ih (v.set d.1 (.node d.2))

theorem patched_withTree (p : Patch) (v : LiveView) (tree : Tree) :
    (v.withTree tree).patched p = (v.patched p).withTree (tree.moveAll p.moves) := by
  unfold patched
  rw [holding_withTree]
  rfl

end LiveView

/-! ### The stage of the updates -/

/-- The view differs from `base` by what updates have done. -/
structure LiveView.OnStage (v : LiveView) (S : Stage) (base : LiveView) : Prop where
  linked : v.tree.Linked
  limit_le : S.limit ≤ v.tree.size
  host_eq : v.host = base.host
  size_eq : v.slots.size = base.slots.size
  inner_lt : ∀ s ∈ S.inner, s < v.slots.size
  inner : ∀ s ∈ S.inner, ∀ n, v.slots[s]? = some (.node n) → S.limit ≤ n ∧ n < v.tree.size
  anchors : ∀ s ∈ S.anchors, s ∉ S.inner ∧ ∀ n, base.slots[s]? = some (.node n) → n ∈ S.calm ∧ n < S.limit
  outside : ∀ s, s ∉ S.inner → v.slots[s]? = base.slots[s]?

/-- The patch leaves the slots and nodes of the stage alone. -/
structure Patch.Fits (S : Stage) (p : Patch) : Prop where
  held : ∀ d ∈ p.held, d.1 ∉ S.anchors ∧ d.1 ∉ S.texts ∧ d.1 ∉ S.inner
  below : ∀ m ∈ p.moves, m.Below S.limit
  clear : ∀ m ∈ p.moves, m.Clear S.calm

section Stage

variable {S : Stage} {p : Patch} {base v v' : LiveView}

theorem LiveView.OnStage.self (h : v.OnStage S base) : v.OnStage S v := { h with
  host_eq := rfl
  size_eq := rfl
  anchors s hs := by
    obtain ⟨hnot, hcalm⟩ := h.anchors s hs
    exact ⟨hnot, h.outside s hnot ▸ hcalm⟩
  outside _ _ := rfl }

theorem LiveView.OnStage.step (h : v.OnStage S base) (hlinked : v'.tree.Linked) (hle : v.tree.size ≤ v'.tree.size)
    (hhost : v'.host = v.host) (hsize : v'.slots.size = v.slots.size)
    (hinner : ∀ s ∈ S.inner, ∀ n, v'.slots[s]? = some (.node n) →
      v.slots[s]? = some (.node n) ∨ S.limit ≤ n ∧ n < v'.tree.size)
    (houtside : ∀ s, s ∉ S.inner → v'.slots[s]? = v.slots[s]?) : v'.OnStage S base where
  linked := hlinked
  limit_le := Nat.le_trans h.limit_le hle
  host_eq := hhost.trans h.host_eq
  size_eq := hsize.trans h.size_eq
  inner_lt s hs := hsize.symm ▸ h.inner_lt s hs
  inner s hs n hn := by
    rcases hinner s hs n hn with hold | hnew
    · exact ⟨(h.inner s hs n hold).1, Nat.lt_of_lt_of_le (h.inner s hs n hold).2 hle⟩
    · exact hnew
  anchors := h.anchors
  outside s hs := (houtside s hs).trans (h.outside s hs)

theorem LiveView.OnStage.withTree (h : v.OnStage S base) {tree : Tree} (hlinked : tree.Linked)
    (hsize : tree.size = v.tree.size) : (v.withTree tree).OnStage S base :=
  h.step hlinked (Nat.le_of_eq hsize.symm) rfl rfl (fun _ _ _ hn => .inl hn) fun _ _ => rfl

variable {s a : Nat}

theorem LiveView.OnStage.set (h : v.OnStage S base) (hs : s ∈ S.inner) {x : LiveSlot} (hx : ∀ n, x ≠ .node n) :
    (v.set s x).OnStage S base := by
  have hslots := slots_set (h.inner_lt s hs) x
  refine h.step h.linked (Nat.le_refl _) rfl (size_set v s x) (fun k _ n hn => .inl ?_) fun k hk => ?_
  · rw [hslots] at hn
    split at hn
    · exact absurd (Option.some.inj hn) (hx n)
    · exact hn
  · rw [hslots, if_neg]
    rintro rfl
    exact hk hs

theorem LiveView.OnStage.addNew (h : v.OnStage S base) (hs : s ∈ S.inner) (content : Content) :
    (v.addNew s content).OnStage S base := by
  have hslots := slots_addNew (h.inner_lt s hs) content
  have hsize : (v.addNew s content).tree.size = v.tree.size + 1 := v.tree.size_create content
  refine h.step (h.linked.create content) (hsize ▸ Nat.le_succ _) rfl (size_set _ s _) (fun k _ n hn => ?_)
    fun k hk => ?_
  · rw [hslots] at hn
    split at hn
    · cases hn
      exact .inr ⟨h.limit_le, hsize ▸ Nat.lt_succ_self _⟩
    · exact .inl hn
  · rw [hslots, if_neg]
    rintro rfl
    exact hk hs

theorem LiveView.OnStage.front (h : v.OnStage S base) (hs : s ∈ S.anchors ∨ s ∈ S.inner) (ha : v.node? s = some a) :
    S.Front a ∧ a < v.tree.size := by
  have hslot := slot_of_node? ha
  rcases hs with hs | hs
  · obtain ⟨hnot, hcalm⟩ := h.anchors s hs
    rw [h.outside s hnot] at hslot
    obtain ⟨hmem, hlt⟩ := hcalm a hslot
    exact ⟨.inr hmem, Nat.lt_of_lt_of_le hlt h.limit_le⟩
  · obtain ⟨hle, hlt⟩ := h.inner s hs a hslot
    exact ⟨.inl hle, hlt⟩

/-! ### The image of a view -/

section

variable (hp : p.Fits S) (hs : s ∈ S.anchors ∨ s ∈ S.texts ∨ s ∈ S.inner) (v : LiveView)
include hp hs

theorem Patch.Fits.slots_eq : (v.patched p).slots[s]? = v.slots[s]? := by
  refine slots_holding (fun d hd heq => ?_) v
  obtain ⟨hanchors, htexts, hinner⟩ := hp.held d hd
  rcases hs with hs | hs | hs
  · exact hanchors (heq ▸ hs)
  · exact htexts (heq ▸ hs)
  · exact hinner (heq ▸ hs)

theorem Patch.Fits.node?_eq : (v.patched p).node? s = v.node? s := by
  rw [node?_natCast, node?_natCast, hp.slots_eq hs]

end

theorem Patch.Fits.set (hp : p.Fits S) (hs : s ∈ S.inner) (v : LiveView) (x : LiveSlot) :
    (v.set s x).patched p = (v.patched p).set s x := by
  have hheld : ∀ d ∈ p.held, d.1 ≠ s := fun d hd heq => (hp.held d hd).2.2 (heq ▸ hs)
  unfold patched
  rw [holding_set hheld]
  rfl

theorem Patch.Fits.addNew (hp : p.Fits S) (h : v.OnStage S base) (hs : s ∈ S.inner) (content : Content) :
    (v.addNew s content).patched p = (v.patched p).addNew s content := by
  have hsize : (v.patched p).tree.size = v.tree.size := v.tree.size_moveAll p.moves
  unfold LiveView.addNew
  rw [hp.set hs, patched_withTree, h.linked.moveAll_create h.limit_le hp.below, hsize]
  rfl

theorem Patch.Fits.modifyContent (hp : p.Fits S) (h : v.OnStage S base) (id : Nat) (g : Content → Content) :
    (Live.modifyContent id g v.tree).moveAll p.moves = Live.modifyContent id g (v.tree.moveAll p.moves) := by
  unfold Live.modifyContent
  rw [Tree.content?_moveAll]
  cases v.tree.content? id with
  | none => rfl
  | some content => exact h.linked.moveAll_setContent h.limit_le hp.below id _

theorem LiveView.OnStage.modifyContent (h : v.OnStage S base) (id : Nat) (g : Content → Content) :
    (v.withTree (Live.modifyContent id g v.tree)).OnStage S base :=
  h.withTree (h.linked.modifyContent id g) (Tree.size_modifyContent id g v.tree)

theorem Patch.Fits.parent?_eq (hp : p.Fits S) (h : v.OnStage S base) (ha : S.Front a) :
    (v.patched p).tree.parent? a = v.tree.parent? a :=
  h.linked.parent?_moveAll (fun m hm => (hp.below m hm).le h.limit_le) fun m hm =>
    (Tree.ne_node_of_clear hp.below hp.clear ha m hm).1

/-! ### Updates -/

theorem Patch.Fits.follows (hp : p.Fits S) (base : LiveView) :
    Follows S id fun v w => v.OnStage S base ∧ w = v.patched p where
  linked h := h.1.linked
  locale_eq := by
    rintro v _ ⟨-, rfl⟩
    exact locale_holding p.held v
  node?_eq := by
    rintro v _ ⟨-, rfl⟩ s hs
    rw [hp.node?_eq hs, Option.map_id]
    rfl
  slots_eq := by
    rintro v _ ⟨-, rfl⟩ s hs
    rw [hp.slots_eq (.inr (.inr hs)), LiveSlot.rename_id, Option.map_id]
    rfl
  inner_lt := by
    rintro v _ ⟨h, rfl⟩ s hs
    exact ⟨h.inner_lt s hs, (size_holding p.held v).symm ▸ h.inner_lt s hs⟩
  owns := by
    rintro v _ ⟨h, rfl⟩ s n hs hn
    exact h.inner s hs n (slot_of_node? hn)
  front := by
    rintro v _ ⟨h, rfl⟩ s a hs ha
    exact h.front hs ha
  parent?_eq := by
    rintro v _ ⟨h, rfl⟩ a ha -
    rw [id, hp.parent?_eq h ha, Option.map_id]
    rfl
  set := by
    rintro v _ ⟨h, rfl⟩ s x hs hx
    exact ⟨h.set hs hx, (hp.set hs v x).symm⟩
  addNew := by
    rintro v _ ⟨h, rfl⟩ s hs content
    exact ⟨h.addNew hs content, (hp.addNew h hs content).symm⟩
  write := by
    rintro v _ ⟨h, rfl⟩ s n - - g
    refine ⟨h.modifyContent n g, ?_⟩
    rw [patched_withTree, hp.modifyContent h]
    rfl
  insertBefore := by
    rintro v _ ⟨h, rfl⟩ q c a ⟨hc, hlt⟩ hfree ha hq
    have hqlt := h.linked.parent_lt hq
    have hne : a ≠ c := by
      rintro rfl
      cases hfree.symm.trans hq
    refine ⟨h.withTree (h.linked.insertBefore hqlt hlt _) (Tree.size_insertBefore _ _ _ _), ?_⟩
    rw [patched_withTree, h.linked.moveAll_insertBefore h.limit_le hp.below hp.clear hc hlt ha hne hq]
    rfl
  append := by
    rintro v _ ⟨h, rfl⟩ q c ⟨hq, hqlt⟩ ⟨hc, hlt⟩ -
    have hplaced := h.linked.placed_append hqlt hlt
    refine ⟨h.withTree (h.linked.placed hplaced) hplaced.size_eq, ?_⟩
    rw [patched_withTree, h.linked.moveAll_append h.limit_le hp.below hc hlt hq hqlt]
    rfl
  detach := by
    rintro v _ ⟨h, rfl⟩ c ⟨hc, -⟩
    refine ⟨h.withTree (h.linked.detach c) (Tree.size_detach _ _), ?_⟩
    rw [patched_withTree, h.linked.moveAll_detach h.limit_le hp.below hc]
    rfl

/-- **Updating commutes with a patch** that leaves the slots and nodes of the stage alone. -/
theorem commutes_update {t : TemplateView} (hp : p.Fits S) (h : v.OnStage S base) {b : LiveBlock}
    (hops : ∀ op ∈ b.block.update, op.OnStage t S) (values : List String) :
    Commutes (patched p) (b.update t values) v fun b' w => b'.block = b.block ∧ w.OnStage S base :=
  (tandem_update (hp.follows base) ⟨h, rfl⟩ hops values).mono fun _ _ _ h' => ⟨h'.2.2, h'.1, h'.2.1⟩

end Stage

end MessageCompiler
