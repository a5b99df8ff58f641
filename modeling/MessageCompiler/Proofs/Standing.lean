/-
Running messages.

The nodes of the root items and the elements of placeholders are there before any value is bound. From
then on, only the texts of root items change, and the content of expressions in front of their anchors.
-/
import Mathlib.Data.List.Pairwise
import MessageCompiler.Proofs.PlannedMessage
import MessageCompiler.Proofs.Turn

namespace MessageCompiler

open List
open Markup (Content Tree)
open Live LiveView

def LiveView.Seat (root : Nat) (v : LiveView) (slot id : Nat) : Prop :=
  v.slots[slot]? = some (.node id) ∧ v.Below root id

theorem LiveView.Sound.exists_parent {root : Nat} {v : LiveView} (hs : v.Sound root) {slot id : Nat}
    (h : v.Seat root slot id) : ∃ p, v.tree.parent? id = some p := by
  cases h.2 with
  | root => exact absurd rfl (hs.slot_ne slot root h.1)
  | child hparent _ => exact ⟨_, hparent⟩

/-- The item shows the values: a text its own text, an expression its case in front of the anchor. What
is not below the root in the view before shows nothing. -/
def RootItem.Stands (root : Nat) (base : LiveView) (front : Nat → List Nat)
    (values : Option (List String)) (v : LiveView) : RootItem → Prop
  | .text slot value _ => ∀ id, base.Seat root slot id → front id = [] ∧
      v.tree.content? id = (base.tree.content? id).map (shown values (textUpdate slot value))
  | .icu slot _ plan _ => (base.Loose root slot → plan.Idle root v) ∧
      ∀ id, base.Seat root slot id → ∀ p, base.tree.parent? id = some p → plan.Shows root v values p (front id)

/-- Since `base` only the content of texts has changed below the root, and there are new nodes in front of
the anchors. -/
structure LiveView.Supports (root : Nat) (items : List RootItem) (base : LiveView) (front : Nat → List Nat)
    (v : LiveView) : Prop where
  sound : v.Sound root
  locale : v.locale = base.locale
  host : v.host = base.host
  size : v.slots.size = base.slots.size
  seat : ∀ item ∈ items, ∀ id, base.Seat root item.slot id → v.slots[item.slot]? = some (.node id)
  loose : ∀ item ∈ items, base.Loose root item.slot → v.Loose root item.slot
  below : ∀ id, base.Below root id → v.Below root id
  parent : ∀ id, base.Below root id → v.tree.parent? id = base.tree.parent? id
  children : ∀ id, base.Below root id → v.tree.children id = (base.tree.children id).flatMap fun c => front c ++ [c]
  content : ∀ id, base.Below root id →
    (∀ slot value eager, .text slot value eager ∈ items → ¬base.Seat root slot id) →
      v.tree.content? id = base.tree.content? id
  /-- The slots inside expressions hold new nodes only. -/
  free : ∀ id, base.Below root id → ∀ item ∈ items, ¬v.Holds item.inner id
  front_nil : ∀ id, (∀ item ∈ items, ¬base.Seat root item.slot id) → front id = []

section Frame

variable {root : Nat} {items : List RootItem} {base v v' : LiveView} {front front' : Nat → List Nat}
  {S : List Nat} {hosts : Nat → Prop} {values : Option (List String)}

theorem RootItem.Stands.keeps (hb : base.Sound root) (h : base.Supports root items front v)
    (hk : v.Keeps root S hosts v') {item : RootItem} (hitem : item ∈ items) (hS : ∀ s ∈ item.slots, s ∉ S)
    (hhosts : ∀ id, hosts id → base.Below root id)
    (hfront : ∀ id, base.Seat root item.slot id → front' id = front id)
    (hstands : item.Stands root base front values v) : item.Stands root base front' values v' := by
  cases item with
  | text slot value eager =>
    intro id hid
    obtain ⟨hnil, hcontent⟩ := hstands id hid
    have hfree : ¬v.Holds S id := by
      rintro ⟨s, hs, hslot⟩
      have hown := h.sound.slot_inj s slot id hslot (h.seat _ hitem id hid)
      exact hS slot mem_cons_self (hown ▸ hs)
    exact ⟨(hfront id hid).trans hnil, (hk.content id (h.below id hid.2) hfree).trans hcontent⟩
  | icu slot label plan eager =>
    have hcarries : Carries root plan.slots v v' :=
      hk.carries h.sound (fun s hs => hS s (mem_cons_of_mem slot hs)) fun id hid => h.free id (hhosts id hid) _ hitem
    refine ⟨fun hloose => (hstands.1 hloose).frame hcarries, fun id hid p hp => ?_⟩
    rw [hfront id hid]
    exact (hstands.2 id hid p hp).frame (h.below p (hb.below_parent hid.2 hp)) hcarries

theorem LiveView.Supports.keeps (h : base.Supports root items front v)
    (hk : v.Keeps root S hosts v') (hfree : ∀ id, base.Below root id → ¬v.Holds S id)
    (hseat : ∀ item ∈ items, ∀ id, base.Seat root item.slot id → item.slot ∉ S)
    (hloose : ∀ item ∈ items, item.slot ∈ S → v'.Loose root item.slot)
    (hchildren : ∀ id, base.Below root id →
      v'.tree.children id = (base.tree.children id).flatMap fun c => front' c ++ [c])
    (hnil : ∀ id, (∀ item ∈ items, ¬base.Seat root item.slot id) → front' id = []) :
    base.Supports root items front' v' where
  sound := hk.sound
  locale := hk.locale.trans h.locale
  host := hk.host.trans h.host
  size := hk.size.trans h.size
  seat item hitem id hid := (hk.slots _ (hseat item hitem id hid)).trans (h.seat item hitem id hid)
  loose item hitem hbase := by
    by_cases hmem : item.slot ∈ S
    · exact hloose item hitem hmem
    · intro id hid hbelow
      rw [hk.slots _ hmem] at hid
      exact h.loose item hitem hbase id hid (hk.dead _ id hmem hid hbelow)
  below id hid := hk.below id (h.below id hid) (hfree id hid)
  parent id hid := (hk.parent id (h.below id hid) (hfree id hid)).trans (h.parent id hid)
  children := hchildren
  content id hid htext := (hk.content id (h.below id hid) (hfree id hid)).trans (h.content id hid htext)
  free id hid item hitem := by
    rintro ⟨s, hs, hslot⟩
    exact h.free id hid item hitem ⟨s, hs, hk.held s id (h.sound.below_lt (h.below id hid)) hslot⟩
  front_nil := hnil

theorem LiveView.Supports.setContent (h : base.Supports root items front v) {slot : Nat} {value : String}
    {eager : Bool} (hitem : .text slot value eager ∈ items) {id : Nat} (hid : base.Seat root slot id)
    (content : Content) : base.Supports root items front (v.withTree (v.tree.setContent id content)) := by
  have hk : v.Keeps root [slot] nowhere (v.withTree (v.tree.setContent id content)) :=
    keeps_setContent h.sound (holds_cons.mpr (.inl (h.seat _ hitem id hid))) _ _
  have hparent := v.tree.parent?_setContent id content
  have hbelow : ∀ k, v.Below root k → (v.withTree (v.tree.setContent id content)).Below root k :=
    fun k hk => hk.of_parents fun k _ => hparent k
  exact { h with
    sound := hk.sound
    loose := fun item hitem hbase k hk hbelow =>
      h.loose item hitem hbase k hk (hbelow.of_parents fun k _ => (hparent k).symm)
    below := fun k hk => hbelow k (h.below k hk)
    parent := fun k hk => (hparent k).trans (h.parent k hk)
    children := fun k hk => (v.tree.children_setContent id content k).trans (h.children k hk)
    content := fun k hk htext => by
      rw [← h.content k hk htext]
      show (v.tree.setContent id content).content? k = v.tree.content? k
      unfold Tree.content?
      rw [Tree.cells_setContent, if_neg]
      rintro rfl
      exact htext slot value eager hitem hid
    front_nil := h.front_nil }

end Frame

/-! ### One item -/

/-- The items of a message can run on the view. -/
structure Runnable (t : TemplateView) (depth : Nat) (values : List String) (parent : Int)
    (items : List RootItem) (base : LiveView) : Prop where
  nodup : (items.flatMap RootItem.slots).Nodup
  lt : ∀ item ∈ items, ∀ s ∈ item.slots, s < base.slots.size
  registered : ∀ item ∈ items, item.Registered t parent
  ready : ∀ item ∈ items, Ready t depth base.locale values parent item.slots item.choices

theorem Runnable.disjoint {t : TemplateView} {depth : Nat} {values : List String} {parent : Int}
    {items : List RootItem} {base : LiveView} (h : Runnable t depth values parent items base)
    {item other : RootItem} (hitem : item ∈ items) (hother : other ∈ items) (hne : other ≠ item) :
    ∀ s ∈ other.slots, s ∉ item.slots := by
  have hpairwise := (nodup_flatMap.mp h.nodup).2
  have hsymm : Std.Symm (Function.onFun List.Disjoint RootItem.slots) := ⟨fun _ _ h => disjoint_symm h⟩
  have hdisjoint := hpairwise.forall hother hitem hne
  exact fun s hs hs' => hdisjoint hs hs'

section Step

variable {slot : Nat} {eager : Bool}

variable {root : Nat} {t : TemplateView} {depth updateDepth : Nat} {values : List String} {changes : Mask}
  {parent : Int} {items : List RootItem} {base v v' : LiveView} {front : Nat → List Nat}
  {old : Option (List String)}

def Turns (root : Nat) (items : List RootItem) (base : LiveView) (front : Nat → List Nat)
    (values : List String) (item : RootItem) (v v' : LiveView) : Prop :=
  ∃ front', base.Supports root items front' v' ∧ item.Stands root base front' (some values) v' ∧
    ∀ other ∈ items, other ≠ item → ∀ shown, other.Stands root base front shown v →
      other.Stands root base front' shown v'

theorem exists_seat (h : ¬base.Loose root slot) : ∃ id, base.Seat root slot id := by
  unfold LiveView.Loose at h
  push Not at h
  exact h

theorem steady_textUpdate (slot : Nat) (value : String) : steady (textUpdate slot value) = true := by
  unfold textUpdate
  split <;> rfl

section Item

variable (hb : base.Sound root) (hrun : Runnable t depth values parent items base)
  (h : base.Supports root items front v)

include hb hrun h

theorem turns_of_loose {item : RootItem} (hitem : item ∈ items) (hloose : base.Loose root item.slot)
    (hk : v.Keeps root item.slots nowhere v') (hloose' : v'.Loose root item.slot)
    (hstands : item.Stands root base front (some values) v') :
    Turns root items base front values item v v' := by
  have hfree : ∀ id, base.Below root id → ¬v.Holds item.slots id := by
    intro id hid hheld
    rcases holds_cons.mp hheld with hslot | hinner
    · exact h.loose item hitem hloose id hslot (h.below id hid)
    · exact h.free id hid item hitem hinner
  have hown : ∀ other ∈ items, other.slot ∈ item.slots → other = item := by
    intro other hother hmem
    by_contra hne
    exact hrun.disjoint hitem hother hne other.slot mem_cons_self hmem
  refine ⟨front, h.keeps hk hfree ?_ ?_ ?_ h.front_nil, hstands, fun other hother hne shown hshown => ?_⟩
  · intro other hother id hid hmem
    rw [hown other hother hmem] at hid
    exact hloose id hid.1 hid.2
  · intro other hother hmem
    rw [hown other hother hmem]
    exact hloose'
  · intro id hid
    rw [hk.children id (h.below id hid) (hfree id hid) fun h => h, h.children id hid]
  · exact hshown.keeps hb h hk hother (hrun.disjoint hitem hother hne) (fun _ h => h.elim) fun _ _ => rfl

theorem yields_textItem {value : String} (hitem : .text slot value eager ∈ items) (hrefresh : Refreshes changes old values)
    (hstands : (RootItem.text slot value eager).Stands root base front old v)
    (run : List UpdateOp → Mask → LiveM Unit) :
    Yields ((textUpdate slot value).forM (applyUpdate t depth run values changes)) v fun _ v' =>
      Turns root items base front values (.text slot value eager) v v' := by
  by_cases hloose : base.Loose root slot
  · have hrest : Resting root [slot] [] v ((textUpdate slot value).forM (applyUpdate t depth run values changes)) :=
      resting_forM fun op hop =>
        resting_write (textUpdate_writes hop).1 mem_cons_self (textUpdate_writes hop).2
    have hdormant : v.Dormant root [slot] [] :=
      ⟨forall_mem_singleton.mpr (h.loose _ hitem hloose), fun _ hc => absurd hc not_mem_nil⟩
    refine (hrest.keeps (List.Perm.refl [slot]) h.sound hdormant).mono ?_
    rintro _ v' ⟨hk, hdormant'⟩
    refine turns_of_loose hb hrun h hitem hloose hk (hdormant'.loose slot mem_cons_self) ?_
    intro id hid
    exact absurd hid.2 (hloose id hid.1)
  · obtain ⟨id, hid⟩ := exists_seat hloose
    obtain ⟨hnil, hcontent⟩ := hstands id hid
    obtain ⟨c, hbase⟩ : ∃ c, base.tree.content? id = some c := by
      have hlt := hb.slot_lt slot id hid.1
      exact ⟨_, by unfold Tree.content?; rw [Array.getElem?_eq_getElem hlt]; rfl⟩
    rw [hbase] at hcontent
    have hslot : v.slots[slot]? = some (.node id) := h.seat _ hitem id hid
    refine (yields_writes (I := base.Supports root items front) (fun _ _ h => h.setContent hitem hid _)
      (fun _ hop => textUpdate_writes hop) h.sound hslot (Tree.cells_of_content? hcontent) h).mono ?_
    rintro _ v' ⟨hk, -, hcell, hsupports⟩
    have hcontent' : v'.tree.content? id = some (committed values _ (shown old (textUpdate slot value) c)) :=
      Tree.content?_of_cell hcell
    refine ⟨front, hsupports, ?_, fun other hother hne shown hshown => ?_⟩
    · intro k hk
      cases hid.1.symm.trans hk.1
      refine ⟨hnil, ?_⟩
      rw [hcontent', hbase, shown_refreshed hrefresh (fun op hop => textUpdate_writes hop)
        (steady_textUpdate slot value)]
      rfl
    · exact hshown.keeps hb h hk hother (hrun.disjoint hitem hother hne) (fun _ h => h.elim) fun _ _ => rfl

theorem yields_looseIcu {label : String} {plan : IcuPlan} (hitem : .icu slot label plan eager ∈ items)
    (hloose : base.Loose root slot) (hidle : plan.Idle root v) :
    Yields ((plan.stream slot).forM (applyUpdate t depth (applyUpdatesTo t values (updateDepth + 1)) values
      changes)) v fun _ v' => Turns root items base front values (.icu slot label plan eager) v v' := by
  have hready := hrun.ready _ hitem
  have hnodup : (slot :: plan.slots).Nodup := (nodup_flatMap.mp hrun.nodup).1 _ hitem
  have hlt : ∀ s ∈ slot :: plan.slots, s < v.slots.size := fun s hs => by
    rw [h.size]
    exact hrun.lt _ hitem s hs
  have hdecides : Decides v.locale values plan.choices := by
    rw [h.locale]
    exact hready.decides
  have hzone := descends_zone.post ⟨(hrun.registered _ hitem).2, mem_cons_self, subset_cons_self slot _,
    List.Subset.refl _, Nat.le_of_succ_le hready.depth_le⟩
  have hdormant := dormant_cons.mpr ⟨h.loose _ hitem hloose, plan.idle_iff.mp hidle⟩
  refine (yields_restingStream (plan.slots_perm.cons slot) h.sound hnodup hlt hdormant hzone
    (descends_choices.post hdecides) fun _ => plan.mem_stream parent slot).mono ?_
  rintro _ v' ⟨hk, hdormant'⟩
  obtain ⟨hloose', hidle'⟩ := dormant_cons.mp hdormant'
  refine turns_of_loose hb hrun h hitem hloose hk hloose' ⟨fun _ => plan.idle_iff.mpr hidle', ?_⟩
  intro id hid
  exact absurd hid.2 (hloose id hid.1)

theorem yields_seatedIcu {label : String} {plan : IcuPlan} (hitem : .icu slot label plan eager ∈ items) {id p : Nat}
    (hid : base.Seat root slot id) (hp : base.tree.parent? id = some p) (hcovers : ∀ E, old = some E → Covers changes E values)
    (hshows : plan.Shows root v old p (front id)) :
    Yields ((plan.stream slot).forM (applyUpdate t depth (applyUpdatesTo t values (updateDepth + 1)) values
      changes)) v fun _ v' => Turns root items base front values (.icu slot label plan eager) v v' := by
  have hready := hrun.ready _ hitem
  obtain ⟨hnotin, hnodup⟩ := nodup_cons.mp ((nodup_flatMap.mp hrun.nodup).1 _ hitem)
  have hsub : plan.slots.Sublist (slot :: plan.slots) := sublist_cons_self _ _
  have hbelow : base.Below root p := hb.below_parent hid.2 hp
  have hregion : v.Region root plan.slots p := {
    sound := h.sound
    below := h.below p hbelow
    free := h.free p hbelow _ hitem
    nodup := hnodup
    lt := fun s hs => by
      rw [h.size]
      exact hrun.lt _ hitem s (mem_cons_of_mem slot hs) }
  -- The children of the parent of the anchor, around the anchor.
  obtain ⟨before, after, hsplit⟩ := append_of_mem ((hb.linked.child p id).mpr hp)
  have hdistinct := hb.linked.nodup p
  rw [hsplit] at hdistinct
  obtain ⟨-, hnodupAfter, hapart⟩ := nodup_append.mp hdistinct
  have hbefore : id ∉ before := fun hmem => hapart id hmem id mem_cons_self rfl
  have hafter : id ∉ after := (nodup_cons.mp hnodupAfter).1
  have hchildren := h.children p hbelow
  rw [hsplit, flatMap_append, flatMap_cons, append_assoc, singleton_append] at hchildren
  refine (yields_icuStream plan parent slot old hcovers v p id _ (front id) _ h.locale (hrun.registered _ hitem).2
    (hready.mono hsub (List.Subset.refl _)) (hready.steady slot mem_cons_self (hrun.registered _ hitem).1) hregion
    (h.seat _ hitem id hid) hnotin ((h.parent id hid.2).trans hp) hshows hchildren).mono ?_
  rintro _ v' ⟨hk, tops, hshows', hchildren'⟩
  have hkeep : ∀ l : List Nat, id ∉ l →
      (l.flatMap fun c => (if c = id then tops else front c) ++ [c]) = l.flatMap fun c => front c ++ [c] := by
    intro l hl
    refine flatMap_congr fun c hc => ?_
    rw [if_neg]
    rintro rfl
    exact hl hc
  have hother : ∀ k, k ≠ id → (if k = id then tops else front k) = front k := fun k hk => if_neg hk
  refine ⟨fun c => if c = id then tops else front c, h.keeps hk (fun k hk => h.free k hk _ hitem) ?_ ?_ ?_ ?_,
    ⟨fun hloose => absurd hid.2 (hloose id hid.1), fun k hk q hq => ?_⟩, fun other hmem hne shown hshown => ?_⟩
  · intro other hmem k hseat hin
    by_cases hne : other = .icu slot label plan eager
    · rw [hne] at hin
      exact hnotin hin
    · exact hrun.disjoint hitem hmem hne _ mem_cons_self (mem_cons_of_mem slot hin)
  · intro other hmem hin
    by_cases hne : other = .icu slot label plan eager
    · rw [hne] at hin
      exact absurd hin hnotin
    · exact absurd (mem_cons_of_mem slot hin) (hrun.disjoint hitem hmem hne _ mem_cons_self)
  · intro k hk'
    by_cases hkp : k = p
    · subst hkp
      rw [hchildren', hsplit, flatMap_append, flatMap_cons, hkeep before hbefore,
        hkeep after hafter, if_pos rfl, append_assoc, singleton_append]
    · rw [hk.children k (h.below k hk') (h.free k hk' _ hitem) hkp, h.children k hk', hkeep]
      intro hmem
      rw [(hb.linked.child k id).mp hmem] at hp
      exact hkp (Option.some.inj hp)
  · intro k hk'
    rw [hother k, h.front_nil k hk']
    rintro rfl
    exact hk' _ hitem hid
  · cases hid.1.symm.trans hk.1
    cases hp.symm.trans hq
    show plan.Shows root v' (some values) p (if id = id then tops else front id)
    rw [if_pos rfl]
    exact hshows'
  · refine hshown.keeps hb h hk hmem (fun s hs hin => ?_) (fun _ heq => heq ▸ hbelow) fun k hk' => hother k ?_
    · exact hrun.disjoint hitem hmem hne s hs (mem_cons_of_mem slot hin)
    · rintro rfl
      have hslot := hb.slot_inj _ _ _ hk'.1 hid.1
      exact hrun.disjoint hitem hmem hne _ mem_cons_self (hslot ▸ mem_cons_self)

theorem yields_item {item : RootItem} (hitem : item ∈ items) (hrefresh : Refreshes changes old values)
    (hstands : item.Stands root base front old v) :
    Yields (item.stream.forM (applyUpdate t depth (applyUpdatesTo t values (updateDepth + 1)) values
      changes)) v fun _ v' => Turns root items base front values item v v' := by
  cases item with
  | text slot value eager => exact yields_textItem hb hrun h hitem hrefresh hstands _
  | icu slot label plan eager =>
    by_cases hloose : base.Loose root slot
    · exact yields_looseIcu hb hrun h hitem hloose (hstands.1 hloose)
    · obtain ⟨id, hid⟩ := exists_seat hloose
      obtain ⟨p, hp⟩ := hb.exists_parent hid
      exact yields_seatedIcu hb hrun h hitem hid hp hrefresh.covers (hstands.2 id hid p hp)

end Item

theorem yields_items (hb : base.Sound root) (hrun : Runnable t depth values parent items base)
    (hrefresh : Refreshes changes old values) : ∀ (todo done : List RootItem) (front : Nat → List Nat)
    (v : LiveView), items = done ++ todo → base.Supports root items front v →
      (∀ item ∈ done, item.Stands root base front (some values) v) →
      (∀ item ∈ todo, item.Stands root base front old v) →
        Yields ((todo.flatMap RootItem.stream).forM (applyUpdate t depth
          (applyUpdatesTo t values (updateDepth + 1)) values changes)) v fun _ v' =>
            ∃ front', base.Supports root items front' v' ∧ ∀ item ∈ items, item.Stands root base front' (some values) v'
  | [], done, front, v, hitems, h, hdone, _ => by
    refine yields_pure ⟨front, h, fun item hitem => hdone item ?_⟩
    rwa [hitems, append_nil] at hitem
  | item :: todo, done, front, v, hitems, h, hdone, htodo => by
    have hmem : item ∈ items := hitems ▸ mem_append_right _ mem_cons_self
    rw [flatMap_cons, forM_append_eq]
    refine (yields_item hb hrun h hmem hrefresh (htodo item mem_cons_self)).bind ?_
    rintro - v' ⟨front', h', hitem, hothers⟩
    have hne : ∀ other ∈ done ++ todo, other ≠ item := by
      have hnodup := hrun.nodup
      rw [hitems, flatMap_append, flatMap_cons] at hnodup
      rintro other hother rfl
      have hslot : other.slot ∈ other.slots := mem_cons_self
      obtain ⟨-, hright, hapart⟩ := nodup_append.mp hnodup
      rcases mem_append.mp hother with hother | hother
      · exact hapart _ (mem_flatMap.mpr ⟨_, hother, hslot⟩) _ (mem_append_left _ hslot) rfl
      · exact (nodup_append.mp hright).2.2 _ hslot _ (mem_flatMap.mpr ⟨_, hother, hslot⟩) rfl
    refine yields_items hb hrun hrefresh todo (done ++ [item]) front' v' (by rw [hitems]; simp) h' ?_ ?_
    · intro other hother
      rcases mem_append.mp hother with hother | hother
      · exact hothers other (hitems ▸ mem_append_left _ hother) (hne other (mem_append_left _ hother))
          _ (hdone other hother)
      · rw [mem_singleton.mp hother]
        exact hitem
    · intro other hother
      have hin : other ∈ items := hitems ▸ mem_append_right _ (mem_cons_of_mem item hother)
      exact hothers other hin (hne other (mem_append_right _ hother)) _ (htodo other (mem_cons_of_mem item hother))

end Step

/-! ### The tree -/

section Tree

variable {root : Nat} {items : List RootItem} {base v v' : LiveView} {front front' : Nat → List Nat}
  {values : Option (List String)} (h : base.Supports root items front v) (h' : base.Supports root items front' v')
  (hstands : ∀ item ∈ items, item.Stands root base front values v)
  (hstands' : ∀ item ∈ items, item.Stands root base front' values v')

include h h' hstands hstands'

theorem LiveView.Supports.content_eq {id : Nat} (hid : base.Below root id) :
    v.tree.content? id = v'.tree.content? id := by
  by_cases htext : ∃ slot value eager, .text slot value eager ∈ items ∧ base.Seat root slot id
  · obtain ⟨slot, value, eager, hitem, hseat⟩ := htext
    rw [(hstands _ hitem id hseat).2, (hstands' _ hitem id hseat).2]
  · have hnone : ∀ slot value eager, .text slot value eager ∈ items → ¬base.Seat root slot id :=
      fun slot value eager hitem hseat => htext ⟨slot, value, eager, hitem, hseat⟩
    rw [h.content id hid hnone, h'.content id hid hnone]

theorem LiveView.Supports.front_eq (hb : base.Sound root) (n c : Nat) :
    (front c).map (v.tree.toNode n) = (front' c).map (v'.tree.toNode n) := by
  by_cases hseat : ∃ item ∈ items, base.Seat root item.slot c
  · obtain ⟨item, hitem, hc⟩ := hseat
    cases item with
    | text slot value eager => rw [(hstands _ hitem c hc).1, (hstands' _ hitem c hc).1]; rfl
    | icu slot label plan eager =>
      have hlocale : v'.locale = v.locale := h'.locale.trans h.locale.symm
      obtain ⟨p, hp⟩ := hb.exists_parent hc
      exact ((hstands _ hitem).2 c hc p hp).toNode_eq hlocale ((hstands' _ hitem).2 c hc p hp) n
  · have hnone : ∀ item ∈ items, ¬base.Seat root item.slot c := fun item hitem hc => hseat ⟨item, hitem, hc⟩
    rw [h.front_nil c hnone, h'.front_nil c hnone]
    rfl

theorem LiveView.Supports.nodes_eq (hb : base.Sound root) :
    (v.tree.children root).map v.tree.node = (v'.tree.children root).map v'.tree.node :=
  h.sound.linked.map_node_eq (N := base.Below root) h'.sound.linked h.sound.root_parent h'.sound.root_parent .root
    (fun k hk c hc => hk.child ((hb.linked.child k c).mp hc)) h.children h'.children
    (fun _ => h.content_eq h' hstands hstands') fun n _ _ c _ => h.front_eq h' hstands hstands' hb n c

end Tree

end MessageCompiler
