/-
Filling in values.

A case that is fresh gets all of its values, any other case only those that have changed. Either way its
texts and attributes are those for the new values, provided that its instructions are steady.
-/
import MessageCompiler.Proofs.Creation

namespace MessageCompiler

open List
open Markup (Content Tree)
open Live LiveView Scene

/-- The mask has every binding that differs from what is shown; if nothing is shown yet, it has all. -/
structure Refreshes (changes : Mask) (own : Option (List String)) (values : List String) : Prop where
  all : own = none → changes = Mask.all
  covers : ∀ old, own = some old → Covers changes old values

theorem shown_refreshed {changes : Mask} {own : Option (List String)} {values : List String}
    (h : Refreshes changes own values) {index : Int} {ops : List UpdateOp}
    (hops : ∀ op ∈ ops, op.Writes ∧ op.index = index) (hsteady : steady ops = true) (c : Content) :
    committed values (ops.filter fun op => op.mask.meets changes) (shown own ops c) = shown (some values) ops c := by
  cases own with
  | some old => exact committed_filter (h.covers old rfl) hops hsteady c
  | none =>
    rw [filter_eq_self.mpr]
    · rfl
    · intro op hop
      rw [h.all rfl]
      exact Mask.meets_all (hops op hop).1.mask_ne

theorem committed_congr {old new : List String} : ∀ {ops : List UpdateOp},
    (∀ op ∈ ops, op.value old = op.value new) → ∀ c : Content, committed old ops c = committed new ops c
  | [], _, _ => rfl
  | op :: ops, h, c => by
    have hcommit : op.commit old c = op.commit new c := by
      unfold UpdateOp.commit
      rw [h op mem_cons_self]
    show committed old ops (op.commit old c) = committed new ops (op.commit new c)
    rw [hcommit]
    exact committed_congr (fun q hq => h q (mem_cons_of_mem op hq)) _

theorem steady_append_right : ∀ {a b : List UpdateOp}, steady (a ++ b) = true → steady b = true
  | [], _, h => h
  | _ :: _, _, h => steady_append_right (steady_cons h).2

theorem steady_append_left : ∀ {a b : List UpdateOp}, (∀ x ∈ a, ∀ y ∈ b, x.index ≠ y.index) →
    steady (a ++ b) = true → steady a = true
  | [], _, _, _ => rfl
  | op :: a, b, hindex, h => by
    have hnone : b.filter op.samePlace = [] := by
      simp_all [Bool.and_eq_true, beq_iff_eq, UpdateOp.samePlace]
    rw [cons_append, steady, filter_append, hnone, append_nil, Bool.and_eq_true] at h
    rw [steady, Bool.and_eq_true]
    exact ⟨h.1, steady_append_left (fun x hx => hindex x (mem_cons_of_mem op hx)) h.2⟩

theorem Plan.update_index {plan : Plan} {op : UpdateOp} (hop : op ∈ plan.update) : ∃ s ∈ plan.slots, op.index = s := by
  obtain ⟨-, s, hs, hindex⟩ := plan.update_writes op hop
  exact ⟨s, plan.slots_perm.mem_iff.mp (mem_append_left _ hs), hindex⟩

theorem Plan.index_ne {plan : Plan} {slot : Nat} (hslot : slot ∉ plan.slots) {op : UpdateOp}
    (hop : op ∈ plan.update) : (slot : Int) ≠ op.index := by
  obtain ⟨s, hs, hindex⟩ := update_index hop
  rw [hindex]
  intro heq
  exact hslot (Int.natCast_inj.mp heq ▸ hs)

theorem CasePlans.updates_writes : ∀ (cases : CasePlans), ∀ op ∈ cases.updates, op.Writes
  | .nil, op, hop => by cases hop
  | .cons _ content rest, op, hop => by
    rcases mem_append.mp hop with hop | hop
    · exact (content.update_writes op hop).1
    · exact updates_writes rest op hop

theorem CasePlans.meets_mask {cases : CasePlans} {changes : Mask} (h : cases.mask.meets changes = false) :
    ∀ op ∈ cases.updates, op.mask.meets changes = false :=
  ((Mask.foldl_or_meets _ _).mp h).2

theorem CasePlans.updates_eq_nil {cases : CasePlans} (h : cases.mask = 0#32) : cases.updates = [] := by
  refine eq_nil_iff_forall_not_mem.mpr fun op hop => ?_
  have hmeets : cases.mask.meets Mask.all = false := by rw [h, Mask.meets_comm, Mask.meets_zero]
  have hall := Mask.meets_all (cases.updates_writes op hop).mask_ne
  rw [meets_mask hmeets op hop] at hall
  cases hall

section Fill

variable {root : Nat} {t : TemplateView} {depth : Nat} {run : List UpdateOp → Mask → LiveM Unit}
  {values : List String} {changes : Mask}

theorem yields_writes {I : LiveView → Prop} {slot id : Nat} {p : Option Nat} {kids : List Nat}
    (hI : ∀ v c, I v → I (v.withTree (v.tree.setContent id c))) : ∀ {ops : List UpdateOp}
    {v : LiveView} {c : Content}, (∀ op ∈ ops, op.Writes ∧ op.index = slot) → v.Sound root →
      v.slots[slot]? = some (.node id) → v.tree.cells[id]? = some ⟨c, p, kids⟩ → I v →
        Yields (ops.forM (applyUpdate t depth run values changes)) v fun _ v' =>
          v.Keeps root [slot] nowhere v' ∧ v'.slots = v.slots ∧ v'.tree.cells[id]? =
            some ⟨committed values (ops.filter fun op => op.mask.meets changes) c, p, kids⟩ ∧ I v'
  | [], _, _, _, hs, _, hcell, h => yields_pure ⟨.refl hs _ _, rfl, hcell, h⟩
  | op :: ops, v, c, hops, hs, hslot, hcell, hv => by
    obtain ⟨hwrites, hindex⟩ := hops op mem_cons_self
    have hrest : ∀ op ∈ ops, op.Writes ∧ op.index = slot := fun q hq => hops q (mem_cons_of_mem op hq)
    cases hmeets : op.mask.meets changes with
    | false =>
      refine yields_forM_cons (yields_write hwrites (Q := fun _ v' => v' = v) ?_) ?_
      · rw [hmeets, if_neg Bool.false_ne_true]
      · rintro _ rfl
        rw [filter_cons, hmeets, if_neg Bool.false_ne_true]
        exact yields_writes hI hrest hs hslot hcell hv
    | true =>
      have hcommit : v.commitAt values op = v.withTree (v.tree.setContent id (op.commit values c)) := by
        unfold commitAt
        rw [hindex, node?_of_slot hslot]
        exact congrArg v.withTree (modifyContent_of_cell hcell _)
      have hkeeps : v.Keeps root [slot] nowhere (v.withTree (v.tree.setContent id (op.commit values c))) :=
        keeps_setContent hs ⟨slot, mem_cons_self, hslot⟩ _ _
      refine yields_forM_cons (yields_write hwrites (Q := fun _ v' =>
        v' = v.withTree (v.tree.setContent id (op.commit values c))) ?_) ?_
      · rw [hmeets, if_pos rfl, hcommit]
      · rintro _ rfl
        rw [filter_cons, hmeets, if_pos rfl]
        refine (yields_writes hI hrest hkeeps.sound hslot (cell_setContent hcell _) (hI v _ hv)).mono ?_
        rintro _ v' ⟨h, hslots, hcell, hv'⟩
        exact ⟨hkeeps.trans hs h, hslots, hcell, hv'⟩

variable {locale : Locale} {own nested : Option (List String)}

theorem exchanges_refresh {p slot : Nat} {S : List Nat}
    {inside : Nat → Scene} {ops : List UpdateOp} (hrefresh : Refreshes changes own values)
    (hframed : ∀ id, Framed root id S (inside id)) (hops : ∀ op ∈ ops, op.Writes ∧ op.index = slot)
    (hsteady : steady ops = true) (c : Content) :
    Exchanges root locale p (slot :: S) (node p slot (shown own ops c) inside)
      (ops.forM (applyUpdate t depth run values changes)) (node p slot (shown (some values) ops c) inside) := by
  rintro v pre _ post - hregion ⟨id, kids, rfl, hslot, hcell, hinside⟩ hchildren
  have hsingle : [slot] ⊆ slot :: S := subset_append_left [slot] S
  refine (yields_writes (I := fun _ => True) (fun _ _ h => h) hops hregion.sound hslot hcell trivial).mono ?_
  rintro _ v' ⟨hk, hslots, hcell', -⟩
  rw [shown_refreshed hrefresh hops hsteady] at hcell'
  refine ⟨hk.quiet hsingle, [id], ⟨id, kids, rfl, by rw [hslots, hslot], hcell', ?_⟩, ?_⟩
  · exact hframed id _ _ _ (below_of_cell hregion.below hcell) hinside
      (hregion.carries_right (A := [slot]) (hk.quiet (List.Subset.refl _)))
  · rw [hk.children p hregion.below (fun h => hregion.free (h.mono hsingle)) fun h => h, hchildren]

theorem exchanges_fill (hrefresh : Refreshes changes own values) :
    ∀ (plan : Plan) (p : Nat), steady plan.update = true →
      Exchanges root locale p plan.slots (plan.scene root own nested p)
        (plan.update.forM (applyUpdate t depth run values changes)) (plan.scene root (some values) nested p)
  | .nil, _, _ => .refl fun _ _ h => h
  | .text slot value rest, p, hsteady => .of_nodup fun hnodup => by
    have hsteadyText : steady (textUpdate slot value) = true := steady_append_left
      (fun x hx y hy => (textUpdate_writes hx).2 ▸ Plan.index_ne (nodup_cons.mp hnodup).1 hy) hsteady
    have hrest := exchanges_fill hrefresh rest p (steady_append_right hsteady)
    rw [scene_text, scene_text, Plan.update, forM_append_eq]
    exact (exchanges_refresh hrefresh (fun id => framed_bare root id []) (fun _ h => textUpdate_writes h)
      hsteadyText _).seq hrest rest.framed (.node (fun id => framed_bare root id []) _)
  | .element slot tag fixed bound content rest, p, hsteady => .of_nodup fun hnodup => by
    obtain ⟨hnotinContent, hnotinRest, hdisjoint⟩ := nodup_parts hnodup
    have hsteadyInner := steady_append_right hsteady
    have hsteadyBound : steady (bound.map (·.op slot)) = true := by
      refine steady_append_left (fun x hx y hy => ?_) hsteady
      rw [(boundAttr_writes hx).2]
      rcases mem_append.mp hy with hy | hy
      · exact Plan.index_ne hnotinContent hy
      · exact Plan.index_ne hnotinRest hy
    have hsteadyContent : steady content.update = true := by
      refine steady_append_left (fun x hx y hy => ?_) hsteadyInner
      obtain ⟨s, hsmem, hindex⟩ := Plan.update_index hx
      rw [hindex]
      exact Plan.index_ne (fun hmem => hdisjoint s hsmem s hmem rfl) hy
    have hrest := exchanges_fill hrefresh rest p (steady_append_right hsteadyInner)
    rw [scene_element, scene_element, Plan.update, forM_append_eq, forM_append_eq, ← bind_assoc]
    refine Exchanges.seq (.trans (exchanges_refresh hrefresh (fun id => content.framed) (fun _ h => boundAttr_writes h)
      hsteadyBound _) (.inner fun id => ?_)) hrest rest.framed (.node (fun id => content.framed) _)
    exact exchanges_fill hrefresh content id hsteadyContent
  | .icu slot label icu rest, p, hsteady => by
    rw [scene_icu, scene_icu]
    exact (exchanges_fill hrefresh rest p hsteady).right (icu.framed_anchored slot label) rest.framed

end Fill

end MessageCompiler
