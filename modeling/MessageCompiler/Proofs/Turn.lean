/-
One run of the stream of a message over an expression that is shown.

The expression chooses its case; the nested expressions of all cases take their turn, those of the case
that is shown and those that are not; last the case gets its values. Afterwards the expression shows the
new values, whether its case has changed or not.
-/
import MessageCompiler.Proofs.Filling

namespace MessageCompiler

open List
open Markup (Content Tree)
open Live LiveView Scene

/-- The cases of an expression that is registered at the slot have steady instructions. -/
def SteadyAt (t : TemplateView) (s : Nat) : Prop :=
  ∀ icu : CompiledIcu, t.icu? s = some icu → ∀ c ∈ icu.cases, steady c.update = true

/-- The slots and choices of a plan whose nodes are put below the node in the slot `parent`. -/
structure Ready (t : TemplateView) (depth : Nat) (locale : Locale) (values : List String) (parent : Int)
    (S : List Nat) (choices : List (IcuKind × Int)) : Prop where
  depth_le : S.length ≤ depth
  parent_ne : ∀ s ∈ S, (s : Int) ≠ parent
  decides : Decides locale values choices
  steady : ∀ s ∈ S, t.type? s = some .icu → SteadyAt t s

namespace Ready

variable {t : TemplateView} {depth : Nat} {locale : Locale} {values : List String} {parent : Int}
  {S S' : List Nat} {choices choices' : List (IcuKind × Int)}

theorem mono (h : Ready t depth locale values parent S choices) (hS : S'.Sublist S)
    (hchoices : choices' ⊆ choices) : Ready t depth locale values parent S' choices' where
  depth_le := Nat.le_trans hS.length_le h.depth_le
  parent_ne s hs := h.parent_ne s (hS.subset hs)
  decides := h.decides.mono hchoices
  steady s hs := h.steady s (hS.subset hs)

theorem inner {slot : Nat} (h : Ready t depth locale values parent (slot :: S) choices)
    (hslot : slot ∉ S) (hS : S'.Sublist S) (hchoices : choices' ⊆ choices) :
    Ready t depth locale values slot S' choices' where
  depth_le := Nat.le_trans (Nat.le_succ_of_le hS.length_le) h.depth_le
  parent_ne _ hs heq := hslot (Int.natCast_inj.mp heq ▸ hS.subset hs)
  decides := h.decides.mono hchoices
  steady s hs := h.steady s (mem_cons_of_mem slot (hS.subset hs))

end Ready

/-! ### What is not shown -/

section Idle

variable {root : Nat} {t : TemplateView} {depth updateDepth : Nat} {values : List String} {changes : Mask}
  {parent : Int} {locale : Locale}

theorem exchanges_quiet {S : List Nat} {I : LiveView → Prop} {x : LiveM Unit} (p : Nat)
    (h : ∀ v, v.locale = locale → v.Region root S p → I v → Yields x v fun _ v' => v.Keeps root S nowhere v' ∧ I v') :
    Exchanges root locale p S (gone I) x (gone I) := by
  rintro v pre _ post hl hregion ⟨rfl, hv⟩ hchildren
  refine (h v hl hregion hv).mono fun _ v' ⟨hk, hv'⟩ => ⟨hk.quiet (List.Subset.refl _), [], ⟨rfl, hv'⟩, ?_⟩
  rw [hk.children p hregion.below hregion.free fun h => h, hchildren]

theorem exchanges_idleStream {plan : Plan} (hreg : plan.Registered t parent)
    (hready : Ready t depth locale values parent plan.slots plan.choices) (p : Nat) :
    Exchanges root locale p plan.slots (gone (plan.Idle root))
      (plan.stream.forM (applyUpdate t depth (applyUpdatesTo t values (updateDepth + 1)) values changes))
      (gone (plan.Idle root)) := by
  refine exchanges_quiet p fun v hl hregion hidle => ?_
  subst hl
  have hzone := descends_zone.plan ⟨hreg, List.Subset.refl _, List.Subset.refl _, hready.depth_le⟩
  exact (yields_restingStream plan.slots_perm hregion.sound hregion.nodup hregion.lt (plan.idle_iff.mp hidle) hzone
    (descends_choices.plan hready.decides) fun _ => plan.mem_stream parent).mono fun _ _ h =>
      ⟨h.1, plan.idle_iff.mpr h.2⟩

theorem exchanges_idleCasesStream {cases : CasePlans} (hreg : cases.Registered t parent)
    (hready : Ready t depth locale values parent cases.slots cases.choices) (p : Nat) :
    Exchanges root locale p cases.slots (gone (cases.Idle root))
      (cases.stream.forM (applyUpdate t depth (applyUpdatesTo t values (updateDepth + 1)) values changes))
      (gone (cases.Idle root)) := by
  refine exchanges_quiet p fun v hl hregion hidle => ?_
  subst hl
  have hzone := descends_zone.contents ⟨hreg, List.Subset.refl _, List.Subset.refl _, hready.depth_le⟩
  exact (yields_restingStream cases.slots_perm hregion.sound hregion.nodup hregion.lt (cases.idle_iff.mp hidle) hzone
    (descends_choices.contents hready.decides) fun _ => cases.mem_stream parent).mono fun _ _ h =>
      ⟨h.1, cases.idle_iff.mpr h.2⟩

end Idle

/-! ### The case with a number -/

section Case

variable {root : Nat} {t : TemplateView} {anchor : Nat} {parent : Int} {p : Nat}

theorem builds_createAt : ∀ (cases : CasePlans) (k : Nat) (c : CompiledCase), cases.Registered t parent →
    (cases.compiled parent)[k]? = some c →
      Builds root t anchor parent cases.slots (cases.Idle root) c.create fun p => cases.scene root none none p k
  | .nil, _, _, _, hc => by cases hc
  | .cons label content rest, 0, c, hreg, hc => by
    cases hc
    rw [← append_nil (Plan.create parent content)]
    refine ((builds_create content parent hreg.1).seq (builds_nil (I := rest.Idle root)) CasePlans.Idle.frame
      fun p => content.framed).imp (fun _ h => h) fun p v tops h => ?_
    rw [scene_first]
    exact h
  | .cons label content rest, k + 1, c, hreg, hc => by
    have hrest := builds_createAt rest k c hreg.2 hc
    refine ((builds_nil (I := content.Idle root)).seq hrest CasePlans.Idle.frame fun p => content.framed_idle).imp
      (fun _ h => h) fun p v tops h => ?_
    rw [scene_later]
    exact h

theorem exchanges_fillAt {locale : Locale} {depth : Nat} {run : List UpdateOp → Mask → LiveM Unit}
    {values : List String} {changes : Mask} {own nested : Option (List String)} (hrefresh : Refreshes changes own values) :
    ∀ (cases : CasePlans) (k : Nat) (c : CompiledCase), (cases.compiled parent)[k]? = some c →
      steady c.update = true → Exchanges root locale p cases.slots (cases.scene root own nested p k)
        (c.update.forM (applyUpdate t depth run values changes)) (cases.scene root (some values) nested p k)
  | .nil, _, _, hc, _ => by cases hc
  | .cons label content rest, 0, c, hc, hsteady => by
    cases hc
    rw [scene_first, scene_first]
    exact (exchanges_fill hrefresh content p hsteady).left rest.framed_idle content.framed
  | .cons label content rest, k + 1, c, hc, hsteady => by
    rw [scene_later, scene_later]
    exact (exchanges_fillAt hrefresh rest k c hc hsteady).right content.framed_idle rest.framed

end Case

/-! ### The choice of a case -/

/-- The expression after its case was chosen: the content of the case is new, or it is still the one for
the old values. Its nested expressions show the values `next` if there are any. -/
def IcuPlan.turned (root : Nat) (choice : Option Nat) (old next : Option (List String)) (p : Nat) : IcuPlan → Scene
  | .mk kind main current cases =>
    match choice with
    | none => (IcuPlan.mk kind main current cases).vacant root
    | some k => fun v tops => ∃ fresh own,
        (choosing current (.chosen k fresh)).beside (cases.scene root own (next.or own) p k) v tops ∧
          (own = none ∧ fresh = true ∨ own = old ∧ old.isSome = true ∧ (fresh = true → cases.updates = []))

section Switch

variable {root : Nat} {t : TemplateView} {depth : Nat} {parent : Int} {p anchor : Nat} {kind : IcuKind}
  {main : Int} {current : Nat} {cases : CasePlans} {old : Option (List String)} {v : LiveView}
  {pre tops post : List Nat}

section

variable (hshows : (IcuPlan.mk kind main current cases).Shows root v old p tops)
include hshows

theorem IcuPlan.Shows.turned {choice : Option Nat} (hchoice : chosenFor kind v.locale cases.labels main old = choice) :
    (IcuPlan.mk kind main current cases).turned root choice old none p v tops := by
  subst hchoice
  unfold IcuPlan.turned
  rcases IcuPlan.shows_iff.mp hshows with ⟨hnone, hempty, rfl, hidle⟩ | ⟨k, fresh, hsome, hslot, hfresh, hcases⟩
  · rw [hnone]
    exact ⟨[], [], rfl, ⟨rfl, hempty⟩, rfl, hidle⟩
  · obtain ⟨values, hold, -⟩ := Option.bind_eq_some_iff.mp hsome
    rw [hsome]
    exact ⟨fresh, old, ⟨[], tops, rfl, ⟨rfl, hslot⟩, hcases⟩, .inr ⟨rfl, by rw [hold]; rfl, hfresh⟩⟩

theorem IcuPlan.Shows.exists_slot : ∃ slot, v.slots[current]? = some slot ∧
      (LiveSlot.case? slot).map (·.1) = chosenFor kind v.locale cases.labels main old := by
  rcases IcuPlan.shows_iff.mp hshows with ⟨hchoice, hslot, -⟩ | ⟨k, fresh, hchoice, hslot, -⟩
  · exact ⟨_, hslot, hchoice.symm⟩
  · exact ⟨_, hslot, hchoice.symm⟩

end

variable {values : List String} {changes : Mask}

section Turning

variable {id : Nat} (hreg : (IcuPlan.mk kind main current cases).Registered t parent anchor)
  (hdepth : (IcuPlan.mk kind main current cases).slots.length ≤ depth)
  (hparent : ∀ s ∈ (IcuPlan.mk kind main current cases).slots, (s : Int) ≠ parent)
  (hregion : v.Region root (IcuPlan.mk kind main current cases).slots p)
  (hslot : v.slots[anchor]? = some (.node id))
  (hnotin : anchor ∉ (IcuPlan.mk kind main current cases).slots) (hid : v.tree.parent? id = some p)
  (hshows : (IcuPlan.mk kind main current cases).Shows root v old p tops)
  (hchildren : v.tree.children p = pre ++ (tops ++ id :: post))

include hreg hdepth hparent hregion hslot hnotin hid hshows hchildren

theorem yields_switchCase {value : String} (hcategory : kind = .plural → Plural.category? v.locale value ≠ none) :
    Yields (switchCase t depth ((IcuPlan.mk kind main current cases).compiled parent anchor) value) v
      fun _ v' => v.Keeps root (IcuPlan.mk kind main current cases).slots (· = p) v' ∧
        ∃ tops', (IcuPlan.mk kind main current cases).turned root
          (chooseCase kind v.locale cases.labels value) old none p v' tops' ∧
          v'.tree.children p = pre ++ (tops' ++ id :: post) := by
  have hs := hregion.sound
  unfold switchCase
  refine Yields.andThen yields_node? ?_
  show Yields (match v.node? anchor with | none => _ | some _ => _) v _
  rw [node?_of_slot hslot]
  refine yields_get fun r hr => ?_
  have hcase : caseFor (IcuPlan.compiled parent anchor (.mk kind main current cases)) v.locale value =
      .ok (chooseCase kind v.locale cases.labels value) := caseFor_compiled hcategory _ _ _ _
  rw [hr, hcase]
  refine Yields.andThen yields_pure ?_
  obtain ⟨slot, hcurrent, hactive⟩ := hshows.exists_slot
  refine Yields.andThen (yields_currentCase rfl hcurrent) ?_
  by_cases hsame : (LiveSlot.case? slot).map (·.1) = chooseCase kind v.locale cases.labels value
  · rw [if_pos hsame]
    exact yields_pure ⟨.refl hs _ _, tops, hshows.turned (hactive.symm.trans hsame), hchildren⟩
  · rw [if_neg hsame]
    refine (exchanges_removeCase (.mk kind main current cases) parent anchor old depth p hreg hdepth v pre tops
      (id :: post) rfl hregion hshows hchildren).bind ?_
    rintro _ v₁ ⟨h₁, tops₁, hvacant, hchildren₁⟩
    cases hchoice : chooseCase kind v.locale cases.labels value with
    | none => exact yields_pure ⟨h₁, tops₁, hvacant, hchildren₁⟩
    | some k =>
      obtain ⟨label, content, -, hcompiled⟩ := CasePlans.exists_content parent (chooseCase_lt hchoice)
      refine Yields.andThen (yields_caseAt hcompiled) ?_
      refine Yields.andThen yields_report ?_
      refine ((exchanges_choose (by simp)).left cases.framed_idle (framed_choosing current (.chosen k true)) v₁ pre tops₁
        (id :: post) rfl (hregion.keeps h₁ hregion.free) hvacant hchildren₁).bind ?_
      rintro _ v₂ ⟨h₂, _, ⟨_, _, rfl, ⟨rfl, hchosen⟩, rfl, hidle⟩, hchildren₂⟩
      have h₁₂ := h₁.trans hs h₂
      -- The case is created in front of the anchor.
      have hspot : Spot root id parent p (current :: cases.slots) none (pre ++ tops) (id :: post) v := {
        region := hregion
        parent_ne := hparent
        ref_ne := fun s _ r hr => by cases hr
        children := by rw [hchildren, append_assoc]
        place := .inl ⟨hid, fun ⟨s, hmem, hheld⟩ => hnotin (hs.slot_inj s anchor id hheld hslot ▸ hmem), .inl rfl,
          post, rfl⟩ }
      have hsub : cases.slots.Sublist (current :: cases.slots) := sublist_cons_self _ _
      rw [applyCase_eq]
      refine (builds_createAt cases k _ hreg.2.2 hcompiled none v₂ p pre (id :: post)
        (hspot.keeps h₁₂ (fun _ h => h) hsub hchildren₂ (.inl rfl)) hidle).bind ?_
      rintro _ v₃ ⟨h₃, -, tops₃, hshows₃, hchildren₃⟩
      refine yields_pure ⟨h₁₂.trans hs (h₃.widen hsub.subset), tops₃,
        ⟨true, none, ⟨[], tops₃, rfl, ⟨rfl, ?_⟩, hshows₃⟩, .inl ⟨rfl, rfl⟩⟩, hchildren₃⟩
      exact (h₃.slots current (nodup_cons.mp hregion.nodup).1).trans hchosen

theorem yields_switchOp (hmain : 0 ≤ main)
    (hcategory : kind = .plural → Plural.category? v.locale (valueAt values main) ≠ none)
    (hcovers : ∀ E, old = some E → Covers changes E values) (run : List UpdateOp → Mask → LiveM Unit) :
    Yields (applyUpdate t depth run values changes (switchOp anchor main)) v
      fun _ v' => v.Keeps root (IcuPlan.mk kind main current cases).slots (· = p) v' ∧
        ∃ tops', (IcuPlan.mk kind main current cases).turned root
          (chooseCase kind v.locale cases.labels (valueAt values main)) old none p v' tops' ∧
          v'.tree.children p = pre ++ (tops' ++ id :: post) := by
  have hswitch := yields_switchCase hreg hdepth hparent hregion hslot hnotin hid hshows hchildren hcategory
  unfold applyUpdate
  split
  · unfold applyChanged
    rw [composed_switchOp values hmain, pure_bind]
    dsimp only [switchOp]
    rw [hreg.icu?_eq]
    exact hswitch
  · next hmeets =>
    unfold applyPending
    rw [composed_switchOp values hmain]
    dsimp only [switchOp]
    rw [hreg.icu?_eq]
    refine Yields.andThen yields_node? ?_
    show Yields (if (v.node? anchor).isSome = true then _ else _) v _
    rw [node?_of_slot hslot, Option.isSome_some, if_pos rfl]
    obtain ⟨slot, hcurrent, hactive⟩ := hshows.exists_slot
    refine Yields.andThen (yields_currentCase rfl hcurrent) ?_
    cases hcase : LiveSlot.case? slot with
    | none =>
      rw [Option.isNone_none, if_pos rfl, pure_bind]
      exact hswitch
    | some active =>
      -- The expression has a case, and the value that it was chosen for is still the same.
      rw [Option.isNone_some, if_neg Bool.false_ne_true]
      refine yields_pure ⟨.refl hregion.sound _ _, tops, hshows.turned ?_, hchildren⟩
      rw [hcase] at hactive
      obtain ⟨E, rfl, -⟩ := Option.bind_eq_some_iff.mp hactive.symm
      have hvalue := (hcovers E rfl).valueAt_eq hmain (Bool.not_eq_true _ ▸ hmeets)
      unfold chosenFor
      rw [Option.bind_some, hvalue]

end Turning

variable {locale : Locale}

theorem scene_of_chosen {k : Nat} {fresh : Bool}
    (hchoice : chooseCase kind locale cases.labels (valueAt values main) = some k)
    (hfresh : fresh = true → cases.updates = []) (hl : v.locale = locale)
    (h : (choosing current (.chosen k fresh)).beside (cases.scene root (some values) (some values) p k) v tops) :
    (IcuPlan.mk kind main current cases).scene root (some values) p v tops := by
  obtain ⟨_, tops, rfl, ⟨rfl, hcurrent⟩, hcases⟩ := h
  exact IcuPlan.shows_iff.mpr (.inr ⟨k, fresh, hl ▸ hchoice, hcurrent, hfresh, hcases⟩)

theorem exchanges_updateCase {updateDepth k : Nat} {fresh : Bool} {own : Option (List String)} {mask : Mask}
    (hrefresh : Refreshes (if fresh = true then Mask.all else mask) own values)
    (hsteady : ∀ c ∈ cases.compiled parent, steady c.update = true)
    (hchoice : chooseCase kind locale cases.labels (valueAt values main) = some k) :
    Exchanges root locale p (IcuPlan.mk kind main current cases).slots
      ((choosing current (.chosen k fresh)).beside (cases.scene root own (some values) p k))
      (updateCase (applyUpdatesTo t values (updateDepth + 1))
        ((IcuPlan.mk kind main current cases).compiled parent anchor) mask)
      ((IcuPlan.mk kind main current cases).scene root (some values) p) := by
  obtain ⟨label, content, -, hcompiled⟩ := CasePlans.exists_content parent (chooseCase_lt hchoice)
  -- What remains once the case is no longer fresh.
  have hfill : Exchanges root locale p (current :: cases.slots)
      ((choosing current (.chosen k false)).beside (cases.scene root own (some values) p k))
      (caseAt ((IcuPlan.mk kind main current cases).compiled parent anchor) k >>= fun case =>
        applyUpdatesTo t values (updateDepth + 1) case.update (if fresh = true then Mask.all else mask))
      ((IcuPlan.mk kind main current cases).scene root (some values) p) := by
    intro v pre tops post hl hregion hP hchildren
    refine Yields.andThen (yields_caseAt hcompiled) ?_
    exact ((exchanges_fillAt hrefresh cases k _ hcompiled (hsteady _ (mem_of_getElem? hcompiled))).right
      (framed_choosing current (.chosen k false)) cases.framed).imp (fun _ _ _ h => h)
      (fun _ _ => scene_of_chosen hchoice Bool.noConfusion) v pre tops post hl hregion hP hchildren
  intro v pre tops post hl hregion hP hchildren
  obtain ⟨_, back, rfl, ⟨rfl, hcurrent⟩, hcases⟩ := id hP
  unfold updateCase
  refine Yields.andThen (yields_currentCase rfl hcurrent) ?_
  cases fresh with
  | false => exact hfill v pre _ post hl hregion hP hchildren
  | true =>
    exact ((exchanges_choose (by simp)).left cases.framed (framed_choosing current _)).trans hfill v pre _ post hl
      hregion hP hchildren

theorem exchanges_updateOps {updateDepth : Nat} (hreg : (IcuPlan.mk kind main current cases).Registered t parent anchor)
    (hcovers : ∀ E, old = some E → Covers changes E values) (hsteady : SteadyAt t anchor) :
    Exchanges root locale p (IcuPlan.mk kind main current cases).slots
      ((IcuPlan.mk kind main current cases).turned root (chooseCase kind locale cases.labels (valueAt values main)) old
        (some values) p)
      ((updateOps anchor cases.mask).forM
        (applyUpdate t depth (applyUpdatesTo t values (updateDepth + 1)) values changes))
      ((IcuPlan.mk kind main current cases).scene root (some values) p) := by
  have hparts : PartsNonneg [] := fun i hi => by cases hi
  have hsteady' : ∀ c ∈ cases.compiled parent, steady c.update = true := hsteady _ hreg.1
  intro v pre tops post hl hregion hturned hchildren
  have hs := hregion.sound
  unfold IcuPlan.turned at hturned
  cases hchoice : chooseCase kind locale cases.labels (valueAt values main) with
  | none =>
    rw [hchoice] at hturned
    obtain ⟨_, _, rfl, ⟨rfl, hempty⟩, rfl, hidle⟩ := hturned
    have hshows : (IcuPlan.mk kind main current cases).Shows root v (some values) p [] :=
      IcuPlan.shows_iff.mpr (.inl ⟨hl ▸ hchoice, hempty, rfl, hidle⟩)
    have hdone := yields_pure (Q := fun _ v' => v.Keeps root (current :: cases.slots) (· = p) v' ∧ ∃ tops',
      (IcuPlan.mk kind main current cases).scene root (some values) p v' tops' ∧
        v'.tree.children p = pre ++ (tops' ++ post)) (a := ()) ⟨.refl hs _ _, [], hshows, hchildren⟩
    unfold updateOps
    split
    · exact hdone
    · refine yields_forM_singleton ?_
      unfold applyUpdate
      split
      · unfold applyChanged
        rw [composed_eq values hparts, pure_bind]
        dsimp only
        rw [hreg.icu?_eq]
        unfold updateCase
        exact Yields.andThen (yields_currentCase rfl hempty) hdone
      · unfold applyPending
        dsimp only
        rw [hreg.icu?_eq]
        exact Yields.andThen (yields_currentCase rfl hempty) hdone
  | some k =>
    rw [hchoice] at hturned
    obtain ⟨fresh, own, hcases, hown⟩ := hturned
    obtain ⟨_, tops, rfl, ⟨rfl, hcurrent⟩, hshows⟩ := id hcases
    -- Without an instruction that runs, the values make no difference.
    have hstays : (∀ ops : List UpdateOp, (∀ op ∈ ops, op ∈ cases.updates) → ∀ c,
        shown own ops c = shown (some values) ops c) → (fresh = true → cases.updates = []) →
        (IcuPlan.mk kind main current cases).scene root (some values) p v tops := fun hsame hfresh =>
      scene_of_chosen hchoice hfresh hl ⟨[], tops, rfl, ⟨rfl, hcurrent⟩, hshows.own_congr hsame⟩
    unfold updateOps
    split
    · next hzero =>
      have hnil := CasePlans.updates_eq_nil hzero
      refine yields_pure ⟨.refl hs _ _, tops, hstays (fun ops hops c => ?_) fun _ => hnil, hchildren⟩
      have : ops = [] := by
        refine eq_nil_iff_forall_not_mem.mpr fun op hop => ?_
        have hmem := hops op hop
        rw [hnil] at hmem
        cases hmem
      rw [this]
      cases own <;> rfl
    · have hall : Refreshes Mask.all own values := ⟨fun _ => rfl, fun E _ => covers_all E values⟩
      refine yields_forM_singleton ?_
      unfold applyUpdate
      split
      · unfold applyChanged
        rw [composed_eq values hparts, pure_bind]
        dsimp only
        rw [hreg.icu?_eq]
        refine exchanges_updateCase ?_ hsteady' hchoice v pre _ post hl hregion hcases hchildren
        cases fresh with
        | true => exact hall
        | false =>
          rcases hown with ⟨-, hfresh⟩ | ⟨rfl, hsome, -⟩
          · cases hfresh
          · exact ⟨fun hnone => (by rw [hnone] at hsome; cases hsome), hcovers⟩
      · next hmeets =>
        unfold applyPending
        dsimp only
        rw [hreg.icu?_eq]
        refine Yields.andThen (yields_currentCase rfl hcurrent) ?_
        cases fresh with
        | true => exact exchanges_updateCase (by exact hall) hsteady' hchoice v pre _ post hl hregion hcases hchildren
        | false =>
          refine yields_pure ⟨.refl hs _ _, tops, hstays (fun ops hops c => ?_) Bool.noConfusion, hchildren⟩
          rcases hown with ⟨-, hfresh⟩ | ⟨rfl, hsome, -⟩
          · cases hfresh
          · obtain ⟨E, rfl⟩ := Option.isSome_iff_exists.mp hsome
            refine committed_congr (fun op hop => ?_) c
            exact (cases.updates_writes op (hops op hop)).value_eq (hcovers E rfl)
              (CasePlans.meets_mask (Bool.not_eq_true _ ▸ hmeets) op (hops op hop))

end Switch

/-! ### The stream -/

section Stream

variable {root : Nat} {t : TemplateView} {depth updateDepth : Nat} {values : List String} {changes : Mask}
  {locale : Locale}

mutual

theorem exchanges_stream : ∀ (plan : Plan) (parent : Int) (own old : Option (List String)),
    (∀ E, old = some E → Covers changes E values) → ∀ p : Nat, plan.Registered t parent →
      Ready t depth locale values parent plan.slots plan.choices →
        Exchanges root locale p plan.slots (plan.scene root own old p)
          (plan.stream.forM (applyUpdate t depth (applyUpdatesTo t values (updateDepth + 1)) values changes))
          (plan.scene root own (some values) p)
  | .nil, _, _, _, _, _, _, _ => .refl fun _ _ h => h
  | .text slot value rest, parent, own, old, hcovers, p, hreg, hready => by
    have hrest := exchanges_stream rest parent own old hcovers p hreg.2
      (hready.mono (sublist_cons_self _ _) (List.Subset.refl _))
    rw [scene_text, scene_text]
    exact hrest.right (.node (fun id => framed_bare root id []) _) rest.framed
  | .element slot tag fixed bound content rest, parent, own, old, hcovers, p, hreg, hready => .of_nodup fun hnodup => by
    have hcontent := fun id => exchanges_stream content slot own old hcovers id hreg.2.1
      (hready.inner (nodup_cons.mp hnodup).1 (sublist_append_left _ _) (subset_append_left _ _))
    have hrest := exchanges_stream rest parent own old hcovers p hreg.2.2
      (hready.mono sublist_after (subset_append_right _ _))
    rw [scene_element, scene_element, Plan.stream, forM_append_eq]
    exact (Exchanges.inner hcontent).seq hrest rest.framed (.node (fun id => content.framed) _)
  | .icu slot label icu rest, parent, own, old, hcovers, p, hreg, hready => by
    have hrest := exchanges_stream rest parent own old hcovers p hreg.2.2
      (hready.mono sublist_after (subset_append_right _ _))
    rw [scene_icu, scene_icu, Plan.stream, forM_append_eq]
    refine Exchanges.seq (A := slot :: icu.slots) ?_ hrest rest.framed (icu.framed_anchored slot label)
    rintro v pre _ post hl hregion ⟨front, _, rfl, hicu, id, _, rfl, hslot, hcell, rfl⟩ hchildren
    rw [append_assoc] at hchildren
    refine (yields_icuStream icu parent slot old hcovers v p id pre front post hl hreg.2.1
      (hready.mono ((sublist_append_left _ _).cons slot) (subset_append_left _ _)) (hready.steady slot mem_cons_self hreg.1)
      (hregion.right (A := [slot])) hslot (nodup_cons.mp hregion.nodup).1 (Tree.parent?_of_cell hcell) hicu
      hchildren).mono ?_
    rintro _ v' ⟨hk, front', hicu', hchildren'⟩
    have hanchor := Framed.node (fun id => framed_bare root id []) (.comment label) _ _ _ hregion.below
      ⟨id, [], rfl, hslot, hcell, rfl⟩ (hregion.carries_left (A := [slot]) hk)
    refine ⟨hk.widen (subset_cons_self _ _), front' ++ [id], ⟨front', [id], rfl, hicu', hanchor⟩, ?_⟩
    rw [hchildren', append_assoc]
    rfl

theorem yields_icuStream : ∀ (icu : IcuPlan) (parent : Int) (anchor : Nat) (old : Option (List String)),
    (∀ E, old = some E → Covers changes E values) → ∀ (v : LiveView) (p id : Nat) (pre tops post : List Nat),
      v.locale = locale → icu.Registered t parent anchor →
      Ready t depth locale values parent icu.slots icu.choices → SteadyAt t anchor → v.Region root icu.slots p →
      v.slots[anchor]? = some (.node id) → anchor ∉ icu.slots → v.tree.parent? id = some p →
      icu.Shows root v old p tops → v.tree.children p = pre ++ (tops ++ id :: post) →
        Yields ((icu.stream anchor).forM (applyUpdate t depth (applyUpdatesTo t values (updateDepth + 1)) values
          changes)) v fun _ v' => v.Keeps root icu.slots (· = p) v' ∧
            ∃ tops', icu.Shows root v' (some values) p tops' ∧ v'.tree.children p = pre ++ (tops' ++ id :: post)
  | .mk kind main current cases, parent, anchor, old, hcovers, v, p, id, pre, tops, post, hl, hreg, hready, hsteady,
      hregion, hslot, hnotin, hid, hshows, hchildren => by
    obtain ⟨hmain, hcategory⟩ := hready.decides (kind, main) mem_cons_self
    rw [← hl] at hcategory
    have hcases := hready.mono (sublist_cons_self current cases.slots) (subset_cons_self _ _)
    refine yields_forM_cons (yields_switchOp hreg hready.depth_le hready.parent_ne hregion hslot hnotin hid
      hshows hchildren hmain hcategory hcovers _) ?_
    rintro v₁ ⟨h₁, tops₁, hturned, hchildren₁⟩
    rw [hl] at hturned
    have hnested : Exchanges root locale p (current :: cases.slots) ((IcuPlan.mk kind main current cases).turned root
          (chooseCase kind locale cases.labels (valueAt values main)) old none p)
        (cases.stream.forM (applyUpdate t depth (applyUpdatesTo t values (updateDepth + 1)) values changes))
        ((IcuPlan.mk kind main current cases).turned root
          (chooseCase kind locale cases.labels (valueAt values main)) old (some values) p) := by
      cases chooseCase kind locale cases.labels (valueAt values main) with
      | none => exact (exchanges_idleCasesStream hreg.2.2 hcases p).right (framed_choosing current .empty) cases.framed_idle
      | some k =>
        rintro w pre tops post hl hregion ⟨fresh, own, hturned, hown⟩ hchildren
        have hcoversOwn : ∀ E, own = some E → Covers changes E values := by
          intro E hE
          rcases hown with ⟨hnone, -⟩ | ⟨hold, -, -⟩
          · rw [hnone] at hE
            cases hE
          · exact hcovers E (hold ▸ hE)
        refine ((exchanges_casesStream cases parent own own hcoversOwn k p hreg.2.2 hcases).right
          (framed_choosing current _) cases.framed w pre tops post hl hregion hturned hchildren).mono ?_
        rintro _ w' ⟨hk, tops', hturned', hchildren'⟩
        exact ⟨hk, tops', ⟨fresh, own, hturned', hown⟩, hchildren'⟩
    rw [forM_append_eq]
    refine (hnested.trans (exchanges_updateOps hreg hcovers hsteady) v₁ pre tops₁ (id :: post) (h₁.locale.trans hl)
      (hregion.keeps h₁ hregion.free) hturned hchildren₁).mono ?_
    exact fun _ v₂ ⟨h₂, hshown⟩ => ⟨h₁.trans hregion.sound h₂, hshown⟩

theorem exchanges_casesStream : ∀ (cases : CasePlans) (parent : Int) (own nested : Option (List String)),
    (∀ E, nested = some E → Covers changes E values) → ∀ k p : Nat, cases.Registered t parent →
      Ready t depth locale values parent cases.slots cases.choices →
        Exchanges root locale p cases.slots (cases.scene root own nested p k)
          (cases.stream.forM (applyUpdate t depth (applyUpdatesTo t values (updateDepth + 1)) values changes))
          (cases.scene root own (some values) p k)
  | .nil, _, _, _, _, _, _, _, _ => fun _ _ _ _ _ _ h => absurd h id
  | .cons label content rest, parent, own, nested, hcovers, 0, p, hreg, hready => by
    have hcontent := exchanges_stream content parent own nested hcovers p hreg.1
      (hready.mono (sublist_append_left _ _) (subset_append_left _ _))
    rw [scene_first, scene_first, CasePlans.stream, forM_append_eq]
    exact hcontent.seq (exchanges_idleCasesStream hreg.2
      (hready.mono (sublist_append_right _ _) (subset_append_right _ _)) p) rest.framed_idle content.framed
  | .cons label content rest, parent, own, nested, hcovers, k + 1, p, hreg, hready => by
    have hrest := exchanges_casesStream rest parent own nested hcovers k p hreg.2
      (hready.mono (sublist_append_right _ _) (subset_append_right _ _))
    rw [scene_later, scene_later, CasePlans.stream, forM_append_eq]
    exact (exchanges_idleStream hreg.1 (hready.mono (sublist_append_left _ _) (subset_append_left _ _)) p).seq hrest
      rest.framed content.framed_idle

end

end Stream

end MessageCompiler
