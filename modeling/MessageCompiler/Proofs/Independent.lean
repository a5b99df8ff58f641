/-
Messages that take turns.

Several messages are started in one view, and then values are bound in one of them after the other. What the host shows
in the end does not depend on whose turn it was when, but only on what each message was given: a message works with
slots of its own, and what it shows stands in front of anchors of its own.
-/
import MessageCompiler.Proofs.Interleaving
import MessageCompiler.Proofs.Owners
import MessageCompiler.Proofs.Sharing

namespace MessageCompiler

open List
open Live LiveView

/-! ### Turns -/

/-- What is done before values are bound: a message is started, or a new element is attached to a placeholder. -/
inductive Setup (ι : Type) where
  | start (who : ι)
  | attach (slot : Int) (tag : String)

/-- Values are bound in one of the messages. -/
structure Turn (ι : Type) where
  who : ι
  values : List String

def Turn.valuesOf {ι : Type} [DecidableEq ι] (who : ι) (turns : List (Turn ι)) : List (List String) :=
  (turns.filter (·.who = who)).map (·.values)

/-- The turns of all messages in some order, those of each message in its own order. -/
def Interleaves {ι : Type} [DecidableEq ι] (updates : ι → List (List String)) (turns : List (Turn ι)) : Prop :=
  ∀ who, Turn.valuesOf who turns = updates who

namespace LiveBlock

variable {ι : Type} [DecidableEq ι]

def setUp (t : TemplateView) (bs : ι → LiveBlock) : Setup ι → LiveM (ι → LiveBlock)
  | .start who => do
    let b ← LiveBlock.start (bs who).block
    return Function.update bs who b
  | .attach slot tag => do
    attachNew t (slot, tag)
    return bs

def turn (t : TemplateView) (bs : ι → LiveBlock) (x : Turn ι) : LiveM (ι → LiveBlock) := do
  let b ← (bs x.who).update t x.values
  return Function.update bs x.who b

def takeTurns (t : TemplateView) (bs : ι → LiveBlock) (turns : List (Turn ι)) : LiveM (ι → LiveBlock) :=
  turns.foldlM (turn t) bs

end LiveBlock

def nodesAfter {α : Type} : EStateM.Result Fault Run α → Except Fault (List Markup.Node)
  | .ok _ r => .ok (Command.hostNodes r.view)
  | .error e _ => .error e

/-- The nodes inside a new host after the messages were set up and took their turns. -/
def renderedTogether {ι : Type} [DecidableEq ι] (t : TemplateView) (blocks : ι → Block) (host : String)
    (locale : Locale) (setup : List (Setup ι)) (turns : List (Turn ι)) : Except Fault (List Markup.Node) :=
  nodesAfter ((do
    let bs ← setup.foldlM (LiveBlock.setUp t) fun who => ⟨blocks who, .new⟩
    LiveBlock.takeTurns t bs turns).run ⟨.new t (some host) locale, [], []⟩)

/-! ### Together and alone -/

section Settled

variable {ι : Type} {S : ι → Stage} {base : LiveView}

/-- How it went for all messages, and how it went for each of them alone: what they have made of the view is what they
have made of it alone, or one of them has failed alone as well. -/
inductive Settled (S : ι → Stage) (base : LiveView) : EStateM.Result Fault Run (ι → LiveBlock) →
    (ι → EStateM.Result Fault Run LiveBlock) → Prop where
  | ok {bs : ι → LiveBlock} {r : Run} {rs : ι → Run} {os : ι → EStateM.Result Fault Run LiveBlock}
      (hos : ∀ i, os i = .ok (bs i) (rs i))
      (h : ∃ name own front, Shared S base name own front (fun i => (rs i).view) r.view) : Settled S base (.ok bs r) os
  | error {e e' : Fault} {r s : Run} {os : ι → EStateM.Result Fault Run LiveBlock} {i : ι} (h : os i = .error e' s) :
      Settled S base (.error e r) os

variable {o o' : EStateM.Result Fault Run (ι → LiveBlock)} {os : ι → EStateM.Result Fault Run LiveBlock}

theorem Settled.exists_nodes_iff (h : Settled S base o os) :
    (∃ nodes, nodesAfter o = .ok nodes) ↔ ∀ i, ∃ b r, os i = .ok b r := by
  cases h with
  | ok hos h => exact ⟨fun _ i => ⟨_, _, hos i⟩, fun _ => ⟨_, rfl⟩⟩
  | @error e e' r s _ i h =>
    refine ⟨fun ⟨_, hnodes⟩ => (by cases hnodes), fun hos => ?_⟩
    obtain ⟨b, r', hi⟩ := hos i
    cases h.symm.trans hi

theorem Settled.nodesAfter_eq (hS : Separate S base) (hhost : ∀ host, base.host = some host →
      host < base.tree.size ∧ base.tree.parent? host = none)
    (h : Settled S base o os) (h' : Settled S base o' os) : (nodesAfter o).toOption = (nodesAfter o').toOption := by
  cases h with
  | @ok bs r rs _ hos hshared =>
    cases h' with
    | @ok bs' r' rs' _ hos' hshared' =>
      obtain ⟨_, _, _, hshared⟩ := hshared
      obtain ⟨_, _, _, hshared'⟩ := hshared'
      have hrs : rs = rs' := by
        funext i
        exact (EStateM.Result.ok.inj ((hos i).symm.trans (hos' i))).2
      subst hrs
      exact congrArg some (hshared.hostNodes_eq hS hhost hshared')
    | @error e e' r' s _ i h' => cases (hos i).symm.trans h'
  | @error e e' r s _ i h =>
    cases h' with
    | @ok bs' r' rs' _ hos' hshared' => cases (hos' i).symm.trans h
    | error h' => rfl

variable [DecidableEq ι]

theorem Turn.valuesOf_cons (who : ι) (x : Turn ι) (turns : List (Turn ι)) : Turn.valuesOf who (x :: turns) =
      if x.who = who then x.values :: Turn.valuesOf who turns else Turn.valuesOf who turns := by
  unfold Turn.valuesOf
  rw [filter_cons]
  by_cases h : x.who = who <;> simp [h]

theorem Turn.valuesOf_map (who i : ι) (updates : List (List String)) :
    Turn.valuesOf i (updates.map fun values => (⟨who, values⟩ : Turn ι)) = if who = i then updates else [] := by
  induction updates with
  | nil => simp [Turn.valuesOf]
  | cons values rest ih =>
    rw [map_cons, Turn.valuesOf_cons, ih]
    by_cases h : who = i <;> simp [h]

theorem LiveBlock.takeTurns_cons (t : TemplateView) (bs : ι → LiveBlock) (x : Turn ι) (turns : List (Turn ι)) :
    LiveBlock.takeTurns t bs (x :: turns) =
      ((bs x.who).update t x.values >>= fun b => LiveBlock.takeTurns t (Function.update bs x.who b) turns) := by
  show LiveBlock.turn t bs x >>= _ = _
  unfold LiveBlock.turn
  simp only [bind_assoc, pure_bind]
  rfl

/-- **Each message takes its turns as if it were alone.** -/
theorem settled_takeTurns {t : TemplateView} (hS : Separate S base) : ∀ (turns : List (Turn ι)) (bs : ι → LiveBlock)
    (r : Run) (rs : ι → Run), (∀ i, ∀ op ∈ (bs i).block.update, op.OnStage t (S i)) →
      (∃ name own front, Shared S base name own front (fun i => (rs i).view) r.view) →
        Settled S base (LiveBlock.takeTurns t bs turns r) fun i => (bs i).updateAll t (Turn.valuesOf i turns) (rs i)
  | [], bs, r, rs, _, h => .ok (fun _ => rfl) h
  | x :: turns, bs, r, rs, hops, ⟨name, own, front, hshared⟩ => by
    obtain ⟨name', hbeside⟩ := hshared.exists_beside x.who
    have hupdate := tandem_update (hS.follows name' _ x.who) hbeside (hops x.who) x.values (rs x.who) r rfl rfl
    have halone : (bs x.who).updateAll t (Turn.valuesOf x.who (x :: turns)) =
        ((bs x.who).update t x.values >>= fun b => b.updateAll t (Turn.valuesOf x.who turns)) := by
      rw [Turn.valuesOf_cons, if_pos rfl]
      rfl
    rw [LiveBlock.takeTurns_cons]
    -- the update in the shared view goes along with the one in the view of the message
    generalize hrun' : (bs x.who).update t x.values (rs x.who) = o' at hupdate
    generalize hrun : (bs x.who).update t x.values r = o at hupdate
    cases hupdate with
    | @error e r₁' r₁ =>
      rw [Steps.bind_of_error hrun]
      exact .error (i := x.who) (by rw [halone, Steps.bind_of_error hrun'])
    | @ok b r₁' r₁ h =>
      obtain ⟨hblock, own', front', hshared'⟩ := h.imp_right Beside.shared
      have hops' : ∀ i, ∀ op ∈ (Function.update bs x.who b i).block.update, op.OnStage t (S i) :=
        (Function.forall_update_iff bs fun i b => ∀ op ∈ b.block.update, op.OnStage t (S i)).mpr
          ⟨hblock ▸ hops x.who, fun i _ => hops i⟩
      have hviews : Function.update (fun i => (rs i).view) x.who r₁'.view =
          fun i => (Function.update rs x.who r₁' i).view :=
        funext fun i => (Function.apply_update (fun _ => Run.view) rs x.who r₁' i).symm
      rw [hviews] at hshared'
      have hsettled := settled_takeTurns hS turns _ r₁ _ hops' ⟨name', own', front', hshared'⟩
      have hos : (fun i => (bs i).updateAll t (Turn.valuesOf i (x :: turns)) (rs i)) = fun i =>
          (Function.update bs x.who b i).updateAll t (Turn.valuesOf i turns) (Function.update rs x.who r₁' i) := by
        funext i
        by_cases hi : i = x.who
        · subst hi
          rw [halone, Steps.bind_of_ok hrun', Function.update_self, Function.update_self]
        · rw [Turn.valuesOf_cons, if_neg (fun heq => hi heq.symm), Function.update_of_ne hi, Function.update_of_ne hi]
      rw [Steps.bind_of_ok hrun, hos]
      exact hsettled

end Settled

/-! ### Two messages -/

/-- Two messages that are registered in the template, in slots of their own. -/
structure Duet (t : TemplateView) (block : Bool → Block) (parent : Bool → Int) (items : Bool → List RootItem) :
    Prop where
  create_eq : ∀ who, (block who).create = (items who).map RootItem.create
  update_eq : ∀ who, (block who).update = (items who).flatMap RootItem.stream
  registered : ∀ who, ∀ item ∈ items who, item.Registered t (parent who)
  nodup : ((items false ++ items true).flatMap RootItem.slots).Nodup
  lt : ∀ who, ∀ item ∈ items who, ∀ s ∈ item.slots, s < t.size

namespace Duet

variable {t : TemplateView} {block : Bool → Block} {parent : Bool → Int} {items : Bool → List RootItem} {n : Nat}
  {locale : Locale} {base : LiveView}

theorem mem_all {who : Bool} {item : RootItem} (hitem : item ∈ items who) : item ∈ items false ++ items true := by
  cases who with
  | false => exact mem_append_left _ hitem
  | true => exact mem_append_right _ hitem

theorem exists_mem {item : RootItem} (hitem : item ∈ items false ++ items true) : ∃ who, item ∈ items who :=
  (mem_append.mp hitem).elim (⟨false, ·⟩) (⟨true, ·⟩)

variable (h : Duet t block parent items)

include h

theorem yields_setUp (setup : List (Setup Bool)) : ∀ v : LiveView,
    v.Prepared 0 (items false ++ items true) t.size locale →
      Yields (setup.foldlM (LiveBlock.setUp t) fun who => ⟨block who, .new⟩) v fun bs w =>
        (bs = fun who => ⟨block who, .new⟩) ∧ w.Prepared 0 (items false ++ items true) t.size locale := by
  induction setup with
  | nil => exact fun v hv => yields_pure ⟨rfl, hv⟩
  | cons step rest ih =>
    intro v hv
    refine yields_foldlM_cons (P := fun bs w => (bs = fun who => ⟨block who, .new⟩) ∧
      w.Prepared 0 (items false ++ items true) t.size locale) ?_ ?_
    · cases step with
      | start who =>
        have hcreate := yields_applyCreate h.nodup (fun item hitem => ?_) (items who) v (fun item => mem_all) hv
        · refine (yields_start (h.create_eq who) hcreate).bind ?_
          grind [yields_pure, Function.update_eq_self]
        · obtain ⟨who, hwho⟩ := exists_mem hitem
          exact h.lt who item hwho _ mem_cons_self
      | attach slot tag =>
        refine (yields_attachNew hv (fun item hitem => ?_) (slot, tag)).bind fun _ w hw => yields_pure ⟨rfl, hw⟩
        obtain ⟨who, hwho⟩ := exists_mem hitem
        exact (h.registered who item hwho).type_ne
    · grind

theorem exists_setUp (host : String) (locale : Locale) (setup : List (Setup Bool)) :
    ∃ r : Run, r.view.Prepared 0 (items false ++ items true) t.size locale ∧ ∀ turns,
      renderedTogether t block host locale setup turns =
        nodesAfter (LiveBlock.takeTurns t (fun who => ⟨block who, .new⟩) turns r) := by
  have hnew : (LiveView.new t (some host) locale).Prepared 0 (items false ++ items true) t.size locale := by
    refine prepared_new t host locale fun item hitem s hs => ?_
    obtain ⟨who, hwho⟩ := exists_mem hitem
    exact h.lt who item hwho s (mem_cons_of_mem _ hs)
  obtain ⟨_, r, hrun, rfl, hr⟩ := h.yields_setUp setup _ hnew ⟨_, [], []⟩ rfl
  refine ⟨r, hr, fun turns => ?_⟩
  exact congrArg nodesAfter (Steps.bind_of_ok hrun)

theorem nodup_slots (who : Bool) : ((items who).flatMap RootItem.slots).Nodup := by
  have hnodup := h.nodup
  rw [flatMap_append, nodup_append] at hnodup
  cases who with
  | false => exact hnodup.1
  | true => exact hnodup.2.1

theorem slots_disjoint {i j : Bool} (hij : i ≠ j) {s : Nat} (hi : s ∈ (items i).flatMap RootItem.slots) :
    s ∉ (items j).flatMap RootItem.slots := by
  have hnodup := h.nodup
  rw [flatMap_append, nodup_append] at hnodup
  intro hj
  cases i with
  | false =>
    cases j with
    | false => exact hij rfl
    | true => exact hnodup.2.2 s hi s hj rfl
  | true =>
    cases j with
    | false => exact hnodup.2.2 s hj s hi rfl
    | true => exact hij rfl

theorem onStage (base : LiveView) (who : Bool) :
    ∀ op ∈ (block who).update, op.OnStage t (stageOf (items who) base) := by
  rw [h.update_eq who]
  exact onStage_of_registered (h.registered who) (h.nodup_slots who) base

theorem separate (hbase : base.Prepared 0 (items false ++ items true) n locale) :
    Separate (fun who => stageOf (items who) base) base := by
  have hslot : ∀ who s, s ∈ (stageOf (items who) base).anchors ∨ s ∈ (stageOf (items who) base).texts →
      ∃ item ∈ items who, item.slot = s := by
    rintro who s (hs | hs)
    all_goals
      obtain ⟨item, hitem, rfl⟩ := mem_map.mp hs
      exact ⟨item, (mem_filter.mp hitem).1, rfl⟩
  have hroot : ∀ who s, s ∈ (stageOf (items who) base).anchors ∨ s ∈ (stageOf (items who) base).texts →
      s ∈ (items who).flatMap RootItem.slots := by
    intro who s hs
    obtain ⟨item, hitem, rfl⟩ := hslot who s hs
    exact mem_flatMap.mpr ⟨item, hitem, mem_cons_self⟩
  have hinner : ∀ who, ∀ s ∈ (stageOf (items who) base).inner, s ∈ (items who).flatMap RootItem.slots := by
    intro who s hs
    obtain ⟨item, hitem, hs⟩ := mem_flatMap.mp hs
    exact mem_flatMap.mpr ⟨item, hitem, mem_cons_of_mem _ hs⟩
  refine {
    linked := hbase.sound.linked
    limit := fun _ => rfl
    slot_lt := hbase.sound.slot_lt
    calm_lt := fun who x hx => ?_
    outside := fun i j s hs hmem => ?_
    inner := fun i j hij s hi hj => h.slots_disjoint hij (hinner i s hi) (hinner j s hj)
    texts := fun i j hij k => ?_
    calm := fun i j hij x hi hj => ?_ }
  · obtain ⟨s, -, hs⟩ := mem_filterMap.mp hx
    exact hbase.sound.slot_lt s x (slot_of_node? hs)
  · obtain ⟨item, hitem, rfl⟩ := hslot i s hs
    obtain ⟨other, hother, hmem⟩ := mem_flatMap.mp hmem
    exact slot_notMem_inner h.nodup (mem_all hitem) other (mem_all hother) hmem
  · -- no two slots hold the same node
    rintro ⟨s, hs, hk⟩ ⟨s', hs', hk'⟩
    cases hbase.sound.slot_inj s s' k hk hk'
    exact h.slots_disjoint hij (hroot i s (.inr hs)) (hroot j s (.inr hs'))
  · obtain ⟨s, hs, hx⟩ := mem_filterMap.mp hi
    obtain ⟨s', hs', hx'⟩ := mem_filterMap.mp hj
    cases hbase.sound.slot_inj s s' x (slot_of_node? hx) (slot_of_node? hx')
    exact h.slots_disjoint hij (hroot i s (.inl hs)) (hroot j s (.inl hs'))

theorem settled {r : Run} (hr : r.view.Prepared 0 (items false ++ items true) n locale) (turns : List (Turn Bool)) :
    Settled (fun who => stageOf (items who) r.view) r.view
      (LiveBlock.takeTurns t (fun who => ⟨block who, .new⟩) turns r)
      fun who => LiveBlock.updateAll t ⟨block who, .new⟩ (Turn.valuesOf who turns) r := by
  have hS := h.separate hr
  have hready : ∀ who, r.view.OnStage (stageOf (items who) r.view) r.view := fun who =>
    (LiveView.Prepared.ready { hr with inner := fun item hitem => hr.inner item (mem_all hitem) }
      (h.nodup_slots who)).onStage
  exact settled_takeTurns hS turns _ r (fun _ => r) (fun who => h.onStage r.view who) ⟨_, _, _, .refl hS hready⟩

variable (host : String) (locale : Locale) (setup : List (Setup Bool)) {updates : Bool → List (List String)}
  {turns turns' : List (Turn Bool)}

theorem rendered_eq (hturns : Interleaves updates turns) (hturns' : Interleaves updates turns') :
    (renderedTogether t block host locale setup turns).toOption =
      (renderedTogether t block host locale setup turns').toOption := by
  obtain ⟨r, hr, hrendered⟩ := h.exists_setUp host locale setup
  have hsettled := h.settled hr turns
  have hsettled' := h.settled hr turns'
  simp only [hturns _] at hsettled
  simp only [hturns' _] at hsettled'
  rw [hrendered, hrendered]
  refine Settled.nodesAfter_eq (h.separate hr) (fun k hk => ?_) hsettled hsettled'
  cases hr.host.symm.trans hk
  exact ⟨hr.sound.root_lt, hr.sound.root_parent⟩

theorem exists_rendered_iff (hturns : Interleaves updates turns) :
    (∃ nodes, renderedTogether t block host locale setup turns = .ok nodes) ↔ ∀ who, ∃ nodes,
      renderedTogether t block host locale setup ((updates who).map fun values => ⟨who, values⟩) = .ok nodes := by
  obtain ⟨r, hr, hrendered⟩ := h.exists_setUp host locale setup
  have hiff : ∀ turns, (∃ nodes, renderedTogether t block host locale setup turns = .ok nodes) ↔ ∀ who, ∃ b s,
      LiveBlock.updateAll t ⟨block who, .new⟩ (Turn.valuesOf who turns) r = .ok b s := by
    intro turns
    rw [hrendered]
    exact (h.settled hr turns).exists_nodes_iff
  rw [hiff turns]
  refine forall_congr' fun who => ?_
  rw [hiff, hturns who]
  constructor
  · intro hwho i
    rw [Turn.valuesOf_map]
    by_cases hi : who = i
    · rw [if_pos hi, ← hi]
      exact hwho
    · rw [if_neg hi]
      exact ⟨_, _, rfl⟩
  · intro hall
    have hwho := hall who
    rwa [Turn.valuesOf_map, if_pos rfl] at hwho

end Duet

namespace TemplateView

variable {t t₁ t' : TemplateView} {taken taken' : Nat → Prop}

theorem Later.trans (h : t.Later taken t₁) (h' : t₁.Later taken' t') (hsub : ∀ k, taken k → taken' k) :
    t.Later taken t' := by
  induction h' with
  | refl => exact h
  | compile _ cfg site message scope hindex ih =>
    exact ih.compile cfg site message scope fun k hk => hindex k (hsub k hk)
  | compileAttributes _ cfg index element values hindex ih =>
    exact ih.compileAttributes cfg index element values fun k hk => hindex k (hsub k hk)

theorem Later.reachable (ht : t.Reachable) (h : t.Later taken t') : t'.Reachable := by
  induction h with
  | refl => exact ht
  | compile _ cfg site message scope _ ih => exact ih.compile cfg site message scope
  | compileAttributes _ cfg index element values _ ih => exact ih.compileAttributes cfg index element values

end TemplateView

theorem Compiled.duet {t t₁ t₂ t₃ t' : TemplateView} {block block' : Block} {parent parent' : Int}
    {items items' : List RootItem} (h : Compiled t t₁ block parent items) (h' : Compiled t₂ t₃ block' parent' items')
    (hle : t₁.size ≤ t₂.size) (hle₁ : t₁.size ≤ t'.size) (hle₃ : t₃.size ≤ t'.size)
    (hregistered : ∀ item ∈ items, item.Registered t' parent)
    (hregistered' : ∀ item ∈ items', item.Registered t' parent') :
    Duet t' (fun who => cond who block' block) (fun who => cond who parent' parent)
      fun who => cond who items' items := by
  refine ⟨?_, ?_, ?_, ?_, ?_⟩
  · exact Bool.forall_bool.mpr ⟨h.create_eq, h'.create_eq⟩
  · exact Bool.forall_bool.mpr ⟨h.update_eq, h'.update_eq⟩
  · exact Bool.forall_bool.mpr ⟨hregistered, hregistered'⟩
  · -- the second message begins where the view ended after the first, or later
    show ((items ++ items').flatMap RootItem.slots).Nodup
    rw [flatMap_append]
    refine nodup_append.mpr ⟨h.increasing.nodup, h'.increasing.nodup, fun s hs s' hs' heq => ?_⟩
    have := (h.increasing.2.2 s hs).2
    have := (h'.increasing.2.2 s' hs').1
    omega
  · refine Bool.forall_bool.mpr ⟨fun item hitem s hs => ?_, fun item hitem s hs => ?_⟩
    · exact Nat.lt_of_lt_of_le (h.increasing.2.2 s (mem_flatMap.mpr ⟨item, hitem, hs⟩)).2 hle₁
    · exact Nat.lt_of_lt_of_le (h'.increasing.2.2 s (mem_flatMap.mpr ⟨item, hitem, hs⟩)).2 hle₃

open TemplateView in
/-- Two messages are accepted in one view, one after the other, and are set up in a new live view: they are started, and
elements are attached to placeholders. Then the host shows the same however their updates are interleaved, and no
update fails unless it fails also without the other message. More may have been compiled between the two messages and
after them, and the view may have been used before. -/
theorem renderedTogether_eq_of_interleaves {t t₂ t' : TemplateView} (ht : t.Reachable) (cfg₁ cfg₂ : Config)
    (site₁ site₂ : Site) (message₁ message₂ : String) (scope₁ scope₂ : Message.Scope) {handle₁ handle₂ : Handle}
    (hnew₁ : ∀ serial block, t.slot? site₁.index ≠ some (.block serial block))
    (hok₁ : (t.compile cfg₁ site₁ message₁ scope₁).result = .ok handle₁)
    (hlater₁ : (t.compile cfg₁ site₁ message₁ scope₁).view.Later
      (t.Added (t.compile cfg₁ site₁ message₁ scope₁).view) t₂)
    (hnew₂ : ∀ serial block, t₂.slot? site₂.index ≠ some (.block serial block))
    (hindex₂ : ∀ k : Nat, t.Added (t.compile cfg₁ site₁ message₁ scope₁).view k → site₂.index ≠ k)
    (hok₂ : (t₂.compile cfg₂ site₂ message₂ scope₂).result = .ok handle₂)
    (hlater₂ : (t₂.compile cfg₂ site₂ message₂ scope₂).view.Later
      (fun k => t.Added (t.compile cfg₁ site₁ message₁ scope₁).view k ∨
        t₂.Added (t₂.compile cfg₂ site₂ message₂ scope₂).view k) t')
    (host : String) (locale : Locale) (setup : List (Setup Bool)) {updates : Bool → List (List String)}
    {turns turns' : List (Turn Bool)} (hturns : Interleaves updates turns) (hturns' : Interleaves updates turns') :
    let shown := renderedTogether t' (fun who => cond who handle₂.block handle₁.block) host locale setup
    (shown turns).toOption = (shown turns').toOption ∧ ((∃ nodes, shown turns = .ok nodes) ↔
        ∀ who, ∃ nodes, shown ((updates who).map fun values => ⟨who, values⟩) = .ok nodes) := by
  intro shown
  have hstart : ∀ {t : TemplateView} (_ : t.Sound) (cfg : Config) (site : Site) (message : String)
      (scope : Message.Scope), (t.compile cfg site message scope).view.bindingStart = t.bindingStart :=
    fun hs cfg site message scope =>
      (retains_compile hs cfg site message scope (fun _ (h : False) => h.elim) fun _ h => h.elim).2.2
  have ht₂ := hlater₁.reachable (ht.compile cfg₁ site₁ message₁ scope₁)
  obtain ⟨items₁, hc₁⟩ := compiled_compile ht.sound hnew₁ hok₁
  obtain ⟨items₂, hc₂⟩ := compiled_compile ht₂.sound hnew₂ hok₂
  -- what each message has registered is still there in the end
  have hfirst := hc₁.registered_later ht.sound (ht.sound.compile _ _ _ _) (hstart ht.sound _ _ _ _) hlater₁
  obtain ⟨hle₁, hregistered₁⟩ := hc₁.registered_later ht.sound (ht.sound.compile _ _ _ _)
    (hstart ht.sound _ _ _ _) ((hlater₁.compile cfg₂ site₂ message₂ scope₂ hindex₂).trans hlater₂ fun k => .inl)
  obtain ⟨hle₂, hregistered₂⟩ := hc₂.registered_later ht₂.sound (ht₂.sound.compile _ _ _ _)
    (hstart ht₂.sound _ _ _ _) (Later.refl.trans hlater₂ fun k => .inr)
  have hduet := hc₁.duet hc₂ hfirst.1 hle₁ hle₂ hregistered₁ hregistered₂
  exact ⟨hduet.rendered_eq host locale setup hturns hturns', hduet.exists_rendered_iff host locale setup hturns⟩

def jointMarkup? (first second : Outcome Handle) (setup : List (Setup Bool)) (turns : List (Turn Bool)) :
    Option String := do
  let handle ← first.result.toOption
  let handle' ← second.result.toOption
  let nodes ← (renderedTogether second.view (fun who => cond who handle'.block handle.block) "div" .standard setup
    turns).toOption
  (Markup.renderAll nodes).toOption

theorem eq_ok_of_toOption {ε α : Type} {r : Except ε α} {a : α} (h : r.toOption = some a) : r = .ok a := by
  cases r with
  | error e => cases h
  | ok b => exact congrArg Except.ok (Option.some.inj h)

/-- Two messages with nested expressions and placeholders, and attributes that are compiled between them. Both switch
their cases back and forth. -/
theorem renderedTogether_eq_of_interleaves_nested :
    let o := (TemplateView.new 5 1).compile nestingConfig ⟨-1, 22⟩
      ("\uFFFD#2\uFFFD" ++ nestingMessage ++ "\uFFFD/#2\uFFFD") .root
    let t₂ := (o.view.compileAttributes nestingConfig 26 22 ["title", "\uFFFD0\uFFFD"]).view
    let o' := t₂.compile nestingConfig ⟨-1, 25⟩ (nestingMessage ++ "\uFFFD#1\uFFFDx\uFFFD/#1\uFFFD") .root
    ∃ handle handle' nodes, o.result = .ok handle ∧ o'.result = .ok handle' ∧
      (Markup.renderAll nodes).toOption = some ("v<b><b></b>w<!--nested ICU 0--></b>w<!--ICU 25:0-->" ++
        "<p>u<b><b></b>y<!--nested ICU 0--></b>y<!--ICU 22:0--></p><i>x</i>") ∧
      let shown := renderedTogether o'.view (fun who => cond who handle'.block handle.block) "div" .standard
        [.start true, .start false, .attach 24 "p", .attach 23 "i"]
      (shown [⟨false, ["a", "b", "x", "y"]⟩, ⟨true, ["a", "d", "z", "w"]⟩, ⟨false, ["c"]⟩, ⟨true, ["a", "b", "v"]⟩,
        ⟨false, ["a", "b", "u"]⟩]).toOption = some nodes ∧
      (shown [⟨true, ["a", "d", "z", "w"]⟩, ⟨true, ["a", "b", "v"]⟩, ⟨false, ["a", "b", "x", "y"]⟩, ⟨false, ["c"]⟩,
        ⟨false, ["a", "b", "u"]⟩]).toOption = some nodes := by
  intro o t₂ o'
  have hmarkup : jointMarkup? o o' [.start true, .start false, .attach 24 "p", .attach 23 "i"]
      [⟨false, ["a", "b", "x", "y"]⟩, ⟨true, ["a", "d", "z", "w"]⟩, ⟨false, ["c"]⟩, ⟨true, ["a", "b", "v"]⟩,
        ⟨false, ["a", "b", "u"]⟩] = some ("v<b><b></b>w<!--nested ICU 0--></b>w<!--ICU 25:0-->" ++
        "<p>u<b><b></b>y<!--nested ICU 0--></b>y<!--ICU 22:0--></p><i>x</i>") := by decide +kernel
  have hfree : t₂.slot? 25 = some .empty := by decide +kernel
  have hbehind : ∀ (i : Int), i < 28 → ∀ k : Nat, (TemplateView.new 5 1).Added o.view k → i ≠ k := by
    rintro i hi k ⟨hk, -⟩ rfl
    have hsize : (TemplateView.new 5 1).size = 28 := rfl
    omega
  simp only [jointMarkup?, Option.bind_eq_bind, Option.bind_eq_some_iff] at hmarkup
  obtain ⟨handle, hok, handle', hok', nodes, hnodes, hmarkup⟩ := hmarkup
  have hok := eq_ok_of_toOption hok
  have hok' := eq_ok_of_toOption hok'
  refine ⟨handle, handle', nodes, hok, hok', hmarkup, hnodes, hnodes ▸ ?_⟩
  exact (renderedTogether_eq_of_interleaves (.new 5 1) nestingConfig nestingConfig ⟨-1, 22⟩ ⟨-1, 25⟩ _ _ .root .root
    (fun _ _ h => by cases h) hok
    (.compileAttributes .refl nestingConfig 26 22 ["title", "\uFFFD0\uFFFD"] (hbehind 26 (by decide)))
    (fun _ _ h => by cases hfree.symm.trans h) (hbehind 25 (by decide)) hok' .refl "div" .standard _ (fun _ => rfl)
    (show ∀ who : Bool, _ = _ by decide)).1.symm

end MessageCompiler
