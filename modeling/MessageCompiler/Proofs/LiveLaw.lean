/-
Laws of running messages.

What holds of the single steps on a live view, and of one step after another, holds of removing and switching cases and
of updates; what is created and written has to have the property.

* **`LiveLaw.switchCase`**, **`LiveLaw.applyUpdate`** — such a property holds of switching a case and of an update.
-/
import MessageCompiler.Proofs.Bindings
import MessageCompiler.Proofs.Yields

namespace MessageCompiler

open Live

/-- The single steps have the property, and one step after another has it if both have it. Nodes come into slots in
other ways. -/
structure LiveLaw (P : ∀ {α : Type}, LiveM α → Prop) : Prop where
  pure : ∀ {α : Type} (a : α), P (pure a)
  throw : ∀ {α : Type} (e : Fault), P (throw e : LiveM α)
  bind : ∀ {α β : Type} {x : LiveM α} {f : α → LiveM β}, P x → (∀ a, P (f a)) → P (x >>= f)
  get : P (get : LiveM Run)
  setSlot : ∀ (i : Int) {s : LiveSlot}, (∀ id, s ≠ .node id) → P (setSlot i s)
  removeChild : ∀ id, P (removeChild id)
  setText : ∀ id value, P (setText id value)
  report : ∀ entries, P (report entries)

/-- The value that is written through a sanitizer, if there is one. -/
def Sanitizer.through (sanitizer : Option Sanitizer) (value : String) : String :=
  match sanitizer with
  | some s => s.run value
  | none => value

theorem joined_of_compose {values : List String} {parts : List Part} {s : String}
    (h : compose values parts = .ok s) : s = joined values parts := by
  induction parts generalizing s with
  | nil =>
    cases h
    rfl
  | cons part rest ih =>
    cases hrest : compose values rest with
    | error e =>
      cases part with
      | literal text =>
        rw [compose, hrest] at h
        cases h
      | binding i =>
        rw [compose, hrest] at h
        split at h <;> cases h
    | ok tail =>
      cases part with
      | literal text =>
        rw [compose, hrest] at h
        cases h
        rw [ih hrest]
        rfl
      | binding i =>
        rw [compose, hrest] at h
        split at h
        · cases h
        · cases h
          rw [ih hrest]
          rfl

namespace LiveLaw

variable {P : ∀ {α : Type}, LiveM α → Prop} (law : LiveLaw P)
variable {α β : Type} {t : TemplateView} {depth : Nat} {icu : CompiledIcu} {values : List String}

include law

theorem throw_bind {e : Fault} {f : α → LiveM β} : P ((MonadExcept.throw e : LiveM α) >>= f) := law.throw e

theorem getSlot (i : Int) : P (Live.getSlot i) := by
  unfold Live.getSlot
  split
  · exact law.throw_bind
  · refine law.bind law.get fun r => ?_
    split
    · exact law.pure _
    · exact law.throw _

theorem node? (i : Int) : P (Live.node? i) := law.bind law.get fun _ => law.pure _

theorem forM {f : α → LiveM PUnit} {l : List α} (h : ∀ a ∈ l, P (f a)) : P (l.forM f) := by
  induction l with
  | nil => exact law.pure _
  | cons a l ih =>
    show P (f a >>= fun _ => l.forM f)
    exact law.bind (h a List.mem_cons_self) fun _ => ih fun b hb => h b (List.mem_cons_of_mem _ hb)

theorem foldlM {f : β → α → LiveM β} (hf : ∀ a b, P (f b a)) (l : List α) : ∀ b : β, P (l.foldlM f b) := by
  induction l with
  | nil => exact law.pure
  | cons a l ih =>
    intro b
    rw [List.foldlM_cons]
    exact law.bind (hf a b) ih

/-! ### Cases -/

theorem currentCase (icu : CompiledIcu) : P (currentCase icu) := by
  refine law.bind (law.getSlot _) fun s => ?_
  split <;> exact law.pure _

theorem caseAt_bind {f : CompiledCase → LiveM β} (hf : ∀ c ∈ icu.cases, P (f c)) (k : Nat) :
    P (caseAt icu k >>= f) := by
  unfold caseAt
  split
  · next c hc => exact hf c (List.mem_of_getElem? hc)
  · exact law.throw_bind

theorem takeOut (index : Int) : P (do
    match ← Live.node? index with
    | some id =>
      Live.removeChild id
      Live.setSlot index .empty
    | none => Pure.pure ()) := by
  refine law.bind (law.node? _) fun id => ?_
  split
  · exact law.bind (law.removeChild _) fun _ => law.setSlot _ (by simp)
  · exact law.pure _

theorem removeCase (depth : Nat) (icu : CompiledIcu) : P (removeCase t depth icu) := by
  induction depth generalizing icu with
  | zero => exact law.throw _
  | succ depth ih =>
    rw [removeCase_succ]
    refine law.bind (law.currentCase icu) fun current => ?_
    split
    · exact law.pure _
    · refine law.caseAt_bind (fun c _ => law.bind ?_ fun _ => law.setSlot _ (by simp)) _
      refine law.forM fun op _ => ?_
      unfold removeOp
      split
      · split
        · exact law.bind (ih _) fun _ => law.takeOut _
        · exact law.takeOut _
      · exact law.takeOut _

theorem switchCase (happly : ∀ c ∈ icu.cases, ∀ anchor, P (applyCase t anchor none c.create)) (value : String) :
    P (switchCase t depth icu value) := by
  unfold Live.switchCase
  refine law.bind (law.node? _) fun anchor => ?_
  split
  · exact law.pure _
  · next anchor =>
    refine law.bind law.get fun r => ?_
    dsimp only
    split
    · refine law.bind (law.pure _) fun chosen => law.bind (law.currentCase icu) fun active => ?_
      split
      · exact law.pure _
      · refine law.bind (law.removeCase depth icu) fun _ => ?_
        split
        · exact law.pure _
        · refine law.caseAt_bind (fun c hc => ?_) _
          exact law.bind (law.report _) fun _ => law.bind (law.setSlot _ (by simp)) fun _ => happly c hc anchor
    · exact law.throw_bind

/-! ### Updates -/

theorem updateCase {runOps : List UpdateOp → Mask → LiveM Unit} (hruns : ∀ c ∈ icu.cases, ∀ mask, P (runOps c.update mask))
    (changes : Mask) : P (updateCase runOps icu changes) := by
  unfold Live.updateCase
  refine law.bind (law.currentCase icu) fun current => ?_
  split
  · exact law.pure _
  · have hcase : ∀ k mask, P (do
        let case ← caseAt icu k
        runOps case.update mask) := fun k mask => law.caseAt_bind (fun c hc => hruns c hc mask) k
    dsimp only
    split
    · exact law.bind (law.setSlot _ (by simp)) fun _ => hcase _ _
    · exact hcase _ _

theorem composed_bind {parts : List Part} {f : String → LiveM β} (hf : P (f (joined values parts))) :
    P (composed values parts >>= f) := by
  unfold composed
  split
  · next s hs =>
    rw [joined_of_compose hs]
    exact hf
  · exact law.throw_bind

/-- The steps that create a case or set an attribute have to have the property, and so have the updates of cases. -/
theorem applyUpdate {runOps : List UpdateOp → Mask → LiveM Unit} {changes : Mask} {op : UpdateOp}
    (hwrites : ∀ name sanitizer sanitizerName, op.target = .attribute name sanitizer sanitizerName →
      ∀ id, P (setAttribute id name (Sanitizer.through sanitizer (joined values op.parts))))
    (hicu : ∀ icu, t.icu? op.index = some icu → ∀ c ∈ icu.cases,
      (op.target = .icuSwitch → ∀ anchor, P (applyCase t anchor none c.create)) ∧
        (op.target = .icuUpdate → ∀ mask, P (runOps c.update mask))) :
    P (applyUpdate t depth runOps values changes op) := by
  unfold Live.applyUpdate
  split
  · unfold applyChanged
    refine law.composed_bind ?_
    split
    · refine law.bind (law.node? _) fun id => ?_
      split
      · exact law.setText _ _
      · exact law.pure _
    · next name sanitizer sanitizerName htarget =>
      have hwritten := hwrites name sanitizer sanitizerName htarget
      refine law.bind (law.node? _) fun id => ?_
      split
      · split
        · exact law.bind (law.report _) fun _ => hwritten _
        · exact hwritten _
      · exact law.pure _
    · next htarget =>
      split
      · next icu h => exact law.switchCase (fun c hc => (hicu icu h c hc).1 htarget) _
      · exact law.pure _
    · next htarget =>
      split
      · next icu h => exact law.updateCase (fun c hc => (hicu icu h c hc).2 htarget) changes
      · exact law.pure _
    · exact law.pure _
  · unfold applyPending
    split
    · next htarget =>
      split
      · exact law.pure _
      · next icu h =>
        refine law.bind (law.node? _) fun id => ?_
        split
        · refine law.bind (law.currentCase icu) fun current => ?_
          split
          · exact law.composed_bind (law.switchCase (fun c hc => (hicu icu h c hc).1 htarget) _)
          · exact law.pure _
        · exact law.pure _
    · next htarget =>
      split
      · exact law.pure _
      · next icu h =>
        refine law.bind (law.currentCase icu) fun current => ?_
        split
        · exact law.updateCase (fun c hc => (hicu icu h c hc).2 htarget) _
        · exact law.pure _
    · exact law.pure _

theorem update {b : LiveBlock}
    (hupdates : ∀ mask, P (applyUpdates t b.block.update (b.bindings.bind values).2.values mask)) :
    P (b.update t values) := by
  unfold LiveBlock.update
  dsimp only
  split
  · exact law.bind (hupdates _) fun _ => law.pure _
  · exact law.pure _

end LiveLaw

end MessageCompiler
