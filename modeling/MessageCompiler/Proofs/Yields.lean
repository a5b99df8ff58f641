/-
What an operation on a live view leads to.

An operation is followed through the views it leads to; the recorded events and diagnostics do not
matter for that.

* **`Yields`** — the operation succeeds, with a result and a view as described.
* **`Yields.bind`** — one operation after another.
* **`caseOp`**, **`removeOp`** — what creates and removes the content of a case, by single instructions.
-/
import MessageCompiler.Live.Block

namespace MessageCompiler

variable {i : Nat} {s : LiveSlot} {Q : Unit → LiveView → Prop}

def LiveView.set (v : LiveView) (i : Nat) (s : LiveSlot) : LiveView :=
  { v with slots := v.slots.setIfInBounds i s }

def LiveView.withTree (v : LiveView) (tree : Markup.Tree) : LiveView := { v with tree }

namespace Live

open Markup (Tree Content)

/-- From a run with the view `v` the operation succeeds, and `Q` holds of its result and of the view
afterwards. -/
def Yields {α : Type} (x : LiveM α) (v : LiveView) (Q : α → LiveView → Prop) : Prop :=
  ∀ r : Run, r.view = v → ∃ a r', x r = .ok a r' ∧ Q a r'.view

variable {α β : Type} {v : LiveView}
variable {x : LiveM α} {a : α} {P : Unit → LiveView → Prop} {l l' : List α} {b : β} {f : β → α → LiveM β}
  {icu : CompiledIcu}

theorem Yields.mono {P Q : α → LiveView → Prop} (h : Yields x v P) (hPQ : ∀ a v', P a v' → Q a v') : Yields x v Q := by
  intro r hr
  obtain ⟨a, r', hrun, hP⟩ := h r hr
  exact ⟨a, r', hrun, hPQ a r'.view hP⟩

theorem yields_pure {Q : α → LiveView → Prop} (h : Q a v) : Yields (pure a) v Q := by
  rintro r rfl
  exact ⟨a, r, rfl, h⟩

theorem Yields.bind {f : α → LiveM β} {P : α → LiveView → Prop} {Q : β → LiveView → Prop} (hx : Yields x v P)
    (hf : ∀ a v', P a v' → Yields (f a) v' Q) : Yields (x >>= f) v Q := by
  intro r hr
  obtain ⟨a, r₁, hrun, hP⟩ := hx r hr
  obtain ⟨b, r₂, hrun₂, hQ⟩ := hf a r₁.view hP r₁ rfl
  refine ⟨b, r₂, ?_, hQ⟩
  show EStateM.bind x f r = _
  unfold EStateM.bind
  rw [hrun]
  exact hrun₂

theorem Yields.andThen {f : α → LiveM β} {v₁ : LiveView} {Q : β → LiveView → Prop}
    (hx : ∀ {P : α → LiveView → Prop}, P a v₁ → Yields x v P) (hf : Yields (f a) v₁ Q) : Yields (x >>= f) v Q := by
  refine (hx (P := fun b v' => b = a ∧ v' = v₁) ⟨rfl, rfl⟩).bind ?_
  rintro _ _ ⟨rfl, rfl⟩
  exact hf

theorem yields_get {f : Run → LiveM β} {Q : β → LiveView → Prop}
    (h : ∀ r : Run, r.view = v → Yields (f r) v Q) : Yields (get >>= f) v Q := by
  intro r hr
  exact h r hr r hr

theorem yields_getSlot {Q : LiveSlot → LiveView → Prop}
    (hs : v.slots[i]? = some s) (h : Q s v) : Yields (getSlot i) v Q := by
  rintro r rfl
  refine ⟨s, r, ?_, h⟩
  unfold getSlot
  rw [if_neg (by omega)]
  have hget : (get : LiveM Run) r = .ok r r := rfl
  show EStateM.bind get _ r = _
  simp only [EStateM.bind, hget, Int.toNat_natCast, hs]
  rfl

theorem setSlot_eq (i : Int) (s : LiveSlot) (r : Run) : setSlot i s r =
    if i < 0 ∨ r.view.slots.size ≤ i.toNat then .error (.noSlot i) r
    else .ok () { r with view := r.view.set i.toNat s } := by
  unfold setSlot
  show (if (decide (i < 0) || decide (r.view.slots.size ≤ i.toNat)) = true then _ else _ : LiveM Unit) r = _
  simp only [Bool.or_eq_true, decide_eq_true_eq]
  split <;> rfl

theorem yields_setSlot (hi : i < v.slots.size) (h : Q () (v.set i s)) : Yields (setSlot i s) v Q := by
  rintro r rfl
  simp_all [setSlot_eq, if_neg]

theorem yields_node? {i : Int} {Q : Option Nat → LiveView → Prop} (h : Q (v.node? i) v) : Yields (node? i) v Q := by
  rintro r rfl
  exact ⟨_, r, rfl, h⟩

theorem yields_change {e : Event} {f : Tree → Tree} (h : Q () (v.withTree (f v.tree))) : Yields (change e f) v Q := by
  rintro r rfl
  exact ⟨(), _, rfl, h⟩

theorem yields_create {content : Content} {event : Nat → Event} {Q : Nat → LiveView → Prop}
    (h : Q v.tree.size (v.withTree (v.tree.create content))) : Yields (create content event) v Q := by
  rintro r rfl
  exact ⟨_, _, rfl, h⟩

theorem yields_report {entries : List Entry} (h : Q () v) : Yields (report entries) v Q := by
  rintro r rfl
  exact ⟨(), _, rfl, h⟩

theorem yields_forM_cons {f : α → LiveM Unit} {rest : List α} (ha : Yields (f a) v P)
    (hrest : ∀ v', P () v' → Yields (rest.forM f) v' Q) :
    Yields ((a :: rest).forM f) v Q :=
  ha.bind fun _ => hrest

theorem yields_forM_singleton {f : α → LiveM Unit} (ha : Yields (f a) v Q) : Yields ([a].forM f) v Q :=
  yields_forM_cons ha fun _ => yields_pure

theorem forM_append_eq (l l' : List α) (f : α → LiveM Unit) :
    (l ++ l').forM f = (l.forM f >>= fun _ => l'.forM f) := List.forM_append

theorem yields_foldlM_append {P Q : β → LiveView → Prop} (hl : Yields (l.foldlM f b) v P)
    (hl' : ∀ b' v', P b' v' → Yields (l'.foldlM f b') v' Q) :
    Yields ((l ++ l').foldlM f b) v Q := by
  rw [List.foldlM_append]
  exact hl.bind hl'

theorem yields_foldlM_cons {P Q : β → LiveView → Prop} (ha : Yields (f b a) v P)
    (hl : ∀ b' v', P b' v' → Yields (l.foldlM f b') v' Q) :
    Yields ((a :: l).foldlM f b) v Q := by
  rw [List.foldlM_cons]
  exact ha.bind hl

/-! ### Single instructions -/

/-- One instruction for the content of a case; the result is the parent of the expression, once it is
known. -/
def caseOp (t : TemplateView) (anchor : Nat) (root : Option (Int × Option Nat)) :
    IcuCreateOp → LiveM (Option (Int × Option Nat))
  | .text index value => do
    setSlot index (.node (← createText value))
    return root
  | .element index tag => do
    setSlot index (.node (← createElement tag))
    return root
  | .anchor index label => do
    setSlot index (.node (← createComment label))
    match t.icu? index with
    | some nested => setSlot nested.current .empty
    | none => pure ()
    return root
  | .setAttribute index name value => do
    match ← node? index with
    | some id => setAttribute id name value
    | none => pure ()
    return root
  | .append child parent => do
    match ← node? child with
    | none => return root
    | some id =>
      let (rootSlot, rootNode) := root.getD (parent, (← get).view.tree.parent? anchor)
      if parent = rootSlot then
        match rootNode with
        | some p => insertBefore p id (some anchor)
        | none => pure ()
      else
        match ← node? parent with
        | some p => appendChild p id
        | none => pure ()
      return some (rootSlot, rootNode)
  | .unknown => return root

theorem applyCase_cons (t : TemplateView) (anchor : Nat) (root : Option (Int × Option Nat))
    (op : IcuCreateOp) (rest : List IcuCreateOp) :
    applyCase t anchor root (op :: rest) = caseOp t anchor root op >>= fun root => applyCase t anchor root rest := by
  cases op with
  | text index value => simp only [applyCase, caseOp, bind_assoc, pure_bind]
  | element index value => simp only [applyCase, caseOp, bind_assoc, pure_bind]
  | anchor index label =>
    simp only [applyCase, caseOp, bind_assoc]
    cases t.icu? index <;> simp only [bind_assoc, pure_bind]
  | setAttribute index name value =>
    simp only [applyCase, caseOp, bind_assoc]
    refine bind_congr fun id => ?_
    cases id <;> simp only [bind_assoc, pure_bind]
  | append child parent =>
    simp only [applyCase, caseOp, bind_assoc]
    refine bind_congr fun id => ?_
    cases id with
    | none => simp only [pure_bind]
    | some id =>
      simp only [bind_assoc]
      refine bind_congr fun r => ?_
      split
      · cases (root.getD (parent, r.view.tree.parent? anchor)).2 <;> simp only [bind_assoc, pure_bind]
      · simp only [bind_assoc]
        refine bind_congr fun p => ?_
        cases p <;> simp only [bind_assoc, pure_bind]
  | unknown => simp only [applyCase, caseOp, pure_bind]

theorem applyCase_eq (t : TemplateView) (anchor : Nat) : ∀ (ops : List IcuCreateOp)
    (root : Option (Int × Option Nat)),
      applyCase t anchor root ops = ops.foldlM (caseOp t anchor) root >>= fun _ => pure ()
  | [], root => by simp only [applyCase, List.foldlM_nil, pure_bind]
  | op :: rest, root => by
    rw [applyCase_cons, List.foldlM_cons, bind_assoc]
    exact bind_congr fun root => applyCase_eq t anchor rest root

def removeOp (t : TemplateView) (depth : Nat) (op : RemoveOp) : LiveM Unit := do
  match op with
  | .nestedIcu index =>
    match t.icu? index with
    | some nested => removeCase t depth nested
    | none => pure ()
  | .node _ => pure ()
  match ← node? op.index with
  | some id =>
    removeChild id
    setSlot op.index .empty
  | none => pure ()

/-- The node in a slot is taken out of the tree, and the slot is emptied. -/
def vacate (slot : Int) : LiveM Unit := do
  match ← node? slot with
  | some id =>
    removeChild id
    setSlot slot .empty
  | none => pure ()

theorem removeCase_succ (t : TemplateView) (depth : Nat) (icu : CompiledIcu) : removeCase t (depth + 1) icu = (do
      match ← currentCase icu with
      | none => return ()
      | some (active, _) =>
        let case ← caseAt icu active
        case.remove.forM (removeOp t depth)
        setSlot icu.current .empty) := rfl

def LiveSlot.case? : LiveSlot → Option (Nat × Bool)
  | .chosen case fresh => some (case, fresh)
  | _ => none

theorem yields_currentCase {Q : Option (Nat × Bool) → LiveView → Prop} (hcurrent : icu.current = i)
    (hs : v.slots[i]? = some s) (h : Q (LiveSlot.case? s) v) :
    Yields (currentCase icu) v Q := by
  unfold currentCase
  rw [hcurrent]
  refine (yields_getSlot (Q := fun a v' => a = s ∧ v' = v) hs ⟨rfl, rfl⟩).bind ?_
  rintro a v' ⟨rfl, rfl⟩
  cases a <;> exact yields_pure h

theorem yields_caseAt {k : Nat} {c : CompiledCase} {Q : CompiledCase → LiveView → Prop}
    (hc : icu.cases[k]? = some c) (h : Q c v) : Yields (caseAt icu k) v Q := by
  unfold caseAt
  rw [hc]
  exact yields_pure h

end Live

end MessageCompiler
