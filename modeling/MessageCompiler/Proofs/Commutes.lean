/-
Operations from two views at once.

A change to a view may be made before or after an operation, or an operation may be carried out in another view than
the one it is meant for. To see that it does not matter, the operation is followed from both views at once.
-/
import MessageCompiler.Proofs.Yields

namespace MessageCompiler.Live

variable {α β : Type}

/-- Both outcomes are the same fault, or the same result with views that are related. -/
inductive Agree (Q : α → LiveView → LiveView → Prop) :
    EStateM.Result Fault Run α → EStateM.Result Fault Run α → Prop where
  | ok {a : α} {r r' : Run} (h : Q a r.view r'.view) : Agree Q (.ok a r) (.ok a r')
  | error {e : Fault} {r r' : Run} : Agree Q (.error e r) (.error e r')

variable {P : α → LiveView → LiveView → Prop} {Q : β → LiveView → LiveView → Prop} {g k : α → LiveM β}
  {x y : LiveM α} {a : α} {v₁ w₁ : LiveView}

theorem Agree.mono {Q : α → LiveView → LiveView → Prop} {o o' : EStateM.Result Fault Run α} (h : Agree P o o')
    (hPQ : ∀ a v v', P a v v' → Q a v v') : Agree Q o o' := by
  cases h with
  | ok h => exact .ok (hPQ _ _ _ h)
  | error => exact .error

theorem Agree.bind {r r' : Run} (h : Agree P (x r) (y r'))
    (hnext : ∀ a s s', P a s.view s'.view → Agree Q (g a s) (k a s')) : Agree Q ((x >>= g) r) ((y >>= k) r') := by
  show Agree Q (EStateM.bind x g r) (EStateM.bind y k r')
  unfold EStateM.bind
  generalize x r = o at h
  generalize y r' = o' at h
  cases h with
  | ok h => exact hnext _ _ _ h
  | error => exact .error

/-- From `v` the one operation, and from `w` the other, lead to the same result in views of which `Q` holds, or to the
same fault. -/
def Tandem (x y : LiveM α) (v w : LiveView) (Q : α → LiveView → LiveView → Prop) : Prop :=
  ∀ r r' : Run, r.view = v → r'.view = w → Agree Q (x r) (y r')

/-- From `v` and from its image under `f`, the operation leads to some view and to its image, with the same
result, and `Q` holds of them; or it fails alike. -/
def Commutes (f : LiveView → LiveView) (x : LiveM α) (v : LiveView) (Q : α → LiveView → Prop) : Prop :=
  ∀ r r' : Run, r.view = v → r'.view = f v → Agree (fun a w w' => w' = f w ∧ Q a w) (x r) (x r')

variable {v w : LiveView}

theorem Tandem.mono {Q : α → LiveView → LiveView → Prop} (h : Tandem x y v w P)
    (hPQ : ∀ a v' w', P a v' w' → Q a v' w') : Tandem x y v w Q := by
  intro r r' hr hr'
  exact (h r r' hr hr').mono hPQ

theorem Tandem.bind (h : Tandem x y v w P) (hnext : ∀ a v' w', P a v' w' → Tandem (g a) (k a) v' w' Q) :
    Tandem (x >>= g) (y >>= k) v w Q := by
  intro r r' hr hr'
  exact (h r r' hr hr').bind fun a s s' hs => hnext a s.view s'.view hs s s' rfl rfl

section

variable (hx : ∀ {P : α → LiveView → Prop}, P a v₁ → Yields x v P)
include hx

theorem Tandem.andThen {b : α}
    (hy : ∀ {P : α → LiveView → Prop}, P b w₁ → Yields y w P) (hnext : Tandem (g a) (k b) v₁ w₁ Q) :
    Tandem (x >>= g) (y >>= k) v w Q := by
  intro r r' hr hr'
  obtain ⟨_, s, hrun, rfl, hs⟩ := hx (P := fun c v' => c = a ∧ v' = v₁) ⟨rfl, rfl⟩ r hr
  obtain ⟨_, s', hrun', rfl, hs'⟩ := hy (P := fun c w' => c = b ∧ w' = w₁) ⟨rfl, rfl⟩ r' hr'
  show Agree Q (EStateM.bind x g r) (EStateM.bind y k r')
  unfold EStateM.bind
  rw [hrun, hrun']
  exact hnext s s' hs hs'

theorem tandem_of_yields {Q : α → LiveView → LiveView → Prop}
    (hy : ∀ {P : α → LiveView → Prop}, P a w₁ → Yields y w P) (h : Q a v₁ w₁) : Tandem x y v w Q := by
  intro r r' hr hr'
  obtain ⟨_, s, hrun, hc, hs⟩ := hx (P := fun c v' => c = a ∧ v' = v₁) ⟨rfl, rfl⟩ r hr
  obtain ⟨_, s', hrun', hc', hs'⟩ := hy (P := fun c w' => c = a ∧ w' = w₁) ⟨rfl, rfl⟩ r' hr'
  rw [hrun, hrun', hc, hc']
  exact .ok (by rw [hs, hs']; exact h)

end

theorem tandem_pure {Q : α → LiveView → LiveView → Prop} (h : Q a v w) : Tandem (pure a) (pure a) v w Q :=
  tandem_of_yields yields_pure yields_pure h

theorem tandem_throw (e : Fault) {Q : α → LiveView → LiveView → Prop} : Tandem (throw e) (throw e) v w Q :=
  fun _ _ _ _ => .error

theorem tandem_get {g k : Run → LiveM β} (h : ∀ r r' : Run, r.view = v → r'.view = w → Tandem (g r) (k r') v w Q) :
    Tandem (get >>= g) (get >>= k) v w Q := by
  intro r r' hr hr'
  exact h r r' hr hr' r r' hr hr'

theorem tandem_node? {i : Int} {name : Nat → Nat} {g k : Option Nat → LiveM β}
    (hnode : w.node? i = (v.node? i).map name) (hnone : v.node? i = none → Tandem (g none) (k none) v w Q)
    (hsome : ∀ n, v.node? i = some n → Tandem (g (some n)) (k (some (name n))) v w Q) :
    Tandem (node? i >>= g) (node? i >>= k) v w Q := by
  refine .andThen yields_node? yields_node? ?_
  rw [hnode]
  cases hv : v.node? i with
  | none => exact hnone hv
  | some n => exact hsome n hv

theorem tandem_caseAt {icu : CompiledIcu} {n : Nat} {g k : CompiledCase → LiveM β}
    (h : ∀ c ∈ icu.cases, Tandem (g c) (k c) v w Q) : Tandem (caseAt icu n >>= g) (caseAt icu n >>= k) v w Q := by
  unfold caseAt
  cases hc : icu.cases[n]? with
  | none => exact tandem_throw _
  | some c => exact h c (List.mem_of_getElem? hc)

theorem tandem_composed {values : List String} {parts : List Part} {g k : String → LiveM β}
    (h : ∀ s, Tandem (g s) (k s) v w Q) :
    Tandem (composed values parts >>= g) (composed values parts >>= k) v w Q := by
  unfold composed
  cases compose values parts with
  | ok s => exact h s
  | error e => exact tandem_throw e

theorem tandem_forM {g : α → LiveM Unit} {R : LiveView → LiveView → Prop} {l : List α}
    (hstep : ∀ a ∈ l, ∀ v w, R v w → Tandem (g a) (g a) v w fun _ => R) (h : R v w) :
    Tandem (l.forM g) (l.forM g) v w fun _ => R := by
  induction l generalizing v w with
  | nil => exact tandem_pure h
  | cons a rest ih =>
    refine (hstep a List.mem_cons_self v w h).bind fun _ v' w' h' => ?_
    exact ih (fun b hb => hstep b (List.mem_cons_of_mem a hb)) h'

end MessageCompiler.Live
