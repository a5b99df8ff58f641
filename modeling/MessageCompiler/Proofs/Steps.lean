/-
Steps that may fail.

A step takes a state to a result or to a failure, and leaves a state in either case. What compiles a
message and what runs one are such steps; the rules here open a sequence of them.

* **`bind_eq_ok`** — a sequence succeeds if and only if each of its steps does.
* **`along_bind`** — a transitive relation that holds along each step, failed or not, holds along the
  sequence.
-/
import MessageCompiler.Compile.Pass

namespace MessageCompiler.Steps

variable {ε σ α β : Type}

def after (x : EStateM ε σ α) (s : σ) : σ :=
  match x s with
  | .ok _ s' => s'
  | .error _ s' => s'

variable {a b : α} {s s' : σ} {x : EStateM ε σ α} {e : ε} {f : α → EStateM ε σ β}

theorem after_of_ok (h : x s = .ok a s') : after x s = s' := by
  unfold after
  rw [h]

theorem after_of_error (h : x s = .error e s') : after x s = s' := by
  unfold after
  rw [h]

theorem bind_eq_ok {s'' : σ} {b : β} : (x >>= f) s = .ok b s'' ↔ ∃ a s', x s = .ok a s' ∧ f a s' = .ok b s'' := by
  show EStateM.bind x f s = _ ↔ _
  unfold EStateM.bind
  cases hx : x s with
  | ok a s' =>
    constructor
    · intro h
      exact ⟨a, s', rfl, h⟩
    · rintro ⟨a', t, h, hf⟩
      cases h
      exact hf
  | error e s' =>
    constructor
    · intro h
      cases h
    · rintro ⟨a', t, h, -⟩
      cases h

theorem pure_eq_ok : (pure a : EStateM ε σ α) s = .ok b s' ↔ a = b ∧ s = s' := by
  show EStateM.Result.ok a s = .ok b s' ↔ _
  constructor
  · intro h
    cases h
    exact ⟨rfl, rfl⟩
  · rintro ⟨rfl, rfl⟩
    rfl

theorem throw_ne_ok : (throw e : EStateM ε σ α) s ≠ .ok b s' := by
  intro h
  cases h

theorem after_bind : after (x >>= f) s =
      match x s with
      | .ok a s' => after (f a) s'
      | .error _ s' => s' := by
  show (match EStateM.bind x f s with
    | .ok _ s' => s'
    | .error _ s' => s') = _
  unfold EStateM.bind
  cases x s <;> rfl

theorem along_bind {R : σ → σ → Prop} (trans : ∀ {a b c}, R a b → R b c → R a c) (hx : R s (after x s))
    (hf : ∀ a s', x s = .ok a s' → R s' (after (f a) s')) : R s (after (x >>= f) s) := by
  rw [after_bind]
  cases h : x s with
  | ok a s' =>
    rw [after_of_ok h] at hx
    exact trans hx (hf a s' h)
  | error e s' =>
    rw [after_of_error h] at hx
    exact hx

end MessageCompiler.Steps
