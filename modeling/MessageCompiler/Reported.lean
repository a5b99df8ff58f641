/-
Results that come with diagnostics.

What an operation reports never decides what it returns: `result` commutes with sequencing, so a
statement about results can forget the entries.

* **`result_bind`** — the result of a sequence is the sequence of the results.
-/
import MessageCompiler.Log

namespace MessageCompiler

/-- A result or a failure, with the entries reported on the way. -/
structure Reported (ε α : Type) where
  log : List Entry
  result : Except ε α

namespace Reported

variable {ε α β : Type}

def fail (e : ε) : Reported ε α := ⟨[], .error e⟩

def report (e : Entry) : Reported ε Unit := ⟨[e], .ok ()⟩

protected def bind (x : Reported ε α) (f : α → Reported ε β) : Reported ε β :=
  match x.result with
  | .error e => ⟨x.log, .error e⟩
  | .ok a => ⟨x.log ++ (f a).log, (f a).result⟩

instance : Monad (Reported ε) where
  pure a := ⟨[], .ok a⟩
  bind := Reported.bind

@[simp] theorem result_pure (a : α) : (pure a : Reported ε α).result = .ok a := rfl

@[simp] theorem result_fail (e : ε) : (fail e : Reported ε α).result = .error e := rfl

@[simp] theorem result_report (e : Entry) : (report e : Reported ε Unit).result = .ok () := rfl

@[simp] theorem result_bind (x : Reported ε α) (f : α → Reported ε β) :
    (x >>= f).result = x.result >>= fun a => (f a).result := by
  show (Reported.bind x f).result = _
  unfold Reported.bind
  cases hx : x.result <;> rfl

end Reported

end MessageCompiler
