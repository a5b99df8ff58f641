/-
A store of artifacts does not show.

A message that is compiled again comes from the store. What is printed then is what was printed the first time, as
long as the numbers of its artifact survive being stored.

* **`Command.CallStep`**, **`Command.callStep`** — what compiling a message with a store can do.
-/
import Mathlib.Data.List.Induction
import MessageCompiler.Command.Compile
import MessageCompiler.Proofs.ReadBack

namespace MessageCompiler

open List

/-! ### Rows -/

namespace Store

theorem getText?_putText_self (s : Store) (key body : String) : (s.putText key body).getText? key = some body := by
  unfold putText getText?
  have hnone : (s.rows.filter fun r => r.1 != key).lookup key = none := by
    rw [lookup_eq_none_iff]
    intro r hr
    have hne := (mem_filter.mp hr).2
    rw [bne_comm] at hne
    exact hne
  rw [lookup_append, hnone]
  simp

theorem lookup_filter_ne {key k : String} (hne : k ≠ key) (rows : List (String × String)) :
    (rows.filter fun r => r.1 != key).lookup k = rows.lookup k := by
  induction rows with
  | nil => rfl
  | cons r rows ih =>
    by_cases hr : r.1 = key
    · have hk : (k == r.1) = false := beq_eq_false_iff_ne.mpr (hr ▸ hne)
      rw [filter_cons_of_neg (by simp [hr]), ih, lookup_cons, hk]
    · rw [filter_cons_of_pos (by simp [hr]), lookup_cons, lookup_cons, ih]

theorem getText?_putText_ne (s : Store) {key k : String} (hne : k ≠ key) (body : String) :
    (s.putText key body).getText? k = s.getText? k := by
  unfold putText getText?
  rw [lookup_append, lookup_filter_ne hne]
  simp [lookup_cons, beq_eq_false_iff_ne.mpr hne]

end Store

namespace Command

/-! ### Calls -/

/-- A message to compile. -/
structure Call where
  settings : Settings
  message : String
  sub : Int

namespace Call

def run (store : Option Store) (c : Call) : CompileResult := compileText store c.settings c.message c.sub

def key (c : Call) : String := Digest.key c.message c.sub c.settings.decls c.settings.parent

/-- What the call depends on: the message, the sub-template, the number of declarations and the parent. -/
def target (c : Call) : String × Int × Int × Int := (c.message, c.sub, c.settings.decls, c.settings.parent)

def outcome (c : Call) : Except Failure Compiled := (compileMessage c.settings c.message c.sub).result

variable {c d : Call}

theorem parts_eq (h : c.target = d.target) : c.message = d.message ∧ c.sub = d.sub ∧
    c.settings.decls = d.settings.decls ∧ c.settings.parent = d.settings.parent := by
  simpa only [target, Prod.mk.injEq] using h

theorem key_eq (h : c.target = d.target) : c.key = d.key := by
  obtain ⟨hmessage, hsub, hdecls, hparent⟩ := parts_eq h
  unfold key
  rw [hmessage, hsub, hdecls, hparent]

theorem outcome_eq (h : c.target = d.target) : c.outcome = d.outcome := by
  obtain ⟨hmessage, hsub, hdecls, hparent⟩ := parts_eq h
  unfold outcome compileMessage
  rw [hmessage, hsub, hdecls, hparent]

end Call

/-- The ways in which a call with a store can end. -/
inductive CallStep (store : Store) (c : Call) : (store' : Option Store) → (result : Except Failure String) → Prop where
  | hit (a : Artifact) (body : String) (htext : store.getText? c.key = some body) (hdecode : Artifact.decode body = .ok a) :
      CallStep store c (some store) (.ok a.text)
  | corrupt (body : String) (e : Artifact.DecodeError) (htext : store.getText? c.key = some body)
      (hdecode : Artifact.decode body = .error e) : CallStep store c (some store) (.error (.store (.corrupt c.key e)))
  | failed (e : Failure) (htext : store.getText? c.key = none) (houtcome : c.outcome = .error e) :
      CallStep store c (some store) (.error e)
  | stored (compiled : Compiled) (htext : store.getText? c.key = none) (houtcome : c.outcome = .ok compiled) :
      CallStep store c (some (store.put c.key (compiled.artifact c.message))) (.ok (compiled.artifact c.message).text)

def Call.served (store : Store) (c : Call) : Except StoreError Artifact → CompileResult
  | .error .notFound => compileAndStore (some store) c.settings c.key c.message c.sub
  | .error e => ⟨some store, [], .error (.store e)⟩
  | .ok a => ⟨some store, [⟨.debug, "cache hit", [("key", .text c.key)]⟩], .ok a.text⟩

theorem run_some (store : Store) {c : Call} (hjson : c.settings.format = "json") :
    c.run (some store) = c.served store (store.get c.key) := by
  unfold Call.run compileText Call.key
  rw [if_neg (by simp [hjson])]
  dsimp only
  rw [Option.map_some]
  cases store.get (Digest.key c.message c.sub c.settings.decls c.settings.parent) with
  | ok a => rfl
  | error e => cases e <;> rfl

theorem callStep (store : Store) {c : Call} (hjson : c.settings.format = "json") :
    CallStep store c (c.run (some store)).store (c.run (some store)).result := by
  rw [run_some store hjson, Store.get]
  cases htext : store.getText? c.key with
  | some body =>
    dsimp only
    cases hdecode : Artifact.decode body with
    | ok a => exact .hit a body htext hdecode
    | error e => exact .corrupt body e htext hdecode
  | none =>
    unfold Call.served compileAndStore
    dsimp only
    cases houtcome : (compileMessage c.settings c.message c.sub).result with
    | error e => exact .failed e htext houtcome
    | ok compiled => exact .stored compiled htext houtcome

theorem result_run_none {c : Call} (hjson : c.settings.format = "json") :
    (c.run none).result = c.outcome.map fun compiled => (compiled.artifact c.message).text := by
  have hrun : c.run none = compileAndStore none c.settings c.key c.message c.sub := by
    unfold Call.run compileText
    rw [if_neg (by simp [hjson])]
    rfl
  rw [hrun]
  unfold compileAndStore Call.outcome
  dsimp only
  cases (compileMessage c.settings c.message c.sub).result with
  | error e => rfl
  | ok compiled => rfl

/-! ### What the store holds -/

def Call.body? (c : Call) : Option String :=
  c.outcome.toOption.map fun compiled => (compiled.artifact c.message).toJson.compact

/-- Under the key of the call the store holds what the calls in `done` have stored for its message. -/
def Held (store : Store) (done : List Call) (c : Call) : Prop :=
  store.getText? c.key = if c.target ∈ done.map Call.target then c.body? else none

section Held

variable {store : Store} {done : List Call} {c d : Call}

theorem mem_targets : c.target ∈ (done ++ [d]).map Call.target ↔ c.target ∈ done.map Call.target ∨ d.target = c.target := by
  grind

theorem body?_eq (h : d.target = c.target) : d.body? = c.body? := by
  unfold Call.body?
  rw [Call.outcome_eq h, (Call.parts_eq h).1]

section

variable (h : Held store done c)
include h

theorem Held.unchanged
    (hnew : d.target = c.target → c.target ∉ done.map Call.target → c.body? = none) : Held store (done ++ [d]) c := by
  unfold Held at h ⊢
  by_cases hdone : c.target ∈ done.map Call.target
  · rw [if_pos (mem_targets.mpr (.inl hdone)), h, if_pos hdone]
  · rw [h, if_neg hdone]
    by_cases htarget : d.target = c.target
    · rw [if_pos (mem_targets.mpr (.inr htarget)), hnew htarget hdone]
    · rw [if_neg fun hmem => (mem_targets.mp hmem).elim hdone htarget]

theorem Held.mem_of_getText? {body : String} (htext : store.getText? c.key = some body) :
    c.target ∈ done.map Call.target := by
  by_contra hdone
  rw [h, if_neg hdone] at htext
  cases htext

theorem Held.exists_compiled {body : String} (htext : store.getText? c.key = some body) :
    ∃ compiled, c.outcome = .ok compiled ∧ body = (compiled.artifact c.message).toJson.compact := by
  have hbody : c.body? = some body := by
    rw [← htext, h, if_pos (h.mem_of_getText? htext)]
  unfold Call.body? at hbody
  cases houtcome : c.outcome with
  | error e =>
    rw [houtcome] at hbody
    cases hbody
  | ok compiled =>
    rw [houtcome] at hbody
    exact ⟨compiled, rfl, (Option.some.inj hbody).symm⟩

theorem Held.step (hkeys : d.key = c.key → d.target = c.target) {store' : Option Store}
    {result : Except Failure String} (hstep : CallStep store d store' result) :
    ∃ rows, store' = some rows ∧ Held rows (done ++ [d]) c := by
  cases hstep with
  | hit a body htext _ =>
    refine ⟨store, rfl, h.unchanged fun htarget hdone => absurd ?_ hdone⟩
    exact h.mem_of_getText? (Call.key_eq htarget ▸ htext)
  | corrupt body e htext _ =>
    refine ⟨store, rfl, h.unchanged fun htarget hdone => absurd ?_ hdone⟩
    exact h.mem_of_getText? (Call.key_eq htarget ▸ htext)
  | failed e _ houtcome =>
    refine ⟨store, rfl, h.unchanged fun htarget _ => ?_⟩
    rw [← body?_eq htarget, Call.body?, houtcome]
    rfl
  | stored compiled _ houtcome =>
    -- The artifact of `d` is the one for `c` too, or it goes under another key.
    refine ⟨_, rfl, ?_⟩
    unfold Held at h ⊢
    by_cases hkey : d.key = c.key
    · have htarget := hkeys hkey
      rw [if_pos (mem_targets.mpr (.inr htarget)), ← body?_eq htarget, ← hkey, Call.body?, houtcome]
      exact Store.getText?_putText_self _ _ _
    · have htarget : ¬d.target = c.target := fun htarget => hkey (Call.key_eq htarget)
      have hmem : c.target ∈ (done ++ [d]).map Call.target ↔ c.target ∈ done.map Call.target :=
        mem_targets.trans (or_iff_left htarget)
      rw [Store.put, Store.getText?_putText_ne _ (Ne.symm hkey), h]
      simp only [hmem]

end

def storeAfter (store : Option Store) (calls : List Call) : Option Store :=
  calls.foldl (fun s c => (c.run s).store) store

theorem storeAfter_concat (store : Option Store) (calls : List Call) (d : Call) :
    storeAfter store (calls ++ [d]) = (d.run (storeAfter store calls)).store := by
  unfold storeAfter
  rw [foldl_append]
  rfl

/-- **Any calls** keep what the store holds, and add their own. -/
theorem held_storeAfter (hnone : store.getText? c.key = none) : ∀ calls : List Call,
    (∀ d ∈ calls, d.settings.format = "json") → (∀ d ∈ calls, d.key = c.key → d.target = c.target) →
      ∃ rows, storeAfter (some store) calls = some rows ∧ Held rows calls c := by
  intro calls
  -- From the end: the last call meets the store that the others have left.
  induction calls using List.reverseRecOn with
  | nil =>
    intro _ _
    refine ⟨store, rfl, ?_⟩
    unfold Held
    rw [hnone, map_nil, if_neg not_mem_nil]
  | append_singleton calls d ih =>
    intro hjson hkeys
    obtain ⟨rows, hrows, hheld⟩ := ih (fun e he => hjson e (mem_append_left _ he))
      fun e he => hkeys e (mem_append_left _ he)
    have hd : d ∈ calls ++ [d] := mem_append_right _ (mem_singleton_self d)
    rw [storeAfter_concat, hrows]
    exact hheld.step (hkeys d hd) (callStep rows (hjson d hd))

end Held

def Compiled.numbers (c : Compiled) : List Int := Artifact.numbers c.block c.view

def choiceCall : Call :=
  ⟨⟨"en-US", "", 4, -1, "json"⟩, "a\x7b\uFFFD0\uFFFD, select, b \x7bx\uFFFD1\uFFFD\x7d other \x7by\x7d\x7d", -1⟩

def undeclaredCall : Call := ⟨⟨"en-US", "", 4, -1, "json"⟩, "\uFFFD#9\uFFFD", -1⟩

def distantCall : Call := ⟨⟨"en-US", "", 16, -1, "json"⟩, "x\uFFFD9007199254740992\uFFFD", -1⟩

end Command

end MessageCompiler
