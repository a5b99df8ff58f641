/-
A message is compiled once.

The slot of a compiled message gives it back to every later call, whatever message that call brings along. No
call that compiles a message takes the slot away: texts and expressions go to new slots, and a placeholder goes
to a free one. Compiling attributes into the slot does, and nothing else.
-/
import MessageCompiler.Proofs.Origins

namespace MessageCompiler

open Steps

variable {site : Site} {message : String} {scope : Message.Scope} {handle : Handle}

/-! ### Calls -/

/-- A call on a view: a message, or the attributes of an element, is compiled into a slot. -/
inductive Request where
  | message (site : Site) (message : String) (scope : Message.Scope)
  | attributes (index element : Int) (values : List String)

namespace TemplateView

def serve (cfg : Config) (t : TemplateView) : Request → TemplateView
  | .message site message scope => (t.compile cfg site message scope).view
  | .attributes index element values => (t.compileAttributes cfg index element values).view

def serveAll (cfg : Config) (t : TemplateView) (requests : List Request) : TemplateView :=
  requests.foldl (serve cfg) t

theorem Reachable.serve {t : TemplateView} (ht : t.Reachable) (cfg : Config) :
    ∀ request : Request, (t.serve cfg request).Reachable
  | .message site message scope => ht.compile cfg site message scope
  | .attributes index element values => ht.compileAttributes cfg index element values

/-- Some call of the sequence compiles attributes into the slot `i`. -/
def Taken (cfg : Config) (i : Int) : TemplateView → List Request → Prop
  | _, [] => False
  | t, .message site message scope :: rest => Taken cfg i (t.serve cfg (.message site message scope)) rest
  | t, .attributes index element values :: rest =>
    (index = i ∧ (t.compileAttributes cfg index element values).result.isOk = true) ∨
      Taken cfg i (t.serve cfg (.attributes index element values)) rest

end TemplateView

open TemplateView

/-! ### Compiled messages stay -/

section Kept

variable {cfg : Config} {site : Site}

theorem kept_of_grows {t t' : TemplateView} {n : Nat} (h : t.Grows untouched n t') : t'.Inherits t := by
  intro k serial block hblock
  have hk : k < t.size := (Array.getElem?_eq_some_iff.mp hblock).1
  rw [h.slots k hk id, hblock]

theorem kept_openedView (frame : Frame) {t : TemplateView} {slot : Int} (hfree : t.isFree slot = true) :
    (frame.openedView t slot).Inherits t := by
  intro k serial block hblock
  have hk : k < t.size := (Array.getElem?_eq_some_iff.mp hblock).1
  have hne : slot ≠ k := by
    rintro rfl
    rw [isFree, slot?_natCast, hblock] at hfree
    cases hfree
  rw [(frame.grows_openedView t slot).slots k hk hne, hblock]

theorem Traverses.kept {last : List Char} {frame : Frame} {outer : List Frame}
    {items : List (List Char × Message.Placeholder)} {p p' : Pass}
    (h : Traverses cfg site last frame outer items p p') : p'.view.Inherits p.view := by
  induction h with
  | done hrun => exact kept_of_grows (grows_compileRun hrun)
  | close hrun _ _ ih => exact ih.trans (kept_of_grows (grows_compileRun hrun))
  | enter hrun _ _ hfree _ ih =>
    exact (ih.trans (kept_openedView _ hfree)).trans (kept_of_grows (grows_compileRun hrun))

end Kept

/-! ### One call -/

namespace TemplateView

variable {t : TemplateView} {cfg : Config} {i : Int} {serial : Nat} {block : Block}

section

variable (h : t.slot? i = some (.block serial block))
include h

theorem slot?_compile (site : Site) (message : String)
    (scope : Message.Scope) : (t.compile cfg site message scope).view.slot? i = some (.block serial block) := by
  rcases compile_cases t cfg site message scope with hsame | ⟨part, p, hpass, hview, -⟩
  · rw [hsame.slot?_eq, h]
  · obtain ⟨k, rfl, hk⟩ := slot?_eq_some.mp h
    have hne : site.index ≠ k := fun heq => hpass.vacant serial block (heq ▸ h)
    rw [hview, slot?_natCast]
    exact (slots_setSlot_ne hne _).trans ((traverses_compileScoped hpass.run).kept k serial block hk)

theorem slot?_compileAttributes {index : Int} (hne : index ≠ i) (element : Int) (values : List String) :
    (t.compileAttributes cfg index element values).view.slot? i = some (.block serial block) := by
  rcases compileAttributes_view t cfg index element values with hview | ⟨ops, -, hview⟩
  · rw [hview, h]
  · obtain ⟨k, rfl, hk⟩ := slot?_eq_some.mp h
    rw [hview, slot?_natCast, slots_setSlot_ne hne, hk]

theorem slot?_compileAttributes_self {element : Int}
    {values : List String} (hok : (t.compileAttributes cfg i element values).result.isOk = true) :
    ∃ ops, (t.compileAttributes cfg i element values).view.slot? i = some (.attributes ops) := by
  obtain ⟨k, rfl, hk⟩ := slot?_eq_some.mp h
  have hlt : k < t.size := (Array.getElem?_eq_some_iff.mp hk).1
  unfold compileAttributes at hok ⊢
  rw [h] at hok ⊢
  split at hok
  · cases hok
  · next hinside =>
    rw [if_neg hinside]
    dsimp only at hok ⊢
    split at hok
    · cases hok
    · next heven =>
      rw [if_neg heven]
      split at hok
      · cases hok
      · next ops hops =>
        simp_all [slot?_natCast, slots_setSlot_self]

end

theorem slots_serve (request : Request) {k : Nat} (h : (t.serve cfg request).slots[k]? = some (.block serial block)) :
    t.slots[k]? = some (.block serial block) ∨ serial = t.serial := by
  cases request with
  | message site message scope =>
    rw [serve] at h
    rcases compile_cases t cfg site message scope with hsame | ⟨part, p, hpass, hview, -⟩
    · exact .inl (hsame.slots ▸ h)
    · rw [hview] at h
      rcases hpass.slots_compiledView h with hold | ⟨-, heq, -⟩
      · exact .inl hold
      · exact .inr (heq.trans hpass.grows.serial)
  | attributes index element values =>
    rw [serve] at h
    rcases compileAttributes_view t cfg index element values with hview | ⟨ops, -, hview⟩
    · rw [hview] at h
      exact .inl h
    · rw [hview] at h
      exact .inl (inherits_setSlot t index (fun _ _ heq => by cases heq) k serial block h)

theorem le_serve (request : Request) :
    t.serial ≤ (t.serve cfg request).serial ∧ t.size ≤ (t.serve cfg request).size := by
  cases request with
  | message site message scope =>
    rw [serve]
    rcases compile_cases t cfg site message scope with hsame | ⟨part, p, hpass, hview, -⟩
    · exact ⟨Nat.le_of_eq hsame.serial.symm, Nat.le_of_eq (congrArg Array.size hsame.slots).symm⟩
    · rw [hview, serial_compiledView, hpass.grows.serial, compiledView, size_setSlot]
      exact ⟨Nat.le_succ _, hpass.grows.size_le⟩
  | attributes index element values =>
    rw [serve]
    rcases compileAttributes_view t cfg index element values with hview | ⟨ops, -, hview⟩
    · grind
    · simp_all [serial_setSlot, size_setSlot]

/-! ### Sequences of calls -/

theorem slot?_serveAll_ne : ∀ (requests : List Request) (t : TemplateView), serial < t.serial →
    t.slot? i ≠ some (.block serial block) →
      serial < (t.serveAll cfg requests).serial ∧ (t.serveAll cfg requests).slot? i ≠ some (.block serial block) := by
  intro requests
  induction requests with
  | nil => exact fun t hserial hne => ⟨hserial, hne⟩
  | cons request rest ih =>
    intro t hserial hne
    refine ih (t.serve cfg request) (Nat.lt_of_lt_of_le hserial (le_serve request).1) fun h => hne ?_
    obtain ⟨k, rfl, hk⟩ := slot?_eq_some.mp h
    rcases slots_serve request hk with hold | rfl
    · rw [slot?_natCast, hold]
    · exact absurd hserial (Nat.lt_irrefl _)

/-- **What a sequence of calls keeps.** A compiled message stays in its slot as long as no attributes are compiled
into it, and no longer. -/
theorem slot?_serveAll_iff : ∀ (requests : List Request) (t : TemplateView), serial < t.serial →
    t.slot? i = some (.block serial block) → serial < (t.serveAll cfg requests).serial ∧
        ((t.serveAll cfg requests).slot? i = some (.block serial block) ↔ ¬t.Taken cfg i requests) := by
  intro requests
  induction requests with
  | nil => exact fun t hserial h => ⟨hserial, fun _ htaken => htaken, fun _ => h⟩
  | cons request rest ih =>
    intro t hserial h
    have hserial₁ : serial < (t.serve cfg request).serial := Nat.lt_of_lt_of_le hserial (le_serve request).1
    cases request with
    | message site message scope => exact ih _ hserial₁ (slot?_compile h site message scope)
    | attributes index element values =>
      by_cases htakes : index = i ∧ (t.compileAttributes cfg index element values).result.isOk = true
      · -- from here on the slot has something else
        obtain ⟨rfl, hok⟩ := htakes
        obtain ⟨ops, hops⟩ := slot?_compileAttributes_self h hok
        have hne : (t.serve cfg (.attributes index element values)).slot? index ≠ some (.block serial block) := by
          simp_all [serve]
        obtain ⟨hlater, hgone⟩ := slot?_serveAll_ne rest _ hserial₁ hne
        exact ⟨hlater, fun hstays => absurd hstays hgone, fun hnot => absurd (.inl ⟨rfl, hok⟩) hnot⟩
      · have hstays : (t.serve cfg (.attributes index element values)).slot? i = some (.block serial block) := by
          by_cases hindex : index = i
          · cases hresult : (t.compileAttributes cfg index element values).result with
            | ok ops => exact absurd ⟨hindex, by rw [hresult]; rfl⟩ htakes
            | error e => rw [serve, (unchanged_compileAttributes hresult).slot?_eq, h]
          · exact slot?_compileAttributes h hindex element values
        obtain ⟨hlater, hiff⟩ := ih _ hserial₁ hstays
        refine ⟨hlater, hiff.trans ?_⟩
        exact not_congr (or_iff_right htakes).symm

/-! ### A second call -/

theorem compile_of_block (hindex : header ≤ i) (h : t.slot? i = some (.block serial block)) {parent : Int}
    (message : String) (scope : Message.Scope) :
    t.compile cfg ⟨parent, i⟩ message scope = ⟨t, [], .ok ⟨serial, block⟩⟩ := by
  obtain ⟨k, hk, hslot⟩ := slot?_eq_some.mp h
  have hlt : k < t.size := (Array.getElem?_eq_some_iff.mp hslot).1
  have hinside : t.contains i = true := by
    rw [hk, contains]
    simpa using hlt
  unfold compile
  rw [if_neg (by simp [hinside, hindex]), h]

theorem header_le_of_compile_eq_ok
    (hok : (t.compile cfg site message scope).result = .ok handle) : header ≤ site.index := by
  refine Int.not_lt.mp fun hlt => ?_
  simp_all [compile]

theorem slot?_of_compile_eq_ok (ht : t.Reachable) (hok : (t.compile cfg site message scope).result = .ok handle) :
    (t.compile cfg site message scope).view.slot? site.index = some (.block handle.serial handle.block) ∧
      handle.serial < (t.compile cfg site message scope).view.serial := by
  have hlater : (t.compile cfg site message scope).view.Reachable := ht.compile cfg site message scope
  have hslot : (t.compile cfg site message scope).view.slot? site.index = some (.block handle.serial handle.block) := by
    rcases compile_ok_cases hok with ⟨hknown, hview⟩ | ⟨part, p, hpass, hview, rfl⟩
    · rw [hview, hknown]
    · obtain ⟨k, hk, hlt⟩ := hpass.exists_index
      rw [hview, hk, slot?_natCast]
      exact slots_setSlot_self (Nat.lt_of_lt_of_le hlt hpass.grows.size_le) _
  obtain ⟨k, -, hk⟩ := slot?_eq_some.mp hslot
  exact ⟨hslot, (hlater.exists_origin hk).1⟩

theorem slot?_of_serial_lt
    (hok : (t.compile cfg site message scope).result = .ok handle) (hserial : handle.serial < t.serial) :
    t.slot? site.index = some (.block handle.serial handle.block) := by
  rcases compile_ok_cases hok with ⟨hknown, -⟩ | ⟨part, p, hpass, -, rfl⟩
  · exact hknown
  · exact absurd hserial (Nat.not_lt.mpr (Nat.le_of_eq hpass.grows.serial.symm))

/-- **A message is compiled once.** After a call that succeeded, and any calls after it that compile messages and
attributes with or without success, every call for the same slot has the very result of the first, whatever
message, scope and parent it brings along, and leaves the view as it is; this is so if and only if none of the calls
in between has compiled attributes into the slot. -/
theorem compile_again_iff (ht : t.Reachable) {site : Site} {message : String} {scope : Message.Scope} {handle : Handle}
    (hok : (t.compile cfg site message scope).result = .ok handle) (requests : List Request) (parent : Int)
    (message' : String) (scope' : Message.Scope) :
    let t' := (t.compile cfg site message scope).view.serveAll cfg requests
    let again := t'.compile cfg ⟨parent, site.index⟩ message' scope'
    (again.result = .ok handle ∧ again.view = t') ↔
      ¬(t.compile cfg site message scope).view.Taken cfg site.index requests := by
  intro t' again
  obtain ⟨hslot, hserial⟩ := slot?_of_compile_eq_ok ht hok
  obtain ⟨hserial', hiff⟩ := slot?_serveAll_iff requests _ hserial hslot
  refine Iff.trans ⟨fun h => slot?_of_serial_lt h.1 hserial', fun h => ?_⟩ hiff
  have hindex : header ≤ site.index := header_le_of_compile_eq_ok hok
  have hagain : again = ⟨t', [], .ok handle⟩ := compile_of_block hindex h message' scope'
  rw [hagain]
  exact ⟨rfl, rfl⟩

/-- Another message takes the next slot and a placeholder, a third one is refused, and so are attributes for the slot
of the first; attributes for another slot are accepted. -/
def interruptions : List Request :=
  [.message ⟨-1, 23⟩ "a\uFFFD#2\uFFFDb\uFFFD/#2\uFFFD" .root, .message ⟨-1, 25⟩ "c\uFFFD#2\uFFFDd" .root,
    .attributes 22 22 ["title"], .attributes 25 22 ["title", "\uFFFD0\uFFFD"]]

theorem compile_again_interrupted :
    ∃ handle, ((new 4 1).compile .standard ⟨-1, 22⟩ "x\uFFFD0\uFFFD" .root).result = .ok handle ∧
      ∀ (parent : Int) (message : String) (scope : Message.Scope),
        let t := ((new 4 1).compile .standard ⟨-1, 22⟩ "x\uFFFD0\uFFFD" .root).view.serveAll .standard interruptions
        (t.compile .standard ⟨parent, 22⟩ message scope).result = .ok handle ∧
          (t.compile .standard ⟨parent, 22⟩ message scope).view = t := by
  cases hok : ((new 4 1).compile .standard ⟨-1, 22⟩ "x\uFFFD0\uFFFD" .root).result with
  | error e =>
    have hfine : ((new 4 1).compile .standard ⟨-1, 22⟩ "x\uFFFD0\uFFFD" .root).result.isOk = true := by decide +kernel
    rw [hok] at hfine
    cases hfine
  | ok handle =>
    refine ⟨handle, rfl, fun parent message scope => ?_⟩
    refine (compile_again_iff (.new 4 1) hok interruptions parent message scope).mpr ?_
    rintro (⟨-, hodd⟩ | ⟨hother, -⟩ | hnone)
    · revert hodd
      decide +kernel
    · revert hother
      decide
    · exact hnone

/-- A text is compiled into a slot, then attributes, and then the text again: it gets a new number, and new slots. -/
theorem compile_again_ne :
    let first := (new 4 1).compile .standard ⟨-1, 22⟩ "x" .root
    let t := first.view.serveAll .standard [.attributes 22 22 ["title", "y"]]
    let again := t.compile .standard ⟨-1, 22⟩ "x" .root
    first.result.toOption.map (·.serial) = some 0 ∧ again.result.toOption.map (·.serial) = some 1 ∧
      t.size < again.view.size := by
  decide +kernel

end TemplateView

end MessageCompiler
