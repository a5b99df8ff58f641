/-
Compiled messages and the calls they come from.

A slot that has a compiled message gives it back to every later call. Nothing but a call that compiles puts one
into a slot, so it is the result of such a call, made when the slot had none.

* **`Traverses.inherits`** — compiling a message keeps to that.
-/
import MessageCompiler.Proofs.Layout

namespace MessageCompiler

open Steps
open Markup (Node)

variable {t : TemplateView} {k serial : Nat} {block : Block}

namespace TemplateView

def Inherits (t t' : TemplateView) : Prop :=
  ∀ (k : Nat) (serial : Nat) (block : Block), t'.slots[k]? = some (.block serial block) →
    t.slots[k]? = some (.block serial block)

variable {t t₁ t₂ : TemplateView}

theorem Inherits.refl (t : TemplateView) : t.Inherits t := fun _ _ _ h => h

theorem Inherits.trans (h₁ : t.Inherits t₁) (h₂ : t₁.Inherits t₂) : t.Inherits t₂ :=
  fun k serial block h => h₁ k serial block (h₂ k serial block h)

theorem inherits_alloc (t : TemplateView) (count : Nat) : t.Inherits (t.alloc count) :=
  fun _ _ _ h => slots_alloc_eq_some (by simp) h

theorem inherits_setSlot (t : TemplateView) (i : Int) {s : Slot} (hs : ∀ serial block, s ≠ .block serial block) :
    t.Inherits (t.setSlot i s) := by
  intro k serial block h
  grind [slots_setSlot_eq_some]

theorem inherits_addNode (t : TemplateView) (node : TemplateNode) : t.Inherits (t.addNode node) :=
  inherits_setSlot t node.index fun _ _ h => by cases h

theorem inherits_setIcu (t : TemplateView) (i : Int) (icu : CompiledIcu) : t.Inherits (t.setIcu i icu) := by
  unfold setIcu
  split
  · exact .refl t
  · exact inherits_setSlot t i fun _ _ h => by cases h

theorem inherits_createdView (frame : Frame) (t : TemplateView) (type : NodeType) (value : String) :
    t.Inherits (frame.createdView t type value) := by
  have hslots : (frame.createdView t type value).slots =
      ((t.alloc 1).addNode (.fresh t.size type value none)).slots := by
    unfold Frame.createdView
    rw [slots_addChild, slots_precede]
  have hnew := (inherits_alloc t 1).trans (inherits_addNode (t.alloc 1) (.fresh t.size type value none))
  intro k serial block h
  rw [hslots] at h
  exact hnew k serial block h

end TemplateView

open TemplateView

/-! ### Steps of compiling -/

def Inherited {α : Type} (x : PassM α) : Prop := ∀ p : Pass, p.view.Inherits (after x p).view

theorem inherited_compileIcu (cfg : Config) (e : Icu) (parent anchor : Int) :
    Inherited (compileIcu cfg e parent anchor) := by
  have law : Law cfg Inherited := {
    pure := fun _ p => .refl p.view
    bind := fun hx hf p => along_bind (R := fun p p' : Pass => p.view.Inherits p'.view) (fun h₁ h₂ => h₁.trans h₂) (hx p)
      fun a p₁ _ => hf a p₁
    report := fun _ p => .refl p.view
    emit := fun _ p => .refl p.view
    allocSlot := fun p => inherits_alloc p.view 1
    addNode := fun _ p => inherits_addNode p.view _
    setIcu := fun icu p => inherits_setIcu p.view icu.anchor icu
    refuse := fun _ _ p => .refl p.view }
  exact law.compileIcu e parent anchor

section Messages

variable {frame frame' : Frame} {p p' : Pass} {cfg : Config} {site : Site}

theorem inherits_compileText {text : String} (h : compileText frame text p = .ok frame' p') : p.view.Inherits p'.view := by
  obtain ⟨-, -, value, hview, -⟩ := compileText_eq_ok h
  rw [hview]
  exact inherits_createdView frame p.view .text value

theorem Fills.inherits {segments : List Segment} (h : Fills cfg site frame segments p frame' p') :
    p.view.Inherits p'.view := by
  induction h with
  | nil => exact .refl _
  | skip _ _ ih => exact ih
  | text _ htext _ ih => exact (inherits_compileText htext).trans ih
  | @icu frame _ e _ p p₁ _ hicu _ ih =>
    have hinherits := inherited_compileIcu cfg e site.parent p.view.size
      (frame.createdPass p .icu (rootLabel site e.main) (rootLabel site e.main))
    rw [after_of_ok hicu] at hinherits
    exact ((inherits_createdView frame p.view .icu _).trans hinherits).trans ih

theorem inherits_compileRun {text : List Char} (h : compileRun cfg site frame text p = .ok frame' p') :
    p.view.Inherits p'.view := by
  obtain ⟨segments, -, hfills⟩ := exists_fills h
  exact hfills.inherits

theorem inherits_openedView (frame : Frame) (t : TemplateView) (slot : Int) : t.Inherits (frame.openedView t slot) := by
  intro k serial block h
  have hslots : (frame.openedView t slot).slots = (t.addNode (frame.placeholderNode slot)).slots :=
    slots_precede _ _ _
  rw [hslots] at h
  exact inherits_addNode t _ k serial block h

theorem Traverses.inherits {last : List Char} {outer : List Frame}
    {items : List (List Char × Message.Placeholder)} (h : Traverses cfg site last frame outer items p p') :
    p.view.Inherits p'.view := by
  induction h with
  | done hrun => exact inherits_compileRun hrun
  | close hrun _ _ ih => exact (inherits_compileRun hrun).trans ih
  | enter hrun _ _ _ _ ih => exact ((inherits_compileRun hrun).trans (inherits_openedView _ _ _)).trans ih

theorem TemplateView.Compiling.slots_compiledView {message : String} {scope : Message.Scope}
    {part : List Char} (hpass : t.Compiling cfg site message scope part p)
    (h : (compiledView p site.index).slots[k]? = some (.block serial block)) :
    t.slots[k]? = some (.block serial block) ∨
      site.index = k ∧ serial = p.view.serial ∧ block = ⟨p.create, p.update⟩ := by
  by_cases hk : site.index = k
  · obtain ⟨k', hk', hlt⟩ := hpass.exists_index
    obtain rfl : k' = k := Int.ofNat_inj.mp (hk'.symm.trans hk)
    have hset : (compiledView p k').slots[k']? = some (.block p.view.serial ⟨p.create, p.update⟩) :=
      slots_setSlot_self (Nat.lt_of_lt_of_le hlt hpass.grows.size_le) _
    rw [hk, hset] at h
    cases h
    exact .inr ⟨hk, rfl, rfl⟩
  · unfold compiledView at h
    rw [slots_setSlot_ne hk] at h
    exact .inl ((traverses_compileScoped hpass.run).inherits k serial block h)

theorem serial_compiledView (p : Pass) (index : Int) : (compiledView p index).serial = p.view.serial + 1 :=
  serial_setSlot _ _ _

end Messages

/-! ### Origins -/

/-- A call that compiles a message: it succeeds, and its slot has no compiled message yet. -/
structure Compiles (t : TemplateView) (cfg : Config) (site : Site) (message : String) (scope : Message.Scope)
    (handle : Handle) : Prop where
  reachable : t.Reachable
  vacant : ∀ serial block, t.slot? site.index ≠ some (.block serial block)
  result_eq : (t.compile cfg site message scope).result = .ok handle

theorem TemplateView.slots_edit_eq_block (t : TemplateView) (e : Edit)
    (h : (t.edit e).slots[k]? = some (.block serial block)) :
    t.serial ≤ (t.edit e).serial ∧ t.slots[k]? = some (.block serial block) ∨
      serial < (t.edit e).serial ∧ ∃ cfg site message scope, e = .compile cfg site message scope ∧
        (∀ serial block, t.slot? site.index ≠ some (.block serial block)) ∧
        (t.compile cfg site message scope).result = .ok ⟨serial, block⟩ := by
  cases e with
  | compile cfg site message scope =>
    rw [edit] at h ⊢
    rcases compile_cases t cfg site message scope with hsame | ⟨part, p, hpass, hview, hok⟩
    · rw [hsame.slots] at h
      exact .inl ⟨Nat.le_of_eq hsame.serial.symm, h⟩
    · rw [hview] at h ⊢
      rw [serial_compiledView, hpass.grows.serial]
      rcases hpass.slots_compiledView h with hold | ⟨-, hserial, rfl⟩
      · grind
      · rw [hpass.grows.serial] at hserial
        rw [hpass.grows.serial, ← hserial] at hok
        exact .inr ⟨hserial ▸ Nat.lt_succ_self _, cfg, site, message, scope, rfl, hpass.vacant, hok⟩
  | compileAttributes cfg index element values =>
    rw [edit] at h ⊢
    rcases compileAttributes_view t cfg index element values with hview | ⟨ops, -, hview⟩
    · grind
    · rw [hview] at h ⊢
      exact .inl ⟨Nat.le_of_eq (serial_setSlot t _ _).symm, inherits_setSlot t index (fun _ _ heq => by cases heq) _ _ _ h⟩
  | addNode index type value parent =>
    exact .inl ⟨Nat.le_of_eq (serial_setSlot t _ _).symm, inherits_addNode t _ _ _ _ h⟩
  | alloc count => exact .inl ⟨Nat.le_refl _, inherits_alloc t count _ _ _ h⟩
  | setIcu index icu =>
    refine .inl ⟨?_, inherits_setIcu t index icu _ _ _ h⟩
    rw [edit, TemplateView.setIcu]
    split
    · exact Nat.le_refl _
    · simp

/-- The compiled message in a slot has a number that was given out, and is the result of a call that compiled it; the
view has been edited since then. -/
theorem TemplateView.Reachable.exists_origin (ht : t.Reachable) (h : t.slots[k]? = some (.block serial block)) :
    serial < t.serial ∧ ∃ t₀ cfg site message scope edits, Compiles t₀ cfg site message scope ⟨serial, block⟩ ∧
      t = (t₀.compile cfg site message scope).view.editAll edits := by
  induction ht using Reachable.editInduction with
  | new decls vars => cases eq_empty_of_slots_new h
  | @edit t e ht _ ih =>
    rcases t.slots_edit_eq_block e h with ⟨hle, hold⟩ | ⟨hlt, cfg, site, message, scope, rfl, hvacant, hok⟩
    · obtain ⟨hlt, t₀, cfg, site, message, scope, edits, hcompiles, rfl⟩ := ih hold
      exact ⟨Nat.lt_of_lt_of_le hlt hle, t₀, cfg, site, message, scope, edits ++ [e], hcompiles,
        (editAll_concat _ _ _).symm⟩
    · exact ⟨hlt, t, cfg, site, message, scope, [], ⟨ht, hvacant, hok⟩, rfl⟩

/-- **Where a result comes from.** A call that succeeds compiles the message, or gives back what an earlier call
has compiled for the slot. -/
theorem exists_compiles (ht : t.Reachable) {cfg : Config} {site : Site} {message : String}
    {scope : Message.Scope} {handle : Handle} (h : (t.compile cfg site message scope).result = .ok handle) :
    Compiles t cfg site message scope handle ∨ t.slot? site.index = some (.block handle.serial handle.block) ∧
        (t.compile cfg site message scope).view = t ∧
        ∃ t₀ cfg₀ site₀ message₀ scope₀, Compiles t₀ cfg₀ site₀ message₀ scope₀ handle := by
  rcases compile_ok_cases h with ⟨hknown, hview⟩ | ⟨part, p, hpass, -, -⟩
  · obtain ⟨k, -, hk⟩ := slot?_eq_some.mp hknown
    obtain ⟨-, t₀, cfg₀, site₀, message₀, scope₀, -, hcompiles, -⟩ := ht.exists_origin hk
    exact .inr ⟨hknown, hview, t₀, cfg₀, site₀, message₀, scope₀, hcompiles⟩
  · exact .inl ⟨ht, hpass.vacant, h⟩

end MessageCompiler
