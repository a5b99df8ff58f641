/-
The views that the operations on a template lead to.

* **`CompileStep`**, **`compileStep`** — the ways in which compiling a message can end.
* **`Reachable`** — the views that come from a new one.
* **`Edit`**, **`editAll`** — what may be done to a view.
* **`Sound`** — slots refer to nodes that exist; the operations keep this.
-/
import MessageCompiler.Compile.Attributes
import MessageCompiler.Proofs.PassGrowth

namespace MessageCompiler

open Steps

/-- What may be done to a view. -/
inductive Edit where
  /-- Adds slots. -/
  | alloc (count : Nat)
  /-- Puts a new node into a slot. -/
  | addNode (index : Int) (type : NodeType) (value : String) (parent : Option Int)
  /-- Registers an expression at a slot. -/
  | setIcu (index : Int) (icu : CompiledIcu)
  | compile (cfg : Config) (site : Site) (message : String) (scope : Message.Scope)
  | compileAttributes (cfg : Config) (index element : Int) (values : List String)

namespace TemplateView

/-- The view after a pass over a message that succeeded: the slot of the message holds the block. -/
def compiledView (p : Pass) (index : Int) : TemplateView :=
  { p.view with serial := p.view.serial + 1 }.setSlot index (.block p.view.serial ⟨p.create, p.update⟩)

/-- The ways in which compiling a message can end: the view afterwards, and the result. -/
inductive CompileStep (t : TemplateView) (cfg : Config) (site : Site) (message : String)
    (scope : Message.Scope) : TemplateView → Except CompileError Handle → Prop where
  | rejected (e : CompileError) : CompileStep t cfg site message scope t (.error e)
  | known (serial : Nat) (block : Block) (hslot : t.slot? site.index = some (.block serial block)) :
      CompileStep t cfg site message scope t (.ok ⟨serial, block⟩)
  | failed (part : List Char) (cause : Cause) (p : Pass)
      (hrun : compileScoped cfg site (releaseSpaces part) ⟨t, [], [], []⟩ = .error cause p) :
      CompileStep t cfg site message scope (p.view.restore t.checkpoint) (.error (.refused message cause))
  | compiled (part : List Char) (p : Pass)
      (hindex : header ≤ site.index ∧ t.contains site.index = true)
      (hslot : ∀ serial block, t.slot? site.index ≠ some (.block serial block))
      (hpart : Message.partFor scope message.toList = .ok part)
      (hrun : compileScoped cfg site (releaseSpaces part) ⟨t, [], [], []⟩ = .ok () p) :
      CompileStep t cfg site message scope (compiledView p site.index) (.ok ⟨p.view.serial, ⟨p.create, p.update⟩⟩)

theorem compileStep (t : TemplateView) (cfg : Config) (site : Site) (message : String) (scope : Message.Scope) :
    CompileStep t cfg site message scope (t.compile cfg site message scope).view
      (t.compile cfg site message scope).result := by
  unfold compile
  split
  · exact .rejected _
  · next hindex =>
    simp only [Bool.or_eq_true, decide_eq_true_eq, Bool.not_eq_true', not_or, Bool.not_eq_false] at hindex
    split
    · next serial block hslot => exact .known serial block hslot
    · next hslot =>
      split
      · exact .rejected _
      · next part hpart =>
        dsimp only
        split
        · next cause p hrun => exact .failed part cause p hrun
        · next p hrun =>
          exact .compiled part p ⟨by omega, hindex.2⟩ hslot hpart hrun

theorem compileAttributes_view (t : TemplateView) (cfg : Config) (index element : Int) (values : List String) :
    (t.compileAttributes cfg index element values).view = t ∨
      ∃ ops, (t.compileAttributes cfg index element values).result = .ok ops ∧
        (t.compileAttributes cfg index element values).view = t.setSlot index (.attributes ops) := by
  unfold compileAttributes
  split
  · exact .inl rfl
  · split
    · exact .inl rfl
    · split
      · exact .inl rfl
      · split
        · exact .inl rfl
        · next ops _ => exact .inr ⟨ops, rfl, rfl⟩

/-! ### Reachable views -/

/-- The views that come from a new one by compiling messages and attributes, with or without success, by
putting nodes into slots of the view, by adding slots and by registering expressions. -/
inductive Reachable : TemplateView → Prop where
  | new (decls vars : Int) : Reachable (new decls vars)
  | compile {t : TemplateView} (h : Reachable t) (cfg : Config) (site : Site) (message : String)
      (scope : Message.Scope) : Reachable (t.compile cfg site message scope).view
  | compileAttributes {t : TemplateView} (h : Reachable t) (cfg : Config) (index element : Int)
      (values : List String) : Reachable (t.compileAttributes cfg index element values).view
  | addNode {t : TemplateView} (h : Reachable t) (index : Int) (type : NodeType) (value : String)
      (parent : Option Int) (hindex : t.contains index = true) :
      Reachable (t.addNode (.fresh index type value parent))
  | alloc {t : TemplateView} (h : Reachable t) (count : Nat) : Reachable (t.alloc count)
  | setIcu {t : TemplateView} (h : Reachable t) (index : Int) (icu : CompiledIcu)
      (hindex : t.contains index = true) : Reachable (t.setIcu index icu)

def edit (t : TemplateView) : Edit → TemplateView
  | .alloc count => t.alloc count
  | .addNode index type value parent => t.addNode (.fresh index type value parent)
  | .setIcu index icu => t.setIcu index icu
  | .compile cfg site message scope => (t.compile cfg site message scope).view
  | .compileAttributes cfg index element values => (t.compileAttributes cfg index element values).view

def editAll (t : TemplateView) (edits : List Edit) : TemplateView := edits.foldl edit t

variable {t t' : TemplateView}

theorem editAll_concat (t : TemplateView) (edits : List Edit) (e : Edit) :
    t.editAll (edits ++ [e]) = (t.editAll edits).edit e :=
  List.foldl_append

@[elab_as_elim]
theorem Reachable.editInduction {motive : ∀ t : TemplateView, t.Reachable → Prop}
    (new : ∀ decls vars, motive (.new decls vars) (.new decls vars))
    (edit : ∀ {t : TemplateView} (e : Edit) (ht : t.Reachable) (he : (t.edit e).Reachable), motive t ht →
      motive (t.edit e) he) (h : t.Reachable) : motive t h := by
  induction h with
  | new decls vars => exact new decls vars
  | compile ht cfg site message scope ih => exact edit (.compile cfg site message scope) ht _ ih
  | compileAttributes ht cfg index element values ih => exact edit (.compileAttributes cfg index element values) ht _ ih
  | addNode ht index type value parent hindex ih =>
    exact edit (.addNode index type value parent) ht (ht.addNode index type value parent hindex) ih
  | alloc ht count ih => exact edit (.alloc count) ht _ ih
  | setIcu ht index icu hindex ih => exact edit (.setIcu index icu) ht (ht.setIcu index icu hindex) ih

theorem Reachable.exists_edits (h : t.Reachable) :
    ∃ decls vars edits, t = (TemplateView.new decls vars).editAll edits := by
  induction h using Reachable.editInduction with
  | new decls vars => exact ⟨decls, vars, [], rfl⟩
  | edit e _ _ ih =>
    obtain ⟨decls, vars, edits, rfl⟩ := ih
    exact ⟨decls, vars, edits ++ [e], (editAll_concat _ _ _).symm⟩

/-- The slots refer to nodes that exist, and the declared slots are there. -/
structure Sound (t : TemplateView) : Prop where
  bounded : t.Bounded
  header_le : header ≤ t.bindingStart
  bindingStart_le : t.bindingStart ≤ t.size

theorem Sound.nodeId?_lt (hs : t.Sound) {i : Int} {id : Nat} (h : t.nodeId? i = some id) : id < t.nodes.size := by
  obtain ⟨k, rfl, hk⟩ := slot?_eq_some.mp (nodeId?_eq_some.mp h)
  exact hs.bounded k id hk

theorem eq_empty_of_slots_new {decls vars : Int} {k : Nat} {s : Slot} (h : (new decls vars).slots[k]? = some s) :
    s = .empty := by
  have hempty : (Array.replicate (header + decls.toNat + vars.toNat) Slot.empty)[k]? = some s := h
  rw [Array.getElem?_replicate] at hempty
  split at hempty
  · exact (Option.some.inj hempty).symm
  · cases hempty

theorem sound_new (decls vars : Int) : (new decls vars).Sound where
  bounded i id h := by cases eq_empty_of_slots_new h
  header_le := by simp [new]
  bindingStart_le := by simp [new, size]

theorem Sound.grows {touched : Nat → Prop} {n : Nat} (hs : t.Sound) (h : t.Grows touched n t') : t'.Sound where
  bounded := h.bounded hs.bounded
  header_le := by
    rw [h.bindingStart]
    exact hs.header_le
  bindingStart_le := by
    rw [h.bindingStart]
    exact Nat.le_trans hs.bindingStart_le h.size_le

theorem Sound.setSlot (hs : t.Sound) (i : Int) {s : Slot} (h : ∀ id, s = .node id → id < t.nodes.size) :
    (t.setSlot i s).Sound :=
  hs.grows (grows_setSlot (fun k _ => k.zero_le) 0 h)

theorem Sound.setIcu (hs : t.Sound) (i : Int) (icu : CompiledIcu) : (t.setIcu i icu).Sound := by
  unfold TemplateView.setIcu
  split
  · next id _ => exact ⟨bounded_modifyNode hs.bounded id _, hs.header_le, hs.bindingStart_le⟩
  · exact hs.setSlot i fun id hid => by cases hid

end TemplateView

end MessageCompiler
