/-
Laws of compiling.

What holds of the single steps of a pass, and of one step after another, holds of compiling an expression.

* **`Law`** — the properties of steps that are of this kind.
* **`Law.compileIcu`** — such a property holds of compiling every expression.
-/
import MessageCompiler.Compile.Icu

namespace MessageCompiler

open Markup (Node Attr)

/-- The single steps have the property, and one step after another has it if both have it. -/
structure Law (cfg : Config) (P : ∀ {α : Type}, PassM α → Prop) : Prop where
  pure : ∀ {α : Type} (a : α), P (pure a)
  bind : ∀ {α β : Type} {x : PassM α} {f : α → PassM β}, P x → (∀ a, P (f a)) → P (x >>= f)
  report : ∀ e, P (Pass.report e)
  emit : ∀ op, P (Pass.emit op)
  allocSlot : P Pass.allocSlot
  addNode : ∀ {node : TemplateNode}, node.type ≠ .placeholder → P (Pass.addNode node)
  setIcu : ∀ icu, P (Pass.setIcu icu)
  /-- Markup that cannot be read is refused. -/
  refuse : ∀ {markup reason : String}, cfg.parseFragment markup = .error reason → ∀ label,
    P (throw (.markup label reason) : PassM CompiledCase)

namespace Law

variable {cfg : Config} {P : ∀ {α : Type}, PassM α → Prop} (law : Law cfg P) {nested : List NestedIcu}
include law

theorem compileAttributes (tag : String) (index : Int) : ∀ attrs : List Attr, P (compileAttributes cfg tag index attrs)
  | [] => law.pure _
  | a :: rest => by
    have hfirst : P (compileAttribute cfg tag index a) := by
      unfold compileAttribute
      dsimp only
      split
      · exact law.pure _
      · split
        · exact law.pure _
        · exact law.bind (law.report _) fun _ => law.pure _
    exact law.bind hfirst fun _ => law.bind (compileAttributes tag index rest) fun _ => law.pure _

theorem compileComment (hnested : ∀ f ∈ nested, ∀ parent anchor, P (f parent anchor)) (parent index : Int)
    (data : String) : P (compileComment nested parent index data) := by
  unfold MessageCompiler.compileComment
  split
  · exact law.pure _
  · split
    · exact law.bind (law.report _) fun _ => law.pure _
    · next k f hfound =>
      obtain ⟨m, -, hm⟩ := Option.bind_eq_some_iff.mp hfound
      obtain ⟨f', hget, heq⟩ := Option.map_eq_some_iff.mp hm
      cases heq
      refine law.bind (law.addNode (by simp [TemplateNode.fresh])) fun _ => ?_
      exact law.bind (hnested _ (List.mem_of_getElem? hget) parent index) fun _ => law.pure _

mutual

theorem walkNode (hnested : ∀ f ∈ nested, ∀ parent anchor, P (f parent anchor)) :
    ∀ (node : Node) (parent : Int), P (walkNode cfg nested parent node)
  | .text value, parent => by
    refine law.bind law.allocSlot fun _ => law.bind (law.addNode ?_) fun _ => law.pure _
    simp [TemplateNode.fresh]
  | .comment data, parent => law.bind law.allocSlot fun index => law.compileComment hnested parent index data
  | .element ns name attrs children, parent => by
    unfold MessageCompiler.walkNode
    refine law.bind law.allocSlot fun index => ?_
    dsimp only
    split
    · exact law.bind (law.report _) fun _ => law.pure _
    · refine law.bind (law.addNode (by simp [TemplateNode.fresh])) fun _ => ?_
      refine law.bind (law.compileAttributes _ index attrs) fun _ => ?_
      exact law.bind (walkNodes hnested children index) fun _ => law.pure _

theorem walkNodes (hnested : ∀ f ∈ nested, ∀ parent anchor, P (f parent anchor)) :
    ∀ (nodes : List Node) (parent : Int), P (walkNodes cfg nested parent nodes)
  | [], _ => law.pure _
  | node :: rest, parent =>
    law.bind (walkNode hnested node parent) fun _ => law.bind (walkNodes hnested rest parent) fun _ => law.pure _

end

set_option linter.unusedSectionVars false in
mutual

theorem compileIcu : ∀ (e : Icu) (parent anchor : Int), P (compileIcu cfg e parent anchor)
  | .mk kind main cases, parent, anchor => by
    unfold MessageCompiler.compileIcu
    refine law.bind law.allocSlot fun current => law.bind (law.emit _) fun _ => ?_
    refine law.bind (compileCases cases parent) fun compiled => law.bind (law.setIcu _) fun _ => ?_
    dsimp only
    split
    · exact law.emit _
    · exact law.pure _

theorem compileCases : ∀ (cases : List Case) (parent : Int), P (compileCases cfg parent cases)
  | [], _ => law.pure _
  | .mk label body :: rest, parent => by
    unfold MessageCompiler.compileCases
    refine law.bind ?_ fun c => law.bind (compileCases rest parent) fun _ => law.pure _
    unfold compileCase
    split
    · next hmarkup => exact law.refuse hmarkup label
    · exact law.bind (law.walkNodes (nestedIcus body) _ parent) fun _ => law.pure _

theorem nestedIcus : ∀ body : List Segment, ∀ f ∈ nestedIcus cfg body, ∀ parent anchor, P (f parent anchor)
  | [] => by simp [MessageCompiler.nestedIcus]
  | .text _ :: rest => nestedIcus rest
  | .icu e :: rest => by
    intro f hf
    rcases List.mem_cons.mp hf with rfl | hf
    · exact compileIcu e
    · exact nestedIcus rest f hf

end

end Law

end MessageCompiler
