/-
The state of compiling one message.
-/
import MessageCompiler.Compile.Error
import MessageCompiler.Markup.Node
import MessageCompiler.Stream.Binding
import MessageCompiler.Template.View

namespace MessageCompiler

/-- What a compiler lets through, and how it reads markup. -/
structure Config where
  elements : NameSet
  attributes : NameSet
  /-- The sanitizer for an attribute, by its lower-case name. -/
  sanitizer : String → Option NamedSanitizer
  parseFragment : String → Except String (List Markup.Node)

/-- The template view so far, the instructions of the message, and what was reported. -/
structure Pass where
  view : TemplateView
  create : List CreateOp
  update : List UpdateOp
  log : List Entry

/-- A step of compiling; a failure keeps the state it was met in. -/
abbrev PassM := EStateM Cause Pass

namespace Pass

def report (e : Entry) : PassM Unit := modify fun p => { p with log := p.log ++ [e] }

/-- Adds an instruction to the update stream of the message. -/
def emit (op : UpdateOp) : PassM Unit := modify fun p => { p with update := p.update ++ [op] }

def allocSlot : PassM Int :=
  modifyGet fun p => (p.view.size, { p with view := p.view.alloc 1 })

def addNode (node : TemplateNode) : PassM Unit :=
  modify fun p => { p with view := p.view.addNode node }

/-- Registers an ICU expression at the slot of its anchor. -/
def setIcu (icu : CompiledIcu) : PassM Unit :=
  modify fun p => { p with view := p.view.setIcu icu.anchor icu }

def parsed {α : Type} (x : Message.Parsed α) : PassM α := do
  modify fun p => { p with log := p.log ++ x.log }
  match x.result with
  | .ok a => return a
  | .error e => throw (.malformedIcu e)

end Pass

end MessageCompiler
