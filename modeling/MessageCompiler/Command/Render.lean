/-
Rendering a message with values.

* **`renderCompiled`** — the markup of a compiled message.
-/
import MessageCompiler.Command.Compile
import MessageCompiler.Live.Block

namespace MessageCompiler.Command

/-- What is rendered: the values of bindings, and the tags of placeholders by their number. -/
structure Filling where
  values : List String
  tags : Assignments

/-- The placeholders of a template, in the order of their slots. -/
def placeholderSlots (t : TemplateView) : List Nat :=
  (List.range t.bindingStart).filter fun (i : Nat) =>
    TemplateView.header ≤ i && (t.node? i).map (·.type) == some .placeholder

/-- Gives every placeholder an element; a placeholder without a tag is a `span`. -/
def attachAll (t : TemplateView) (tags : Assignments) :
    List Nat → LiveM (Except Live.AttachError Unit)
  | [] => return .ok ()
  | i :: rest => do
    let tag := (tags.get? (i - TemplateView.header)).getD "span"
    let id ← Live.createElement tag
    match ← Live.attach t i id with
    | .error e => return .error e
    | .ok _ => attachAll t tags rest

/-- Creates a message, gives its placeholders elements and binds the values. -/
def fill (c : Compiled) (filling : Filling) : LiveM (Except Live.AttachError Unit) := do
  let block ← LiveBlock.start c.block
  match ← attachAll c.view filling.tags (placeholderSlots c.view) with
  | .error e => return .error e
  | .ok _ =>
    let _ ← block.update c.view filling.values
    return .ok ()

/-- What is printed before and with a failure. -/
structure Printed where
  out : String
  failure : Option Failure

/-- Prints nodes up to the first that cannot be printed. -/
def printNodes : List Markup.Node → Printed
  | [] => ⟨"\n", none⟩
  | n :: rest =>
    match Markup.render n with
    | .error e => ⟨"", some (.render e)⟩
    | .ok s =>
      let p := printNodes rest
      { p with out := s ++ p.out }

def hostNodes (v : LiveView) : List Markup.Node :=
  match v.host with
  | some host => (v.tree.children host).map v.tree.node
  | none => []

/-- The markup of a compiled message, and what filling it in reports. -/
def renderCompiled (c : Compiled) (locale : Locale) (filling : Filling) : List Entry × Printed :=
  match (fill c filling).run ⟨.new c.view (some "div") locale, [], []⟩ with
  | .error e r => (r.log, ⟨"", some (.live e)⟩)
  | .ok (.error e) r => (r.log, ⟨"", some (.attach e)⟩)
  | .ok (.ok _) r => (r.log, printNodes (hostNodes r.view))

end MessageCompiler.Command
