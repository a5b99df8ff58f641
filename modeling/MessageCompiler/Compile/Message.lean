/-
Compiling messages.

A message is cut down to the part of its template, split at its placeholders, and the text between them
at its ICU expressions. Every text and every ICU expression becomes a node in a new slot; a placeholder
becomes a template node in its declared slot, which knows the nodes inside it and the one in front of
which it has to be inserted. If anything is wrong, the view is put back as it was.

* **`TemplateView.compile`** — compiles a message into a slot of the view.
-/
import MessageCompiler.Compile.Icu

namespace MessageCompiler

open Message (Placeholder Scope)
open Text (Interleaved)

/-- A placeholder that is open. -/
structure OpenPlaceholder where
  node : Nat
  slot : Int
  deriving DecidableEq, Repr

/-- The inside of an open placeholder, or the top level of the message. -/
structure Frame where
  placeholder : Option OpenPlaceholder
  /-- The template nodes directly inside, latest first. -/
  nodes : List Nat
  deriving DecidableEq, Repr

def Frame.top : Frame := ⟨none, []⟩

/-- Lets the earlier placeholders among the nodes know that `node` follows them. What the message itself
creates is there before any placeholder; of two placeholders, the one with the smaller slot is. -/
def TemplateView.precede (t : TemplateView) (nodes : List Nat) (node : TemplateNode) :
    TemplateView :=
  nodes.foldl
    (fun t id => t.modifyNode id fun earlier =>
      if !earlier.type.fromMessage && earlier.insertBefore.isNone &&
          (node.type.fromMessage || earlier.index > node.index) then
        { earlier with insertBefore := some node.index }
      else earlier)
    t

/-- Adds a node to the frame and returns the frame with it. -/
def Frame.addNode (frame : Frame) (node : TemplateNode) : PassM Frame :=
  modifyGet fun p =>
    let id := p.view.nodes.size
    ({ frame with nodes := id :: frame.nodes },
      { p with view := (p.view.addNode node).precede frame.nodes node })

/-- Adds a node of the message in a new slot, with the instruction that creates it. Inside a placeholder
it has to wait for the element. Returns the frame with the node, and the slot. -/
def Frame.create (frame : Frame) (type : NodeType) (text value : String) : PassM (Frame × Int) := do
  let index ← Pass.allocSlot
  modify fun p => { p with
    create := p.create ++ [⟨index, text, type == .icu, frame.placeholder.isNone⟩] }
  let frame ← frame.addNode (.fresh index type value none)
  match frame.placeholder with
  | some o =>
    modify fun p => { p with
      view := p.view.modifyNode o.node fun n => { n with children := n.children ++ [index] } }
  | none => pure ()
  return (frame, index)

def compileText (frame : Frame) (text : String) : PassM Frame := do
  if Message.hasBinding text.toList then
    let (frame, index) ← frame.create .text "" "\x7b\x7b?\x7d\x7d"
    Pass.emit (bindingUpdate text index .text 0)
    return frame
  else
    let (frame, _) ← frame.create .text text text
    return frame

/-- What a message is compiled for. -/
structure Site where
  /-- The slot of the element around the message. -/
  parent : Int
  /-- The slot of the message. -/
  index : Int

def compileSegments (cfg : Config) (site : Site) (frame : Frame) : List Segment → PassM Frame
  | [] => return frame
  | .text s :: rest => do
    let frame ← if s.isEmpty then pure frame else compileText frame s
    compileSegments cfg site frame rest
  | .icu e :: rest => do
    let label := "ICU " ++ Text.showInt site.index ++ ":" ++ Text.showInt e.main
    let (frame, anchor) ← frame.create .icu label label
    compileIcu cfg e site.parent anchor
    compileSegments cfg site frame rest

def compileRun (cfg : Config) (site : Site) (frame : Frame) (text : List Char) : PassM Frame := do
  compileSegments cfg site frame (← Pass.parsed (Message.split text))

/-- The slot of a placeholder, which has to be a declared one other than the slot of the message. -/
def placeholderSlot (site : Site) (p : Placeholder) : PassM Int := do
  let name := String.ofList p.name
  let declared := (← get).view.bindingStart - TemplateView.header
  match p.ordinal.value? with
  | none => throw (.invalidPlaceholder (.outside name))
  | some n =>
    if n ≥ declared then throw (.invalidPlaceholder (.outside name))
    let slot := TemplateView.header + n
    if slot = site.index then throw (.invalidPlaceholder (.ownSlot name))
    return slot

/-- Whether a placeholder may take the slot: it is empty or holds a placeholder. -/
def TemplateView.isFree (t : TemplateView) (slot : Int) : Bool :=
  match t.slot? slot with
  | some .empty => true
  | some (.node id) => (t.nodes[id]?.map (·.type)) == some .placeholder
  | none => true
  | _ => false

/-- Opens a placeholder: the frame around it, and the one inside. -/
def openPlaceholder (frame : Frame) (p : Placeholder) (slot : Int) : PassM (Frame × Frame) := do
  let view := (← get).view
  if !view.isFree slot then
    throw (.invalidPlaceholder (.slotInUse (String.ofList p.name) slot))
  let frame ← frame.addNode (.fresh slot .placeholder "" (frame.placeholder.map (·.slot)))
  return (frame, ⟨some ⟨view.nodes.size, slot⟩, []⟩)

/-- Texts and placeholders in turn; `outer` are the frames around the current one, innermost first. -/
def compileItems (cfg : Config) (site : Site) (last : List Char) :
    (frame : Frame) → (outer : List Frame) → List (List Char × Placeholder) → PassM Unit
  | frame, _, [] => do
    let frame ← compileRun cfg site frame last
    match frame.placeholder with
    | some o => throw (.invalidPlaceholder (.neverClosed o.slot))
    | none => return ()
  | frame, outer, (text, p) :: rest => do
    let frame ← compileRun cfg site frame text
    let slot ← placeholderSlot site p
    if p.closing then
      match outer with
      | enclosing :: outer =>
        if frame.placeholder.map (·.slot) = some slot then
          compileItems cfg site last enclosing outer rest
        else throw (.invalidPlaceholder (.unexpectedClosing (String.ofList p.name)))
      | [] => throw (.invalidPlaceholder (.unexpectedClosing (String.ofList p.name)))
    else
      let (frame, inside) ← openPlaceholder frame p slot
      compileItems cfg site last inside (frame :: outer) rest

/-- A message that was cut down to the part of its template. -/
def compileScoped (cfg : Config) (site : Site) (message : List Char) : PassM Unit :=
  let parts := Message.splitPlaceholders message
  compileItems cfg site parts.last .top [] parts.items

/-- A space that is kept, wherever it stands, is written as this character. -/
def keptSpace : Char := Char.ofNat 0xE500

def releaseSpaces (s : List Char) : List Char := s.map fun c => if c = keptSpace then ' ' else c

/-- The outcome of compiling: the view afterwards, what was reported, and the result. -/
structure Outcome (α : Type) where
  view : TemplateView
  log : List Entry
  result : Except CompileError α

/-- A compiled message with the number that tells it from all others. -/
structure Handle where
  serial : Nat
  block : Block
  deriving DecidableEq, Repr

/-- Compiles a message for a template into the slot `site.index`, unless one has been compiled there
before: then that one is the result. A failure leaves the view as it was. -/
def TemplateView.compile (t : TemplateView) (cfg : Config) (site : Site) (message : String)
    (scope : Scope) : Outcome Handle :=
  if site.index < header || !t.contains site.index then
    ⟨t, [], .error (.outsideView site.index)⟩
  else
    match t.slot? site.index with
    | some (.block serial block) => ⟨t, [], .ok ⟨serial, block⟩⟩
    | _ =>
      match Message.partFor scope message.toList with
      | .error e => ⟨t, [], .error (.ofScope e)⟩
      | .ok part =>
        let fields := [("index", Field.int site.index), ("subTemplate", .int scope.toInt)]
        let log := fun (p : Pass) => p.log.map (·.within fields)
        let checkpoint := t.checkpoint
        match (compileScoped cfg site (releaseSpaces part)).run ⟨t, [], [], []⟩ with
        | .error cause p => ⟨p.view.restore checkpoint, log p, .error (.refused message cause)⟩
        | .ok _ p =>
          let block : Block := ⟨p.create, p.update⟩
          let serial := p.view.serial
          let view := { p.view with serial := serial + 1 }
          let entry : Entry := ⟨.debug, "compiled i18n block",
            fields ++ [("create", .int p.create.length), ("update", .int p.update.length)]⟩
          ⟨view.setSlot site.index (.block serial block), log p ++ [entry], .ok ⟨serial, block⟩⟩

end MessageCompiler
