/-
Template views: the slots that every instance of a template has.

After a header come the declared slots and then the slots of binding values. Compiling adds slots at the
end. A slot may hold a template node, which lives in a store of its own because several places refer to
one node and it changes after it was put into its slot.
-/
import MessageCompiler.Template.Node

namespace MessageCompiler

/-- What a slot holds. -/
inductive Slot where
  | empty
  /-- The template node with that number. -/
  | node (id : Nat)
  | icu (icu : CompiledIcu)
  /-- A compiled message; every compilation gives its block a serial number of its own. -/
  | block (serial : Nat) (block : Block)
  /-- The instructions of bound attributes. -/
  | attributes (ops : List UpdateOp)
  deriving DecidableEq, Repr

/-- The slots of a template. -/
structure TemplateView where
  slots : Array Slot
  /-- The store of template nodes. -/
  nodes : Array TemplateNode
  /-- The first slot after the declared ones. -/
  bindingStart : Nat
  /-- How many blocks were compiled. -/
  serial : Nat
  deriving DecidableEq, Repr

namespace TemplateView

def header : Nat := 22

/-- A template with `decls` declared slots and `vars` binding slots; a negative number counts as
zero. -/
def new (decls vars : Int) : TemplateView :=
  let start := header + decls.toNat
  ⟨Array.replicate (start + vars.toNat) .empty, #[], start, 0⟩

def size (t : TemplateView) : Nat := t.slots.size

/-- The content of a slot; `none` outside of the view. -/
def slot? (t : TemplateView) (i : Int) : Option Slot :=
  if i < 0 then none else t.slots[i.toNat]?

/-- The view with the content of a slot replaced; a slot outside of the view changes nothing. -/
def setSlot (t : TemplateView) (i : Int) (s : Slot) : TemplateView :=
  if i < 0 then t else { t with slots := t.slots.setIfInBounds i.toNat s }

def contains (t : TemplateView) (i : Int) : Bool := 0 ≤ i && i.toNat < t.size

def alloc (t : TemplateView) (count : Nat) : TemplateView :=
  { t with slots := t.slots ++ Array.replicate count .empty }

def modifyNode (t : TemplateView) (id : Nat) (f : TemplateNode → TemplateNode) : TemplateView :=
  { t with nodes := t.nodes.modify id f }

/-- Puts a new node into its slot; its number is the number of nodes before. -/
def addNode (t : TemplateView) (node : TemplateNode) : TemplateView :=
  { t.setSlot node.index (.node t.nodes.size) with nodes := t.nodes.push node }

def nodeId? (t : TemplateView) (i : Int) : Option Nat :=
  match t.slot? i with
  | some (.node id) => some id
  | _ => none

def node? (t : TemplateView) (i : Int) : Option TemplateNode := do
  t.nodes[← t.nodeId? i]?

/-- Registers an ICU expression: on the node in the slot or, without one, in the slot itself. -/
def setIcu (t : TemplateView) (i : Int) (icu : CompiledIcu) : TemplateView :=
  match t.nodeId? i with
  | some id => t.modifyNode id fun node => { node with icu := some icu }
  | none => t.setSlot i (.icu icu)

def icu? (t : TemplateView) (i : Int) : Option CompiledIcu :=
  match t.slot? i with
  | some (.node id) => t.nodes[id]?.bind (·.icu)
  | some (.icu icu) => some icu
  | _ => none

/-- Every registered ICU expression with its slot, in the order of the slots. -/
def icus (t : TemplateView) : List (Nat × CompiledIcu) :=
  (List.range t.size).filterMap fun (i : Nat) => (t.icu? i).map (i, ·)

/-- The slots of a view at some time, with the nodes that were in declared slots then. -/
structure Checkpoint where
  slots : Array Slot
  nodes : List (Nat × TemplateNode)
  deriving Repr

/-- The nodes in declared slots, with their numbers. -/
def declaredNodes (t : TemplateView) : List (Nat × TemplateNode) :=
  (List.range t.bindingStart).filterMap fun (i : Nat) =>
    if header ≤ i then
      match t.nodeId? i with
      | some id => t.nodes[id]?.map (id, ·)
      | none => none
    else none

def checkpoint (t : TemplateView) : Checkpoint := ⟨t.slots, t.declaredNodes⟩

/-- Puts the view back: slots added since are dropped, and the recorded nodes are as they were. -/
def restore (t : TemplateView) (c : Checkpoint) : TemplateView :=
  { t with
    slots := c.slots
    nodes := c.nodes.foldl (fun nodes p => nodes.setIfInBounds p.1 p.2) t.nodes }

end TemplateView

end MessageCompiler
