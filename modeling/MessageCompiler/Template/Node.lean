/-
Template nodes: what a template knows about the node of a slot before any view of it runs.
-/
import MessageCompiler.Stream.Icu

namespace MessageCompiler

/-- What kind of node a slot is for. -/
inductive NodeType where
  | text
  | element
  /-- The anchor of an ICU expression. -/
  | icu
  /-- An element or sub-template that a message refers to. -/
  | placeholder
  | other (code : Int)
  deriving DecidableEq, Repr

namespace NodeType

def ofCode (code : Int) : NodeType :=
  if code = 1 then .text
  else if code = 2 then .element
  else if code = 32 then .icu
  else if code = 64 then .placeholder
  else .other code

def name : NodeType → String
  | .text => "Text"
  | .element => "Element"
  | .icu => "Icu"
  | .placeholder => "Placeholder"
  | .other _ => "Unknown"

/-- Whether the placeholder bit is missing: the node is created by the message itself. -/
def fromMessage : NodeType → Bool
  | .placeholder => false
  | .other code => code % 128 < 64
  | _ => true

end NodeType

/-- What is known about one node. -/
structure TemplateNode where
  index : Int
  type : NodeType
  /-- The text of a text node, the tag of an element or the label of an ICU anchor. -/
  value : String
  /-- The slot of the placeholder around this one. -/
  parent : Option Int
  /-- The ICU expression that the node anchors. -/
  icu : Option CompiledIcu
  /-- The node of the message in front of which this one is inserted. -/
  insertBefore : Option Int
  /-- The nodes of the message inside a placeholder, in order. -/
  children : List Int
  deriving DecidableEq, Repr

def TemplateNode.fresh (index : Int) (type : NodeType) (value : String) (parent : Option Int) :
    TemplateNode :=
  ⟨index, type, value, parent, none, none, []⟩

end MessageCompiler
