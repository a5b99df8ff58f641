/-
Instructions that create the content of an ICU case.

A node is created and kept in a slot, gets its attributes, and is appended to the node of another slot.
-/
import MessageCompiler.Stream.Flat
import MessageCompiler.Text.Decimal
import MessageCompiler.Text.Lines
import MessageCompiler.Text.Quoted
import MessageCompiler.Word

namespace MessageCompiler

/-- One step of creating a case. -/
inductive IcuCreateOp where
  | text (index : Int) (value : String)
  | element (index : Int) (tag : String)
  /-- A comment that anchors a nested ICU expression. -/
  | anchor (index : Int) (label : String)
  | setAttribute (index : Int) (name value : String)
  | append (child parent : Int)
  /-- A number that stands for no instruction. -/
  | unknown
  deriving DecidableEq, Repr

/-- Packs an instruction bit, a slot above it and a parent from bit 17 on. -/
def packIcuCreate (code parent ref : Int) : Int :=
  bitOr (bitOr code (shiftLeft ref 1)) (shiftLeft parent 17)

namespace IcuCreateOp

def kindName : IcuCreateOp → String
  | .text .. => "CreateText"
  | .element .. => "CreateElement"
  | .anchor .. => "CreateIcuAnchor"
  | .setAttribute .. => "SetAttribute"
  | .append .. => "AppendChild"
  | .unknown => "Unknown"

def encode : IcuCreateOp → List Flat
  | .text index value => [.text value, .int index]
  | .element index tag => [.elementMarker, .text tag, .int index]
  | .anchor index label => [.icuMarker, .text label, .int index]
  | .setAttribute index name value =>
    [.int (bitOr (shiftLeft index 1) 1), .text name, .text value]
  | .append child parent => [.int (packIcuCreate 0 parent child)]
  | .unknown => []

def listing : IcuCreateOp → List String
  | .text index value => [create index "createTextNode" value]
  | .element index tag => [create index "createElement" tag]
  | .anchor index label => [create index "createComment" label]
  | .append child parent =>
    ["(lView[" ++ Text.showInt parent ++ "] as Element).appendChild(lView[" ++
      Text.showInt child ++ "])"]
  | .setAttribute index name value =>
    ["(lView[" ++ Text.showInt index ++ "] as Element).setAttribute(" ++ Text.quote name ++ ", " ++
      Text.quote value ++ ")"]
  | .unknown => []
where
  create (index : Int) (function value : String) : String :=
    "lView[" ++ Text.showInt index ++ "] = document." ++ function ++ "(" ++ Text.quote value ++ ")"

def encodeAll (ops : List IcuCreateOp) : List Flat := ops.flatMap encode

def listingAll (ops : List IcuCreateOp) : String := Text.unlines (ops.flatMap listing)

end IcuCreateOp

end MessageCompiler
