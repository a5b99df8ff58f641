/-
Instructions that create the nodes of a message.

Each creates a text node, or a comment that anchors an ICU expression, and keeps it in a slot. A node
that no placeholder encloses is appended at once.
-/
import MessageCompiler.Stream.Flat
import MessageCompiler.Text.Decimal
import MessageCompiler.Text.Lines
import MessageCompiler.Text.Quoted
import MessageCompiler.Word

namespace MessageCompiler

/-- Creates a node at the top level of a message. -/
structure CreateOp where
  index : Int
  text : String
  /-- The node is a comment that anchors an ICU expression. -/
  comment : Bool
  /-- The node is appended to the host when it is created. -/
  eager : Bool
  deriving DecidableEq, Repr

namespace CreateOp

/-- The slot, with bit 0 for `eager` and bit 1 for `comment` below it. -/
def code (op : CreateOp) : Int :=
  bitOr (bitOr (shiftLeft op.index 2) (if op.eager then 1 else 0)) (if op.comment then 2 else 0)

def encode (op : CreateOp) : List Flat := [.int op.code, .text op.text]

def listing (op : CreateOp) : List String :=
  let slot := "lView[" ++ Text.showInt op.index ++ "]"
  let create := if op.comment then "createComment" else "createText"
  (slot ++ " = document." ++ create ++ "(" ++ Text.quote op.text ++ ");") ::
    if op.eager then ["parent.appendChild(" ++ slot ++ ");"] else []

def encodeAll (ops : List CreateOp) : List Flat := ops.flatMap encode

def listingAll (ops : List CreateOp) : String := Text.unlines (ops.flatMap listing)

end CreateOp

end MessageCompiler
