/-
Instructions that remove the content of an ICU case.

Only the outermost nodes of a case are removed: what is inside goes away with them. The anchor of a
nested ICU expression goes after the content of its active case.
-/
import MessageCompiler.Stream.Flat
import MessageCompiler.Text.Decimal
import MessageCompiler.Text.Lines
import MessageCompiler.Word

namespace MessageCompiler

/-- Removes one node of a case. -/
inductive RemoveOp where
  | node (index : Int)
  | nestedIcu (index : Int)
  deriving DecidableEq, Repr

namespace RemoveOp

def index : RemoveOp → Int
  | .node index => index
  | .nestedIcu index => index

def encode : RemoveOp → List Flat
  | .node index => [.int index]
  | .nestedIcu index => [.int (complement index), .int index]

def listing : RemoveOp → List String
  | .node index => [remove index]
  | .nestedIcu index => ["removeNestedICU(" ++ Text.showInt index ++ ")", remove index]
where
  remove (index : Int) : String := "remove(lView[" ++ Text.showInt index ++ "])"

def encodeAll (ops : List RemoveOp) : List Flat := ops.flatMap encode

def listingAll (ops : List RemoveOp) : String := Text.unlines (ops.flatMap listing)

end RemoveOp

end MessageCompiler
