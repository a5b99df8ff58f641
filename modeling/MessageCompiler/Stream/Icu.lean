/-
Compiled ICU expressions and compiled messages.
-/
import MessageCompiler.Message.Segment
import MessageCompiler.Stream.Create
import MessageCompiler.Stream.IcuCreate
import MessageCompiler.Stream.Remove
import MessageCompiler.Stream.Update

namespace MessageCompiler

/-- The instructions of one case. -/
structure CompiledCase where
  label : String
  create : List IcuCreateOp
  remove : List RemoveOp
  update : List UpdateOp
  deriving DecidableEq, Repr

/-- A compiled ICU expression. Which case is active is kept by each running view in the slot
`current`. -/
structure CompiledIcu where
  kind : IcuKind
  /-- The slot of the comment in front of which the active case stands. -/
  anchor : Int
  current : Int
  cases : List CompiledCase
  deriving DecidableEq, Repr

/-- A heading and the lines under it, unless there are none. -/
def listingSection (title body : String) : String :=
  if body.isEmpty then ""
  else
    "  " ++ title ++ ":\n" ++
      String.join ((Text.splitOnChar '\n' body.toList).map fun line =>
        "    " ++ String.ofList line ++ "\n")

def CompiledCase.listing (c : CompiledCase) : String :=
  "case " ++ Text.quote c.label ++ ":\n" ++ listingSection "create" (IcuCreateOp.listingAll c.create) ++
    listingSection "remove" (RemoveOp.listingAll c.remove) ++
    listingSection "update" (UpdateOp.listingAll c.update)

/-- The expression with the instructions of every case. -/
def CompiledIcu.listing (icu : CompiledIcu) : String :=
  "ICU " ++ icu.kind.word ++ " anchor=" ++ Text.showInt icu.anchor ++ " currentCase=lView[" ++
    Text.showInt icu.current ++ "]\n" ++ String.join (icu.cases.map CompiledCase.listing)

/-- A message compiled for one template. -/
structure Block where
  create : List CreateOp
  update : List UpdateOp
  deriving DecidableEq, Repr

end MessageCompiler
