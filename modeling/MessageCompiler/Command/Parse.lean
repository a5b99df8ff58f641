/-
Printing the structure of a message.
-/
import MessageCompiler.Message.Parser

namespace MessageCompiler.Command

def pad (depth : Nat) : String := String.ofList (List.replicate (2 * depth) ' ')

mutual

/-- The structure of a piece of a message, one line for every text, expression and case. -/
def outlineSegment (depth : Nat) : Segment → String
  | .text s => if s.isEmpty then "" else pad depth ++ "text " ++ Text.quote s ++ "\n"
  | .icu e => outlineIcu depth e

def outlineIcu (depth : Nat) : Icu → String
  | .mk kind main cases =>
    pad depth ++ kind.word ++ " on binding " ++ Text.showInt main ++ "\n" ++ outlineCases depth cases

def outlineCases (depth : Nat) : List Case → String
  | [] => ""
  | c :: rest => outlineCase depth c ++ outlineCases depth rest

def outlineCase (depth : Nat) : Case → String
  | .mk label body =>
    pad depth ++ "  case " ++ Text.quote label ++ "\n" ++ outlineSegments (depth + 2) body

def outlineSegments (depth : Nat) : List Segment → String
  | [] => ""
  | s :: rest => outlineSegment depth s ++ outlineSegments depth rest

end

def outline (segments : List Segment) : String := outlineSegments 0 segments

end MessageCompiler.Command
