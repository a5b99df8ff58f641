/-
Parsed messages.

A message is text and ICU expressions in turn. An ICU expression chooses one of its cases by the value
of a binding, and every case is again such a sequence.
-/

namespace MessageCompiler

/-- How an ICU expression chooses: by label or `other`; by label, plural category or `other`; by label
only. A parsed expression is one of the first two. -/
inductive IcuKind where
  | select
  | plural
  | exact
  deriving DecidableEq, Repr

def IcuKind.word : IcuKind → String
  | .select => "select"
  | .plural => "plural"
  | .exact => "plural"

mutual

/-- A piece of a message. -/
inductive Segment where
  | text (s : String)
  | icu (e : Icu)

/-- A choice between cases by the value of the binding `main`. -/
inductive Icu where
  | mk (kind : IcuKind) (main : Int) (cases : List Case)

/-- What is written for one label. -/
inductive Case where
  | mk (label : String) (body : List Segment)

end

namespace Icu

def kind : Icu → IcuKind
  | .mk kind _ _ => kind

def main : Icu → Int
  | .mk _ main _ => main

def cases : Icu → List Case
  | .mk _ _ cases => cases

end Icu

namespace Case

def label : Case → String
  | .mk label _ => label

def body : Case → List Segment
  | .mk _ body => body

end Case

end MessageCompiler
