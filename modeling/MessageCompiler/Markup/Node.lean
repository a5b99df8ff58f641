/-
Markup as a tree.
-/

namespace MessageCompiler.Markup

/-- The vocabulary an element belongs to. -/
inductive Namespace where
  | html
  | svg
  | math
  deriving DecidableEq, Repr

def Namespace.name : Namespace → String
  | .html => ""
  | .svg => "svg"
  | .math => "math"

/-- An attribute of an element. -/
structure Attr where
  ns : String
  key : String
  value : String
  deriving DecidableEq, Repr

/-- A node with everything below it. -/
inductive Node where
  | text (s : String)
  | comment (s : String)
  | element (ns : Namespace) (tag : String) (attrs : List Attr) (children : List Node)
  deriving Repr, Inhabited

end MessageCompiler.Markup
