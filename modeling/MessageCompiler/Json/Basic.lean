/-
JSON values.

Numbers keep their text, so that nothing is lost between reading and writing; members of an object
keep their order and their duplicates.
-/

namespace MessageCompiler

/-- A JSON value. -/
inductive Json where
  | null
  | bool (b : Bool)
  | num (text : String)
  | str (s : String)
  | arr (items : List Json)
  | obj (members : List (String × Json))
  deriving Repr, Inhabited

namespace Json

def int (i : Int) : Json := .num (toString i)

def nat (n : Nat) : Json := .num (toString n)

def get? (j : Json) (name : String) : Option Json :=
  match j with
  | .obj members => members.lookup name
  | _ => none

def getLast? (j : Json) (name : String) : Option Json :=
  match j with
  | .obj members => members.reverse.lookup name
  | _ => none

def str? : Json → Option String
  | .str s => some s
  | _ => none

def arr? : Json → Option (List Json)
  | .arr items => some items
  | _ => none

end Json

end MessageCompiler
