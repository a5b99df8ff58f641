/-
Values given by index on a command line, as `index=value`.
-/
import MessageCompiler.Text.Decimal
import MessageCompiler.Text.Quoted

namespace MessageCompiler.Command

/-- What is wrong with an assignment. -/
inductive AssignmentError where
  | noEquals (text : String)
  | badIndex (text : String)
  deriving DecidableEq, Repr

def AssignmentError.message : AssignmentError → String
  | .noEquals text => Text.quote text ++ " is not index=value"
  | .badIndex text => Text.quote text ++ ": invalid index"

/-- Values by index; an index occurs once. -/
structure Assignments where
  values : List (Nat × String)
  deriving DecidableEq, Repr

namespace Assignments

def empty : Assignments := ⟨[]⟩

/-- Assigns a value; it takes the place of an earlier one. -/
def assign (a : Assignments) (index : Nat) (value : String) : Assignments :=
  ⟨a.values.filter (·.1 != index) ++ [(index, value)]⟩

def get? (a : Assignments) (index : Nat) : Option String := a.values.lookup index

def greatest (a : Assignments) : Int := a.values.foldl (fun m p => max m p.1) (-1)

def readOne (text : String) : Except AssignmentError (Nat × String) :=
  match text.toList.span (· != '=') with
  | (_, []) => .error (.noEquals text)
  | (index, _ :: value) =>
    match Text.readInt? index with
    | some i => if i < 0 then .error (.badIndex text) else .ok (i.toNat, String.ofList value)
    | none => .error (.badIndex text)

/-- Reads assignments; the first that is wrong counts. -/
def read (texts : List String) : Except AssignmentError Assignments :=
  texts.foldlM (fun a text => do
    let (index, value) ← readOne text
    return a.assign index value) empty

/-- The values in order, with nothing for an index that is not assigned. More values than can be
counted are none. -/
def inOrder (a : Assignments) : List String :=
  if a.greatest < 9223372036854775807 then
    (List.range (a.greatest + 1).toNat).map fun i => (a.get? i).getD ""
  else []

end Assignments

end MessageCompiler.Command
