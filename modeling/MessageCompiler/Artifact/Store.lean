/-
Stores of artifacts.

A store maps keys to the texts of artifacts; writing a key again replaces its text.
-/
import MessageCompiler.Artifact.Basic

namespace MessageCompiler

/-- Texts by key. -/
structure Store where
  rows : List (String × String)
  deriving DecidableEq, Repr

/-- Why an artifact was not found. -/
inductive StoreError where
  | notFound
  | closed
  | corrupt (key : String) (e : Artifact.DecodeError)

def StoreError.message : StoreError → String
  | .notFound => "artifact not found"
  | .closed => "sql: database is closed"
  | .corrupt key e => "decode artifact " ++ key ++ ": " ++ e.message

namespace Store

def empty : Store := ⟨[]⟩

def count (s : Store) : Nat := s.rows.length

def putText (s : Store) (key body : String) : Store :=
  ⟨s.rows.filter (fun r => r.1 != key) ++ [(key, body)]⟩

/-- Writes the text of a key that is there already. -/
def replaceText (s : Store) (key body : String) : Store :=
  ⟨s.rows.map fun r => if r.1 = key then (key, body) else r⟩

def getText? (s : Store) (key : String) : Option String := s.rows.lookup key

def put (s : Store) (key : String) (a : Artifact) : Store := s.putText key a.toJson.compact

def get (s : Store) (key : String) : Except StoreError Artifact :=
  match s.getText? key with
  | none => .error .notFound
  | some body => (Artifact.decode body).mapError (.corrupt key)

end Store

end MessageCompiler
