/-
Catalogues of messages.

A catalogue is a JSON text with a locale and a table of messages by identifier. Only the table is
looked into: names may occur twice, and then the first counts.

* **`Catalogue.message`** — the message with an identifier.
-/
import MessageCompiler.Catalogue.Path
import MessageCompiler.Json.Reader

namespace MessageCompiler

/-- A catalogue of messages. -/
structure Catalogue where
  root : Json

/-- Why there is no message. -/
inductive CatalogueError where
  | missing (id : String)
  | notText (id : String)
  deriving DecidableEq, Repr

def CatalogueError.message : CatalogueError → String
  | .missing id => "no translation for message " ++ Text.quote id
  | .notText id => "translation of message " ++ Text.quote id ++ " is not a string"

namespace Catalogue

def tableName : String := "translations"

def ofText? (text : String) : Option Catalogue :=
  match Json.read .greedy text with
  | .ok root => some ⟨root⟩
  | .error _ => none

/-- The locale of the messages; empty if none is given. -/
def locale (c : Catalogue) : String := ((c.root.get? "locale").bind Json.str?).getD ""

/-- The values that are tables by their name, in order. -/
def tables (c : Catalogue) : List Json :=
  match c.root with
  | .obj members => (members.filter (·.1 == tableName)).map (·.2)
  | _ => []

/-- The place in a list that a path of digits stands for. -/
def position? (path : List Char) : Option Nat :=
  if path.isEmpty || !path.all Text.isDigit then none
  else some (Text.natOfDigits path % 18446744073709551616)

def lookup? (path : List Char) : Json → Option Json
  | .obj members => members.lookup (String.ofList (unescape path))
  | .arr items => (position? path).bind (items[·]?)
  | _ => none

/-- What is found at a path. -/
inductive Finding where
  | nothing
  | text (s : String)
  | other
  deriving DecidableEq, Repr

def Finding.ofValue? : Option Json → Finding
  | none => .nothing
  | some (.str s) => .text s
  | some _ => .other

/-- What a selector finds is a selection, and no text. A path behind it is looked up in the table, and
so is the empty path if the selector is not closed. -/
def findSelected (c : Catalogue) (selector : List Char) : Finding :=
  match c.root with
  | .obj _ | .arr _ =>
    match afterSelector? 1 false selector with
    | some [] => .other
    | some path => .ofValue? (c.tables.head?.bind (lookup? path))
    | none => .ofValue? (c.tables.head?.bind (lookup? []))
  | _ => .nothing

/-- What is found at a path in the first table that has it. -/
def find (c : Catalogue) (path : List Char) : Finding :=
  match selector? path with
  | some selector => c.findSelected selector
  | none => .ofValue? (c.tables.findSome? (lookup? path))

def message (c : Catalogue) (id : String) : Except CatalogueError String :=
  match c.find (escape id.toList) with
  | .nothing => .error (.missing id)
  | .other => .error (.notText id)
  | .text s => .ok s

/-- The identifiers in the table. What is in a list has no name, and a single value counts as one. -/
def ids (c : Catalogue) : List String :=
  match c.tables.head? with
  | none => []
  | some (.obj members) => members.map (·.1)
  | some (.arr items) => items.map fun _ => ""
  | some _ => [""]

end Catalogue

end MessageCompiler
