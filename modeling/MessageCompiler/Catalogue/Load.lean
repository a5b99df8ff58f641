/-
Reading catalogues.
-/
import MessageCompiler.Catalogue.Basic
import MessageCompiler.Catalogue.Location

namespace MessageCompiler

/-- Why a file cannot be read. -/
inductive FileError where
  | missing
  | directory
  deriving DecidableEq, Repr

def FileError.message (name : String) : FileError → String
  | .missing => "open " ++ name ++ ": no such file or directory"
  | .directory => "read " ++ name ++ ": is a directory"

/-- Why a catalogue cannot be read. -/
inductive LoadError where
  | file (location : String) (e : FileError)
  | address (text : String)
  /-- Nothing here can fetch a catalogue from the web. -/
  | unreachable (location : String)
  | notJson (location : String)
  deriving DecidableEq, Repr

def LoadError.message : LoadError → String
  | .file location e => e.message location
  | .address text => text
  | .unreachable location => "fetch bundle " ++ location ++ ": no connection"
  | .notJson location => "bundle " ++ location ++ " is not valid JSON"

/-- The catalogue at a location, with a way to read files. -/
def Catalogue.load {m : Type → Type} [Monad m] (readText : String → m (Except FileError String))
    (location : String) : m (Except LoadError Catalogue) := do
  if Location.isAddress location then
    match Location.check location with
    | .error text => return .error (.address text)
    | .ok _ => return .error (.unreachable location)
  else
    match ← readText location with
    | .error e => return .error (.file location e)
    | .ok text =>
      match Catalogue.ofText? text with
      | some c => return .ok c
      | none => return .error (.notJson location)

end MessageCompiler
