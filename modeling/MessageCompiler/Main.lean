/-
The program.

Files and variables are those of the system. A store of artifacts is a file with one JSON object, from
keys to the texts of artifacts.
-/
import MessageCompiler.Command.Run

namespace MessageCompiler.Program

def readText (name : String) : IO (Except FileError String) := do
  match ← (IO.FS.readFile name).toBaseIO with
  | .ok text => return .ok text
  | .error (.noFileOrDirectory ..) => return .error .missing
  | .error _ => return .error .directory

/-- The artifacts in the file of a store; a missing file is an empty store. -/
def loadStore (name : String) : IO Store := do
  match ← readText name with
  | .error _ => return .empty
  | .ok text =>
    match Json.read .careful text with
    | .ok (.obj members) => return ⟨members.filterMap fun (key, j) => j.str?.map (key, ·)⟩
    | _ => return .empty

/-- Writes the file of a store; a store in memory has none. -/
def saveStore (name : String) (store : Store) : IO Unit :=
  if name == ":memory:" then pure ()
  else IO.FS.writeFile name (Json.compact (.obj (store.rows.map fun (key, body) => (key, .str body))))

/-- The settings that may come from the environment. -/
def readVariables : IO (List (String × String)) := do
  let names := Command.Sources.defaults.map fun (name, _) => Command.Sources.variableName name
  names.filterMapM fun name => do return (← IO.getEnv name).map (name, ·)

def host : IO (Command.Host IO) := do
  let home ← IO.getEnv "HOME"
  let environment ← readVariables
  return {
    readText
    home := home.getD ""
    environment := (environment.lookup ·)
    loadStore
    saveStore }

def showEntry (e : Entry) : String :=
  let fields := e.fields.map fun (name, f) =>
    " " ++ name ++ "=" ++ match f with
      | .int i => Text.showInt i
      | .text s => Text.quote s
  e.level.name ++ ": " ++ e.message ++ String.join fields

end MessageCompiler.Program

open MessageCompiler in
/-- Runs the command line: output goes to the standard output, all else to the standard error. -/
def main (arguments : List String) : IO UInt32 := do
  let t ← Command.run (← Program.host) arguments
  t.log.forM fun e => IO.eprintln (Program.showEntry e)
  IO.print t.out
  match t.failure with
  | some e =>
    IO.eprintln e.message
    return 1
  | none => return 0
