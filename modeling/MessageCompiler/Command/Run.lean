/-
The command line.

A line is handled in this order: the command is chosen, its flags are read, the configuration file is
read, the arguments are counted, the level of diagnostics is set, and then the command runs. The first
thing that is wrong ends it.

* **`run`** — handles a command line, with a `Host` that reads files and keeps stores.
-/
import MessageCompiler.Command.Choice
import MessageCompiler.Command.ConfigFile
import MessageCompiler.Command.Parse
import MessageCompiler.Command.Render

namespace MessageCompiler.Command

/-- The outside of the program. -/
structure Host (m : Type → Type) where
  readText : String → m (Except FileError String)
  /-- The directory of the user. -/
  home : String
  environment : String → Option String
  loadStore : String → m Store
  saveStore : String → Store → m Unit

/-- What a command line prints and reports. -/
structure Transcript where
  out : String
  log : List Entry
  failure : Option Failure

namespace Transcript

def failed (e : Failure) : Transcript := ⟨"", [], some e⟩

def after (log : List Entry) (t : Transcript) : Transcript := { t with log := log ++ t.log }

/-- The transcript with the diagnostics of a level and above. -/
def atLevel (level : Level) (t : Transcript) : Transcript :=
  { t with log := Entry.visible level t.log }

/-- The transcript of something that prints a text or fails. -/
def ofReported (r : Reported Failure String) : Transcript :=
  match r.result with
  | .ok out => ⟨out, r.log, none⟩
  | .error e => ⟨"", r.log, some e⟩

end Transcript

variable {m : Type → Type} [Monad m]

/-- The name of the configuration file in the directory of the user, if there is one. -/
def findConfig (host : Host m) : List String → m (Option String)
  | [] => return none
  | name :: rest => do
    match ← host.readText name with
    | .error .missing => findConfig host rest
    | _ => return some name

/-- The names that a configuration file may have in the directory of the user. -/
def configNames (home : String) : List String :=
  ConfigFile.endings.map (home ++ "/.ngc-i18n." ++ ·) ++ [home ++ "/.ngc-i18n"]

def readConfig (host : Host m) (format : ConfigFile.Format) (name : String) :
    m (Except String (List (String × Setting))) := do
  match ← host.readText name with
  | .error e => return .error (e.message name)
  | .ok text => return ConfigFile.read format text

/-- The settings of the configuration file that a line names or, if it names none, of the one in the
directory of the user. -/
def loadConfig (host : Host m) (line : Line) : m (Except String (List (String × Setting))) := do
  match line.value? "config" with
  | some name =>
    if name.isEmpty then default
    else
      let ending := ConfigFile.ending name
      if ConfigFile.endings.contains ending then readConfig host (ConfigFile.formatOf ending) name
      else return .error (ConfigFile.unsupported ending)
  | none => default
where
  default : m (Except String (List (String × Setting))) := do
    match ← findConfig host (configNames host.home) with
    | some name => readConfig host .lines name
    | none => return .ok []

/-- A message with the locale of its catalogue, if it comes from one that has a locale. -/
structure Resolved where
  message : String
  locale : Option String

/-- A message from the command line, with the stand-in for the marker replaced. -/
def typedMessage (s : Sources) (text : String) : String :=
  let standIn := s.text "marker"
  if standIn.isEmpty then text else Text.replaceAll text standIn Message.mark.toString

/-- The message that a line is about: its argument, or one from a catalogue. -/
def resolve (host : Host m) (s : Sources) : m (Except Failure Resolved) := do
  let location := (s.line.value? "bundle").getD ""
  if location.isEmpty then
    match s.line.arguments with
    | [] => return .error .noMessage
    | text :: _ => return .ok ⟨typedMessage s text, none⟩
  else
    let id := (s.line.value? "id").getD ""
    if id.isEmpty then return .error .noIdentifier
    else
      match ← Catalogue.load host.readText location with
      | .error e => return .error (.load e)
      | .ok c =>
        match c.message id with
        | .error e => return .error (.catalogue e)
        | .ok message => return .ok ⟨message, if c.locale.isEmpty then none else some c.locale⟩

def subOf (line : Line) : Int :=
  ((line.value? "sub").bind fun s => Text.readInt? s.toList).getD (-1)

def runParse (s : Sources) : Transcript :=
  let parsed := Message.split (typedMessage s (s.line.arguments.headD "")).toList
  match parsed.result with
  | .ok segments => ⟨outline segments, parsed.log, none⟩
  | .error e => ⟨"", parsed.log, some (.malformedIcu e)⟩

def runCompile (host : Host m) (s : Sources) : m Transcript := do
  let settings := Settings.ofSources s
  match ← resolve host s with
  | .error e => return .failed e
  | .ok resolved =>
    if settings.cache.isEmpty then
      let r := compileText none settings resolved.message (subOf s.line)
      return .ofReported ⟨r.log, r.result⟩
    else
      let store ← host.loadStore settings.cache
      let r := compileText (some store) settings resolved.message (subOf s.line)
      host.saveStore settings.cache (r.store.getD store)
      return .ofReported ⟨r.log, r.result⟩

/-- Renders a message; the locale of its catalogue counts more than any but the one of the line. -/
def renderResolved (s : Sources) (resolved : Resolved) : Transcript :=
  let decided :=
    match resolved.locale with
    | some locale => if s.line.has "locale" then [] else [("locale", locale)]
    | none => []
  let settings := Settings.ofSources { s with decided }
  match Assignments.read (s.line.values "bind") with
  | .error e => .failed (.assignment "--bind" e)
  | .ok values =>
    match Assignments.read (s.line.values "element") with
    | .error e => .failed (.assignment "--element" e)
    | .ok tags =>
      match Locale.parse settings.locale with
      | .error e => .failed (.locale settings.locale e)
      | .ok locale =>
        let compiled := compileMessage settings resolved.message (subOf s.line)
        match compiled.result with
        | .error e => ⟨"", compiled.log, some e⟩
        | .ok c =>
          let (log, printed) := renderCompiled c locale ⟨values.inOrder, tags⟩
          ⟨printed.out, compiled.log ++ log, printed.failure⟩

def runRender (host : Host m) (s : Sources) : m Transcript := do
  match ← resolve host s with
  | .error e => return .failed e
  | .ok resolved => return renderResolved s resolved

def runVerb (host : Host m) (s : Sources) : Verb → m Transcript
  | .compile => runCompile host s
  | .parse => return runParse s
  | .render => runRender host s
  | .help => return ⟨"", [], none⟩

def arityError? (verb : Verb) (count : Nat) : Option Failure :=
  match verb with
  | .parse => if count == 1 then none else some (.arity .exactlyOne count)
  | .compile | .render => if count ≤ 1 then none else some (.arity .atMostOne count)
  | .help => none

def runLine (host : Host m) (verb : Verb) (line : Line) : m Transcript := do
  let (file, warnings) ←
    match ← loadConfig host line with
    | .ok file => pure (file, [])
    | .error text =>
      pure ([], [(⟨.warning, "could not read config file", [("error", .text text)]⟩ : Entry)])
  let s : Sources := ⟨[], line, host.environment, file⟩
  match arityError? verb line.arguments.length with
  | some e => return (Transcript.failed e).after warnings
  | none =>
    let name := s.text "loglevel"
    match Level.ofName? name with
    | none => return (Transcript.failed (.unknownLevel name)).after warnings
    | some level => return ((← runVerb host s verb).atLevel level).after warnings

/-- Runs a command line. A line without a command, or with a call for help, prints nothing here. -/
def run (host : Host m) (arguments : List String) : m Transcript := do
  match Choice.find arguments with
  | .error text => return .failed (.unknownVerb text)
  | .ok none =>
    match Flag.parse globalFlags arguments with
    | .error e => return .failed (.flag e)
    | .ok _ => return ⟨"", [], none⟩
  | .ok (some (verb, rest)) =>
    match Flag.parse (globalFlags ++ verb.flags) rest with
    | .error e => return .failed (.flag e)
    | .ok line => if line.has "help" then return ⟨"", [], none⟩ else runLine host verb line

end MessageCompiler.Command
