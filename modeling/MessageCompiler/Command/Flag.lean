/-
Flags of a command line.

A flag is given as `--name value`, `--name=value` or, if it has a letter, `-x value`, `-x=value` or
`-xvalue`. Flags and arguments may be mixed, and after `--` everything is an argument.

* **`Flag.parse`** — splits a command line into flags and arguments.
-/
import MessageCompiler.Json.Reader

namespace MessageCompiler.Command

/-- What values a flag takes. -/
inductive FlagKind where
  | text
  | int
  /-- Any number of texts. -/
  | texts
  /-- No value: it is on if it is given. -/
  | switch
  deriving DecidableEq, Repr

/-- A flag that a command knows. -/
structure Flag where
  name : String
  letter : Option Char
  kind : FlagKind
  deriving DecidableEq, Repr

/-- What is wrong with a command line. -/
inductive FlagError where
  | badSyntax (argument : String)
  | unknown (name : String)
  | unknownLetter (letter : Char) (letters : String)
  | noValue (argument : String)
  | noLetterValue (letter : Char) (letters : String)
  | badValue (flag : Flag) (value reason : String)
  deriving DecidableEq, Repr

namespace Flag

/-- The flag as it is shown: with its letter, if it has one. -/
def shown (f : Flag) : String :=
  match f.letter with
  | some c => "-" ++ c.toString ++ ", --" ++ f.name
  | none => "--" ++ f.name

end Flag

def FlagError.message : FlagError → String
  | .badSyntax argument => "bad flag syntax: " ++ argument
  | .unknown name => "unknown flag: --" ++ name
  | .unknownLetter letter letters =>
    "unknown shorthand flag: " ++ Text.quoteSingle (Json.leadByte letter) ++ " in -" ++ letters
  | .noValue argument => "flag needs an argument: " ++ argument
  | .noLetterValue letter letters =>
    "flag needs an argument: " ++ Text.quoteSingle letter ++ " in -" ++ letters
  | .badValue flag value reason =>
    "invalid argument " ++ Text.quote value ++ " for " ++ Text.quote flag.shown ++ " flag: " ++ reason

/-- The flags and arguments of a command line, both in the order they are given in. -/
structure Line where
  flags : List (String × String)
  arguments : List String
  deriving DecidableEq, Repr

namespace Line

def has (l : Line) (name : String) : Bool := l.flags.any (·.1 == name)

def value? (l : Line) (name : String) : Option String := l.flags.reverse.lookup name

def values (l : Line) (name : String) : List String :=
  (l.flags.filter (·.1 == name)).map (·.2)

def withArgument (l : Line) (s : String) : Line := { l with arguments := s :: l.arguments }

end Line

namespace Flag

def switchWords : List String :=
  ["1", "t", "T", "TRUE", "true", "True", "0", "f", "F", "FALSE", "false", "False"]

/-- The value of a flag as it is kept, if it fits the flag. -/
def accept (f : Flag) (value : String) : Except FlagError String :=
  match f.kind with
  | .text | .texts => .ok value
  | .int =>
    match Text.readLiteral value.toList with
    | .ok i => .ok (Text.showInt i)
    | .error e =>
      .error (.badValue f value
        ("strconv.ParseInt: parsing " ++ Text.quote value ++ ": " ++ e.message))
  | .switch =>
    if switchWords.contains value then .ok value
    else
      .error (.badValue f value ("strconv.ParseBool: parsing " ++ Text.quote value ++ ": invalid syntax"))

/-- The text up to the first equals sign, and the one after it if there is one. -/
def splitEquals (s : List Char) : List Char × Option (List Char) :=
  match s.span (· != '=') with
  | (name, _ :: value) => (name, some value)
  | (name, []) => (name, none)

/-- What one argument turns out to be: its flag, and the value if it is not the next argument. -/
structure Reading where
  flag : Flag
  value : Option String
  /-- What is wrong if the value is missing. -/
  missing : FlagError

def readLong (flags : List Flag) (argument : String) : Except FlagError Reading :=
  let body := argument.toList.drop 2
  match body with
  | [] | '-' :: _ | '=' :: _ => .error (.badSyntax argument)
  | _ =>
    let (name, value) := splitEquals body
    match flags.find? (·.name == String.ofList name) with
    | none => .error (.unknown (String.ofList name))
    | some flag =>
      let value := value.map String.ofList
      let value := if flag.kind == .switch then value.orElse fun _ => some "true" else value
      .ok ⟨flag, value, .noValue argument⟩

/-- Letters after one dash, up to the first that takes a value. -/
def readLetters (flags : List Flag) : List Char → Except FlagError (List (String × String) × Option Reading)
  | [] => .ok ([], none)
  | c :: rest =>
    let letters := String.ofList (c :: rest)
    match flags.find? (·.letter == some c) with
    | none => .error (.unknownLetter c letters)
    | some flag =>
      match rest with
      | '=' :: v :: value => .ok ([], some ⟨flag, some (String.ofList (v :: value)), .noLetterValue c letters⟩)
      | _ =>
        if flag.kind == .switch then do
          let (given, last) ← readLetters flags rest
          return ((flag.name, "true") :: given, last)
        else if rest.isEmpty then .ok ([], some ⟨flag, none, .noLetterValue c letters⟩)
        else .ok ([], some ⟨flag, some (String.ofList rest), .noLetterValue c letters⟩)

/-- Completes a reading: the value is its own, or the next argument. -/
def complete (r : Reading) (rest : List String) :
    Except FlagError ((String × String) × List String) := do
  match r.value, rest with
  | some value, _ => return ((r.flag.name, ← r.flag.accept value), rest)
  | none, value :: rest => return ((r.flag.name, ← r.flag.accept value), rest)
  | none, [] => throw r.missing

/-- Arguments that a test runner is started with mean nothing here. -/
def isTestLetters (s : List Char) : Bool := "test.".toList.isPrefixOf s

/-- One argument with what follows it: the flags it gives, and what is left. -/
def step (flags : List Flag) (argument : String) (rest : List String) :
    Except FlagError (List (String × String) × List String) :=
  match argument.toList with
  | '-' :: '-' :: _ => do
    let (given, rest) ← complete (← readLong flags argument) rest
    return ([given], rest)
  | '-' :: letters =>
    if isTestLetters letters then .ok ([], rest)
    else do
      match ← readLetters flags letters with
      | (given, none) => return (given, rest)
      | (given, some r) =>
        let (last, rest) ← complete r rest
        return (given ++ [last], rest)
  | _ => .ok ([], rest)

def isFlag (s : String) : Bool :=
  match s.toList with
  | '-' :: _ :: _ => true
  | _ => false

/-- Splits a command line; every step takes at least one argument, so that as many steps as there are
arguments are enough. -/
def parseSteps (flags : List Flag) : (steps : Nat) → List String → Except FlagError Line
  | 0, _ => .ok ⟨[], []⟩
  | _, [] => .ok ⟨[], []⟩
  | steps + 1, argument :: rest => do
    if argument == "--" then return ⟨[], rest⟩
    else if isFlag argument then
      let (given, rest) ← step flags argument rest
      let line ← parseSteps flags steps rest
      return { line with flags := given ++ line.flags }
    else return (← parseSteps flags steps rest).withArgument argument

def parse (flags : List Flag) (line : List String) : Except FlagError Line :=
  parseSteps flags line.length line

end Flag

end MessageCompiler.Command
