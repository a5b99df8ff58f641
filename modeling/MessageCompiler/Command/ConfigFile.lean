/-
Configuration files.

A file is a table in JSON, or lines `name: value`. In lines, a value is text in quotes or a plain word;
plain words for numbers, for yes and no and for nothing are read as such.

* **`ConfigFile.read`** — the settings of a file.
-/
import MessageCompiler.Command.Setting
import MessageCompiler.Text.Blank
import MessageCompiler.Text.Case
import MessageCompiler.Text.Lines

namespace MessageCompiler.Command.ConfigFile

/-- How a file is written. -/
inductive Format where
  | json
  | lines
  deriving DecidableEq, Repr

/-- The endings of configuration files, the preferred ones first. -/
def endings : List String :=
  ["json", "toml", "yaml", "yml", "properties", "props", "prop", "hcl", "tfvars", "dotenv", "env", "ini"]

/-- What follows the last dot of the last part of a name; nothing if there is no dot. -/
def ending (name : String) : String :=
  let last := (name.toList.reverse.takeWhile (· != '/')).reverse
  let after := (last.reverse.takeWhile (· != '.')).reverse
  if after.length == last.length then "" else String.ofList after

/-- What is said about a file of an unknown format. -/
def unsupported (ending : String) : String := "Unsupported Config Type " ++ Text.quote ending

def formatOf (ending : String) : Format := if ending == "json" then .json else .lines

def jsonNumber (text : String) : Binary64 :=
  let (negative, digits, exponent) := Json.decimalOf text
  .ofDecimal ⟨negative, digits, exponent⟩

/-- The setting that a JSON value is; nothing is no setting. -/
def ofJson (number : String → Setting) : Json → Option Setting
  | .null => none
  | .bool b => some (.bool b)
  | .num text => some (number text)
  | .str s => some (.text s)
  | .arr _ | .obj _ => some .compound

def ofMembers (number : String → Setting) (members : List (String × Json)) : List (String × Setting) :=
  members.filterMap fun (name, j) => (ofJson number j).map (Text.lower name, ·)

def kindWord : Json → String
  | .null => "null"
  | .bool _ => "bool"
  | .num _ => "number"
  | .str _ => "string"
  | .arr _ => "array"
  | .obj _ => "object"

def readJson (text : String) : Except String (List (String × Setting)) :=
  match Json.read .careful text with
  | .error e => .error e.message
  | .ok (.obj members) => .ok (ofMembers (fun n => .float (jsonNumber n)) members)
  | .ok .null => .ok []
  | .ok j =>
    .error ("json: cannot unmarshal " ++ kindWord j ++ " into Go value of type map[string]interface \x7b\x7d")

def isExponent : List Char → Bool
  | [] => true
  | c :: s =>
    let ds := (Text.splitSign s).2
    (c == 'e' || c == 'E') && !ds.isEmpty && ds.all Text.isDigit

/-- Whether the text is a decimal number, perhaps with a fraction and an exponent. -/
def isDecimal (s : List Char) : Bool :=
  let (whole, s) := (Text.splitSign s).2.span Text.isDigit
  let (fraction, s) :=
    match s with
    | '.' :: s => s.span Text.isDigit
    | s => ([], s)
  (!whole.isEmpty || !fraction.isEmpty) && isExponent s

def startsNumber : List Char → Bool
  | c :: _ => Text.isDigit c || c == '+' || c == '-' || c == '.'
  | [] => false

def yes : List String := ["y", "Y", "yes", "Yes", "YES", "true", "True", "TRUE", "on", "On", "ON"]

def no : List String := ["n", "N", "no", "No", "NO", "false", "False", "FALSE", "off", "Off", "OFF"]

def nothing : List String := ["", "~", "null", "Null", "NULL"]

/-- The setting that a plain word is; nothing is no setting. -/
def plain (word : String) : Option Setting :=
  if nothing.contains word then none
  else if yes.contains word then some (.bool true)
  else if no.contains word then some (.bool false)
  else
    let bare := word.toList.filter (· != '_')
    if !startsNumber word.toList then some (.text word)
    else
      match Text.readLiteral bare with
      | .ok i => some (.int i)
      | .error _ =>
        if isDecimal bare then some (.float (jsonNumber (String.ofList bare))) else some (.text word)

/-- The text in double quotes after its opening quote, and what follows it. -/
def doubleQuoted : List Char → List Char → Option (String × List Char)
  | _, [] => none
  | done, '"' :: rest => some (String.ofList done.reverse, rest)
  | done, '\\' :: c :: rest =>
    let c := if c == 'n' then '\n' else if c == 't' then '\t' else if c == 'r' then '\r' else c
    doubleQuoted (c :: done) rest
  | done, c :: rest => doubleQuoted (c :: done) rest

/-- The text in single quotes after its opening quote, and what follows it; a quote inside is written
twice. -/
def singleQuoted : List Char → List Char → Option (String × List Char)
  | _, [] => none
  | done, '\'' :: '\'' :: rest => singleQuoted ('\'' :: done) rest
  | done, '\'' :: rest => some (String.ofList done.reverse, rest)
  | done, c :: rest => singleQuoted (c :: done) rest

/-- The text up to a comment, which starts with `#` after a blank. -/
def beforeComment : (blank : Bool) → List Char → List Char
  | _, [] => []
  | blank, c :: s =>
    if blank && c == '#' then [] else c :: beforeComment (c == ' ' || c == '\t') s

/-- What is wrong with a line. -/
inductive LineError where
  | secondColon
  | unclosedQuote
  | noColon
  | badStart
  deriving DecidableEq, Repr

def LineError.message : LineError → String
  | .secondColon => "mapping values are not allowed in this context"
  | .unclosedQuote => "found unexpected end of stream"
  | .noColon => "could not find expected ':'"
  | .badStart => "found character that cannot start any token"

/-- Whether a colon ends a plain name here: a blank or nothing follows. -/
def endsName : List Char → Bool
  | [] => true
  | c :: _ => c == ' ' || c == '\t'

/-- The plain name at the front and what follows its colon. -/
def plainName : List Char → List Char → Option (String × List Char)
  | _, [] => none
  | done, c :: s =>
    if c == ':' && endsName s then some (String.ofList (Text.dropRightWhile Text.isPatternBlank done.reverse), s)
    else plainName (c :: done) s

/-- The name at the front of a line and what follows its colon. -/
def name? (s : List Char) : Option (String × List Char) :=
  let afterColon (p : String × List Char) : Option (String × List Char) :=
    match p.2.dropWhile Text.isPatternBlank with
    | ':' :: s => some (p.1, s)
    | _ => none
  match s with
  | '"' :: s => (doubleQuoted [] s).bind afterColon
  | '\'' :: s => (singleQuoted [] s).bind afterColon
  | s => plainName [] s

def value (s : List Char) : Except LineError (Option Setting) :=
  match s.dropWhile Text.isPatternBlank with
  | '"' :: s =>
    match doubleQuoted [] s with
    | some (text, _) => .ok (some (.text text))
    | none => .error .unclosedQuote
  | '\'' :: s =>
    match singleQuoted [] s with
    | some (text, _) => .ok (some (.text text))
    | none => .error .unclosedQuote
  | s =>
    let s := Text.dropRightWhile Text.isPatternBlank (beforeComment true s)
    match s with
    | '[' :: _ | '\x7b' :: _ => .ok (some .compound)
    | '@' :: _ => .error .badStart
    | '%' :: _ => .error .badStart
    | '\x60' :: _ => .error .badStart
    | s => if (plainName [] s).isSome then .error .secondColon else .ok (plain (String.ofList s))

/-- What one line holds. -/
inductive Content where
  | blank
  | entry (name : String) (value : Option Setting)
  /-- The line belongs to the value above it. -/
  | nested
  /-- The line has no colon. -/
  | word (text : String)

def content (line : List Char) : Except LineError Content := do
  let bare := Text.dropRightWhile Text.isPatternBlank (beforeComment true line)
  if bare.isEmpty || bare == "---".toList || bare == "...".toList then return .blank
  match bare with
  | ' ' :: _ => return .nested
  | '\t' :: _ => throw .badStart
  | '-' :: ' ' :: _ => return .nested
  | _ =>
    match name? bare with
    | some (name, rest) => return .entry (Text.lower name) (← value rest)
    | none => return .word (String.ofList bare)

/-- Where a fault is; the first line is not mentioned. -/
def place (line : Nat) : String := if line == 0 then "" else "line " ++ Text.showInt (line + 1) ++ ": "

/-- What is said about a single word in place of a table. -/
def notTable (line : Nat) (text : String) : String :=
  let shown := if 10 < text.utf8ByteSize then String.ofList (text.toList.take 7) ++ "..." else text
  "yaml: unmarshal errors:\n  line " ++ Text.showInt (line + 1) ++ ": cannot unmarshal !!str \x60" ++
    shown ++ "\x60 into map[string]interface \x7b\x7d"

/-- The settings of lines, from line number `line` on. -/
def readLines : (line : Nat) → (found : List (String × Option Setting)) → List (List Char) →
    Except String (List (String × Option Setting))
  | _, found, [] => .ok found
  | line, found, text :: rest =>
    match content text with
    | .error e => .error ("yaml: " ++ place line ++ e.message)
    | .ok .blank => readLines (line + 1) found rest
    | .ok (.entry name value) => readLines (line + 1) (found ++ [(name, value)]) rest
    | .ok .nested =>
      let found :=
        match found.getLast? with
        | some (name, none) => found.dropLast ++ [(name, some .compound)]
        | _ => found
      readLines (line + 1) found rest
    | .ok (.word text) =>
      if found.isEmpty && rest.all (·.all Text.isPatternBlank) then .error (notTable line text)
      else .error ("yaml: " ++ place (line + 1) ++ LineError.noColon.message)

def lineNumber (text : String) : Setting :=
  match Text.readLiteral text.toList with
  | .ok i => .int i
  | .error _ => .float (jsonNumber text)

/-- The settings of a text of lines; a table in braces may take their place. -/
def readLinesText (text : String) : Except String (List (String × Setting)) :=
  match Json.read .careful text with
  | .ok (.obj members) => .ok (ofMembers lineNumber members)
  | _ => do
    let found ← readLines 0 [] ((Text.splitOnChar '\n' text.toList).map fun l =>
      Text.dropRightWhile (· == '\r') l)
    return found.filterMap fun (name, value) => value.map (name, ·)

def read (format : Format) (text : String) : Except String (List (String × Setting)) :=
  (match format with
    | .json => readJson text
    | .lines => readLinesText text).mapError ("While parsing config: " ++ ·)

end MessageCompiler.Command.ConfigFile
