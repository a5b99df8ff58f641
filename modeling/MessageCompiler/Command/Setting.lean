/-
Settings and where they come from.

A setting is looked for in this order: what the program itself decided, a flag on the command line, an
environment variable, the configuration file, and last its default.

* **`Sources.find`** — the value of a setting.
-/
import MessageCompiler.Command.Flag
import MessageCompiler.Decimal.Binary64
import MessageCompiler.Word

namespace MessageCompiler.Command

/-- The value of a setting. -/
inductive Setting where
  | text (s : String)
  | int (i : Int)
  | float (x : Binary64)
  | bool (b : Bool)
  /-- A list or a table, which no setting is. -/
  | compound
  deriving DecidableEq, Repr

namespace Setting

def toText : Setting → String
  | .text s => s
  | .int i => Text.showInt i
  | .float x => x.render .positional
  | .bool b => if b then "true" else "false"
  | .compound => ""

/-- The integer part of a number; the least integer if it is none that fits. -/
def truncated : Binary64 → Int
  | .finite negative m e =>
    let n := if 0 ≤ e then m * Nat.pow 2 e.toNat else m / Nat.pow 2 (-e).toNat
    let i := Text.signed negative n
    if Text.fitsWord i then i else -9223372036854775808
  | _ => -9223372036854775808

/-- The value as an integer; a text that is none counts as zero. -/
def toInt : Setting → Int
  | .text s => (Text.readLiteral s.toList).toOption.getD 0
  | .int i => wrap i
  | .float x => truncated x
  | .bool b => if b then 1 else 0
  | .compound => 0

end Setting

/-- Where settings come from. -/
structure Sources where
  /-- What the program itself decided. -/
  decided : List (String × String)
  line : Line
  /-- Environment variables. -/
  environment : String → Option String
  /-- The settings of the configuration file, names in lower case. -/
  file : List (String × Setting)

namespace Sources

def defaults : List (String × Setting) :=
  [("loglevel", .text "info"), ("locale", .text "en-US"), ("cache", .text ""), ("decls", .int 16),
    ("parent", .int (-1)), ("format", .text "text"), ("marker", .text "")]

def variableName (name : String) : String := "NGC_I18N_" ++ name.map Char.toUpper

/-- The value of the environment variable of a setting, unless it is empty. -/
def fromEnvironment? (s : Sources) (name : String) : Option String :=
  match s.environment (variableName name) with
  | some value => if value.isEmpty then none else some value
  | none => none

def find (s : Sources) (name : String) : Setting :=
  match s.decided.lookup name with
  | some value => .text value
  | none =>
    match s.line.value? name with
    | some value => .text value
    | none =>
      match s.fromEnvironment? name with
      | some value => .text value
      | none =>
        match s.file.reverse.lookup name with
        | some value => value
        | none => (defaults.lookup name).getD (.text "")

def text (s : Sources) (name : String) : String := (s.find name).toText

def int (s : Sources) (name : String) : Int := (s.find name).toInt

end Sources

/-- What the commands are told besides the message. -/
structure Settings where
  locale : String
  /-- The place of the store of artifacts; empty if there is none. -/
  cache : String
  decls : Int
  parent : Int
  format : String
  deriving DecidableEq, Repr

def Settings.ofSources (s : Sources) : Settings where
  locale := s.text "locale"
  cache := s.text "cache"
  decls := s.int "decls"
  parent := s.int "parent"
  format := s.text "format"

end MessageCompiler.Command
