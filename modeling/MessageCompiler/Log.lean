/-
Diagnostics.

Nothing here writes anywhere: an operation returns the entries it reports, in order, and the caller
shows those at or above the level it is interested in.
-/
import MessageCompiler.Text.Case
import MessageCompiler.Text.Quoted

namespace MessageCompiler

/-- How much a diagnostic matters. -/
inductive Level where
  | debug
  | info
  | warning
  | error
  | fatal
  deriving DecidableEq, Repr

namespace Level

def rank : Level → Nat
  | .debug => 0
  | .info => 1
  | .warning => 2
  | .error => 3
  | .fatal => 4

def name : Level → String
  | .debug => "debug"
  | .info => "info"
  | .warning => "warning"
  | .error => "error"
  | .fatal => "fatal"

/-- The level of that name, in any case; `warn` is short for `warning`. -/
def ofName? (s : String) : Option Level :=
  match Text.lower s with
  | "debug" => some .debug
  | "info" => some .info
  | "warning" => some .warning
  | "warn" => some .warning
  | "error" => some .error
  | "fatal" => some .fatal
  | _ => none

def unknown (s : String) : String := "unknown log level " ++ Text.quote s

end Level

/-- The value of a diagnostic's field. -/
inductive Field where
  | int (i : Int)
  | text (s : String)
  deriving DecidableEq, Repr

/-- One diagnostic. -/
structure Entry where
  level : Level
  message : String
  fields : List (String × Field)
  deriving DecidableEq, Repr

namespace Entry

def visible (level : Level) (entries : List Entry) : List Entry :=
  entries.filter fun e => level.rank ≤ e.level.rank

/-- The entry with further fields in front of its own. -/
def within (e : Entry) (fields : List (String × Field)) : Entry :=
  { e with fields := fields ++ e.fields }

end Entry

end MessageCompiler
