/-
Values that are bound to messages or shown in diagnostics.

* **`Value.inMessage`** — what a bound value looks like in a message.
* **`Value.shown`** — what a value looks like in a diagnostic, where the absent value shows too.
-/
import MessageCompiler.Decimal.Binary64
import MessageCompiler.Log
import MessageCompiler.Text.Decimal

namespace MessageCompiler

/-- A value of an application. -/
inductive Value where
  | absent
  | text (s : String)
  | bool (b : Bool)
  | int (i : Int)
  | float (x : Binary64)
  /-- A value of any other kind that knows its own text. -/
  | described (s : String)
  deriving DecidableEq, Repr

namespace Value

def shown : Value → String
  | .absent => "<nil>"
  | .text s => s
  | .bool b => if b then "true" else "false"
  | .int i => Text.showInt i
  | .float x => x.render .value
  | .described s => s

def inMessage : Value → String
  | .absent => ""
  | v => v.shown

/-- The value as the field of a diagnostic: texts and integers keep their kind. -/
def field : Value → Field
  | .int i => .int i
  | v => .text v.shown

/-- Fields from names and values in turn. Of two fields with one name the later counts, and a name
without a value is left out. -/
def fields : List Value → List (String × Field)
  | name :: v :: rest =>
    let more := fields rest
    if more.any (·.1 == name.shown) then more else (name.shown, v.field) :: more
  | _ => []

end Value

/-- What a client that fetches catalogues has to say. -/
inductive Remark where
  | error
  | warn
  | info
  | debug
  deriving DecidableEq, Repr

namespace Remark

/-- The level of a remark; what is information for the client only helps to debug. -/
def level : Remark → Level
  | .error => .error
  | .warn => .warning
  | .info => .debug
  | .debug => .debug

/-- The diagnostic for a remark with names and values in turn. -/
def entry (r : Remark) (message : String) (values : List Value) : Entry :=
  ⟨r.level, message, Value.fields values⟩

end Remark

end MessageCompiler
