/-
Flat instruction streams.

A stream is handed over as one list of numbers and texts. Markers in front of some texts say what is
created; a sanitizer is a function in the flat stream of a running program, and its name in a stream that
is stored.
-/
import MessageCompiler.Json.Basic

namespace MessageCompiler

/-- One entry of a flat stream. -/
inductive Flat where
  | int (i : Int)
  | text (s : String)
  /-- The next text is the tag of an element. -/
  | elementMarker
  /-- The next text is the label of an ICU anchor. -/
  | icuMarker
  /-- A sanitizer. -/
  | function
  /-- No sanitizer. -/
  | null
  deriving DecidableEq, Repr

/-- The entry as it is stored: a marker is only its word. -/
def Flat.portable : Flat → Json
  | .int i => .int i
  | .text s => .str s
  | .elementMarker => .str "element"
  | .icuMarker => .str "ICU"
  | .function => .null
  | .null => .null

end MessageCompiler
