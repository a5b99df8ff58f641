/-
Markers in a message.

Everything that is not plain text stands between two marker characters:

* a binding, `n` or `n:m`, for the value number `n`;
* a placeholder, `#n` or `*n`, that opens the element or sub-template of a template slot, and `/#n` or
  `/*n` that closes it, each with an optional `:m`;
* the border of a region, `*s:c` or `/*s:c`, that belongs to the sub-template `c`.

The functions here recognise one marker at the front of a text and count its characters; a text is
split at all of them by `Interleaved.splitBy`.
-/
import MessageCompiler.Text.Blank
import MessageCompiler.Text.Decimal
import MessageCompiler.Text.Interleaved

namespace MessageCompiler.Message

open Text (Interleaved isDigit isPatternBlank)

def mark : Char := '�'

/-- The number in a marker: digits, and possibly a colon with more digits that say nothing. -/
structure Ordinal where
  digits : List Char
  suffix : List Char
  deriving DecidableEq, Repr

namespace Ordinal

def text (o : Ordinal) : List Char := o.digits ++ o.suffix

def suffixOf : List Char → List Char
  | ':' :: s => ':' :: s.takeWhile isDigit
  | _ => []

/-- Whether the text goes on with a marker character. -/
def closes : List Char → Bool
  | c :: _ => c == mark
  | [] => false

/-- The ordinal at the front of the text, provided a marker character follows it. -/
def read? (s : List Char) : Option Ordinal :=
  let digits := s.takeWhile isDigit
  let rest := s.dropWhile isDigit
  let suffix := suffixOf rest
  if !digits.isEmpty && closes (rest.drop suffix.length) then some ⟨digits, suffix⟩ else none

def value? (o : Ordinal) : Option Int := Text.readInt? o.digits

end Ordinal

def binding? : List Char → Option (Ordinal × Nat)
  | c :: s =>
    if c == mark then (Ordinal.read? s).map fun o => (o, o.text.length + 2) else none
  | [] => none

def bindingText (o : Ordinal) : List Char := mark :: o.text ++ [mark]

/-- Whether some item is recognised anywhere in the text. -/
def occurs {α : Type} (item? : List Char → Option (α × Nat)) : List Char → Bool
  | [] => false
  | c :: s => (item? (c :: s)).isSome || occurs item? s

def hasBinding (s : List Char) : Bool := occurs binding? s

def splitBindings (s : List Char) : Interleaved Ordinal := Interleaved.splitBy binding? s

/-- What a placeholder stands for. -/
inductive PlaceholderKind where
  | element
  | subTemplate
  deriving DecidableEq, Repr

/-- The character that tells placeholders from bindings. -/
def PlaceholderKind.sign : PlaceholderKind → Char
  | .element => '#'
  | .subTemplate => '*'

/-- A marker that opens or closes a placeholder. -/
structure Placeholder where
  closing : Bool
  kind : PlaceholderKind
  ordinal : Ordinal
  deriving DecidableEq, Repr

namespace Placeholder

/-- The placeholder without its marker characters and its suffix. -/
def name (p : Placeholder) : List Char :=
  (if p.closing then ['/'] else []) ++ p.kind.sign :: p.ordinal.digits

def text (p : Placeholder) : List Char := mark :: p.name ++ p.ordinal.suffix ++ [mark]

def splitSlash : List Char → Bool × List Char
  | '/' :: s => (true, s)
  | s => (false, s)

def splitKind? : List Char → Option (PlaceholderKind × List Char)
  | '#' :: s => some (.element, s)
  | '*' :: s => some (.subTemplate, s)
  | _ => none

/-- The placeholder marker at the front of the text. -/
def read? : List Char → Option (Placeholder × Nat)
  | c :: s =>
    if c == mark then
      let (closing, s) := splitSlash s
      match splitKind? s with
      | some (kind, s) =>
        (Ordinal.read? s).map fun o =>
          let p : Placeholder := ⟨closing, kind, o⟩
          (p, p.text.length)
      | none => none
    else none
  | [] => none

end Placeholder

def splitPlaceholders (s : List Char) : Interleaved Placeholder :=
  Interleaved.splitBy Placeholder.read? s

/-- The number in the first marker of the text that holds digits only. -/
def plainOrdinal? : List Char → Option (List Char)
  | [] => none
  | c :: s =>
    let digits := s.takeWhile isDigit
    if c == mark && !digits.isEmpty && Ordinal.closes (s.dropWhile isDigit) then some digits
    else plainOrdinal? s

end MessageCompiler.Message
