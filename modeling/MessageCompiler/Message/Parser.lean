/-
ICU expressions in a message.

A brace block is an ICU expression if it starts with the header `binding, select,` or
`binding, plural,`; then labels and brace blocks follow in turn. A block that looks like one but has no
proper binding between its markers is an error, and any other block is text.

* **`splitLevels`** — splits a text into segments, down to a given depth of nesting.
* **`split`** — the same for every depth that the text can have.
* **`parseBlock`** — reads the content of one block.
-/
import MessageCompiler.Message.Braces
import MessageCompiler.Message.Marker
import MessageCompiler.Message.Segment
import MessageCompiler.Reported
import MessageCompiler.Text.Lines

namespace MessageCompiler.Message

open Text (Interleaved isPatternBlank isWord)

/-- Why an ICU expression could not be read. -/
inductive IcuError where
  /-- The block has the form of an ICU expression, but no binding between its markers. -/
  | invalidBinding (block : String)
  /-- The block does not start with a header. -/
  | missingHeader (block : String)
  /-- The main binding does not fit 64 bits. -/
  | mainBindingTooLarge (binding : String)
  deriving DecidableEq, Repr

def IcuError.message : IcuError → String
  | .invalidBinding block =>
    "invalid binding in " ++ Text.quote ("\x7b" ++ block ++ "\x7d")
  | .missingHeader block =>
    "missing `binding, plural|select,` header in " ++ Text.quote block
  | .mainBindingTooLarge binding => "invalid main binding " ++ Text.quote binding

/-- What follows a comma that may stand between blanks. -/
def afterComma? (s : List Char) : Option (List Char) :=
  match s.dropWhile isPatternBlank with
  | ',' :: s => some (s.dropWhile isPatternBlank)
  | _ => none

/-- The kind named at the front of the text, and what follows. -/
def kindWord? : List Char → Option (IcuKind × List Char)
  | 's' :: 'e' :: 'l' :: 'e' :: 'c' :: 't' :: s => some (.select, s)
  | 'p' :: 'l' :: 'u' :: 'r' :: 'a' :: 'l' :: s => some (.plural, s)
  | _ => none

/-- A comma, a kind and a comma, with blanks around them, and what follows the second comma. -/
def kindClause? (s : List Char) : Option (IcuKind × List Char) := do
  let s ← afterComma? s
  let (kind, s) ← kindWord? s
  match s.dropWhile isPatternBlank with
  | ',' :: s => some (kind, s)
  | _ => none

/-- The start of an ICU expression. -/
structure Header where
  binding : Ordinal
  kind : IcuKind
  /-- What follows the header. -/
  rest : List Char
  deriving Repr

def Header.read? (block : List Char) : Option Header := do
  let s := block.dropWhile isPatternBlank
  let (binding, n) ← binding? s
  let (kind, rest) ← kindClause? (s.drop n)
  return ⟨binding, kind, rest⟩

/-- Whether the block starts like an ICU expression, whatever stands between its first two markers. -/
def looksLikeIcu (block : List Char) : Bool :=
  match block.dropWhile isPatternBlank with
  | c :: s =>
    c == mark &&
      match s.dropWhile (· != mark) with
      | _ :: s => (kindClause? s).isSome
      | [] => false
  | [] => false

/-- The word at the front of a plural label: blanks, an equals sign, word characters, blanks. -/
def labelWord? (s : List Char) : Option (List Char × List Char) :=
  let s := s.dropWhile isPatternBlank
  let s := match s with
    | '=' :: s => s
    | _ => s
  let word := s.takeWhile isWord
  if word.isEmpty then none
  else some (word, (s.dropWhile isWord).dropWhile isPatternBlank)

/-- A plural label with the equals sign in front of its first word, and the blanks around it, left
out. -/
def pluralLabel : List Char → List Char
  | [] => []
  | c :: s =>
    match labelWord? (c :: s) with
    | some (word, rest) => word ++ rest
    | none => c :: pluralLabel s

def label (kind : IcuKind) (s : List Char) : List Char :=
  let key := Text.trim s
  match kind with
  | .plural => pluralLabel key
  | _ => key

/-- What is reported about a last label that no block follows. -/
def danglingLabel (key block : List Char) : Entry :=
  ⟨.warning, "ignoring ICU case without a body",
    [("case", .text (String.ofList key)),
      ("icu", .text (Text.truncate (String.ofList block) 80))]⟩

abbrev Parsed := Reported IcuError

/-- Reads labels and bodies; a block without a label is skipped. -/
def parseCases (splitBody : List Char → Parsed (List Segment)) (kind : IcuKind) :
    List (List Char × List Char) → Parsed (List Case)
  | [] => pure []
  | (text, block) :: rest => do
    let key := label kind text
    if key.isEmpty then parseCases splitBody kind rest
    else
      let body ← splitBody block
      let cases ← parseCases splitBody kind rest
      return .mk (String.ofList key) body :: cases

/-- Reads the content of one block; `splitBody` reads the bodies of its cases. -/
def parseBlockWith (splitBody : List Char → Parsed (List Segment)) (block : List Char) :
    Parsed Icu := do
  match Header.read? block with
  | none => .fail (.missingHeader (String.ofList block))
  | some h =>
    match h.binding.value? with
    | none => .fail (.mainBindingTooLarge (String.ofList (bindingText h.binding)))
    | some main =>
      let parts := splitBraces h.rest
      let cases ← parseCases splitBody h.kind parts.items
      let key := label h.kind parts.last
      if !key.isEmpty then .report (danglingLabel key block)
      return .mk h.kind main cases

/-- Turns blocks into segments; `text` is the text since the last ICU expression. -/
def segments (splitBody : List Char → Parsed (List Segment)) (last : List Char) :
    (text : List Char) → List (List Char × List Char) → Parsed (List Segment)
  | text, [] => pure [.text (String.ofList (text ++ last))]
  | text, (front, block) :: rest =>
    if (Header.read? block).isSome then do
      let icu ← parseBlockWith splitBody block
      let tail ← segments splitBody last [] rest
      return .text (String.ofList (text ++ front)) :: .icu icu :: tail
    else if looksLikeIcu block then .fail (.invalidBinding (String.ofList block))
    else segments splitBody last (text ++ front ++ braced block) rest

/-- Splits a text into text and ICU expressions in turn, looking into blocks down to `levels`; an
empty text has no segments. -/
def splitLevels : (levels : Nat) → List Char → Parsed (List Segment)
  | _, [] => pure []
  | 0, c :: s => pure [.text (String.ofList (c :: s))]
  | levels + 1, c :: s =>
    let parts := splitBraces (c :: s)
    segments (splitLevels levels) parts.last [] parts.items

/-- Splits a text into text and ICU expressions in turn. A level of nesting takes at least one
character, so the length of the text is depth enough. -/
def split (s : List Char) : Parsed (List Segment) := splitLevels s.length s

/-- Reads the content of one ICU block, which comes without its braces. -/
def parseBlock (block : List Char) : Parsed Icu :=
  parseBlockWith (splitLevels block.length) block

end MessageCompiler.Message
