/-
Markup as a sequence of tokens.

`next` reads one token. Some elements hold text that is not markup, up to their end tag; the tag that
was read last says so. What is cut off by the end of the text inside a tag is no token.
-/
import MessageCompiler.Markup.Entity
import MessageCompiler.Markup.Node

namespace MessageCompiler.Markup

/-- A token. -/
inductive Token where
  | text (s : List Char)
  | start (tag : String) (attrs : List Attr) (selfClosing : Bool)
  | stop (tag : String)
  | comment (s : List Char)
  | doctype
  /-- The end of the text. -/
  | eof
  deriving DecidableEq, Repr

def Token.comments : Token → List String
  | .comment s => [String.ofList s]
  | _ => []

/-- A token with what follows it. -/
structure Reading where
  token : Token
  /-- The element whose content, which follows, is not markup. -/
  raw : Option String
  rest : List Char

def isTagBlank (c : Char) : Bool :=
  c == ' ' || c == '\n' || c == '\r' || c == '\t' || c == '\x0c'

def skipBlanks (s : List Char) : List Char := s.dropWhile isTagBlank

def unifyNewlines : List Char → List Char
  | [] => []
  | '\r' :: '\n' :: s => '\n' :: unifyNewlines s
  | '\r' :: s => '\n' :: unifyNewlines s
  | c :: s => c :: unifyNewlines s

def replaceNul (s : List Char) : List Char := s.map fun c => if c.toNat = 0 then '�' else c

def lowerAscii (s : List Char) : String := String.ofList (s.map Char.toLower)

/-! ### Tags -/

def endsKey (c : Char) : Bool := isTagBlank c || c == '/' || c == '>' || c == '='

/-- The name of an attribute; an equals sign may be its first character. -/
def readKey : List Char → List Char × List Char
  | '=' :: s => ('=' :: s.takeWhile (!endsKey ·), s.dropWhile (!endsKey ·))
  | s => (s.takeWhile (!endsKey ·), s.dropWhile (!endsKey ·))

/-- The value of an attribute whose name was read; a slash in its place is skipped. -/
def readValue (s : List Char) : List Char × List Char :=
  match skipBlanks s with
  | '/' :: s => ([], s)
  | '=' :: s =>
    match skipBlanks s with
    | [] => ([], [])
    | '>' :: s => ([], '>' :: s)
    | c :: s =>
      if c == '\'' || c == '"' then (s.takeWhile (· != c), (s.dropWhile (· != c)).drop 1)
      else
        let ends := fun d => isTagBlank d || d == '>'
        ((c :: s).takeWhile (!ends ·), (c :: s).dropWhile (!ends ·))
  | s => ([], s)

/-- The attributes of a tag, and what follows the tag; there is none if the text ends first. The fuel
is the length of the text. -/
def readAttrs : (fuel : Nat) → List Char → Option (List Attr × List Char)
  | 0, _ => none
  | fuel + 1, s =>
    match skipBlanks s with
    | [] => none
    | '>' :: rest => some ([], rest)
    | c :: s => do
      let (key, s) := readKey (c :: s)
      let (value, s) := readValue s
      let (attrs, rest) ← readAttrs fuel s
      let attr : Attr :=
        ⟨"", lowerAscii key, String.ofList (decode true (unifyNewlines value))⟩
      return (if key.isEmpty then attrs else attr :: attrs, rest)

/-- A tag that was read. -/
structure TagReading where
  tag : String
  attrs : List Attr
  selfClosing : Bool
  rest : List Char

/-- The tag that starts with its name, up to its closing bracket. It is self-closing if a slash is the
last character before the bracket. -/
def readTag (s : List Char) : Option TagReading := do
  let ends := fun c => isTagBlank c || c == '/' || c == '>'
  let name := s.takeWhile (!ends ·)
  let (attrs, rest) ← readAttrs (s.length + 1) (s.drop name.length)
  let inside := s.take (s.length - rest.length - 1)
  return ⟨lowerAscii name, attrs, inside.getLast? == some '/', rest⟩

/-! ### Comments and declarations -/

def bogusComment (s : List Char) : Reading :=
  let data := s.takeWhile (· != '>')
  ⟨.comment (decode false (replaceNul (unifyNewlines data))), none, (s.drop data.length).drop 1⟩

/-- How far the end of a comment was read. -/
inductive CommentEnd where
  /-- So many dashes; at the very start a bracket ends the comment with fewer than two of them. -/
  | dashes (n : Nat) (atStart : Bool)
  /-- Two dashes and an exclamation mark. -/
  | bang

/-- The content of a comment that the end of the text cuts off; `read` is the text, latest first. -/
def cutComment : List Char → List Char
  | '!' :: '-' :: '-' :: read => read.reverse
  | '-' :: '-' :: read => read.reverse
  | '-' :: read => read.reverse
  | read => read.reverse

/-- The content of a comment and what follows it; `read` is the text so far, latest first. -/
def commentFrom : (read : List Char) → CommentEnd → List Char → List Char × List Char
  | read, _, [] => (cutComment read, [])
  | read, .bang, c :: s =>
    if c == '>' then ((read.drop 3).reverse, s)
    else if c == '-' then commentFrom (c :: read) (.dashes 1 false) s
    else commentFrom (c :: read) (.dashes 0 false) s
  | read, .dashes n atStart, c :: s =>
    if c == '-' then commentFrom (c :: read) (.dashes (n + 1) atStart) s
    else if c == '>' && (2 ≤ n || atStart) then ((read.drop 2).reverse, s)
    else if c == '!' && 2 ≤ n then commentFrom (c :: read) .bang s
    else commentFrom (c :: read) (.dashes 0 false) s

/-- How much of a word the text has. -/
inductive Match where
  | whole (rest : List Char)
  /-- The text ends inside the word. -/
  | cut
  | differs

/-- Compares the front of a text with a word; `same` compares characters. -/
def matchWord (same : Char → Char → Bool) : List Char → List Char → Match
  | [], s => .whole s
  | _ :: _, [] => .cut
  | w :: ws, c :: s => if same c w then matchWord same ws s else .differs

def cdataText : List Char → List Char × List Char
  | [] => ([], [])
  | ']' :: ']' :: '>' :: s => ([], s)
  | c :: s =>
    let (text, rest) := cdataText s
    (c :: text, rest)

/-- What follows `<!`. CDATA sections are read as text where they are allowed. -/
def readDeclaration (cdata : Bool) (s : List Char) : Reading :=
  match s with
  | '-' :: '-' :: s =>
    let (data, rest) := commentFrom [] (.dashes 0 true) s
    ⟨.comment (decode false (replaceNul (unifyNewlines data))), none, rest⟩
  | [] => ⟨.comment [], none, []⟩
  | [c] => ⟨.comment (decode false (replaceNul (unifyNewlines [c]))), none, []⟩
  | _ =>
    match matchWord (fun c w => c.toLower == w) "doctype".toList s with
    | .whole rest => ⟨.doctype, none, (rest.dropWhile (· != '>')).drop 1⟩
    | .cut => ⟨.comment [], none, []⟩
    | .differs =>
      if cdata then
        match matchWord (· == ·) "[CDATA[".toList s with
        | .whole rest =>
          let (text, rest) := cdataText rest
          ⟨.text (decode false (replaceNul (unifyNewlines text))), none, rest⟩
        | .cut => ⟨.comment [], none, []⟩
        | .differs => bogusComment s
      else bogusComment s

/-! ### Text that is not markup -/

def rawTags : List String :=
  ["iframe", "noembed", "noframes", "noscript", "plaintext", "script", "style", "textarea", "title",
    "xmp"]

/-- Whether the end tag of `tag` is at the front of the text. -/
def atEndTag (tag : List Char) : List Char → Bool
  | '<' :: '/' :: s =>
    match matchWord (fun c w => c.toLower == w) tag s with
    | .whole (c :: _) => isTagBlank c || c == '/' || c == '>'
    | _ => false
  | _ => false

def rawText (tag : List Char) : List Char → List Char × List Char
  | [] => ([], [])
  | c :: s =>
    if atEndTag tag (c :: s) then ([], c :: s)
    else
      let (text, rest) := rawText tag s
      (c :: text, rest)

/-- How much of a script is hidden inside a comment. A comment hides nothing by itself; inside it, what
looks like a script with its end tag does not end the script. The number counts dashes. -/
inductive ScriptState where
  | plain
  | comment (dashes : Nat)
  | nested (dashes : Nat)

/-- Whether `script` and the end of a tag name are at the front of the text. -/
def atScriptName (s : List Char) : Bool :=
  match matchWord (fun c w => c.toLower == w) "script".toList s with
  | .whole (c :: _) => isTagBlank c || c == '/' || c == '>'
  | _ => false

/-- The state after one more character; `s` follows it. -/
def ScriptState.step (c : Char) (s : List Char) : ScriptState → ScriptState
  | .plain => .plain
  | .comment n =>
    if c == '-' then .comment (n + 1)
    else if c == '>' && 2 ≤ n then .plain
    else if c == '<' then
      match s with
      | d :: _ =>
        if d == '/' then .comment 0
        else if isLetter d then (if atScriptName s then .nested 0 else .comment 0)
        else .plain
      | [] => .plain
    else .comment 0
  | .nested n =>
    if c == '-' then .nested (n + 1)
    else if c == '>' && 2 ≤ n then .plain
    else if c == '<' && atEndTag "script".toList (c :: s) then .comment 0
    else .nested 0

/-- Whether the end tag of the script would end it in this state. -/
def ScriptState.visible : ScriptState → Bool
  | .nested _ => false
  | _ => true

/-- The text of a script, up to the end tag that ends it. -/
def scriptText : ScriptState → List Char → List Char × List Char
  | _, [] => ([], [])
  | .plain, '<' :: '!' :: '-' :: '-' :: s =>
    let (text, rest) := scriptText (.comment 2) s
    ('<' :: '!' :: '-' :: '-' :: text, rest)
  | state, c :: s =>
    if state.visible && atEndTag "script".toList (c :: s) then ([], c :: s)
    else
      let (text, rest) := scriptText (state.step c s) s
      (c :: text, rest)

/-! ### Tokens -/

/-- Whether a tag, a comment or a declaration starts here. -/
def opensMarkup : List Char → Bool
  | '<' :: c :: _ => isLetter c || c == '/' || c == '!' || c == '?'
  | _ => false

def plainText : List Char → List Char × List Char
  | [] => ([], [])
  | c :: s =>
    if opensMarkup (c :: s) then ([], c :: s)
    else
      let (text, rest) := plainText s
      (c :: text, rest)

def readStart (s : List Char) : Option Reading := do
  let r ← readTag s
  let raw := if rawTags.contains r.tag then some r.tag else none
  return ⟨.start r.tag r.attrs r.selfClosing, raw, r.rest⟩

def readEnd (s : List Char) : Option Reading :=
  match s with
  | [] => some ⟨.text ['<', '/'], none, []⟩
  | '>' :: rest => some ⟨.comment [], none, rest⟩
  | c :: _ =>
    if isLetter c then (readTag s).map fun r => ⟨.stop r.tag, none, r.rest⟩
    else some (bogusComment s)

/-- The next token of markup; there is none at the end of the text and inside a tag that is cut off. -/
def nextMarkup (cdata : Bool) (s : List Char) : Option Reading :=
  if opensMarkup s then
    match s with
    | '<' :: '/' :: s => readEnd s
    | '<' :: '!' :: s => some (readDeclaration cdata s)
    | '<' :: '?' :: s => some (bogusComment ('?' :: s))
    | s => readStart (s.drop 1)
  else
    match s with
    | [] => none
    | c :: s =>
      let (text, rest) := plainText (c :: s)
      some ⟨.text (decode false (unifyNewlines text)), none, rest⟩

/-- The next token after the start tag of an element whose content is not markup. -/
def nextRaw (cdata : Bool) (tag : String) (s : List Char) : Option Reading :=
  let (text, rest) :=
    if tag == "plaintext" then (s, [])
    else if tag == "script" then scriptText .plain s
    else rawText tag.toList s
  if text.isEmpty then nextMarkup cdata rest
  else
    let text := replaceNul (unifyNewlines text)
    let text := if tag == "textarea" || tag == "title" then decode false text else text
    some ⟨.text text, none, rest⟩

def next (cdata : Bool) (raw : Option String) (s : List Char) : Option Reading :=
  match raw with
  | some tag => nextRaw cdata tag s
  | none => nextMarkup cdata s

end MessageCompiler.Markup
