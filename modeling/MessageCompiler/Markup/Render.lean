/-
Markup as text.

An element without content is written `<br/>`, and content inside it is an error. Text is escaped except
inside a few elements whose content is not markup; after the content of `plaintext` nothing can follow.
-/
import MessageCompiler.Markup.Node

namespace MessageCompiler.Markup

/-- An element without content has children. -/
structure RenderError where
  tag : String
  deriving DecidableEq, Repr

def RenderError.message (e : RenderError) : String :=
  "html: void element <" ++ e.tag ++ "> has child nodes"

def voidTags : List String :=
  ["area", "base", "br", "col", "embed", "hr", "img", "input", "keygen", "link", "meta", "param",
    "source", "track", "wbr"]

def literalTags : List String :=
  ["iframe", "noembed", "noframes", "noscript", "plaintext", "script", "style", "xmp"]

/-- Elements in which a first line feed is not content. -/
def newlineTags : List String := ["pre", "listing", "textarea"]

def escapeChar (c : Char) : List Char :=
  if c == '&' then "&amp;".toList
  else if c == '\'' then "&#39;".toList
  else if c == '<' then "&lt;".toList
  else if c == '>' then "&gt;".toList
  else if c == '"' then "&#34;".toList
  else if c == '\r' then "&#13;".toList
  else [c]

def escape (s : String) : String := String.ofList (s.toList.flatMap escapeChar)

/-- Escapes what could end a comment: `&`, and `>` at the start or after `!` or `-`. -/
def escapeCommentFrom : (risky : Bool) → List Char → List Char
  | _, [] => []
  | risky, c :: s =>
    let next := escapeCommentFrom (c == '!' || c == '-') s
    if c == '&' then "&amp;".toList ++ next
    else if c == '>' && risky then "&gt;".toList ++ next
    else c :: next

def escapeComment (s : String) : String := String.ofList (escapeCommentFrom true s.toList)

def renderAttr (a : Attr) : String :=
  " " ++ (if a.ns.isEmpty then "" else a.ns ++ ":") ++ a.key ++ "=\"" ++ escape a.value ++ "\""

/-- How writing went on. -/
inductive Flow where
  /-- More can follow. -/
  | more
  /-- Nothing can follow. -/
  | done
  | failed (e : RenderError)
  deriving DecidableEq, Repr

/-- A text that was written, and how to go on. -/
structure Written where
  text : String
  flow : Flow

namespace Written

def andThen (w : Written) (next : Written) : Written :=
  match w.flow with
  | .more => ⟨w.text ++ next.text, next.flow⟩
  | _ => w

end Written

def startsWithNewline : List Node → Bool
  | .text s :: _ => s.toList.head? == some '\n'
  | _ => false

mutual

/-- Writes a node; in `literal` content text is written as it is. -/
def write (literal : Bool) : Node → Written
  | .text s => ⟨if literal then s else escape s, .more⟩
  | .comment s => ⟨"<!--" ++ escapeComment s ++ "-->", .more⟩
  | .element ns tag attrs children =>
    let start := "<" ++ tag ++ String.join (attrs.map renderAttr)
    if voidTags.contains tag then
      match children with
      | [] => ⟨start ++ "/>", .more⟩
      | _ :: _ => ⟨start, .failed ⟨tag⟩⟩
    else
      let newline := newlineTags.contains tag && startsWithNewline children
      let content := writeAll (ns == .html && literalTags.contains tag) children
      let head : Written := ⟨start ++ ">" ++ (if newline then "\n" else ""), .more⟩
      let tail : Written :=
        if ns == .html && tag == "plaintext" then ⟨"", .done⟩ else ⟨"</" ++ tag ++ ">", .more⟩
      (head.andThen content).andThen tail

def writeAll (literal : Bool) : List Node → Written
  | [] => ⟨"", .more⟩
  | n :: ns => (write literal n).andThen (writeAll literal ns)

end

def render (n : Node) : Except RenderError String :=
  let w := write false n
  match w.flow with
  | .failed e => .error e
  | _ => .ok w.text

/-- The texts of the nodes, each written on its own. -/
def renderAll (ns : List Node) : Except RenderError String := do
  return String.join (← ns.mapM render)

end MessageCompiler.Markup
