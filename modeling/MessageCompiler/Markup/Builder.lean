/-
The state of building a tree from tags.

Open elements form a stack; new nodes go into the element on top of it. Inside a table they may have to
go in front of the table instead.
-/
import MessageCompiler.Markup.Document
import MessageCompiler.Markup.Names

namespace MessageCompiler.Markup

/-- What the builder is inside of, which decides what a token means. -/
inductive Mode where
  | body
  | text
  | table
  | caption
  | columnGroup
  | tableBody
  | row
  | cell
  | select
  | selectInTable
  | template
  /-- Nothing that follows counts. -/
  | ignoring
  deriving DecidableEq, Repr

/-- The state of building a tree from tokens with these comments. -/
structure Builder (comments : List String) where
  tree : Document comments
  /-- The open elements, innermost first; the last is the root. -/
  stack : List Nat
  /-- Formatting elements that are to be opened again, latest first; `none` marks a border. -/
  formatting : List (Option Nat)
  form : Option Nat
  /-- The modes of the open templates, innermost first. -/
  templates : List Mode
  mode : Mode
  /-- The mode to go back to after text that is not markup. -/
  resume : Mode
  /-- Nodes that do not belong into a table go in front of it. -/
  fostering : Bool
  /-- What follows the last tag is markup in any case. -/
  plainNext : Bool

namespace Builder

variable {cs : List String}

def new : Builder [] :=
  { tree := .new
    stack := [0], formatting := [], form := none, templates := [], mode := .body, resume := .body
    fostering := false, plainNext := false }

def relax {cs' : List String} (h : cs.Sublist cs') (b : Builder cs) : Builder cs' :=
  { b with tree := b.tree.relax h }

def tag (b : Builder cs) (id : Nat) : String :=
  match b.tree.content? id with
  | some (.element _ tag _) => tag
  | _ => ""

def ns (b : Builder cs) (id : Nat) : Namespace :=
  match b.tree.content? id with
  | some (.element ns _ _) => ns
  | _ => .html

def attrs (b : Builder cs) (id : Nat) : List Attr :=
  match b.tree.content? id with
  | some (.element _ _ attrs) => attrs
  | _ => []

def top (b : Builder cs) : Nat := b.stack.headD 0

def topTag (b : Builder cs) : String := b.tag b.top

def pop (b : Builder cs) : Builder cs := { b with stack := b.stack.drop 1 }

/-- Whether an element of plain markup with that tag is open. -/
def isOpen (b : Builder cs) (tag : String) : Bool :=
  b.stack.any fun id => b.tag id == tag && b.ns id == .html

/-! ### Scopes -/

/-- How far a search through the open elements goes. -/
inductive Bound where
  | usual
  | listItem
  | button
  | table
  | select
  deriving DecidableEq

/-- Whether the search ends at an element that is not looked for. -/
def Bound.stops (bound : Bound) (ns : Namespace) (tag : String) : Bool :=
  let own :=
    ns == .html &&
      match bound with
      | .usual => false
      | .listItem => tag == "ol" || tag == "ul"
      | .button => tag == "button"
      | .table => tag == "html" || tag == "table" || tag == "template"
      | .select => tag != "optgroup" && tag != "option"
  match bound with
  | .usual => boundsScope ns tag
  | .listItem => own || boundsScope ns tag
  | .button => own || boundsScope ns tag
  | .table => own
  | .select => own

/-- The innermost open element with one of the tags and what is open around it, unless the search ends
before. -/
def findIn (b : Builder cs) (bound : Bound) (tags : List String) : List Nat → Option (List Nat)
  | [] => none
  | id :: rest =>
    if b.ns id == .html && tags.contains (b.tag id) then some (id :: rest)
    else if bound.stops (b.ns id) (b.tag id) then none
    else b.findIn bound tags rest

def inScope (b : Builder cs) (bound : Bound) (tags : List String) : Bool :=
  (b.findIn bound tags b.stack).isSome

/-- Closes the innermost element with one of the tags and all inside it; `none` if there is none in
scope. -/
def close? (b : Builder cs) (bound : Bound) (tags : List String) : Option (Builder cs) :=
  (b.findIn bound tags b.stack).map fun found => { b with stack := found.drop 1 }

def close (b : Builder cs) (bound : Bound) (tags : List String) : Builder cs :=
  (b.close? bound tags).getD b

/-- Closes elements until one with a given tag is on top. -/
def clearTo (b : Builder cs) (tags : List String) : Builder cs :=
  if b.stack.any fun id => tags.contains (b.tag id) then
    { b with stack := b.stack.dropWhile fun id => !tags.contains (b.tag id) }
  else b

def clearToTable (b : Builder cs) : Builder cs := b.clearTo ["html", "table", "template"]

def clearToTableBody (b : Builder cs) : Builder cs :=
  b.clearTo ["html", "tbody", "tfoot", "thead", "template"]

def clearToRow (b : Builder cs) : Builder cs := b.clearTo ["html", "tr", "template"]

/-- Closes the elements on top whose end tag may be implied, up to one with the tag `except`. -/
def impliedEnds (b : Builder cs) (except : String) : Builder cs :=
  { b with stack := b.stack.dropWhile fun id =>
      impliedEndTags.contains (b.tag id) && b.tag id != except }

/-! ### Adding nodes -/

/-- Whether the next node would have to go in front of a table. -/
def misplaced (b : Builder cs) : Bool := b.fostering && tableTags.contains b.topTag

def textOf? (b : Builder cs) (id : Nat) : Option String :=
  match b.tree.content? id with
  | some (.text s) => some s
  | _ => none

/-- Puts a node in front of the innermost table, or into a template that is inside it; text joins a text
that is already there. -/
def foster (b : Builder cs) (id : Nat) : Builder cs :=
  let insideTable := b.stack.takeWhile fun n => b.tag n != "table"
  match insideTable.find? fun n => b.tag n == "template" with
  | some template => { b with tree := b.tree.append template id }
  | none =>
    let table := b.stack.find? fun n => b.tag n == "table"
    let parent :=
      match table with
      | some t =>
        match b.tree.parent? t with
        | some p => p
        | none => ((b.stack.dropWhile (· != t)).drop 1).headD 0
      | none => b.stack.getLastD 0
    let previous :=
      match table with
      | some t => b.tree.previousSibling? t
      | none => (b.tree.children parent).getLast?
    match previous.bind fun p => (b.textOf? p).map (p, ·), b.textOf? id with
    | some (p, front), some s => { b with tree := b.tree.setContent p (.text (front ++ s)) }
    | _, _ => { b with tree := b.tree.insertBefore parent id table }

/-- Puts a new node where it belongs, without opening it. -/
def place (b : Builder cs) (id : Nat) : Builder cs :=
  if b.misplaced then b.foster id else { b with tree := b.tree.append b.top id }

def add (b : Builder cs) (content : Content) : Builder (content.comment?.toList ++ cs) :=
  place { b with tree := b.tree.create content } b.tree.size

def addElement (b : Builder cs) (ns : Namespace) (tag : String) (attrs : List Attr) : Builder cs :=
  let added := b.add (.element ns tag attrs)
  { added with stack := b.tree.size :: added.stack }

def addTag (b : Builder cs) (tag : String) (attrs : List Attr) : Builder cs :=
  b.addElement .html tag attrs

def addVoid (b : Builder cs) (tag : String) (attrs : List Attr) : Builder cs := (b.addTag tag attrs).pop

/-- Adds text, to a text that is already there if possible. -/
def addText (b : Builder cs) (s : List Char) : Builder cs :=
  if s.isEmpty then b
  else if b.misplaced then b.add (.text (String.ofList s))
  else
    match (b.tree.children b.top).getLast? with
    | some last =>
      match b.textOf? last with
      | some front => { b with tree := b.tree.setContent last (.text (front ++ String.ofList s)) }
      | none => b.add (.text (String.ofList s))
    | none => b.add (.text (String.ofList s))

def addComment (b : Builder cs) (s : List Char) : Builder (String.ofList s :: cs) := b.add (.comment (String.ofList s))

/-! ### Modes -/

/-- The mode that the open elements ask for; the root asks for `body`. -/
def modeFor (b : Builder cs) : List Nat → Mode
  | [] => b.mode
  | [_] => .body
  | id :: rest =>
    match b.tag id with
    | "select" =>
      match rest.find? fun n => b.tag n == "template" || b.tag n == "table" with
      | some n => if b.tag n == "table" then .selectInTable else .select
      | none => .select
    | "td" => .cell
    | "th" => .cell
    | "tr" => .row
    | "tbody" => .tableBody
    | "thead" => .tableBody
    | "tfoot" => .tableBody
    | "caption" => .caption
    | "colgroup" => .columnGroup
    | "table" => .table
    | "template" => if b.ns id == .html then b.templates.headD .body else b.modeFor rest
    | "body" => .body
    | _ => b.modeFor rest

/-- Goes to the mode that the open elements ask for. -/
def resetMode (b : Builder cs) : Builder cs := { b with mode := b.modeFor b.stack }

end Builder

end MessageCompiler.Markup
