/-
Trees that change.

The nodes of a tree are numbered in the order of their creation, and every node knows its parent and its
children. A node that is put somewhere is taken away from where it was.
-/
import MessageCompiler.Markup.Node

namespace MessageCompiler.Markup

/-- What a node is, without its place in the tree. -/
inductive Content where
  | text (s : String)
  | comment (s : String)
  | element (ns : Namespace) (tag : String) (attrs : List Attr)
  deriving DecidableEq, Repr

/-- A node and its neighbours. -/
structure Cell where
  content : Content
  parent : Option Nat
  /-- First to last. -/
  children : List Nat
  deriving DecidableEq, Repr

/-- Numbered nodes. -/
structure Tree where
  cells : Array Cell
  deriving DecidableEq, Repr

namespace Tree

def empty : Tree := ⟨#[]⟩

def size (t : Tree) : Nat := t.cells.size

def content? (t : Tree) (id : Nat) : Option Content := t.cells[id]?.map (·.content)

def parent? (t : Tree) (id : Nat) : Option Nat := t.cells[id]?.bind (·.parent)

def children (t : Tree) (id : Nat) : List Nat := (t.cells[id]?.map (·.children)).getD []

/-- Adds a node that is nowhere yet; its number is the number of nodes before. -/
def create (t : Tree) (content : Content) : Tree := ⟨t.cells.push ⟨content, none, []⟩⟩

def setContent (t : Tree) (id : Nat) (content : Content) : Tree :=
  ⟨t.cells.modify id fun c => { c with content }⟩

def setParent (t : Tree) (id : Nat) (parent : Option Nat) : Tree :=
  ⟨t.cells.modify id fun c => { c with parent }⟩

def setChildren (t : Tree) (id : Nat) (children : List Nat) : Tree :=
  ⟨t.cells.modify id fun c => { c with children }⟩

def detach (t : Tree) (id : Nat) : Tree :=
  match t.parent? id with
  | some p => (t.setChildren p ((t.children p).erase id)).setParent id none
  | none => t

def append (t : Tree) (parent child : Nat) : Tree :=
  let t := t.detach child
  (t.setChildren parent (t.children parent ++ [child])).setParent child (some parent)

def insertIn (new ref : Nat) : List Nat → List Nat
  | [] => [new]
  | c :: cs => if c = ref then new :: c :: cs else c :: insertIn new ref cs

/-- Puts a node in front of a child of `parent`, or last if there is no such child. -/
def insertBefore (t : Tree) (parent child : Nat) (ref : Option Nat) : Tree :=
  let t := t.detach child
  match ref with
  | some r =>
    if t.parent? r = some parent then
      (t.setChildren parent (insertIn child r (t.children parent))).setParent child (some parent)
    else t.append parent child
  | none => t.append parent child

def previousSibling? (t : Tree) (id : Nat) : Option Nat := do
  let p ← t.parent? id
  ((t.children p).takeWhile (· != id)).getLast?

/-- The node with everything below it, down to a depth. -/
def toNode (t : Tree) : (depth : Nat) → Nat → Node
  | 0, _ => .text ""
  | depth + 1, id =>
    match t.content? id with
    | some (.text s) => .text s
    | some (.comment s) => .comment s
    | some (.element ns tag attrs) => .element ns tag attrs ((t.children id).map (t.toNode depth))
    | none => .text ""

/-- The node with everything below it: no path is longer than the number of nodes. -/
def node (t : Tree) (id : Nat) : Node := t.toNode t.size id

end Tree

end MessageCompiler.Markup
