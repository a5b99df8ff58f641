/-
Formatting elements.

`<b>1<p>2</b>3` makes `1` and `2` bold and `3` not, although the paragraph is not inside the bold text. To
that end the builder keeps a list of formatting elements, opens copies of them where they have been cut
off, and on an end tag takes the blocks inside the element apart.
-/
import MessageCompiler.Markup.Builder

namespace MessageCompiler.Markup.Builder

variable {cs : List String}

/-- The formatting elements since the last border, latest first. -/
def sinceBorder (b : Builder cs) : List Nat := (b.formatting.takeWhile Option.isSome).filterMap id

/-- Starts a part whose formatting elements are forgotten at its end. -/
def addBorder (b : Builder cs) : Builder cs := { b with formatting := none :: b.formatting }

/-- Forgets the formatting elements since the last border. -/
def dropToBorder (b : Builder cs) : Builder cs :=
  { b with formatting := (b.formatting.dropWhile Option.isSome).drop 1 }

def forget (b : Builder cs) (id : Nat) : Builder cs :=
  { b with formatting := b.formatting.erase (some id) }

/-- Adds a copy of an element, without what is in it, to the tree; it is nowhere yet. -/
def copyOf (b : Builder cs) (id : Nat) : Builder cs :=
  { b with tree := b.tree.create (.element .html (b.tag id) (b.attrs id)) }

def alike (b : Builder cs) (tag : String) (attrs : List Attr) (id : Nat) : Bool :=
  b.ns id == .html && b.tag id == tag && (b.attrs id).length == attrs.length &&
    (b.attrs id).all attrs.contains

/-- Keeps the latest two of the elements that satisfy `p` since the last border. -/
def keepTwo (p : Nat → Bool) : (seen : Nat) → List (Option Nat) → List (Option Nat)
  | _, [] => []
  | _, none :: rest => none :: rest
  | seen, some id :: rest =>
    if p id then
      if 2 ≤ seen then keepTwo p seen rest else some id :: keepTwo p (seen + 1) rest
    else some id :: keepTwo p seen rest

/-- Adds a formatting element; at most three of a kind are kept. -/
def addFormatting (b : Builder cs) (tag : String) (attrs : List Attr) : Builder cs :=
  let b := b.addTag tag attrs
  { b with formatting := some b.top :: keepTwo (b.alike tag attrs) 0 b.formatting }

/-- Opens copies of the elements, first to last; returns the numbers of the copies, latest first. -/
def reopenAll : List Nat → Builder cs → List (Option Nat) → Builder cs × List (Option Nat)
  | [], b, copies => (b, copies)
  | id :: rest, b, copies =>
    let b := b.addTag (b.tag id) (b.attrs id)
    reopenAll rest b (some b.top :: copies)

/-- Opens copies of the formatting elements that are no longer open. -/
def reopen (b : Builder cs) : Builder cs :=
  let cutOff := b.sinceBorder.takeWhile fun id => !b.stack.contains id
  let (b, copies) := reopenAll cutOff.reverse b []
  { b with formatting := copies ++ b.formatting.drop cutOff.length }

/-- The open elements after an end tag that has no rule of its own: the element is closed, unless a
special element is in the way. -/
def endOtherIn (b : Builder cs) (tag : String) : List Nat → Option (List Nat)
  | [] => none
  | id :: rest =>
    if b.tag id == tag then some rest
    else if isSpecial (b.ns id) (b.tag id) then none
    else b.endOtherIn tag rest

def endOther (b : Builder cs) (tag : String) : Builder cs :=
  { b with stack := (b.endOtherIn tag b.stack).getD b.stack }

/-- The state of moving a block out of a formatting element. -/
structure Adoption (comments : List String) where
  builder : Builder comments
  /-- The node that goes into the next copy. -/
  last : Nat
  /-- Where the copy of the formatting element goes in the list, counted from its start. -/
  bookmark : Nat
  /-- The elements between the block and the formatting element that stay open, innermost first. -/
  between : List Nat

/-- The place of an element in the list, counted from its start. -/
def formattingIndex? (b : Builder cs) (id : Nat) : Option Nat :=
  b.formatting.reverse.idxOf? (some id)

/-- Passes one element between the block and the formatting element; `count` numbers it from one. -/
def Adoption.pass (block : Nat) (a : Adoption cs) (node count : Nat) : Adoption cs :=
  let b := a.builder
  match b.formattingIndex? node with
  | none => a
  | some i =>
    if 3 < count then
      { a with
        builder := b.forget node
        bookmark := if i ≤ a.bookmark then a.bookmark - 1 else a.bookmark
        between := a.between ++ [node] }
    else
      let copy := b.tree.size
      let b := b.copyOf node
      { builder :=
          { b with
            tree := b.tree.append copy a.last
            formatting := b.formatting.replace (some node) (some copy) }
        last := copy
        bookmark := if a.last == block then i + 1 else a.bookmark
        between := a.between ++ [copy] }

def Adoption.passAll (block : Nat) : (count : Nat) → List Nat → Adoption cs → Adoption cs
  | _, [], a => a
  | count, node :: rest, a => passAll block (count + 1) rest (a.pass block node count)

/-- Moves every child of a node into another, and that one into the node. -/
def wrapChildren (t : Document cs) (node wrapper : Nat) : Document cs :=
  ((t.children node).foldl (fun t child => t.append wrapper child) t).append node wrapper

/-- Ends the formatting element `element` around the block `block`: `above` are the open elements inside
the block, `between` those between the two, `below` those around the formatting element. -/
def adoptBlock (b : Builder cs) (element block : Nat) (above between below : List Nat) : Builder cs :=
  let bookmark := (b.formattingIndex? element).getD 0
  let a := Adoption.passAll block 1 between ⟨b, block, bookmark, []⟩
  let b := { a.builder with stack := above ++ block :: a.between ++ element :: below }
  let ancestor := below.headD 0
  let b :=
    if tableTags.contains (b.tag ancestor) then
      { b with tree := b.tree.detach a.last }.foster a.last
    else { b with tree := b.tree.append ancestor a.last }
  let copy := b.tree.size
  let b := b.copyOf element
  let tree := wrapChildren b.tree block copy
  let place :=
    match b.formattingIndex? element with
    | some i => if i < a.bookmark then a.bookmark - 1 else a.bookmark
    | none => a.bookmark
  let list := (b.formatting.erase (some element)).reverse
  { b with
    tree
    formatting := (list.insertIdx place (some copy)).reverse
    stack := above ++ copy :: block :: a.between ++ below }

/-- One round of ending a formatting element: the state after it, and whether another one follows. -/
def adoptOnce (b : Builder cs) (tag : String) : Builder cs × Bool :=
  match b.sinceBorder.find? fun id => b.tag id == tag with
  | none => (b.endOther tag, false)
  | some element =>
    if !b.stack.contains element then (b.forget element, false)
    else if !b.inScope .usual [tag] then (b, false)
    else
      let inside := b.stack.takeWhile (· != element)
      let below := (b.stack.dropWhile (· != element)).drop 1
      match inside.reverse.find? fun id => isSpecial (b.ns id) (b.tag id) with
      | none => ({ b with stack := below }.forget element, false)
      | some block =>
        let above := inside.takeWhile (· != block)
        let between := (inside.dropWhile (· != block)).drop 1
        (b.adoptBlock element block above between below, true)

def adoptRounds (tag : String) : Nat → Builder cs → Builder cs
  | 0, b => b
  | n + 1, b =>
    match b.adoptOnce tag with
    | (b, true) => adoptRounds tag n b
    | (b, false) => b

def endFormatting (b : Builder cs) (tag : String) : Builder cs :=
  if b.topTag == tag && !b.formatting.contains (some b.top) then b.pop else adoptRounds tag 8 b

end MessageCompiler.Markup.Builder
