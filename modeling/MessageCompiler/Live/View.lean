/-
Live views: running instances of a template.

A live view has a slot for every slot of its template. A slot holds a node of the live tree, or the case
that an ICU expression shows. Every change to the tree is one of a few events, which are recorded.
-/
import MessageCompiler.Locale.Plural
import MessageCompiler.Markup.Tree
import MessageCompiler.Template.View

namespace MessageCompiler

open Markup (Tree Content Attr)

/-- What a slot of a live view holds. -/
inductive LiveSlot where
  | empty
  /-- A node of the live tree. -/
  | node (id : Nat)
  /-- The active case of an ICU expression; it is fresh until its bindings have been applied. -/
  | chosen (case : Nat) (fresh : Bool)
  deriving DecidableEq, Repr

/-- A running instance of a template. -/
structure LiveView where
  host : Option Nat
  slots : Array LiveSlot
  tree : Tree
  locale : Locale

/-- A change to the live tree. -/
inductive Event where
  | createText (id : Nat) (value : String)
  | createElement (id : Nat) (tag : String)
  | createComment (id : Nat) (value : String)
  | appendChild (parent child : Nat)
  | insertBefore (parent child : Nat) (ref : Option Nat)
  | removeChild (child : Nat)
  | setText (id : Nat) (value : String)
  | setAttribute (id : Nat) (name value : String)
  deriving DecidableEq, Repr

/-- What instructions ask for and no view can do. -/
inductive Fault where
  /-- The view has no such slot. -/
  | noSlot (index : Int)
  /-- The ICU expression has no such case. -/
  | noCase (case : Nat)
  /-- Bindings are not numbered below zero. -/
  | negativeBinding (index : Int)
  /-- The least 64-bit number has no plural category. -/
  | noCategory (value : String)
  /-- ICU expressions contain each other without end. -/
  | endless
  deriving DecidableEq, Repr

/-- A live view with the events and diagnostics of the current operation. -/
structure Run where
  view : LiveView
  trace : List Event
  log : List Entry

abbrev LiveM := EStateM Fault Run

namespace LiveView

/-- An instance of a template that renders into an element with the given tag, if there is one. -/
def new (t : TemplateView) (host : Option String) (locale : Locale) : LiveView where
  host := host.map fun _ => 0
  slots := Array.replicate t.size .empty
  tree :=
    match host with
    | some tag => Tree.empty.create (.element .html tag [])
    | none => Tree.empty
  locale := locale

def node? (v : LiveView) (i : Int) : Option Nat :=
  if i < 0 then none
  else
    match v.slots[i.toNat]? with
    | some (.node id) => some id
    | _ => none

end LiveView

namespace Live

def getSlot (i : Int) : LiveM LiveSlot := do
  if i < 0 then throw (.noSlot i)
  match (← get).view.slots[i.toNat]? with
  | some s => return s
  | none => throw (.noSlot i)

def setSlot (i : Int) (s : LiveSlot) : LiveM Unit := do
  let view := (← get).view
  if i < 0 || view.slots.size ≤ i.toNat then throw (.noSlot i)
  modify fun r => { r with view := { view with slots := view.slots.setIfInBounds i.toNat s } }

def node? (i : Int) : LiveM (Option Nat) := return (← get).view.node? i

def change (e : Event) (f : Tree → Tree) : LiveM Unit :=
  modify fun r =>
    { r with view := { r.view with tree := f r.view.tree }, trace := r.trace ++ [e] }

def create (content : Content) (event : Nat → Event) : LiveM Nat := do
  let id := (← get).view.tree.size
  change (event id) (·.create content)
  return id

def createText (value : String) : LiveM Nat := create (.text value) (.createText · value)

def createElement (tag : String) : LiveM Nat :=
  create (.element .html tag []) (.createElement · tag)

def createComment (value : String) : LiveM Nat := create (.comment value) (.createComment · value)

def appendChild (parent child : Nat) : LiveM Unit :=
  change (.appendChild parent child) (·.append parent child)

def insertBefore (parent child : Nat) (ref : Option Nat) : LiveM Unit :=
  change (.insertBefore parent child ref) (·.insertBefore parent child ref)

def removeChild (child : Nat) : LiveM Unit := change (.removeChild child) (·.detach child)

/-- The content with another text; the text of an element is its tag. -/
def withText (value : String) : Content → Content
  | .text _ => .text value
  | .comment _ => .comment value
  | .element ns _ attrs => .element ns value attrs

def withAttr (name value : String) : List Attr → List Attr
  | [] => [⟨"", name, value⟩]
  | a :: rest => if a.key = name then { a with value } :: rest else a :: withAttr name value rest

/-- The content with an attribute set; only elements have attributes. -/
def withAttribute (name value : String) : Content → Content
  | .element ns tag attrs => .element ns tag (withAttr name value attrs)
  | content => content

def modifyContent (id : Nat) (f : Content → Content) (t : Tree) : Tree :=
  match t.content? id with
  | some content => t.setContent id (f content)
  | none => t

def setText (id : Nat) (value : String) : LiveM Unit :=
  change (.setText id value) (modifyContent id (withText value))

def setAttribute (id : Nat) (name value : String) : LiveM Unit :=
  change (.setAttribute id name value) (modifyContent id (withAttribute name value))

def report (entries : List Entry) : LiveM Unit :=
  modify fun r => { r with log := r.log ++ entries }

end Live

end MessageCompiler
