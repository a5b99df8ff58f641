/-
Running instruction streams on a live view.

* **`applyCreate`** — creates the nodes of a message.
* **`applyUpdates`** — runs every instruction whose mask meets the mask of changes.
* **`attach`** — puts the element of a placeholder into its place.
-/
import MessageCompiler.Live.View

namespace MessageCompiler.Live

open Markup (Tree)

/-- Creates the node of an instruction, unless its slot has one, and appends it to the host if it does
not wait for a placeholder. -/
def applyCreateOp (op : CreateOp) : LiveM Unit := do
  let id ←
    match ← node? op.index with
    | some id => pure id
    | none =>
      let id ← if op.comment then createComment op.text else createText op.text
      setSlot op.index (.node id)
      pure id
  if op.eager then
    match (← get).view.host with
    | some host => appendChild host id
    | none => return ()

def applyCreate (ops : List CreateOp) : LiveM Unit := ops.forM applyCreateOp

/-- Creates the content of a case. Nodes for the parent of the ICU expression, which is the parent of the
first node that is appended, go in front of the anchor; `root` is that parent once it is known. -/
def applyCase (t : TemplateView) (anchor : Nat) :
    (root : Option (Int × Option Nat)) → List IcuCreateOp → LiveM Unit
  | _, [] => return ()
  | root, op :: rest => do
    match op with
    | .text index value =>
      setSlot index (.node (← createText value))
      applyCase t anchor root rest
    | .element index tag =>
      setSlot index (.node (← createElement tag))
      applyCase t anchor root rest
    | .anchor index label =>
      setSlot index (.node (← createComment label))
      match t.icu? index with
      | some nested => setSlot nested.current .empty
      | none => pure ()
      applyCase t anchor root rest
    | .setAttribute index name value =>
      match ← node? index with
      | some id => setAttribute id name value
      | none => pure ()
      applyCase t anchor root rest
    | .append child parent =>
      match ← node? child with
      | none => applyCase t anchor root rest
      | some id =>
        let (rootSlot, rootNode) := root.getD (parent, (← get).view.tree.parent? anchor)
        if parent = rootSlot then
          match rootNode with
          | some p => insertBefore p id (some anchor)
          | none => pure ()
        else
          match ← node? parent with
          | some p => appendChild p id
          | none => pure ()
        applyCase t anchor (some (rootSlot, rootNode)) rest
    | .unknown => applyCase t anchor root rest

/-- The active case of an ICU expression, and whether its bindings still have to be applied. -/
def currentCase (icu : CompiledIcu) : LiveM (Option (Nat × Bool)) := do
  match ← getSlot icu.current with
  | .chosen case fresh => return some (case, fresh)
  | _ => return none

def caseAt (icu : CompiledIcu) (case : Nat) : LiveM CompiledCase :=
  match icu.cases[case]? with
  | some c => return c
  | none => throw (.noCase case)

def labelIndex? (icu : CompiledIcu) (label : String) : Option Nat :=
  icu.cases.findIdx? fun c => c.label == label

/-- The case for a value: the one with that label, else by plural category, else `other`, as the kind of
the expression says. -/
def caseFor (icu : CompiledIcu) (locale : Locale) (value : String) : Except Fault (Option Nat) :=
  match labelIndex? icu value with
  | some i => .ok (some i)
  | none =>
    match icu.kind with
    | .select => .ok (labelIndex? icu "other")
    | .plural =>
      match Plural.category? locale value with
      | none => .error (.noCategory value)
      | some c =>
        match labelIndex? icu c.name with
        | some i => .ok (some i)
        | none => .ok (labelIndex? icu "other")
    | .exact => .ok none

/-- Removes the content of the active case, that of nested expressions included. -/
def removeCase (t : TemplateView) : (depth : Nat) → CompiledIcu → LiveM Unit
  | 0, _ => throw .endless
  | depth + 1, icu => do
    match ← currentCase icu with
    | none => return ()
    | some (active, _) =>
      let case ← caseAt icu active
      case.remove.forM fun op => do
        match op with
        | .nestedIcu index =>
          match t.icu? index with
          | some nested => removeCase t depth nested
          | none => pure ()
        | .node _ => pure ()
        match ← node? op.index with
        | some id =>
          removeChild id
          setSlot op.index .empty
        | none => pure ()
      setSlot icu.current .empty

/-- Shows the case for a value, in place of the one that was shown. -/
def switchCase (t : TemplateView) (depth : Nat) (icu : CompiledIcu) (value : String) :
    LiveM Unit := do
  match ← node? icu.anchor with
  | none => return ()
  | some anchor =>
    let chosen ←
      match caseFor icu (← get).view.locale value with
      | .ok chosen => pure chosen
      | .error e => throw e
    let active ← currentCase icu
    if active.map (·.1) = chosen then return ()
    removeCase t depth icu
    match chosen with
    | none => return ()
    | some i =>
      let case ← caseAt icu i
      report [⟨.debug, "switching ICU case",
        [("anchor", .int icu.anchor), ("case", .text case.label)]⟩]
      setSlot icu.current (.chosen i true)
      applyCase t anchor none case.create

/-- The text of the parts; a binding without a value is empty. -/
def compose (values : List String) : List Part → Except Fault String
  | [] => .ok ""
  | .literal s :: rest => do return s ++ (← compose values rest)
  | .binding i :: rest => do
    if i < 0 then throw (.negativeBinding i)
    return (values[i.toNat]?).getD "" ++ (← compose values rest)

def composed (values : List String) (parts : List Part) : LiveM String :=
  match compose values parts with
  | .ok s => return s
  | .error e => throw e

/-- Updates the active case with `runOps`; a fresh case gets all of its bindings. -/
def updateCase (runOps : List UpdateOp → Mask → LiveM Unit) (icu : CompiledIcu) (changes : Mask) :
    LiveM Unit := do
  match ← currentCase icu with
  | none => return ()
  | some (active, fresh) =>
    if fresh then setSlot icu.current (.chosen active false)
    let case ← caseAt icu active
    runOps case.update (if fresh then Mask.all else changes)

/-- An instruction none of whose bindings changed: an anchor that is new still needs its case, and a case
that is new still needs its bindings. -/
def applyPending (t : TemplateView) (depth : Nat) (runOps : List UpdateOp → Mask → LiveM Unit)
    (values : List String) (op : UpdateOp) : LiveM Unit := do
  match op.target with
  | .icuSwitch =>
    match t.icu? op.index with
    | none => return ()
    | some icu =>
      if (← node? icu.anchor).isSome then
        if (← currentCase icu).isNone then
          switchCase t depth icu (← composed values op.parts)
  | .icuUpdate =>
    match t.icu? op.index with
    | none => return ()
    | some icu =>
      match ← currentCase icu with
      | some (_, true) => updateCase runOps icu 0#32
      | _ => return ()
  | _ => return ()

def applyChanged (t : TemplateView) (depth : Nat) (runOps : List UpdateOp → Mask → LiveM Unit)
    (values : List String) (changes : Mask) (op : UpdateOp) : LiveM Unit := do
  let value ← composed values op.parts
  match op.target with
  | .text =>
    match ← node? op.index with
    | some id => setText id value
    | none => return ()
  | .attribute name sanitizer _ =>
    match ← node? op.index with
    | some id =>
      match sanitizer with
      | some s =>
        report (s.warnings value)
        setAttribute id name (s.run value)
      | none => setAttribute id name value
    | none => return ()
  | .icuSwitch =>
    match t.icu? op.index with
    | some icu => switchCase t depth icu value
    | none => return ()
  | .icuUpdate =>
    match t.icu? op.index with
    | some icu => updateCase runOps icu changes
    | none => return ()
  | .unknown _ => return ()

def applyUpdate (t : TemplateView) (depth : Nat) (runOps : List UpdateOp → Mask → LiveM Unit)
    (values : List String) (changes : Mask) (op : UpdateOp) : LiveM Unit :=
  if op.mask.meets changes then applyChanged t depth runOps values changes op
  else applyPending t depth runOps values op

/-- Runs instructions; ICU expressions are updated down to `depth`. -/
def applyUpdatesTo (t : TemplateView) (values : List String) :
    (depth : Nat) → List UpdateOp → Mask → LiveM Unit
  | 0, _, _ => throw .endless
  | depth + 1, ops, changes =>
    ops.forM (applyUpdate t (depth + 1) (applyUpdatesTo t values depth) values changes)

/-- Runs every instruction whose mask meets the mask of changes. A chain of ICU expressions that contain
each other is no longer than the template has slots. -/
def applyUpdates (t : TemplateView) (ops : List UpdateOp) (values : List String) (changes : Mask) :
    LiveM Unit :=
  applyUpdatesTo t values (t.size + 1) ops changes

/-- The slot is not one of a placeholder. -/
structure AttachError where
  index : Int
  deriving DecidableEq, Repr

def AttachError.message (e : AttachError) : String :=
  "slot " ++ Text.showInt e.index ++ " is not an i18n placeholder"

/-- Makes `id` the node of a placeholder: it goes in front of the node of the message that follows it, and
the nodes of the message that belong inside it are moved into it. -/
def attachNode (node : TemplateNode) (id : Nat) : LiveM Unit := do
  setSlot node.index (.node id)
  let view := (← get).view
  let parent :=
    match node.parent with
    | some p => view.node? p
    | none => view.host
  match parent with
  | some p => insertBefore p id (node.insertBefore.bind view.node?)
  | none => pure ()
  node.children.forM fun child => do
    match ← node? child with
    | some n => appendChild id n
    | none => pure ()

/-- Makes `id` the node of the placeholder at a slot. -/
def attach (t : TemplateView) (index : Int) (id : Nat) : LiveM (Except AttachError Unit) := do
  match t.node? index with
  | some node =>
    if node.type = .placeholder then
      attachNode { node with index } id
      return .ok ()
    else return .error ⟨index⟩
  | none => return .error ⟨index⟩

end MessageCompiler.Live
