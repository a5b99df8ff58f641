/-
Instructions that bring a view up to date.

An instruction joins literals and binding values into one text and commits it to its target, whenever
one of the bindings in its mask has changed.
-/
import MessageCompiler.Sanitize.Attribute
import MessageCompiler.Stream.Flat
import MessageCompiler.Text.Decimal
import MessageCompiler.Word

namespace MessageCompiler

/-- A part of the text that an instruction commits. -/
inductive Part where
  | literal (s : String)
  | binding (index : Int)
  deriving DecidableEq, Repr

namespace Part

/-- A literal stands for itself, and a binding is a negative number. -/
def encode : Part → Flat
  | .literal s => .text s
  | .binding index => .int (wrap (-1 - index))

def listing : Part → String
  | .literal s => s
  | .binding index => "$\x7blView[i" ++ Text.showInt (wrap (-1 - index)) ++ "]\x7d"

def binding? : Part → Option Int
  | .literal _ => none
  | .binding index => some index

end Part

/-- Where the text of an instruction goes. -/
inductive Target where
  | text
  /-- An attribute; the sanitizer and its name are kept apart because a stream that was stored has
  only the name. -/
  | attribute (name : String) (sanitizer : Option Sanitizer) (sanitizerName : String)
  /-- Chooses the case of an ICU expression. -/
  | icuSwitch
  /-- Updates the active case of an ICU expression. -/
  | icuUpdate
  /-- A number that stands for no target. -/
  | unknown (code : Nat)
  deriving DecidableEq, Repr

namespace Target

def code : Target → Nat
  | .text => 0
  | .attribute .. => 1
  | .icuSwitch => 2
  | .icuUpdate => 3
  | .unknown code => code

def kindName : Target → String
  | .text => "Text"
  | .attribute .. => "Attr"
  | .icuSwitch => "IcuSwitch"
  | .icuUpdate => "IcuUpdate"
  | .unknown _ => "Unknown"

end Target

/-- One instruction: the text of the parts goes to the target at the slot `index`. -/
structure UpdateOp where
  mask : Mask
  parts : List Part
  index : Int
  target : Target
  deriving DecidableEq, Repr

namespace UpdateOp

/-- The slot, with the target in its two lowest bits. -/
def ref (op : UpdateOp) : Int := bitOr (shiftLeft op.index 2) op.target.code

/-- How many entries of the flat stream belong to the instruction after its mask and this number. -/
def size (op : UpdateOp) : Nat :=
  op.parts.length + 1 +
    match op.target with
    | .attribute .. => 2
    | _ => 0

/-- The mask and the parts, which are the same in every flat form. -/
def front (op : UpdateOp) : List Flat :=
  .int op.mask.toInt :: .int op.size :: op.parts.map Part.encode ++ [.int op.ref]

/-- The instruction with its sanitizer as a function. -/
def encode (op : UpdateOp) : List Flat :=
  op.front ++
    match op.target with
    | .attribute name sanitizer _ =>
      [.text name, if sanitizer.isSome then .function else .null]
    | _ => []

def encodePortable (op : UpdateOp) : List Flat :=
  op.front ++
    match op.target with
    | .attribute name _ sanitizerName =>
      [.text name, if sanitizerName.isEmpty then .null else .text sanitizerName]
    | _ => []

def bindings (op : UpdateOp) : List Int := op.parts.filterMap Part.binding?

def listing (op : UpdateOp) : String :=
  let value := "`" ++ String.join (op.parts.map Part.listing) ++ "`"
  let slot := Text.showInt op.index
  let statement :=
    match op.target with
    | .text => "(lView[" ++ slot ++ "] as Text).textContent = " ++ value
    | .attribute name _ sanitizerName =>
      let value := if sanitizerName.isEmpty then value else sanitizerName ++ "(" ++ value ++ ")"
      "(lView[" ++ slot ++ "] as Element).setAttribute('" ++ name ++ "', " ++ value ++ ")"
    | .icuSwitch => "icuSwitchCase(" ++ slot ++ ", " ++ value ++ ")"
    | .icuUpdate => "icuUpdateCase(" ++ slot ++ ")"
    | .unknown _ => ""
  "if (mask & 0b" ++ op.mask.binary ++ ") \x7b " ++ statement ++ " \x7d"

/-- A stream as a flat list, sanitizers as functions. -/
def encodeAll (ops : List UpdateOp) : List Flat := ops.flatMap encode

def encodePortableAll (ops : List UpdateOp) : List Flat := ops.flatMap encodePortable

def listingAll (ops : List UpdateOp) : String := Text.unlines (ops.map listing)

def countBindings (ops : List UpdateOp) : Nat := (ops.flatMap bindings).length

end UpdateOp

end MessageCompiler
