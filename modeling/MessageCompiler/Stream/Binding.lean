/-
Instructions for texts with bindings.

The markers of a text become binding references and the texts between them literals; the mask has the
bit of every reference.
-/
import MessageCompiler.Message.Marker
import MessageCompiler.Stream.Update

namespace MessageCompiler

open Text (Interleaved)

/-- The binding that an ordinal refers to if ordinals count from `start`. An ordinal that is too large
for a number refers to a binding that shares the last bit of the mask. -/
def bindingIndex (start : Int) (o : Message.Ordinal) : Int :=
  match o.value? with
  | some n => wrap (start + n)
  | none => 2147483647

def literalParts (s : List Char) : List Part :=
  if s.isEmpty then [] else [.literal (String.ofList s)]

def bindingParts (start : Int) (s : Interleaved Message.Ordinal) : List Part :=
  s.items.flatMap (fun p => literalParts p.1 ++ [.binding (bindingIndex start p.2)]) ++
    literalParts s.last

def bindingMask (parts : List Part) : Mask :=
  (parts.filterMap Part.binding?).foldl (fun m i => m ||| Mask.ofBinding i) 0#32

/-- The instruction that commits `text` to the target at a slot. -/
def bindingUpdate (text : String) (index : Int) (target : Target) (start : Int) : UpdateOp :=
  let parts := bindingParts start (Message.splitBindings text.toList)
  ⟨bindingMask parts, parts, index, target⟩

/-- The target for an attribute; without a name it is the text of the node. -/
def Target.ofAttribute (name : String) (sanitizer : Option NamedSanitizer) : Target :=
  if name.isEmpty then .text
  else .attribute name (sanitizer.map (·.rule)) ((sanitizer.map (·.name)).getD "")

end MessageCompiler
