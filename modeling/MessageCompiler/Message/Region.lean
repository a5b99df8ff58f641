/-
The part of a message that belongs to one template.

A message may run through several templates. What belongs to the sub-template `c` stands in a region
between the border markers `*s:c` and `/*s:c`. A template sees its own text with the regions inside it
emptied: their borders stay, so that the sub-template still has its place, and nothing else does.
-/
import MessageCompiler.Message.Marker

namespace MessageCompiler.Message

open Text (Interleaved isDigit)

/-- The border of a region. -/
structure Border where
  closing : Bool
  slot : List Char
  child : List Char
  deriving DecidableEq, Repr

namespace Border

def tag (b : Border) : List Char := b.slot ++ ':' :: b.child

def text (b : Border) : List Char :=
  mark :: (if b.closing then ['/'] else []) ++ '*' :: b.tag ++ [mark]

def read? : List Char → Option (Border × Nat)
  | c :: s =>
    if c == mark then
      let (closing, s) := Placeholder.splitSlash s
      match s with
      | '*' :: s =>
        let slot := s.takeWhile isDigit
        match s.dropWhile isDigit with
        | ':' :: s =>
          let child := s.takeWhile isDigit
          let b : Border := ⟨closing, slot, child⟩
          if !slot.isEmpty && !child.isEmpty && Ordinal.closes (s.dropWhile isDigit) then
            some (b, b.text.length)
          else none
        | _ => none
      | _ => none
    else none
  | [] => none

end Border

def splitBorders (s : List Char) : Interleaved Border := Interleaved.splitBy Border.read? s

/-- Why the part of a template could not be cut out of a message. -/
inductive RegionError where
  /-- A region is opened and its closing border does not follow. -/
  | unclosed (tag : List Char)
  /-- No region belongs to the sub-template. -/
  | absent (child : Int)
  /-- The first region of the sub-template is not closed. -/
  | unfinished (child : Int)
  deriving DecidableEq, Repr

/-- The template that a text is cut out for. -/
inductive Scope where
  | root
  | child (index : Int)
  deriving DecidableEq, Repr

namespace Scope

def ofInt (i : Int) : Scope := if i = -1 then .root else .child i

def toInt : Scope → Int
  | .root => -1
  | .child i => i

end Scope

/-- Empties every region: `inside` is the tag of the region being skipped. -/
def emptyFrom (last : List Char) :
    (inside : Option (List Char)) → List (List Char × Border) → Except RegionError (List Char)
  | none, [] => .ok last
  | some tag, [] => .error (.unclosed tag)
  | none, (text, b) :: rest => do
    let tail ← emptyFrom last (some b.tag) rest
    return text ++ b.text ++ tail
  | some tag, (_, b) :: rest =>
    if b.closing && b.tag = tag then do
      let tail ← emptyFrom last none rest
      return b.text ++ tail
    else emptyFrom last (some tag) rest

/-- The text with every region emptied. Whatever border comes first opens a region, which lasts up to
the closing border with the same tag. -/
def emptyRegions (s : List Char) : Except RegionError (List Char) :=
  let parts := splitBorders s
  emptyFrom parts.last none parts.items

/-- The text and borders before the first closing border of the sub-template. -/
def upToClosing (child : List Char) :
    List (List Char × Border) → Option (List Char)
  | [] => none
  | (text, b) :: rest =>
    if b.child = child && b.closing then some text
    else (upToClosing child rest).map fun tail => text ++ b.text ++ tail

/-- What follows the first opening border of the sub-template. -/
def afterOpening (child : List Char) :
    List (List Char × Border) → Option (List (List Char × Border))
  | [] => none
  | (_, b) :: rest =>
    if b.child = child && !b.closing then some rest else afterOpening child rest

/-- The first region of a sub-template, with what is inside. -/
def region (child : Int) (s : List Char) : Except RegionError (List Char) :=
  let name := (Text.showInt child).toList
  match afterOpening name (splitBorders s).items with
  | none => .error (.absent child)
  | some rest =>
    match upToClosing name rest with
    | none => .error (.unfinished child)
    | some content => .ok content

/-- A failure to cut out the part of a template: the text that was being cut, and the cause. -/
structure ScopeError where
  text : List Char
  cause : RegionError
  deriving DecidableEq, Repr

def emptied (s : List Char) : Except ScopeError (List Char) :=
  (emptyRegions s).mapError fun e => ⟨s, e⟩

/-- The part of a message that belongs to a template, with the regions inside it emptied. -/
def partFor (scope : Scope) (s : List Char) : Except ScopeError (List Char) :=
  match scope with
  | .root => emptied s
  | .child index => do
    let content ← (region index s).mapError fun e => ⟨s, e⟩
    emptied content

end MessageCompiler.Message
