/-
Compiling ICU expressions.

Every case becomes markup, in which a comment with a number stands for each nested expression, and the
markup becomes instructions. Only elements and attributes on the lists of the configuration get through.

* **`compileIcu`** — an expression at its anchor.
* **`walkNodes`** — the nodes of a case.
-/
import MessageCompiler.Compile.Pass

namespace MessageCompiler

open Markup (Node Attr)

/-- The instructions for a part of a case. -/
structure CaseCode where
  create : List IcuCreateOp
  remove : List RemoveOp
  update : List UpdateOp
  deriving DecidableEq, Repr

namespace CaseCode

def empty : CaseCode := ⟨[], [], []⟩

def append (a b : CaseCode) : CaseCode :=
  ⟨a.create ++ b.create, a.remove ++ b.remove, a.update ++ b.update⟩

/-- The same without removal: what is inside a node goes away with it. -/
def inner (c : CaseCode) : CaseCode := { c with remove := [] }

end CaseCode

/-- Compiles a nested expression at an anchor, given the slot of its parent. -/
abbrev NestedIcu := (parent anchor : Int) → PassM Unit

def attributeName (a : Attr) : String := if a.ns.isEmpty then a.key else a.ns ++ ":" ++ a.key

/-- An attribute of an element. A fixed value is taken as it is; a bound one only if the attribute is
allowed, and through its sanitizer. -/
def compileAttribute (cfg : Config) (tag : String) (index : Int) (a : Attr) : PassM CaseCode := do
  let name := attributeName a
  if !Message.hasBinding a.value.toList then
    return ⟨[.setAttribute index name a.value], [], []⟩
  let lower := Text.lower name
  if cfg.attributes.has lower then
    return ⟨[], [], [bindingUpdate a.value index (.ofAttribute name (cfg.sanitizer lower)) 0]⟩
  Pass.report ⟨.warning, "ignoring unsafe attribute value (see https://g.co/ng/security#xss)",
    [("attribute", .text lower), ("element", .text tag)]⟩
  return .empty

def compileAttributes (cfg : Config) (tag : String) (index : Int) : List Attr → PassM CaseCode
  | [] => return .empty
  | a :: rest => do
    let code ← compileAttribute cfg tag index a
    let codes ← compileAttributes cfg tag index rest
    return code.append codes

def compileCaseText (parent index : Int) (value : String) : PassM CaseCode := do
  let bound := Message.hasBinding value.toList
  let text := if bound then "" else value
  Pass.addNode (.fresh index .text text none)
  return ⟨[.text index text, .append index parent], [.node index],
    if bound then [bindingUpdate value index .text 0] else []⟩

/-- A comment of a case: the anchor of a nested expression if it holds the number of one. -/
def compileComment (nested : List NestedIcu) (parent index : Int) (data : String) :
    PassM CaseCode := do
  match Message.plainOrdinal? data.toList with
  | none => return .empty
  | some digits =>
    match (Text.readInt? digits).bind fun n => nested[n.toNat]?.map (n, ·) with
    | none =>
      Pass.report ⟨.warning, "ignoring comment that does not reference a nested ICU",
        [("comment", .text data)]⟩
      return .empty
    | some (n, compileNested) =>
      let label := "nested ICU " ++ Text.showInt n
      Pass.addNode (.fresh index .icu label none)
      compileNested parent index
      return ⟨[.anchor index label, .append index parent], [.nestedIcu index], []⟩

mutual

/-- A node of a case, to be appended to the node at the slot `parent`. -/
def walkNode (cfg : Config) (nested : List NestedIcu) (parent : Int) : Node → PassM CaseCode
  | .text value => do
    let index ← Pass.allocSlot
    compileCaseText parent index value
  | .comment data => do
    let index ← Pass.allocSlot
    compileComment nested parent index data
  | .element _ name attrs children => do
    let index ← Pass.allocSlot
    let tag := Text.lower name
    if !cfg.elements.has tag then
      Pass.report ⟨.warning, "ignoring unsafe element in ICU case (see https://g.co/ng/security#xss)",
        [("element", .text tag)]⟩
      return .empty
    else
      Pass.addNode (.fresh index .element tag none)
      let attributes ← compileAttributes cfg tag index attrs
      let content ← walkNodes cfg nested index children
      let own : CaseCode := ⟨[.element index tag, .append index parent], [.node index], []⟩
      return (own.append attributes).append content.inner

def walkNodes (cfg : Config) (nested : List NestedIcu) (parent : Int) : List Node → PassM CaseCode
  | [] => return .empty
  | n :: rest => do
    let code ← walkNode cfg nested parent n
    let codes ← walkNodes cfg nested parent rest
    return code.append codes

end

/-- The markup of a case; nested expressions are numbered from `count` on. -/
def caseMarkup : (count : Nat) → List Segment → String
  | _, [] => ""
  | count, .text s :: rest => s ++ caseMarkup count rest
  | count, .icu _ :: rest =>
    "<!--�" ++ Text.showInt count ++ "�-->" ++ caseMarkup (count + 1) rest

/-- A case, given its markup and its nested expressions. -/
def compileCase (cfg : Config) (parent : Int) (label markup : String) (nested : List NestedIcu) :
    PassM CompiledCase := do
  match cfg.parseFragment markup with
  | .error reason => throw (.markup label reason)
  | .ok nodes =>
    let code ← walkNodes cfg nested parent nodes
    return ⟨label, code.create, code.remove, code.update⟩

/-- Every bit that an instruction of one of the cases waits for. -/
def casesMask (cases : List CompiledCase) : Mask :=
  (cases.flatMap (·.update)).foldl (fun m op => m ||| op.mask) 0#32

mutual

/-- An expression, whose nodes are appended to the node at the slot `parent`. The instruction that
chooses the case comes first; if something in a case is bound, an instruction that updates the chosen
case comes last. -/
def compileIcu (cfg : Config) : Icu → (parent anchor : Int) → PassM Unit
  | .mk kind main cases, parent, anchor => do
    let current ← Pass.allocSlot
    Pass.emit ⟨Mask.ofBinding main, [.binding main], anchor, .icuSwitch⟩
    let cases ← compileCases cfg parent cases
    Pass.setIcu ⟨kind, anchor, current, cases⟩
    let mask := casesMask cases
    if mask != 0#32 then Pass.emit ⟨mask, [], anchor, .icuUpdate⟩

def compileCases (cfg : Config) (parent : Int) : List Case → PassM (List CompiledCase)
  | [] => return []
  | .mk label body :: rest => do
    let compiled ← compileCase cfg parent label (caseMarkup 0 body) (nestedIcus cfg body)
    let others ← compileCases cfg parent rest
    return compiled :: others

/-- How to compile each expression among the segments. -/
def nestedIcus (cfg : Config) : List Segment → List NestedIcu
  | [] => []
  | .text _ :: rest => nestedIcus cfg rest
  | .icu e :: rest => (fun parent anchor => compileIcu cfg e parent anchor) :: nestedIcus cfg rest

end

end MessageCompiler
