/-
Artifacts: compiled messages in a form that can be stored.

The lists of an artifact are kept as JSON values: `null` stands where there is no list at all.
-/
import MessageCompiler.Decimal.Binary64
import MessageCompiler.Json.Reader
import MessageCompiler.Json.Writer
import MessageCompiler.Template.View

namespace MessageCompiler

/-- A compiled ICU expression. -/
structure IcuArtifact where
  kind : String
  anchor : Int
  current : Int
  cases : Json
  create : Json
  remove : Json
  update : Json

/-- A compiled message with its ICU expressions. -/
structure Artifact where
  id : String
  create : Json
  update : Json
  /-- The ICU expressions by slot. -/
  icus : List (Int × IcuArtifact)

namespace IcuArtifact

/-- A list of the cases, or nothing if there are none. -/
def caseList (icu : CompiledIcu) (f : CompiledCase → Json) : Json :=
  if icu.cases.isEmpty then .null else .arr (icu.cases.map f)

def ofIcu (icu : CompiledIcu) : IcuArtifact where
  kind := icu.kind.word
  anchor := icu.anchor
  current := icu.current
  cases := caseList icu fun c => .str c.label
  create := caseList icu fun c => .arr ((IcuCreateOp.encodeAll c.create).map Flat.portable)
  remove := caseList icu fun c => .arr ((RemoveOp.encodeAll c.remove).map Flat.portable)
  update := caseList icu fun c => .arr ((UpdateOp.encodePortableAll c.update).map Flat.portable)

def toJson (a : IcuArtifact) : Json :=
  .obj [("type", .str a.kind), ("anchorIdx", .int a.anchor),
    ("currentCaseLViewIndex", .int a.current), ("cases", a.cases), ("create", a.create),
    ("remove", a.remove), ("update", a.update)]

end IcuArtifact

namespace Artifact

/-- The artifact of a message that was compiled into a view of its own. -/
def ofBlock (id : String) (block : Block) (t : TemplateView) : Artifact where
  id := id
  create := .arr ((CreateOp.encodeAll block.create).map Flat.portable)
  update := .arr ((UpdateOp.encodePortableAll block.update).map Flat.portable)
  icus := t.icus.map fun (slot, icu) => (slot, .ofIcu icu)

/-- The ICU expressions by the text of their slots, in alphabetical order. -/
def icuMembers (a : Artifact) : List (String × Json) :=
  (a.icus.map fun (slot, icu) => (Text.showInt slot, icu.toJson)).mergeSort fun x y =>
    decide (x.1 ≤ y.1)

def toJson (a : Artifact) : Json :=
  .obj ([("id", .str a.id), ("create", a.create), ("update", a.update)] ++
    if a.icus.isEmpty then [] else [("icus", .obj a.icuMembers)])

def text (a : Artifact) : String := a.toJson.indented ++ "\n"

/-! ### Reading -/

/-- Why a stored text is not an artifact. -/
inductive DecodeError where
  | malformed (e : Json.ReadError)
  /-- A field has a value of the wrong kind. -/
  | kind (field : String)

def DecodeError.message : DecodeError → String
  | .malformed e => e.message
  | .kind field => "unexpected kind of value for " ++ field

/-- The text of a number after it went through a floating point number. -/
def roundedNumber (text : String) : String :=
  let (negative, digits, exponent) := Json.decimalOf text
  Binary64.render .json (.ofDecimal ⟨negative, digits, exponent⟩)

/-- Sorts members by name; of two with one name the later counts. -/
def uniqueMembers (members : List (String × Json)) : List (String × Json) :=
  let latest := members.foldl
    (fun seen (p : String × Json) => p :: seen.filter fun q => q.1 != p.1) []
  latest.mergeSort fun x y => decide (x.1 ≤ y.1)

mutual

/-- A value of no particular kind as it is read: numbers are rounded, members sorted. -/
def rounded : Json → Json
  | .num text => .num (roundedNumber text)
  | .arr items => .arr (roundedItems items)
  | .obj members => .obj (uniqueMembers (roundedMembers members))
  | j => j

def roundedItems : List Json → List Json
  | [] => []
  | j :: rest => rounded j :: roundedItems rest

def roundedMembers : List (String × Json) → List (String × Json)
  | [] => []
  | (name, j) :: rest => (name, rounded j) :: roundedMembers rest

end

/-- The value of a field: the last member with its name in any case. -/
def field (name : String) (members : List (String × Json)) : Json :=
  ((members.reverse.find? fun p => Text.lower p.1 == Text.lower name).map (·.2)).getD .null

def textField (name : String) (members : List (String × Json)) : Except DecodeError String :=
  match field name members with
  | .str s => .ok s
  | .null => .ok ""
  | _ => .error (.kind name)

def intField (name : String) (members : List (String × Json)) : Except DecodeError Int :=
  match field name members with
  | .num text =>
    match Text.readInt? text.toList with
    | some i => .ok i
    | none => .error (.kind name)
  | .null => .ok 0
  | _ => .error (.kind name)

def listField (name : String) (item : Json → Except DecodeError Json)
    (members : List (String × Json)) : Except DecodeError Json :=
  match field name members with
  | .arr items => do return .arr (← items.mapM item)
  | .null => .ok .null
  | _ => .error (.kind name)

def anyItem (j : Json) : Except DecodeError Json := .ok (rounded j)

def textItem : Json → Except DecodeError Json
  | .str s => .ok (.str s)
  | .null => .ok (.str "")
  | _ => .error (.kind "cases")

def streamItem (name : String) : Json → Except DecodeError Json
  | .arr items => .ok (.arr (roundedItems items))
  | .null => .ok .null
  | _ => .error (.kind name)

def decodeIcu : Json → Except DecodeError IcuArtifact
  | .obj members => do
    let streams := fun name => listField name (streamItem name) members
    return {
      kind := ← textField "type" members
      anchor := ← intField "anchorIdx" members
      current := ← intField "currentCaseLViewIndex" members
      cases := ← listField "cases" textItem members
      create := ← streams "create"
      remove := ← streams "remove"
      update := ← streams "update" }
  | .null => .ok ⟨"", 0, 0, .null, .null, .null, .null⟩
  | _ => .error (.kind "icus")

def decodeIcus (members : List (String × Json)) :
    Except DecodeError (List (Int × IcuArtifact)) :=
  members.mapM fun (name, j) => do
    match Text.readInt? name.toList with
    | some slot => return (slot, ← decodeIcu j)
    | none => throw (.kind "icus")

def decode (body : String) : Except DecodeError Artifact := do
  match Json.read .careful body with
  | .error e => throw (.malformed e)
  | .ok (.obj members) =>
    let icus ←
      match field "icus" members with
      | .obj icus => decodeIcus icus
      | .null => pure []
      | _ => throw (.kind "icus")
    return {
      id := ← textField "id" members
      create := ← listField "create" anyItem members
      update := ← listField "update" anyItem members
      icus := icus }
  | .ok .null => return ⟨"", .null, .null, []⟩
  | .ok _ => throw (.kind "artifact")

end Artifact

end MessageCompiler
