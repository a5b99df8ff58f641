/-
Compiling bound attributes.

Every attribute of an element with a message becomes one instruction. The bindings of an attribute are
numbered after those of the attributes before it. An ICU expression has no place in an attribute.
-/
import MessageCompiler.Compile.Message

namespace MessageCompiler

open Text (isPatternBlank)

namespace Message

/-- Whether the content of an ICU expression with any kind of six characters is at the front of the
text, and a brace closes it somewhere. -/
def opensIcu (s : List Char) : Bool :=
  let s := s.dropWhile isPatternBlank
  match binding? s with
  | none => false
  | some (_, n) =>
    match afterComma? (s.drop n) with
    | none => false
    | some s =>
      let word := s.take 6
      word.length == 6 && word.all (!isPatternBlank ·) &&
        match (s.drop 6).dropWhile isPatternBlank with
        | ',' :: s => s.contains '\x7d'
        | _ => false

/-- Whether an ICU expression is anywhere in the text. -/
def hasIcu : List Char → Bool
  | [] => false
  | c :: s => (c == '\x7b' && opensIcu s) || hasIcu s

end Message

/-- The instructions for names and messages in pairs, after those in `ops`. -/
def compilePairs (cfg : Config) (element : Int) :
    (ops : List UpdateOp) → List (String × String) → Except CompileError (List UpdateOp)
  | ops, [] => .ok ops
  | ops, (name, message) :: rest =>
    if message.isEmpty then compilePairs cfg element ops rest
    else if Message.hasIcu message.toList then .error (.refused message .icuInAttribute)
    else
      let target := Target.ofAttribute name (cfg.sanitizer (Text.lower name))
      let op := bindingUpdate message element target (UpdateOp.countBindings ops)
      compilePairs cfg element (ops ++ [op]) rest

def inPairs : List String → List (String × String)
  | name :: message :: rest => (name, message) :: inPairs rest
  | _ => []

/-- Compiles the bound attributes of the element at the slot `element` into the slot `index`, unless
that was done before. `values` are names and messages in turn. -/
def TemplateView.compileAttributes (t : TemplateView) (cfg : Config) (index element : Int)
    (values : List String) : Outcome (List UpdateOp) :=
  if index < header || !t.contains index then ⟨t, [], .error (.attributesOutsideView index)⟩
  else
    match t.slot? index with
    | some (.attributes ops) => ⟨t, [], .ok ops⟩
    | _ =>
      if values.length % 2 ≠ 0 then ⟨t, [], .error (.oddPairs values.length)⟩
      else
        match compilePairs cfg element [] (inPairs values) with
        | .error e => ⟨t, [], .error e⟩
        | .ok ops => ⟨t.setSlot index (.attributes ops), [], .ok ops⟩

end MessageCompiler
