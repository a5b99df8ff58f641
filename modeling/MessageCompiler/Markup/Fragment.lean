/-
Markup as it stands inside a page.

Any text is markup: what is malformed is repaired by the rules of the builder, so reading a fragment
never fails.
-/
import MessageCompiler.Markup.Modes

namespace MessageCompiler.Markup

/-- Reads tokens and builds the tree. A token takes at least one character, so the fuel is the length of
the text. -/
def build {cs : List String} : (fuel : Nat) → (raw : Option String) → List Char → Builder cs → Σ cs, Builder cs
  | 0, _, _, b => ⟨cs, b.process .eof⟩
  | fuel + 1, raw, s, b =>
    match next (b.ns b.top != .html) raw s with
    | none => ⟨cs, b.process .eof⟩
    | some r =>
      let b := { b with plainNext := false }.process r.token
      build fuel (if b.plainNext then none else r.raw) r.rest b

def parseFragment (markup : String) : List Node :=
  let b := (build (markup.length + 1) none markup.toList .new).2
  (b.tree.children 0).map b.tree.node

end MessageCompiler.Markup
