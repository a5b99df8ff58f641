/-
The usual configuration of a compiler.
-/
import MessageCompiler.Compile.Pass
import MessageCompiler.Markup.Fragment

namespace MessageCompiler

/-- Safe elements and attributes only, sanitizers by the context of the attribute, and markup as it
stands inside a page. -/
def Config.standard : Config where
  elements := NameSet.validElements
  attributes := NameSet.validAttrs
  sanitizer := NamedSanitizer.forAttribute
  parseFragment := fun markup => .ok (Markup.parseFragment markup)

end MessageCompiler
