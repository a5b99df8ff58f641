/-
Which sanitizer a bound attribute gets.
-/
import MessageCompiler.Sanitize.NameSet
import MessageCompiler.Sanitize.Url

namespace MessageCompiler

/-- What a value may do in the place it is written to. -/
inductive SecurityContext where
  | none
  | html
  | style
  | script
  | url
  | resourceUrl
  | srcset
  deriving DecidableEq, Repr

namespace SecurityContext

def code : SecurityContext → Nat
  | .none => 0
  | .html => 1
  | .style => 2
  | .script => 3
  | .url => 4
  | .resourceUrl => 5
  | .srcset => 6

/-- The attributes that need a sanitizer, with their contexts. -/
def schema : List (String × SecurityContext) :=
  NameSet.uriAttrs.names.map (·, .url) ++ NameSet.srcsetAttrs.names.map (·, .srcset)

def ofAttribute (name : String) : SecurityContext :=
  (schema.lookup (Text.lower name)).getD .none

end SecurityContext

/-- A way to make a bound value harmless. `labelled` only writes the attribute's name in front. -/
inductive Sanitizer where
  | url
  | srcset
  | labelled (name : String)
  deriving DecidableEq, Repr

namespace Sanitizer

def run : Sanitizer → String → String
  | .url, value => Url.sanitizeUrl value
  | .srcset, value => Url.sanitizeSrcset value
  | .labelled name, value => "[" ++ name ++ "]" ++ value

def warnings : Sanitizer → String → List Entry
  | .url, value => Url.urlWarnings value
  | .srcset, value => Url.srcsetWarnings value
  | .labelled _, _ => []

end Sanitizer

/-- A sanitizer together with the name instruction streams know it by. -/
structure NamedSanitizer where
  rule : Sanitizer
  name : String
  deriving DecidableEq, Repr

namespace NamedSanitizer

/-- The sanitizer that the context of an attribute asks for. -/
def forAttribute (lowerName : String) : Option NamedSanitizer :=
  match SecurityContext.ofAttribute lowerName with
  | .url => some ⟨.url, "ɵɵsanitizeUrl"⟩
  | .srcset => some ⟨.srcset, "ɵɵsanitizeSrcset"⟩
  | _ => none

def labelling (lowerName : String) : Option NamedSanitizer :=
  some ⟨.labelled lowerName, "tag_" ++ lowerName⟩

end NamedSanitizer

end MessageCompiler
