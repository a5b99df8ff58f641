/-
Names that matter when a tree is built from tags.
-/
import MessageCompiler.Markup.Node
import MessageCompiler.Text.Case

namespace MessageCompiler.Markup

/-- Elements that stop a search through the open elements. -/
def specialTags : List String :=
  ["address", "applet", "area", "article", "aside", "base", "basefont", "bgsound", "blockquote",
    "body", "br", "button", "caption", "center", "col", "colgroup", "dd", "details", "dir", "div",
    "dl", "dt", "embed", "fieldset", "figcaption", "figure", "footer", "form", "frame", "frameset",
    "h1", "h2", "h3", "h4", "h5", "h6", "head", "header", "hgroup", "hr", "html", "iframe", "img",
    "input", "keygen", "li", "link", "listing", "main", "marquee", "menu", "meta", "nav", "noembed",
    "noframes", "noscript", "object", "ol", "p", "param", "plaintext", "pre", "script", "section",
    "select", "source", "style", "summary", "table", "tbody", "td", "template", "textarea", "tfoot",
    "th", "thead", "title", "tr", "track", "ul", "wbr", "xmp"]

/-- Elements inside which text and tags are plain markup again. -/
def mathTextTags : List String := ["mi", "mo", "mn", "ms", "mtext"]

def svgTextTags : List String := ["foreignObject", "desc", "title"]

def isSpecial (ns : Namespace) (tag : String) : Bool :=
  match ns with
  | .html => specialTags.contains tag
  | .math => mathTextTags.contains tag || tag == "annotation-xml"
  | .svg => svgTextTags.contains tag

/-- Elements that bound most searches for an open element. -/
def boundsScope (ns : Namespace) (tag : String) : Bool :=
  match ns with
  | .html =>
    ["applet", "caption", "html", "table", "td", "th", "marquee", "object", "template"].contains tag
  | .math => tag == "annotation-xml" || mathTextTags.contains tag
  | .svg => svgTextTags.contains tag

def impliedEndTags : List String :=
  ["dd", "dt", "li", "optgroup", "option", "p", "rb", "rp", "rt", "rtc"]

/-- Elements of a table that may not hold text directly. -/
def tableTags : List String := ["table", "tbody", "tfoot", "thead", "tr"]

def headingTags : List String := ["h1", "h2", "h3", "h4", "h5", "h6"]

/-- Formatting elements, which are opened again when another element cuts them off. -/
def formattingTags : List String :=
  ["b", "big", "code", "em", "font", "i", "s", "small", "strike", "strong", "tt", "u"]

def blockTags : List String :=
  ["address", "article", "aside", "blockquote", "center", "details", "dialog", "dir", "div", "dl",
    "fieldset", "figcaption", "figure", "footer", "header", "hgroup", "main", "menu", "nav", "ol", "p",
    "section", "summary", "ul"]

/-- Elements that an end tag closes with everything inside them. -/
def closableTags : List String :=
  ["address", "article", "aside", "blockquote", "button", "center", "details", "dialog", "dir", "div",
    "dl", "fieldset", "figcaption", "figure", "footer", "header", "hgroup", "listing", "main", "menu",
    "nav", "ol", "pre", "section", "summary", "ul"]

/-- Elements that belong to the head of a document. -/
def headTags : List String :=
  ["base", "basefont", "bgsound", "link", "meta", "noframes", "script", "style", "template", "title"]

/-- Start tags that mean nothing outside of a table or a document head. -/
def misplacedTags : List String :=
  ["caption", "col", "colgroup", "frame", "head", "tbody", "td", "tfoot", "th", "thead", "tr"]

def svgAttributeNames : List String :=
  ["attributeName", "attributeType", "baseFrequency", "baseProfile", "calcMode", "clipPathUnits",
    "diffuseConstant", "edgeMode", "filterUnits", "glyphRef", "gradientTransform", "gradientUnits",
    "kernelMatrix", "kernelUnitLength", "keyPoints", "keySplines", "keyTimes", "lengthAdjust",
    "limitingConeAngle", "markerHeight", "markerUnits", "markerWidth", "maskContentUnits",
    "maskUnits", "numOctaves", "pathLength", "patternContentUnits", "patternTransform",
    "patternUnits", "pointsAtX", "pointsAtY", "pointsAtZ", "preserveAlpha", "preserveAspectRatio",
    "primitiveUnits", "refX", "refY", "repeatCount", "repeatDur", "requiredExtensions",
    "requiredFeatures", "specularConstant", "specularExponent", "spreadMethod", "startOffset",
    "stdDeviation", "stitchTiles", "surfaceScale", "systemLanguage", "tableValues", "targetX",
    "targetY", "textLength", "viewBox", "viewTarget", "xChannelSelector", "yChannelSelector",
    "zoomAndPan"]

def svgTagNames : List String :=
  ["altGlyph", "altGlyphDef", "altGlyphItem", "animateColor", "animateMotion", "animateTransform",
    "clipPath", "feBlend", "feColorMatrix", "feComponentTransfer", "feComposite",
    "feConvolveMatrix", "feDiffuseLighting", "feDisplacementMap", "feDistantLight", "feFlood",
    "feFuncA", "feFuncB", "feFuncG", "feFuncR", "feGaussianBlur", "feImage", "feMerge",
    "feMergeNode", "feMorphology", "feOffset", "fePointLight", "feSpecularLighting", "feSpotLight",
    "feTile", "feTurbulence", "foreignObject", "glyphRef", "linearGradient", "radialGradient",
    "textPath"]

/-- Attributes that have a namespace in SVG and MathML. -/
def foreignAttributes : List (String × String) :=
  [("xlink", "actuate"), ("xlink", "arcrole"), ("xlink", "href"), ("xlink", "role"),
    ("xlink", "show"), ("xlink", "title"), ("xlink", "type"), ("xml", "base"), ("xml", "lang"),
    ("xml", "space"), ("xmlns", "xlink")]

/-- The name of the list that is `name` apart from capitals, or `name`. -/
def withCapitals (names : List String) (name : String) : String :=
  (names.find? fun n => String.ofList (n.toList.map Char.toLower) == name).getD name

/-- An attribute as it belongs to an element of SVG or MathML. -/
def adjustAttr (ns : Namespace) (a : Attr) : Attr :=
  let key :=
    match ns with
    | .svg => withCapitals svgAttributeNames a.key
    | .math => withCapitals ["definitionURL"] a.key
    | .html => a.key
  match foreignAttributes.find? fun p => p.1 ++ ":" ++ p.2 == key with
  | some (ns, key) => ⟨ns, key, a.value⟩
  | none => { a with key }

/-- The name of an element as it belongs to a vocabulary. -/
def adjustTag (ns : Namespace) (tag : String) : String :=
  match ns with
  | .svg => withCapitals svgTagNames tag
  | _ => tag

/-- Whether plain markup may follow inside a MathML element. -/
def isMathText (ns : Namespace) (tag : String) : Bool := ns == .math && mathTextTags.contains tag

/-- Whether plain markup may follow inside an SVG or MathML element. -/
def isHtmlText (ns : Namespace) (tag : String) (attrs : List Attr) : Bool :=
  match ns with
  | .html => false
  | .svg => svgTextTags.contains tag
  | .math =>
    tag == "annotation-xml" && attrs.any fun a =>
      a.key == "encoding" &&
        (Text.lower a.value == "text/html" || Text.lower a.value == "application/xhtml+xml")

end MessageCompiler.Markup
