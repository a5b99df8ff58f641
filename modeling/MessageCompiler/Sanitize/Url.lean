/-
Safe URLs.

A URL is safe if it starts with one of a few schemes, or has no scheme at all because no colon stands
before the first slash, question mark or hash, or is the base64 text of an image, a video or an audio
file. Anything else is kept from working by writing `unsafe:` in front of it.

* **`sanitizeUrl_eq`** — a sanitized URL is the URL itself or the URL behind `unsafe:`.
-/
import MessageCompiler.Log
import MessageCompiler.Text.Blank
import MessageCompiler.Text.Lines

namespace MessageCompiler.Url

/-- Whether a character equals a lower-case letter (or any other pattern character) when case is
ignored: the long s stands for `s` and the Kelvin sign for `k`. -/
def folds (c pattern : Char) : Bool :=
  c == pattern || c.toLower == pattern || (pattern == 's' && c == 'ſ') ||
    (pattern == 'k' && c.toNat == 0x212A)

/-- What follows `word` at the front of the text, case ignored. -/
def after? : List Char → List Char → Option (List Char)
  | [], s => some s
  | w :: ws, c :: s => if folds c w then after? ws s else none
  | _ :: _, [] => none

/-- What follows the first of the words that stands at the front of the text. -/
def afterAny? (words : List String) (s : List Char) : List (List Char) :=
  words.filterMap fun w => after? w.toList s

/-- Schemes that never run a script, with their colons. -/
def safeSchemes : List String :=
  ["http:", "https:", "mailto:", "ftp:", "tel:", "file:", "sms:"]

/-- A character that ends the part of a URL in which a scheme can stand, or disguises one. -/
def endsScheme (c : Char) : Bool :=
  c == '&' || c == ':' || c == '/' || c == '?' || c == '#'

/-- The text has no scheme: what comes first of `& : / ? #`, if anything, is one of the last three. -/
def isRelative (s : List Char) : Bool :=
  match s.dropWhile (fun c => !endsScheme c) with
  | [] => true
  | c :: _ => c == '/' || c == '?' || c == '#'

/-- Whether the text matches the pattern of safe links. -/
def isSafeLink (s : List Char) : Bool :=
  !(afterAny? safeSchemes s).isEmpty || isRelative s

def safeDataKinds : List String :=
  ["data:image/bmp;base64,", "data:image/gif;base64,", "data:image/jpeg;base64,",
    "data:image/jpg;base64,", "data:image/png;base64,", "data:image/tiff;base64,",
    "data:image/webp;base64,", "data:video/mpeg;base64,", "data:video/mp4;base64,",
    "data:video/ogg;base64,", "data:video/webm;base64,", "data:audio/mp3;base64,",
    "data:audio/oga;base64,", "data:audio/ogg;base64,", "data:audio/opus;base64,"]

def isBase64 (c : Char) : Bool :=
  ('a' ≤ c && c ≤ 'z') || ('A' ≤ c && c ≤ 'Z') || ('0' ≤ c && c ≤ '9') || c == '+' || c == '/' ||
    c == 'ſ' || c.toNat == 0x212A

/-- At least one base64 character, then equals signs only. -/
def isBase64Text (s : List Char) : Bool :=
  match s with
  | [] => false
  | c :: rest => isBase64 c && (rest.dropWhile isBase64).all (· == '=')

/-- Whether the text matches the pattern of safe inline data. -/
def isSafeData (s : List Char) : Bool := (afterAny? safeDataKinds s).any isBase64Text

def isSafe (url : String) : Bool := isSafeLink url.toList || isSafeData url.toList

/-- What is reported about a URL that was not let through. -/
def warning (url : String) : Entry :=
  ⟨.warning, "sanitizing unsafe URL value (see https://g.co/ng/security#xss)", [("url", .text url)]⟩

/-- The URL, if it is safe, or the URL behind `unsafe:`. -/
def sanitizeUrl (url : String) : String := if isSafe url then url else "unsafe:" ++ url

def urlWarnings (url : String) : List Entry := if isSafe url then [] else [warning url]

theorem sanitizeUrl_eq (url : String) :
    sanitizeUrl url = url ∨ sanitizeUrl url = "unsafe:" ++ url := by
  unfold sanitizeUrl
  split
  · exact Or.inl rfl
  · exact Or.inr rfl

/-- The candidates of a `srcset` value: the trimmed texts between its commas. -/
def candidates (srcset : String) : List String :=
  (Text.splitOnChar ',' srcset.toList).map fun c => String.ofList (Text.trim c)

/-- Every candidate sanitized, with a comma and a space between them. -/
def sanitizeSrcset (srcset : String) : String :=
  ", ".intercalate ((candidates srcset).map sanitizeUrl)

def srcsetWarnings (srcset : String) : List Entry := (candidates srcset).flatMap urlWarnings

end MessageCompiler.Url
