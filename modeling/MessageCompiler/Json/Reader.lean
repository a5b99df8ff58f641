/-
Reading JSON texts.

The reader accepts exactly one value between blanks, and names the first character that does not fit
and what it expected in its place. Escapes of surrogates are joined in pairs; what happens to a
surrogate without its partner is a choice of the caller (`Pairing`).
-/
import MessageCompiler.Json.Basic
import MessageCompiler.Text.Decimal
import MessageCompiler.Text.Quoted

namespace MessageCompiler.Json

/-- Where in the grammar a character did not fit. -/
inductive Place where
  | value
  | objectKey
  | afterKey
  | afterMember
  | afterElement
  | stringLiteral
  | stringEscape
  | hexEscape
  | number
  | fraction
  | exponent
  | literal (word : String) (expected : Char)
  | afterValue

def Place.describe : Place → String
  | .value => "looking for beginning of value"
  | .objectKey => "looking for beginning of object key string"
  | .afterKey => "after object key"
  | .afterMember => "after object key:value pair"
  | .afterElement => "after array element"
  | .stringLiteral => "in string literal"
  | .stringEscape => "in string escape code"
  | .hexEscape => "in \\u hexadecimal character escape"
  | .number => "in numeric literal"
  | .fraction => "after decimal point in numeric literal"
  | .exponent => "in exponent of numeric literal"
  | .literal word expected => "in literal " ++ word ++ " (expecting " ++ Text.quoteSingle expected ++ ")"
  | .afterValue => "after top-level value"

/-- Why a text is not JSON. -/
inductive ReadError where
  | endOfInput
  | invalid (c : Char) (place : Place)

/-- The first byte of the UTF-8 form of a character, as a character. -/
def leadByte (c : Char) : Char :=
  let n := c.toNat
  if n < 0x80 then c
  else if n < 0x800 then Char.ofNat (0xC0 + n / 0x40)
  else if n < 0x10000 then Char.ofNat (0xE0 + n / 0x1000)
  else Char.ofNat (0xF0 + n / 0x40000)

/-- The message of a failure; a character that does not fit is named by its first byte. -/
def ReadError.message : ReadError → String
  | .endOfInput => "unexpected end of JSON input"
  | .invalid c place =>
    "invalid character " ++ Text.quoteSingle (leadByte c) ++ " " ++ place.describe

/-- How an escaped surrogate without its partner is read. Either way it becomes U+FFFD; a greedy
reader drops a following escape with it, a careful one reads that escape on its own. -/
inductive Pairing where
  | careful
  | greedy
  deriving DecidableEq

def isSpace (c : Char) : Bool := c == ' ' || c == '\t' || c == '\n' || c == '\r'

/-- Complains about the next character, or about its absence. -/
def expected {α : Type} (place : Place) : List Char → Except ReadError α
  | [] => .error .endOfInput
  | c :: _ => .error (.invalid c place)

def hexValue? (c : Char) : Option Nat :=
  match Text.wideDigit? c with
  | some d => if d < 16 then some d else none
  | none => none

def readHex4 : Nat → Nat → List Char → Except ReadError (Nat × List Char)
  | 0, n, s => .ok (n, s)
  | k + 1, n, c :: s =>
    match hexValue? c with
    | some d => readHex4 k (16 * n + d) s
    | none => .error (.invalid c .hexEscape)
  | _ + 1, _, [] => .error .endOfInput

def isSurrogate (n : Nat) : Bool := 0xD800 ≤ n && n < 0xE000

def pair? (high low : Nat) : Option Char :=
  if 0xD800 ≤ high && high < 0xDC00 && 0xDC00 ≤ low && low < 0xE000 then
    some (Char.ofNat ((high - 0xD800) * 0x400 + (low - 0xDC00) + 0x10000))
  else none

/-- The rest of a string literal after its opening quote; `fuel` bounds the number of characters. -/
def readString (pairing : Pairing) : Nat → List Char → List Char → Except ReadError (String × List Char)
  | 0, _, s => expected .stringLiteral s
  | _ + 1, _, [] => .error .endOfInput
  | _ + 1, acc, '"' :: s => .ok (String.ofList acc.reverse, s)
  | _ + 1, _, ['\\'] => .error .endOfInput
  | fuel + 1, acc, '\\' :: e :: s =>
    match e with
    | '"' => readString pairing fuel ('"' :: acc) s
    | '\\' => readString pairing fuel ('\\' :: acc) s
    | '/' => readString pairing fuel ('/' :: acc) s
    | 'b' => readString pairing fuel ('\x08' :: acc) s
    | 'f' => readString pairing fuel ('\x0c' :: acc) s
    | 'n' => readString pairing fuel ('\n' :: acc) s
    | 'r' => readString pairing fuel ('\r' :: acc) s
    | 't' => readString pairing fuel ('\t' :: acc) s
    | 'u' =>
      match readHex4 4 0 s with
      | .error err => .error err
      | .ok (n, rest) =>
        if isSurrogate n then
          match rest with
          | '\\' :: 'u' :: more =>
            match readHex4 4 0 more with
            | .error err => .error err
            | .ok (m, after) =>
              match pair? n m with
              | some c => readString pairing fuel (c :: acc) after
              | none =>
                let left := if pairing = .greedy then after else rest
                readString pairing fuel ('�' :: acc) left
          | _ => readString pairing fuel ('�' :: acc) rest
        else readString pairing fuel (Char.ofNat n :: acc) rest
    | _ => .error (.invalid e .stringEscape)
  | fuel + 1, acc, c :: s =>
    if c.toNat < 0x20 then .error (.invalid c .stringLiteral)
    else readString pairing fuel (c :: acc) s

/-- Digits at the front of a text and what follows them. -/
def spanDigits (s : List Char) : List Char × List Char := s.span Text.isDigit

def readExponent (s : List Char) : Except ReadError (List Char × List Char) :=
  match s with
  | e :: s₁ =>
    if e == 'e' || e == 'E' then
      let (sign, s₂) := match s₁ with
        | '+' :: r => (['+'], r)
        | '-' :: r => (['-'], r)
        | r => ([], r)
      let (ds, s₃) := spanDigits s₂
      if ds.isEmpty then expected .exponent s₂ else .ok (e :: sign ++ ds, s₃)
    else .ok ([], s)
  | [] => .ok ([], [])

/-- The fraction of a number, if there is one, and its exponent. -/
def readFraction (s : List Char) : Except ReadError (List Char × List Char) :=
  match s with
  | '.' :: s₁ =>
    let (ds, s₂) := spanDigits s₁
    if ds.isEmpty then expected .fraction s₁
    else do
      let (es, rest) ← readExponent s₂
      return ('.' :: ds ++ es, rest)
  | _ => readExponent s

def readNumber (s : List Char) : Except ReadError (String × List Char) := do
  let (sign, s₁) := match s with
    | '-' :: r => (['-'], r)
    | r => ([], r)
  match s₁ with
  | '0' :: s₂ =>
    let (more, rest) ← readFraction s₂
    return (String.ofList (sign ++ '0' :: more), rest)
  | c :: _ =>
    if Text.isDigit c then
      let (ds, s₂) := spanDigits s₁
      let (more, rest) ← readFraction s₂
      return (String.ofList (sign ++ ds ++ more), rest)
    else .error (.invalid c .number)
  | [] => .error .endOfInput

def readWord (word : String) (value : Json) : List Char → List Char → Except ReadError (Json × List Char)
  | [], s => .ok (value, s)
  | w :: ws, c :: s =>
    if c == w then readWord word value ws s else .error (.invalid c (.literal word w))
  | _ :: _, [] => .error .endOfInput

mutual

def readValue (pairing : Pairing) : Nat → List Char → Except ReadError (Json × List Char)
  | 0, s => expected .value s
  | fuel + 1, s =>
    match s.dropWhile isSpace with
    | [] => .error .endOfInput
    | '\x7b' :: rest =>
      match rest.dropWhile isSpace with
      | '\x7d' :: after => .ok (.obj [], after)
      | inner => readMembers pairing fuel [] inner
    | '[' :: rest =>
      match rest.dropWhile isSpace with
      | ']' :: after => .ok (.arr [], after)
      | inner => readItems pairing fuel [] inner
    | '"' :: rest => do
      let (text, after) ← readString pairing (rest.length + 1) [] rest
      return (.str text, after)
    | 't' :: rest => readWord "true" (.bool true) ['r', 'u', 'e'] rest
    | 'f' :: rest => readWord "false" (.bool false) ['a', 'l', 's', 'e'] rest
    | 'n' :: rest => readWord "null" .null ['u', 'l', 'l'] rest
    | c :: rest =>
      if c == '-' || Text.isDigit c then do
        let (text, after) ← readNumber (c :: rest)
        return (.num text, after)
      else .error (.invalid c .value)

/-- The members of an object from the next name on, read so far in reverse. -/
def readMembers (pairing : Pairing) : Nat → List (String × Json) → List Char → Except ReadError (Json × List Char)
  | 0, _, s => expected .objectKey s
  | fuel + 1, acc, s =>
    match s.dropWhile isSpace with
    | '"' :: rest => do
      let (name, afterName) ← readString pairing (rest.length + 1) [] rest
      match afterName.dropWhile isSpace with
      | ':' :: afterColon =>
        let (value, afterValue) ← readValue pairing fuel afterColon
        match afterValue.dropWhile isSpace with
        | ',' :: more => readMembers pairing fuel ((name, value) :: acc) more
        | '\x7d' :: after => return (.obj ((name, value) :: acc).reverse, after)
        | left => expected .afterMember left
      | left => expected .afterKey left
    | left => expected .objectKey left

/-- The elements of an array from the next one on, read so far in reverse. -/
def readItems (pairing : Pairing) : Nat → List Json → List Char → Except ReadError (Json × List Char)
  | 0, _, s => expected .value s
  | fuel + 1, acc, s => do
    let (value, afterValue) ← readValue pairing fuel s
    match afterValue.dropWhile isSpace with
    | ',' :: more => readItems pairing fuel (value :: acc) more
    | ']' :: after => return (.arr (value :: acc).reverse, after)
    | left => expected .afterElement left

end

/-- Reads a text that holds one value and nothing else. -/
def read (pairing : Pairing) (text : String) : Except ReadError Json := do
  let s := text.toList
  let (value, rest) ← readValue pairing (s.length + 1) s
  match rest.dropWhile isSpace with
  | [] => return value
  | c :: _ => .error (.invalid c .afterValue)

def decimalOf (text : String) : Bool × Nat × Int :=
  let (negative, s₁) := Text.splitSign text.toList
  let (whole, s₂) := spanDigits s₁
  let (fraction, s₃) := match s₂ with
    | '.' :: r => spanDigits r
    | r => ([], r)
  let exponent : Int := match s₃ with
    | _ :: r =>
      let (down, ds) := Text.splitSign r
      Text.signed down (Text.natOfDigits ds)
    | [] => 0
  (negative, Text.natOfDigits (whole ++ fraction), exponent - fraction.length)

end MessageCompiler.Json
