/-
Where catalogues come from.

A location that starts like a web address is one, and any other is the name of a file. Only a
well-formed address can be fetched.

* **`Location.check`** — refuses an address that is not well-formed.
-/
import MessageCompiler.Json.Reader

namespace MessageCompiler

/-- What is wrong with a web address. -/
inductive AddressError where
  | controlCharacter
  | missingBracket
  | badPort (text : String)
  | badEscape (text : String)
  | badHostCharacter (c : Char)
  | badUser
  deriving DecidableEq, Repr

def AddressError.message : AddressError → String
  | .controlCharacter => "net/url: invalid control character in URL"
  | .missingBracket => "missing ']' in host"
  | .badPort text => "invalid port " ++ Text.quote text ++ " after host"
  | .badEscape text => "invalid URL escape " ++ Text.quote text
  | .badHostCharacter c => "invalid character " ++ Text.quote c.toString ++ " in host name"
  | .badUser => "net/url: invalid userinfo"

namespace Location

def isAddress (location : String) : Bool :=
  "http://".toList.isPrefixOf location.toList || "https://".toList.isPrefixOf location.toList

def isPlain (c : Char) : Bool := c.isAlphanum

def isHostChar (c : Char) : Bool := isPlain c || "!$&'()*+,;=:[]<>\"-_.~".toList.contains c

/-- Whether a character may stand in front of a host. -/
def isUserChar (c : Char) : Bool := isPlain c || "-._:~!$&'()*+,;=%@".toList.contains c

/-- The parts of an address that differ in what may be escaped. -/
inductive Place where
  /-- Only bytes of other characters than ASCII. -/
  | host
  /-- Only what could stand there unescaped. -/
  | zone
  /-- Anything. -/
  | path
  deriving DecidableEq

/-- Whether a byte may be escaped in a place; the percent sign always may. -/
def mayEscape (place : Place) (high low : Nat) : Bool :=
  match place with
  | .path => true
  | .host => 8 ≤ high || (high == 2 && low == 5)
  | .zone =>
    let c := Char.ofNat (16 * high + low)
    (high == 2 && low == 5) || c == ' ' || (c.toNat < 0x80 && isHostChar c)

/-- Checks the escapes of a text and, in a host, its other characters. -/
def checkText (place : Place) : List Char → Except AddressError Unit
  | [] => .ok ()
  | '%' :: a :: b :: s =>
    match Json.hexValue? a, Json.hexValue? b with
    | some high, some low =>
      if mayEscape place high low then checkText place s
      else .error (.badEscape (String.ofList ['%', a, b]))
    | _, _ => .error (.badEscape (String.ofList ['%', a, b]))
  | '%' :: s => .error (.badEscape (String.ofList ('%' :: s)))
  | c :: s =>
    if place != .path && c.toNat < 0x80 && !isHostChar c then .error (.badHostCharacter c)
    else checkText place s

def splitLast? (c : Char) (s : List Char) : Option (List Char × List Char) :=
  let after := (s.reverse.takeWhile (· != c)).reverse
  if after.length == s.length then none
  else some (s.take (s.length - after.length - 1), c :: after)

/-- Whether the text is empty, or a colon and digits. -/
def isPort : List Char → Bool
  | [] => true
  | c :: s => c == ':' && s.all Char.isDigit

/-- The texts before and from the first escaped percent sign on. -/
def splitZone? : List Char → Option (List Char × List Char)
  | [] => none
  | c :: s =>
    if "%25".toList.isPrefixOf (c :: s) then some ([], c :: s)
    else (splitZone? s).map fun (a, b) => (c :: a, b)

def checkPort (s : List Char) : Except AddressError Unit :=
  if isPort s then .ok () else .error (.badPort (String.ofList s))

def checkHost (host : List Char) : Except AddressError Unit :=
  match host with
  | '[' :: _ =>
    match splitLast? ']' host with
    | none => .error .missingBracket
    | some (inside, close) => do
      checkPort (close.drop 1)
      match splitZone? inside with
      | some (number, zone) => do
        checkText .host number
        checkText .zone zone
        checkText .host close
      | none => checkText .host host
  | _ => do
    match splitLast? ':' host with
    | some (_, port) => checkPort port
    | none => pure ()
    checkText .host host

/-- A host with a name and a password in front of it. -/
def checkAuthority (authority : List Char) : Except AddressError Unit :=
  match splitLast? '@' authority with
  | none => checkHost authority
  | some (user, host) => do
    checkHost (host.drop 1)
    if !user.all isUserChar then throw .badUser
    checkText .path (user.takeWhile (· != ':'))
    checkText .path (user.dropWhile (· != ':'))

def checkAddress (s : List Char) : Except AddressError Unit := do
  if s.any fun c => c.toNat < 0x20 || c.toNat == 0x7f then throw .controlCharacter
  let rest := ((s.dropWhile (· != ':')).drop 3).takeWhile (· != '?')
  checkAuthority (rest.takeWhile (· != '/'))
  checkText .path (rest.dropWhile (· != '/'))

/-- Refuses an address that is not well-formed, and says why. -/
def check (location : String) : Except String Unit :=
  let s := location.toList
  let base := s.takeWhile (· != '#')
  let fragment := s.dropWhile (· != '#')
  let failure (text : List Char) (e : AddressError) : String :=
    "parse " ++ Text.quote (String.ofList text) ++ ": " ++ e.message
  match checkAddress base with
  | .error e => .error (failure base e)
  | .ok _ => (checkText .path fragment).mapError (failure s)

end Location

end MessageCompiler
