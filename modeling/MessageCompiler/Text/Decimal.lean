/-
Decimal numerals and 64-bit integers.

`readInt?` reads an optional sign and decimal digits into the 64-bit range, and nothing else.
`readLiteral` also takes a base (`0x`, `0o`, `0b`, or a leading zero for octal) and underscores
between digits, and tells a bad numeral from one that is out of range.

* **`readInt?_of_digits`** — digits alone are read as their number if it fits 64 bits.
* **`natOfDigits_toDigits`** — the digits of a number have its value.
-/

namespace MessageCompiler.Text

def isDigit (c : Char) : Bool := '0' ≤ c && c ≤ '9'

def isWord (c : Char) : Bool :=
  isDigit c || ('a' ≤ c && c ≤ 'z') || ('A' ≤ c && c ≤ 'Z') || c == '_'

def digitValue (c : Char) : Nat := c.toNat - '0'.toNat

/-- The value of a list of decimal digits, most significant first. -/
def natOfDigits (ds : List Char) : Nat :=
  ds.foldl (fun n c => 10 * n + digitValue c) 0

def fitsWord (i : Int) : Bool := -9223372036854775808 ≤ i && i ≤ 9223372036854775807

def splitSign : List Char → Bool × List Char
  | '-' :: s => (true, s)
  | '+' :: s => (false, s)
  | s => (false, s)

def signed (negative : Bool) (n : Nat) : Int := if negative then -(n : Int) else n

/-- Reads an optional sign and at least one digit, provided the number fits 64 bits. -/
def readInt? (s : List Char) : Option Int :=
  let (negative, ds) := splitSign s
  if ds.isEmpty || !ds.all isDigit then none
  else
    let i := signed negative (natOfDigits ds)
    if fitsWord i then some i else none

/-- Why a numeral was not read. -/
inductive NumeralError where
  | badSyntax
  | outOfRange
  deriving DecidableEq, Repr

def NumeralError.message : NumeralError → String
  | .badSyntax => "invalid syntax"
  | .outOfRange => "value out of range"

def wideDigit? (c : Char) : Option Nat :=
  let l := c.toLower
  if isDigit c then some (digitValue c)
  else if 'a' ≤ l && l ≤ 'z' then some (l.toNat - 'a'.toNat + 10)
  else none

/-- Reads digits of `base`, skipping underscores; the first fault met decides the error. -/
def readDigits (base : Nat) : List Char → Nat → Except NumeralError Nat
  | [], n => .ok n
  | c :: s, n =>
    if c == '_' then readDigits base s n
    else
      match wideDigit? c with
      | none => .error .badSyntax
      | some d =>
        if base ≤ d then .error .badSyntax
        else if 18446744073709551615 < base * n + d then .error .outOfRange
        else readDigits base s (base * n + d)

/-- What the scan for misplaced underscores saw last. -/
inductive LastSeen where
  | nothing
  | digit
  | underscore
  | other
  deriving DecidableEq

def underscoresFrom (hex : Bool) : LastSeen → List Char → Bool
  | last, [] => last != .underscore
  | last, c :: s =>
    if isDigit c || (hex && 'a' ≤ c.toLower && c.toLower ≤ 'f') then
      underscoresFrom hex .digit s
    else if c == '_' then last == .digit && underscoresFrom hex .underscore s
    else last != .underscore && underscoresFrom hex .other s

/-- Underscores stand only between digits or right after a base. -/
def underscoresFit (s : List Char) : Bool :=
  match s with
  | '0' :: b :: rest =>
    if b.toLower == 'x' then underscoresFrom true .digit rest
    else if b.toLower == 'b' || b.toLower == 'o' then underscoresFrom false .digit rest
    else underscoresFrom false .nothing s
  | _ => underscoresFrom false .nothing s

/-- The base of an unsigned numeral and its digits. -/
def splitBase : List Char → Nat × List Char
  | '0' :: b :: c :: s =>
    if b.toLower == 'b' then (2, c :: s)
    else if b.toLower == 'o' then (8, c :: s)
    else if b.toLower == 'x' then (16, c :: s)
    else (8, b :: c :: s)
  | '0' :: s => (8, s)
  | s => (10, s)

/-- Reads a 64-bit integer literal with an optional sign and base. -/
def readLiteral (s : List Char) : Except NumeralError Int := do
  let (negative, body) := splitSign s
  if body.isEmpty then throw .badSyntax
  let (base, digits) := splitBase body
  let n ← readDigits base digits 0
  if digits.contains '_' && !underscoresFit body then throw .badSyntax
  let i := signed negative n
  if fitsWord i then return i else throw .outOfRange

def showInt (i : Int) : String := toString i

variable (n : Nat)

theorem toList_showInt : (showInt n).toList = Nat.toDigits 10 n := by
  show (Nat.repr n).toList = _
  exact Nat.toList_repr

variable {c : Char}

theorem isDigit_of_mem_toDigits {n : Nat} (h : c ∈ Nat.toDigits 10 n) : isDigit c = true := by
  have hdigit := Nat.isDigit_of_mem_toDigits (by decide) (by decide) h
  simp only [Char.isDigit, ge_iff_le, Bool.and_eq_true, decide_eq_true_eq] at hdigit
  simp only [isDigit, Bool.and_eq_true, decide_eq_true_eq]
  exact hdigit

theorem takeWhile_isDigit {digits : List Char} (h : ∀ d ∈ digits, isDigit d = true) (hc : isDigit c = false)
    (rest : List Char) : (digits ++ c :: rest).takeWhile isDigit = digits := by
  rw [List.takeWhile_append_of_pos h, List.takeWhile_cons_of_neg (by simp [hc]), List.append_nil]

theorem dropWhile_isDigit {digits : List Char} (h : ∀ d ∈ digits, isDigit d = true) (hc : isDigit c = false)
    (rest : List Char) : (digits ++ c :: rest).dropWhile isDigit = c :: rest := by
  rw [List.dropWhile_append_of_pos h, List.dropWhile_cons_of_neg (by simp [hc])]

theorem takeWhile_toDigits (hc : isDigit c = false) (rest : List Char) :
    (Nat.toDigits 10 n ++ c :: rest).takeWhile isDigit = Nat.toDigits 10 n :=
  takeWhile_isDigit (fun _ => isDigit_of_mem_toDigits) hc rest

theorem dropWhile_toDigits (hc : isDigit c = false) (rest : List Char) :
    (Nat.toDigits 10 n ++ c :: rest).dropWhile isDigit = c :: rest :=
  dropWhile_isDigit (fun _ => isDigit_of_mem_toDigits) hc rest

theorem natOfDigits_toDigits : natOfDigits (Nat.toDigits 10 n) = n :=
  Nat.ofDigitChars_ten_toDigits

theorem splitSign_of_digits {ds : List Char} (h : ∀ c ∈ ds, isDigit c = true) :
    splitSign ds = (false, ds) := by
  unfold splitSign
  split
  · exact absurd (h '-' List.mem_cons_self) (by decide)
  · exact absurd (h '+' List.mem_cons_self) (by decide)
  · rfl

theorem readInt?_of_digits {ds : List Char} (hne : ds ≠ []) (h : ∀ c ∈ ds, isDigit c = true) :
    readInt? ds =
      if natOfDigits ds ≤ 9223372036854775807 then some (natOfDigits ds : Int) else none := by
  have hall : ds.all isDigit = true := List.all_eq_true.mpr h
  have hfits : fitsWord (natOfDigits ds) = decide (natOfDigits ds ≤ 9223372036854775807) := by
    rw [fitsWord, Bool.eq_iff_iff, Bool.and_eq_true, decide_eq_true_eq, decide_eq_true_eq, decide_eq_true_eq]
    omega
  rw [readInt?, splitSign_of_digits h]
  simp [List.isEmpty_eq_false_iff.mpr hne, hall, signed, hfits]

end MessageCompiler.Text
