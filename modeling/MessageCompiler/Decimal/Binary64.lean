/-
Decimal texts of 64-bit binary floating point numbers.

A finite non-zero number is a sign and `mantissa * 2 ^ exponent` with a mantissa below 2^53.
`ofDecimal` rounds a decimal to such a number, a tie to the even mantissa. `shortest` gives the fewest
digits that round back to the number, and of those the nearest to it. Both are computed exactly, in
natural numbers. How the digits are set out is decided by a `Style`: which exponents are written
positionally, and how an exponent is written.
-/

namespace MessageCompiler

/-- A 64-bit floating point number. -/
inductive Binary64 where
  | finite (negative : Bool) (mantissa : Nat) (exponent : Int)
  | infinite (negative : Bool)
  | nan
  deriving DecidableEq, Repr

/-- A decimal `digits * 10 ^ exponent` with a sign. -/
structure Decimal where
  negative : Bool
  digits : Nat
  exponent : Int
  deriving DecidableEq, Repr

namespace Binary64

/-- The quotient rounded to the nearest natural number, a tie to the even one. -/
def roundDiv (num den : Nat) : Nat :=
  let q := num / den
  let r := num % den
  if 2 * r < den then q
  else if den < 2 * r then q + 1
  else if q % 2 == 0 then q else q + 1

def bitLength (n : Nat) : Nat := if n == 0 then 0 else Nat.log2 n + 1

/-- The number nearest to `num / den`: the exponent is chosen so that the mantissa has 53 binary
digits, or is the least one a number may have. -/
def ofRatio (negative : Bool) (num den : Nat) : Binary64 :=
  if num == 0 then .finite negative 0 0
  else
    let guess : Int := (bitLength num : Int) - (bitLength den : Int) - 53
    let scaled (e : Int) : Nat × Nat :=
      if 0 ≤ e then (num, den * Nat.pow 2 e.toNat) else (num * Nat.pow 2 (-e).toNat, den)
    let fits (e : Int) : Bool := (scaled e).1 < (scaled e).2 * 9007199254740992
    let e₀ := if fits guess then guess else guess + 1
    let e := max e₀ (-1074)
    let m := roundDiv (scaled e).1 (scaled e).2
    let (m, e) := if m == 9007199254740992 then (4503599627370496, e + 1) else (m, e)
    if 971 < e then .infinite negative else .finite negative m e

/-- The number nearest to a decimal. Decimals far outside of the range are cut off before any
large power is computed. -/
def ofDecimal (d : Decimal) : Binary64 :=
  let size : Int := (Nat.toDigits 10 d.digits).length + d.exponent
  if d.digits == 0 || size < -400 then .finite d.negative 0 0
  else if 400 < size then .infinite d.negative
  else if 0 ≤ d.exponent then ofRatio d.negative (d.digits * Nat.pow 10 d.exponent.toNat) 1
  else ofRatio d.negative d.digits (Nat.pow 10 (-d.exponent).toNat)

/-- Digits `ds` and a decimal exponent `e` for `0.ds * 10 ^ e`. -/
structure Digits where
  ds : List Char
  point : Int

/-- The decimal with `n` digits closest to `num / den` below `10 ^ point`, unless it does not lie
strictly between (or, if the ends count, on) the bounds. -/
def within (n : Nat) (point : Int) (num low high den : Nat) (ends : Bool) : Option Nat :=
  let shift : Int := (n : Int) - point
  let (a, b) := if 0 ≤ shift then (Nat.pow 10 shift.toNat, 1) else (1, Nat.pow 10 (-shift).toNat)
  -- the grid has points k * b / a; the value is num / den
  let down := num * a / (den * b)
  let inside (k : Nat) : Bool :=
    let v := k * b * den
    if ends then low * a ≤ v && v ≤ high * a else low * a < v && v < high * a
  let gap (k : Nat) : Nat := (k * b * den : Int) - (num * a : Int) |>.natAbs
  match inside down, inside (down + 1) with
  | true, true => some (if gap (down + 1) < gap down then down + 1 else down)
  | true, false => some down
  | false, true => some (down + 1)
  | false, false => none

def firstWithin (point : Int) (num low high den : Nat) (ends : Bool) : Nat → Nat → Option (Nat × Nat)
  | _, 0 => none
  | n, fuel + 1 =>
    match within n point num low high den ends with
    | some k => some (n, k)
    | none => firstWithin point num low high den ends (n + 1) fuel

/-- The place of the decimal point: `10 ^ (point - 1) ≤ num / den < 10 ^ point`. -/
def pointOf (num den : Nat) : Int :=
  let guess : Int := ((Nat.toDigits 10 num).length : Int) - ((Nat.toDigits 10 den).length : Int) + 1
  let below (p : Int) : Bool :=
    if 0 ≤ p then num < den * Nat.pow 10 p.toNat else num * Nat.pow 10 (-p).toNat < den
  if below (guess - 1) then guess - 1 else guess

/-- The fewest digits that round back to `mantissa * 2 ^ exponent`, nearest ones first. -/
def shortest (mantissa : Nat) (exponent : Int) : Digits :=
  let up := if 0 ≤ exponent then Nat.pow 2 exponent.toNat else 1
  let den := 4 * (if 0 ≤ exponent then 1 else Nat.pow 2 (-exponent).toNat)
  let num := 4 * mantissa * up
  let high := (4 * mantissa + 2) * up
  let low :=
    if mantissa == 4503599627370496 && -1074 < exponent then (4 * mantissa - 1) * up
    else (4 * mantissa - 2) * up
  let ends := mantissa % 2 == 0
  let point := pointOf num den
  match firstWithin point num low high den ends 1 17 with
  | some (n, k) =>
    let ds := Nat.toDigits 10 k
    -- rounding up may have added a digit
    let point := point + ((ds.length : Int) - n)
    ⟨(ds.reverse.dropWhile (· == '0')).reverse, point⟩
  | none => ⟨Nat.toDigits 10 mantissa, 0⟩

/-- How the digits of a number are set out. -/
structure Style where
  /-- least exponent of the first digit that is written positionally -/
  least : Int
  /-- greatest exponent of the first digit that is written positionally -/
  greatest : Int
  /-- least number of digits of an exponent -/
  width : Nat

/-- Bound values: two digits of exponent, positional up to six places before the point. -/
def Style.value : Style := ⟨-4, 5, 2⟩

/-- Numbers of a JSON text: positional below 10^21, short exponents. -/
def Style.json : Style := ⟨-6, 20, 1⟩

/-- Numbers turned into the text of a setting: always positional. -/
def Style.positional : Style := ⟨-400, 400, 1⟩

/-- Digits with a decimal point after the first `point` of them. -/
def positional (ds : List Char) (point : Int) : List Char :=
  if point ≤ 0 then '0' :: '.' :: (List.replicate (-point).toNat '0' ++ ds)
  else
    let whole := ds.take point.toNat ++ List.replicate (point.toNat - ds.length) '0'
    let fraction := ds.drop point.toNat
    if fraction.isEmpty then whole else whole ++ '.' :: fraction

/-- One digit, a point, the other digits and the exponent. -/
def scientific (width : Nat) (ds : List Char) (point : Int) : List Char :=
  let e := point - 1
  let es := Nat.toDigits 10 e.natAbs
  let mark := if e < 0 then '-' else '+'
  let body := match ds with
    | [] => ['0']
    | [d] => [d]
    | d :: more => d :: '.' :: more
  body ++ 'e' :: mark :: (List.replicate (width - es.length) '0' ++ es)

def render (style : Style) : Binary64 → String
  | .nan => "NaN"
  | .infinite negative => if negative then "-Inf" else "+Inf"
  | .finite negative m e =>
    let body :=
      if m == 0 then ['0']
      else
        let d := shortest m e
        if style.least ≤ d.point - 1 && d.point - 1 ≤ style.greatest then positional d.ds d.point
        else scientific style.width d.ds d.point
    String.ofList (if negative then '-' :: body else body)

end Binary64

end MessageCompiler
