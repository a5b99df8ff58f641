/-
Plural categories.

A rule gives the category of a whole number. Languages share rules, so each rule has the list of its
languages; where no rule applies, everything is `other`.
-/
import MessageCompiler.Locale.Tag
import MessageCompiler.Text.Blank
import MessageCompiler.Text.Decimal

namespace MessageCompiler

/-- A plural category. -/
inductive Category where
  | zero
  | one
  | two
  | few
  | many
  | other
  deriving DecidableEq, Repr

def Category.name : Category → String
  | .zero => "zero"
  | .one => "one"
  | .two => "two"
  | .few => "few"
  | .many => "many"
  | .other => "other"

namespace Plural

abbrev Rule := Nat → Category

def within (n low high : Nat) : Bool := low ≤ n && n ≤ high

def ruleOne : Rule := fun n => if n = 1 then .one else .other

def ruleZeroOne : Rule := fun n => if n ≤ 1 then .one else .other

def ruleIcelandic : Rule := fun n => if n % 10 = 1 && n % 100 != 11 then .one else .other

def ruleMacedonian : Rule := fun n => if n % 10 = 1 then .one else .other

def ruleFilipino : Rule := fun n => if [4, 6, 9].contains (n % 10) then .other else .one

def ruleLatvian : Rule := fun n =>
  if n % 10 = 0 || within (n % 100) 11 19 then .zero
  else if n % 10 = 1 && n % 100 != 11 then .one
  else .other

def ruleLithuanian : Rule := fun n =>
  if within (n % 100) 11 19 then .other
  else if n % 10 = 1 then .one
  else if within (n % 10) 2 9 then .few
  else .other

def rulePolish : Rule := fun n =>
  if n = 1 then .one
  else if within (n % 10) 2 4 && !within (n % 100) 12 14 then .few
  else .many

def ruleSouthSlavic : Rule := fun n =>
  if n % 10 = 1 && n % 100 != 11 then .one
  else if within (n % 10) 2 4 && !within (n % 100) 12 14 then .few
  else .other

def ruleEastSlavic : Rule := fun n =>
  match ruleSouthSlavic n with
  | .other => .many
  | c => c

def ruleCzech : Rule := fun n => if n = 1 then .one else if within n 2 4 then .few else .other

def ruleSlovenian : Rule := fun n =>
  if n % 100 = 1 then .one
  else if n % 100 = 2 then .two
  else if within (n % 100) 3 4 then .few
  else .other

def ruleRomanian : Rule := fun n =>
  if n = 1 then .one else if n = 0 || within (n % 100) 1 19 then .few else .other

def ruleArabic : Rule := fun n =>
  if n = 0 then .zero
  else if n = 1 then .one
  else if n = 2 then .two
  else if within (n % 100) 3 10 then .few
  else if within (n % 100) 11 99 then .many
  else .other

def ruleHebrew : Rule := fun n =>
  if n = 1 then .one
  else if n = 2 then .two
  else if 10 < n && n % 10 = 0 then .many
  else .other

def ruleIrish : Rule := fun n =>
  if n = 1 then .one
  else if n = 2 then .two
  else if within n 3 6 then .few
  else if within n 7 10 then .many
  else .other

def ruleGaelic : Rule := fun n =>
  if n = 1 || n = 11 then .one
  else if n = 2 || n = 12 then .two
  else if within n 3 10 || within n 13 19 then .few
  else .other

def ruleWelsh : Rule := fun n =>
  if n = 0 then .zero
  else if n = 1 then .one
  else if n = 2 then .two
  else if n = 3 then .few
  else if n = 6 then .many
  else .other

def ruleBreton : Rule := fun n =>
  if n % 10 = 1 && !([11, 71, 91].contains (n % 100)) then .one
  else if n % 10 = 2 && !([12, 72, 92].contains (n % 100)) then .two
  else if [3, 4, 9].contains (n % 10) &&
      !(within (n % 100) 10 19 || within (n % 100) 70 79 || within (n % 100) 90 99) then .few
  else if n != 0 && n % 1000000 = 0 then .many
  else .other

def ruleManx : Rule := fun n =>
  if n % 10 = 1 then .one
  else if n % 10 = 2 then .two
  else if [0, 20, 40, 60, 80].contains (n % 100) then .few
  else .other

def ruleOneTwo : Rule := fun n => if n = 1 then .one else if n = 2 then .two else .other

def ruleZeroThenOne : Rule := fun n => if n = 0 then .zero else if n = 1 then .one else .other

def ruleMaltese : Rule := fun n =>
  if n = 1 then .one
  else if n = 0 || within (n % 100) 2 10 then .few
  else if within (n % 100) 11 19 then .many
  else .other

def ruleTachelhit : Rule := fun n => if n ≤ 1 then .one else if within n 2 10 then .few else .other

def ruleTamazight : Rule := fun n => if n ≤ 1 || within n 11 99 then .one else .other

def rules : List (String × Rule) := [
  ("af an asa ast az bem bez bg brx ca ce cgg chr ckb da de dv ee el en eo es et eu fi fo fur fy gl gsw " ++
    "ha haw hu it jgo ji jmc ka kaj kcg kk kkj kl ks ksb ku ky lb lg mas mgo ml mn nah nb nd ne nl nn " ++
    "nnh no nr ny nyn om or os pap ps rm rof rwk saq sd sdh seh sn so sq ss ssy st sv sw syr ta te teo " ++
    "tig tk tn tr ts ug ur uz ve vo vun wae xh xog yi", ruleOne),
  ("ak am as bh bn fa ff fr gu guw hi hy kab kn ln mg mr nso pa pt si ti wa zu", ruleZeroOne),
  ("is", ruleIcelandic),
  ("mk", ruleMacedonian),
  ("fil tl", ruleFilipino),
  ("lv prg", ruleLatvian),
  ("lt", ruleLithuanian),
  ("pl", rulePolish),
  ("be ru uk", ruleEastSlavic),
  ("bs hr sh sr", ruleSouthSlavic),
  ("cs sk", ruleCzech),
  ("dsb hsb sl", ruleSlovenian),
  ("mo ro", ruleRomanian),
  ("ar ars", ruleArabic),
  ("he iw", ruleHebrew),
  ("ga", ruleIrish),
  ("gd", ruleGaelic),
  ("cy", ruleWelsh),
  ("br", ruleBreton),
  ("gv", ruleManx),
  ("iu kw naq se sma smi smj smn sms", ruleOneTwo),
  ("ksh lag", ruleZeroThenOne),
  ("mt", ruleMaltese),
  ("shi", ruleTachelhit),
  ("tzm", ruleTamazight)]

/-- Regions in which Portuguese follows the rule of Portugal. -/
def portugueseRegions : List String :=
  ["PT", "AO", "CH", "CV", "FR", "GQ", "GW", "LU", "MO", "MZ", "ST", "TL"]

def ruleFor (l : Locale) : Rule :=
  if l.language == "pt" && portugueseRegions.contains l.region then ruleOne
  else
    match rules.find? fun r => (Locale.words r.1).contains l.language with
    | some (_, rule) => rule
    | none => fun _ => .other

/-- The whole number at the front of a text, blanks around it ignored, if it fits 64 bits. -/
def leadingInt? (value : List Char) : Option Int :=
  let s := Text.trim value
  let sign := s.takeWhile fun c => c == '-' || c == '+'
  let sign := sign.take 1
  Text.readInt? (sign ++ (s.drop sign.length).takeWhile Text.isDigit)

/-- The category of the number at the front of a text, its sign ignored; `other` without one. The least
number of 64 bits has no opposite and no category. -/
def category? (l : Locale) (value : String) : Option Category :=
  match leadingInt? value.toList with
  | none => some .other
  | some n => if n = -9223372036854775808 then none else some (ruleFor l n.natAbs)

end Plural

end MessageCompiler
