/-
Language tags.

A tag is made of subtags with hyphens or underscores between them: a language, possibly extended, then
optionally a script, a region, variants and extensions. A tag that is not built that way is malformed; one
that is may still name something that does not exist.
-/
import MessageCompiler.Text.Lines
import MessageCompiler.Text.Quoted

namespace MessageCompiler

/-- What a tag says about plural rules. -/
structure Locale where
  language : String
  region : String
  deriving DecidableEq, Repr

/-- Why a tag was refused. -/
inductive LocaleError where
  | malformed
  | unknown (subtag : String)
  deriving DecidableEq, Repr

def LocaleError.message : LocaleError → String
  | .malformed => "language: tag is not well-formed"
  | .unknown subtag => "language: subtag " ++ Text.quote subtag ++ " is well-formed but unknown"

namespace Locale

def words (s : String) : List String := (Text.splitOnChar ' ' s.toList).map String.ofList

/-- Languages with two letters, those with a newer name included. -/
def languages : List String := words
  ("aa ab ae af ak am an ar as av ay az ba be bg bh bi bm bn bo br bs ca ce ch co cr cs cu cv cy da " ++
    "de dv dz ee el en eo es et eu fa ff fi fj fo fr fy ga gd gl gn gu gv ha he hi ho hr ht hu hy hz " ++
    "ia id ie ig ii ik in io is it iu iw ja ji jv jw ka kg ki kj kk kl km kn ko kr ks ku kv kw ky la " ++
    "lb lg li ln lo lt lu lv mg mh mi mk ml mn mo mr ms mt my na nb nd ne ng nl nn no nr nv ny oc oj " ++
    "om or os pa pi pl ps pt qu rm rn ro ru rw sa sc sd se sg sh si sk sl sm sn so sq sr ss st su sv " ++
    "sw ta te tg th ti tk tl tn to tr ts tt tw ty ug uk ur uz ve vi vo wa wo xh yi yo za zh zu")

def scripts : List String := words
  ("Adlm Afak Aghb Ahom Arab Aran Armi Armn Avst Bali Bamu Bass Batk Beng Bhks Blis Bopo Brah Brai " ++
    "Bugi Buhd Cakm Cans Cari Cham Cher Cirt Copt Cprt Cyrl Cyrs Deva Dogr Dsrt Dupl Egyd Egyh Egyp " ++
    "Elba Ethi Geok Geor Glag Gong Gonm Goth Gran Grek Gujr Guru Hanb Hang Hani Hano Hans Hant Hatr " ++
    "Hebr Hira Hluw Hmng Hrkt Hung Inds Ital Jamo Java Jpan Jurc Kali Kana Khar Khmr Khoj Kitl Kits " ++
    "Knda Kore Kpel Kthi Lana Laoo Latf Latg Latn Leke Lepc Limb Lina Linb Lisu Loma Lyci Lydi Mahj " ++
    "Maka Mand Mani Marc Maya Medf Mend Merc Mero Mlym Modi Mong Moon Mroo Mtei Mult Mymr Narb Nbat " ++
    "Newa Nkgb Nkoo Nshu Ogam Olck Orkh Orya Osge Osma Palm Pauc Perm Phag Phli Phlp Phlv Phnx Piqd " ++
    "Plrd Prti Rjng Rohg Roro Runr Samr Sara Sarb Saur Sgnw Shaw Shrd Shui Sidd Sind Sinh Sogd Sogo " ++
    "Sora Soyo Sund Sylo Syrc Syre Syrj Syrn Tagb Takr Tale Talu Taml Tang Tavt Telu Teng Tfng Tglg " ++
    "Thaa Thai Tibt Tirh Ugar Vaii Visp Wara Wcho Wole Xpeo Xsux Yiii Zanb Zinh Zmth Zsye Zsym Zxxx " ++
    "Zyyy Zzzz")

def regions : List String := words
  ("AC AD AE AF AG AI AL AM AN AO AQ AR AS AT AU AW AX AZ BA BB BD BE BF BG BH BI BJ BL BM BN BO BQ " ++
    "BR BS BT BU BV BW BY BZ CA CC CD CF CG CH CI CK CL CM CN CO CP CR CS CT CU CV CW CX CY CZ DD DE " ++
    "DG DJ DK DM DO DY DZ EA EC EE EG EH ER ES ET EU EZ FI FJ FK FM FO FQ FR FX GA GB GD GE GF GG GH " ++
    "GI GL GM GN GP GQ GR GS GT GU GW GY HK HM HN HR HT HU HV IC ID IE IL IM IN IO IQ IR IS IT JE JM " ++
    "JO JP JT KE KG KH KI KM KN KP KR KW KY KZ LA LB LC LI LK LR LS LT LU LV LY MA MC MD ME MF MG MH " ++
    "MI MK ML MM MN MO MP MQ MR MS MT MU MV MW MX MY MZ NA NC NE NF NG NH NI NL NO NP NQ NR NT NU NZ " ++
    "OM PA PC PE PF PG PH PK PL PM PN PR PS PT PU PW PY PZ QA QM QN QO QP QQ QR QS QT QU QV QW QX QY " ++
    "QZ RE RH RO RS RU RW SA SB SC SD SE SG SH SI SJ SK SL SM SN SO SR SS ST SU SV SX SY SZ TA TC TD " ++
    "TF TG TH TJ TK TL TM TN TO TP TR TT TV TW TZ UA UG UK UM UN US UY UZ VA VC VD VE VG VI VN VU WF " ++
    "WK WS XA XB XC XD XE XF XG XH XI XJ XK XL XM XN XO XP XQ XR XS XT XU XV XW XX XY XZ YD YE YT YU " ++
    "ZA ZM ZR ZW ZZ")

def variants : List String := words
  ("1606nict 1694acad 1901 1959acad 1994 1996 abl1943 akuapem alalc97 aluku ao1990 aranes arevela " ++
    "arevmda asante auvern baku1926 balanka barla basiceng bauddha biscayan biske bohoric boont " ++
    "colb1945 cornu creiss dajnko ekavsk emodeng fonipa fonnapa fonupa fonxsamp gascon grclass " ++
    "grital grmistr hepburn heploc hognorsk hsistemo ijekavsk itihasa jauer jyutping kkcor kociewie " ++
    "kscor laukika lemosin lengadoc lipaw luna1918 metelko monoton ndyuka nedis newfound nicard njiva " ++
    "nulik osojs oxendict pahawh2 pahawh3 pahawh4 pamaka peano petr1708 pinyin polyton posix provenc " ++
    "puter rigik rozaj rumgr scotland scouse simple solba sotav spanglis surmiran sursilv sutsilv " ++
    "tarask tongyong tunumiit uccor ucrcor ulster unifon vaidika valencia vallader vecdruka vivaraup " ++
    "wadegile xsistemo")

def isLetter (c : Char) : Bool := ('a' ≤ c && c ≤ 'z') || ('A' ≤ c && c ≤ 'Z')

def isLetterOrDigit (c : Char) : Bool := isLetter c || ('0' ≤ c && c ≤ '9')

def isSubtag (s : List Char) : Bool :=
  1 ≤ s.length && s.length ≤ 8 && s.all isLetterOrDigit

def lowered (s : List Char) : String := String.ofList (s.map Char.toLower)

def uppered (s : List Char) : String := String.ofList (s.map Char.toUpper)

def capitalized : List Char → String
  | [] => ""
  | c :: s => String.ofList (c.toUpper :: s.map Char.toLower)

def languageOf (s : List Char) : Except LocaleError String :=
  if !s.all isLetter then .error .malformed
  else if s.length == 2 && !languages.contains (lowered s) then .error (.unknown (lowered s))
  else .ok (lowered s)

def regionOf (s : List Char) : Except LocaleError String :=
  if s.length == 2 then
    if !s.all isLetter then .error .malformed
    else if regions.contains (uppered s) then .ok (uppered s)
    else .error (.unknown (uppered s))
  else .ok (uppered s)

/-- The first failure counts, but a malformed tag counts more than an unknown subtag. -/
def worse (a b : Option LocaleError) : Option LocaleError :=
  match a, b with
  | some .malformed, _ => a
  | _, some .malformed => b
  | some _, _ => a
  | none, _ => b

/-- What was read of a tag. -/
structure Progress where
  locale : Locale
  error : Option LocaleError

def Progress.note (p : Progress) (e : LocaleError) : Progress :=
  { p with error := worse p.error (some e) }

/-- Subtags of extensions: each single character has at least one longer subtag after it. After `x`
anything may follow. -/
def readExtensions (p : Progress) : List (List Char) → Progress
  | [] => p
  | [_] => p.note .malformed
  | key :: next :: rest =>
    if lowered key == "x" then p
    else if key.length == 1 && next.length == 1 then p.note .malformed
    else if next.length == 1 then readExtensions p (next :: rest)
    else
      match rest with
      | [] => p
      | other :: _ =>
        if other.length == 1 then readExtensions p rest else readExtensions p (next :: rest)

def readVariants (p : Progress) : List (List Char) → Progress
  | [] => p
  | s :: rest =>
    if 4 ≤ s.length then
      if variants.contains (lowered s) then readVariants p rest
      else readVariants (p.note (.unknown (lowered s))) rest
    else if s.length == 1 then readExtensions p (s :: rest)
    else p.note .malformed

def readRegion (p : Progress) : List (List Char) → Progress
  | [] => p
  | s :: rest =>
    if s.length == 2 || s.length == 3 then
      match regionOf s with
      | .ok region => readVariants { p with locale := { p.locale with region } } rest
      | .error e => readVariants (p.note e) rest
    else readVariants p (s :: rest)

def readScript (p : Progress) : List (List Char) → Progress
  | [] => p
  | s :: rest =>
    if s.length == 4 && (s.headD '0' |> isLetter) then
      if scripts.contains (capitalized s) then readRegion p rest
      else readRegion (p.note (.unknown (capitalized s))) rest
    else readRegion p (s :: rest)

def readExtended (p : Progress) : List (List Char) → Progress
  | [] => p
  | s :: rest =>
    if s.length == 3 && (s.headD '0' |> isLetter) then
      match languageOf s with
      | .ok language => readExtended { p with locale := { p.locale with language } } rest
      | .error e => readExtended (p.note e) rest
    else readScript p (s :: rest)

def parse (tag : String) : Except LocaleError Locale :=
  let subtags := Text.splitOnChar '-' (tag.toList.map fun c => if c == '_' then '-' else c)
  let p : Progress :=
    if !subtags.all isSubtag then ⟨⟨"und", ""⟩, some .malformed⟩
    else
      match subtags with
      | [] => ⟨⟨"und", ""⟩, some .malformed⟩
      | s :: rest =>
        let start : Progress := ⟨⟨"und", ""⟩, none⟩
        if s.length == 1 then
          if lowered s == "x" then readExtensions start (s :: rest) else start.note .malformed
        else if 4 ≤ s.length then start.note .malformed
        else
          match languageOf s with
          | .ok language => readExtended { start with locale := ⟨language, ""⟩ } rest
          | .error e => readExtended (start.note e) rest
  match p.error with
  | some e => .error e
  | none => .ok p.locale

/-- American English, where nothing else is asked for. -/
def standard : Locale := ⟨"en", "US"⟩

end Locale

end MessageCompiler
