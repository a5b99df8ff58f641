/-
Reading back what was written.

A JSON value on one line is read as the value it was, if all of its numbers are integers. Whatever stands in a
string comes back: every character is escaped in a way that the reader undoes.
-/
import MessageCompiler.Proofs.Rounding

namespace MessageCompiler.Json

open List
open Text (isDigit showInt withSign hex)

variable {c : Char} {rest : List Char} {j : Json}

variable {pairing : Pairing}

/-! ### Strings -/

theorem hexValue?_digitChar : ∀ d < 16, hexValue? d.digitChar = some d := by decide

theorem readHex4_hex {n : Nat} (h : n < 0x10000) (s : List Char) :
    readHex4 4 0 ((hex 4 n).toList ++ s) = .ok (n, s) := by
  have hzero : hexValue? '0' = some 0 := by decide
  have hdigit : ∀ m, hexValue? (m % 16).digitChar = some (m % 16) := fun m =>
    hexValue?_digitChar _ (Nat.mod_lt m (by decide))
  unfold hex
  rw [String.toList_ofList]
  -- The number has one to four digits of its own, and zeros in front of them.
  by_cases h₁ : n < 16
  · rw [Nat.toDigits_of_lt_base h₁]
    simp [readHex4, hzero, hexValue?_digitChar n h₁]
  rw [Nat.toDigits_of_base_le (by decide) (Nat.not_lt.mp h₁)]
  by_cases h₂ : n / 16 < 16
  · rw [Nat.toDigits_of_lt_base h₂]
    simp [readHex4, hzero, hexValue?_digitChar _ h₂, hdigit]
    omega
  rw [Nat.toDigits_of_base_le (by decide) (Nat.not_lt.mp h₂)]
  by_cases h₃ : n / 16 / 16 < 16
  · rw [Nat.toDigits_of_lt_base h₃]
    simp [readHex4, hzero, hexValue?_digitChar _ h₃, hdigit]
    omega
  have h₄ : n / 16 / 16 / 16 < 16 := by omega
  rw [Nat.toDigits_of_base_le (by decide) (Nat.not_lt.mp h₃), Nat.toDigits_of_lt_base h₄]
  simp [readHex4, hexValue?_digitChar _ h₄, hdigit]
  omega

theorem readString_hex (hc : c.toNat < 0xD800) (fuel : Nat) (acc s : List Char) :
    readString pairing (fuel + 1) acc (("\\u" ++ hex 4 c.toNat).toList ++ s) =
      readString pairing fuel (c :: acc) s := by
  have hsurrogate : isSurrogate c.toNat = false := by
    unfold isSurrogate
    rw [decide_eq_false (Nat.not_le.mpr hc), Bool.false_and]
  have htext : ("\\u" ++ hex 4 c.toNat).toList ++ s = '\\' :: 'u' :: ((hex 4 c.toNat).toList ++ s) := by
    rw [String.toList_append]
    rfl
  rw [htext, readString]
  simp only [readHex4_hex (Nat.lt_trans hc (by decide)), hsurrogate, Char.ofNat_toNat, Bool.false_eq_true, if_false]

theorem readString_plain (hquote : c ≠ '"') (hslash : c ≠ '\\') (hc : 0x20 ≤ c.toNat) (fuel : Nat)
    (acc s : List Char) : readString pairing (fuel + 1) acc (c :: s) = readString pairing fuel (c :: acc) s := by
  rw [readString, if_neg (Nat.not_lt.mpr hc)]
  · exact hquote
  · intro heq
    exact absurd heq hslash
  · intro _ _ heq
    exact absurd heq hslash

/-- The characters that have an escape of their own, with its letter. -/
def lettered : List (Char × Char) :=
  [('"', '"'), ('\\', '\\'), ('\n', 'n'), ('\r', 'r'), ('\t', 't'), ('\x08', 'b'), ('\x0c', 'f')]

theorem toList_escapeChar_lettered : ∀ p ∈ lettered, (escapeChar p.1).toList = ['\\', p.2] := by
  decide +kernel

theorem readString_lettered {p : Char × Char} (hp : p ∈ lettered) (fuel : Nat) (acc s : List Char) :
    readString pairing (fuel + 1) acc ('\\' :: p.2 :: s) = readString pairing fuel (p.1 :: acc) s := by
  simp only [lettered, mem_cons, not_mem_nil, or_false] at hp
  rcases hp with rfl | rfl | rfl | rfl | rfl | rfl | rfl <;> rfl

theorem escapeChar_cases (h : ∀ p ∈ lettered, c ≠ p.1) :
    (c.toNat < 0xD800 ∧ escapeChar c = "\\u" ++ hex 4 c.toNat) ∨ 0x20 ≤ c.toNat ∧ escapeChar c = c.toString := by
  have hne : ∀ d, d ∈ lettered.map (·.1) → (c == d) = false := by
    intro d hd
    obtain ⟨p, hp, rfl⟩ := mem_map.mp hd
    exact beq_eq_false_iff_ne.mpr (h p hp)
  have hescape : escapeChar c =
      if c.toNat < 0x20 || c == '<' || c == '>' || c == '&' || c.toNat == 0x2028 || c.toNat == 0x2029 then
        "\\u" ++ hex 4 c.toNat
      else c.toString := by
    unfold escapeChar
    rw [hne '"' (by decide), hne '\\' (by decide), hne '\n' (by decide), hne '\r' (by decide), hne '\t' (by decide),
      hne '\x08' (by decide), hne '\x0c' (by decide)]
    rfl
  rw [hescape]
  split
  · next hcoded =>
    refine .inl ⟨?_, rfl⟩
    simp only [Bool.or_eq_true, decide_eq_true_eq, beq_iff_eq] at hcoded
    rcases hcoded with ((((hlt | rfl) | rfl) | rfl) | heq) | heq
    · omega
    · decide
    · decide
    · decide
    · omega
    · omega
  · next hcoded =>
    refine .inr ⟨?_, rfl⟩
    simp only [Bool.or_eq_true, decide_eq_true_eq, not_or] at hcoded
    omega

theorem readString_escapeChar (c : Char) (fuel : Nat) (acc s : List Char) :
    readString pairing (fuel + 1) acc ((escapeChar c).toList ++ s) = readString pairing fuel (c :: acc) s := by
  by_cases hlettered : ∃ p ∈ lettered, c = p.1
  · obtain ⟨p, hp, rfl⟩ := hlettered
    rw [toList_escapeChar_lettered p hp]
    exact readString_lettered hp fuel acc s
  push Not at hlettered
  rcases escapeChar_cases hlettered with ⟨hc, heq⟩ | ⟨hc, heq⟩
  · rw [heq]
    exact readString_hex hc fuel acc s
  · rw [heq, Char.toString, String.toList_singleton]
    exact readString_plain (hlettered _ mem_cons_self) (hlettered _ (mem_cons_of_mem _ mem_cons_self)) hc fuel acc s

/-- **A string literal is read as its characters.** -/
theorem readString_escape (rest : List Char) : ∀ (cs : List Char) (fuel : Nat) (acc : List Char), cs.length < fuel →
    readString pairing fuel acc (cs.flatMap (fun c => (escapeChar c).toList) ++ '"' :: rest) =
      .ok (String.ofList (acc.reverse ++ cs), rest)
  | _, 0, _, h => absurd h (Nat.not_lt_zero _)
  | [], fuel + 1, acc, _ => by
    rw [flatMap_nil, nil_append, append_nil]
    rfl
  | c :: cs, fuel + 1, acc, h => by
    simp_all [flatMap_cons, append_assoc, readString_escapeChar, readString_escape, reverse_cons]

theorem escapeChar_ne_nil (c : Char) : (escapeChar c).toList ≠ [] := by
  intro hnil
  have hread := @readString_escapeChar .careful c 0 [] ['"']
  rw [hnil] at hread
  cases hread

theorem length_le_flatMap_escape (cs : List Char) : cs.length ≤ (cs.flatMap fun c => (escapeChar c).toList).length := by
  induction cs with
  | nil => exact Nat.zero_le _
  | cons c cs ih =>
    have hpos : 0 < (escapeChar c).toList.length := length_pos_iff.mpr (escapeChar_ne_nil c)
    rw [flatMap_cons, length_append, length_cons]
    omega

variable (s : String)

theorem toList_literal : (literal s).toList = '"' :: (s.toList.flatMap (fun c => (escapeChar c).toList) ++ ['"']) := by
  simp [String.toList_append, String.toList_join, flatMap_map, literal]

def afterQuote (s : String) (rest : List Char) : List Char :=
  s.toList.flatMap (fun c => (escapeChar c).toList) ++ '"' :: rest

theorem toList_literal_append (rest : List Char) : (literal s).toList ++ rest = '"' :: afterQuote s rest := by
  rw [toList_literal, afterQuote, cons_append, append_assoc]
  rfl

theorem readString_literal (rest : List Char) :
    readString pairing ((afterQuote s rest).length + 1) [] (afterQuote s rest) = .ok (s, rest) := by
  have hlength : s.toList.length < (afterQuote s rest).length + 1 := by
    have := length_le_flatMap_escape s.toList
    rw [afterQuote, length_append]
    omega
  calc readString pairing ((afterQuote s rest).length + 1) [] (afterQuote s rest)
      = .ok (String.ofList (([] : List Char).reverse ++ s.toList), rest) := readString_escape rest s.toList _ [] hlength
    _ = .ok (s, rest) := by rw [reverse_nil, nil_append, String.ofList_toList]

/-! ### Numbers -/

def Ends (rest : List Char) : Prop := ∀ c ∈ rest.head?, isDigit c = false ∧ c ≠ '.' ∧ c ≠ 'e' ∧ c ≠ 'E'

theorem ends_nil : Ends [] := fun c hc => by cases hc

theorem ends_cons (h : isDigit c = false) (hc : c ≠ '.' ∧ c ≠ 'e' ∧ c ≠ 'E') (rest : List Char) : Ends (c :: rest) := by
  intro d hd
  cases hd
  exact ⟨h, hc⟩

theorem readFraction_ends (h : Ends rest) : readFraction rest = .ok ([], rest) := by
  cases rest with
  | nil => rfl
  | cons c rest =>
    obtain ⟨-, hpoint, he, hE⟩ := h c rfl
    have hexponent : readExponent (c :: rest) = .ok ([], c :: rest) := by
      unfold readExponent
      simp [he, hE]
    unfold readFraction
    split
    · next heq =>
      cases heq
      exact absurd rfl hpoint
    · exact hexponent

theorem spanDigits_toDigits (h : Ends rest) (n : Nat) :
    spanDigits (Nat.toDigits 10 n ++ rest) = (Nat.toDigits 10 n, rest) := by
  have hdigits : ∀ c ∈ Nat.toDigits 10 n, isDigit c = true := fun c hc => Text.isDigit_of_mem_toDigits hc
  unfold spanDigits
  rw [span_eq_takeWhile_dropWhile]
  cases rest with
  | nil => rw [append_nil, takeWhile_eq_self_iff.mpr hdigits, dropWhile_eq_nil_iff.mpr hdigits]
  | cons c rest => rw [Text.takeWhile_toDigits n (h c rfl).1, Text.dropWhile_toDigits n (h c rfl).1]

def digits : List Char := ['0', '1', '2', '3', '4', '5', '6', '7', '8', '9']

theorem exists_toDigits (n : Nat) : ∃ d ds, Nat.toDigits 10 n = d :: ds ∧ d ∈ digits ∧ (d = '0' → n = 0) := by
  induction n using Nat.strongRecOn with
  | ind n ih =>
    by_cases hlt : n < 10
    · have hall : ∀ d < 10, d.digitChar ∈ digits ∧ (d.digitChar = '0' → d = 0) := by decide
      exact ⟨_, [], Nat.toDigits_of_lt_base hlt, hall n hlt⟩
    · obtain ⟨d, ds, hdigits, hd, hzero⟩ := ih (n / 10) (by omega)
      rw [Nat.toDigits_of_base_le (by decide) (Nat.not_lt.mp hlt), hdigits]
      exact ⟨d, _, rfl, hd, fun h => by have := hzero h; omega⟩

theorem readNumber_withSign (h : Ends rest) (negative : Bool) (n : Nat) :
    readNumber (withSign negative (Nat.toDigits 10 n) ++ rest) =
      .ok (String.ofList (withSign negative (Nat.toDigits 10 n)), rest) := by
  have hspan := spanDigits_toDigits h n
  obtain ⟨d, ds, hdigits, hd, hzero⟩ := exists_toDigits n
  by_cases hn : n = 0
  · have hread : readNumber (withSign negative ['0'] ++ rest) =
        readFraction rest >>= fun p => .ok (String.ofList (withSign negative ('0' :: p.1)), p.2) := by
      cases negative <;> rfl
    rw [hn, Nat.toDigits_zero, hread, readFraction_ends h]
    rfl
  · have hread : readNumber (withSign negative (d :: ds) ++ rest) =
        readFraction (spanDigits (d :: ds ++ rest)).2 >>= fun p =>
          .ok (String.ofList (withSign negative [] ++ (spanDigits (d :: ds ++ rest)).1 ++ p.1), p.2) := by
      simp only [digits, mem_cons, not_mem_nil, or_false] at hd
      rcases hd with hd | rfl | rfl | rfl | rfl | rfl | rfl | rfl | rfl | rfl
      · exact absurd (hzero hd) hn
      all_goals cases negative <;> rfl
    rw [hdigits] at hspan ⊢
    rw [hread, hspan]
    dsimp only
    rw [readFraction_ends h]
    cases negative <;> exact congrArg (fun text => Except.ok (String.ofList text, rest)) (append_nil _)

/-- **An integer is read as its text.** -/
theorem readNumber_showInt (h : Ends rest) (i : Int) :
    readNumber ((showInt i).toList ++ rest) = .ok (showInt i, rest) := by
  have htext := Text.toList_showInt_withSign i
  rw [htext, readNumber_withSign h, ← htext, String.ofList_toList]

/-! ### Values -/

mutual

def Integral : Json → Prop
  | .num text => ∃ i, text = showInt i
  | .arr items => IntegralItems items
  | .obj members => IntegralMembers members
  | _ => True

def IntegralItems : List Json → Prop
  | [] => True
  | j :: rest => Integral j ∧ IntegralItems rest

def IntegralMembers : List (String × Json) → Prop
  | [] => True
  | (_, j) :: rest => Integral j ∧ IntegralMembers rest

end

theorem dropWhile_isSpace (h : isSpace c = false) (s : List Char) : (c :: s).dropWhile isSpace = c :: s := by
  rw [dropWhile_cons, h]
  rfl

theorem readValue_array (fuel : Nat) (s : List Char) : readValue pairing (fuel + 1) ('[' :: s) =
    match s.dropWhile isSpace with
    | ']' :: after => .ok (.arr [], after)
    | inner => readItems pairing fuel [] inner := rfl

theorem readValue_bracket (hspace : isSpace c = false) (hc : c ≠ ']') (fuel : Nat) (s : List Char) :
    readValue pairing (fuel + 1) ('[' :: c :: s) = readItems pairing fuel [] (c :: s) := by
  simp_all [readValue_array]

theorem readValue_digit (hc : c ∈ '-' :: digits) (fuel : Nat) (s : List Char) :
    readValue pairing (fuel + 1) (c :: s) = (do
      let (text, after) ← readNumber (c :: s)
      return (.num text, after)) := by
  simp only [digits, mem_cons, not_mem_nil, or_false] at hc
  rcases hc with rfl | rfl | rfl | rfl | rfl | rfl | rfl | rfl | rfl | rfl | rfl <;> rfl

theorem exists_showInt (i : Int) : ∃ c s, (showInt i).toList = c :: s ∧ c ∈ '-' :: digits := by
  obtain ⟨d, ds, hdigits, hd, -⟩ := exists_toDigits i.natAbs
  rw [Text.toList_showInt_withSign, hdigits]
  cases decide (i < 0) with
  | true => exact ⟨'-', _, rfl, mem_cons_self⟩
  | false => exact ⟨d, ds, rfl, mem_cons_of_mem _ hd⟩

theorem toList_compact_arr (items : List Json) :
    (compact (.arr items)).toList = '[' :: ((compactItems items).toList ++ [']']) := by
  simp [compact]

theorem toList_compact_obj (members : List (String × Json)) :
    (compact (.obj members)).toList = '\x7b' :: ((compactMembers members).toList ++ ['\x7d']) := by
  simp [compact]

theorem exists_compact (hj : Integral j) : ∃ c s, (compact j).toList = c :: s ∧ isSpace c = false ∧ c ≠ ']' := by
  cases j with
  | null => exact ⟨'n', _, rfl, by decide, by decide⟩
  | bool b =>
    cases b with
    | true => exact ⟨'t', _, rfl, by decide, by decide⟩
    | false => exact ⟨'f', _, rfl, by decide, by decide⟩
  | num text =>
    rw [Integral] at hj
    obtain ⟨i, rfl⟩ := hj
    obtain ⟨c, s, htext, hc⟩ := exists_showInt i
    have hall : ('-' :: digits).all fun c => !isSpace c && c != ']' := by decide
    have hc := all_eq_true.mp hall c hc
    rw [Bool.and_eq_true, Bool.not_eq_true', bne_iff_ne] at hc
    exact ⟨c, s, htext, hc⟩
  | str s =>
    rw [compact, toList_literal]
    exact ⟨'"', _, rfl, by decide, by decide⟩
  | arr items =>
    rw [toList_compact_arr]
    exact ⟨'[', _, rfl, by decide, by decide⟩
  | obj members =>
    rw [toList_compact_obj]
    exact ⟨'\x7b', _, rfl, by decide, by decide⟩

theorem ends_comma (rest : List Char) : Ends (',' :: rest) := ends_cons (by decide) (by decide) rest

theorem compactItems_cons (j k : Json) (items : List Json) :
    (compactItems (j :: k :: items)).toList = (compact j).toList ++ ',' :: (compactItems (k :: items)).toList := by
  simp [compactItems]

variable (name : String)

theorem compactMembers_singleton (j : Json) :
    (compactMembers [(name, j)]).toList = (literal name).toList ++ ':' :: (compact j).toList := by
  simp [compactMembers]

theorem compactMembers_cons (j : Json) (m : String × Json) (members : List (String × Json)) :
    (compactMembers ((name, j) :: m :: members)).toList =
      (literal name).toList ++ ':' :: ((compact j).toList ++ ',' :: (compactMembers (m :: members)).toList) := by
  simp [compactMembers]

def Readable (pairing : Pairing) (j : Json) : Prop := ∀ fuel rest, Ends rest → (compact j).toList.length ≤ fuel →
  readValue pairing fuel ((compact j).toList ++ rest) = .ok (j, rest)

theorem readable_null : Readable pairing .null := by
  intro fuel rest _ hfuel
  cases fuel with
  | zero => cases hfuel
  | succ fuel => rfl

theorem readable_bool (b : Bool) : Readable pairing (.bool b) := by
  intro fuel rest _ hfuel
  cases fuel with
  | zero => cases b <;> cases hfuel
  | succ fuel => cases b <;> rfl

theorem readable_num (i : Int) : Readable pairing (.num (showInt i)) := by
  intro fuel rest hrest hfuel
  obtain ⟨c, s, htext, hc⟩ := exists_showInt i
  have hread := readNumber_showInt hrest i
  rw [compact, htext] at hfuel ⊢
  rw [htext, cons_append] at hread
  cases fuel with
  | zero => cases hfuel
  | succ fuel =>
    rw [cons_append, readValue_digit hc, hread]
    rfl

theorem readable_str : Readable pairing (.str s) := by
  intro fuel rest _ hfuel
  cases fuel with
  | zero =>
    rw [compact, toList_literal] at hfuel
    cases hfuel
  | succ fuel =>
    rw [compact, toList_literal_append]
    show readString pairing _ [] _ >>= _ = _
    rw [readString_literal]
    rfl

theorem readItems_compact (items : List Json) (rest : List Char) (hne : items ≠ [])
    (h : ∀ j ∈ items, Readable pairing j) : ∀ (fuel : Nat) (acc : List Json),
      (compactItems items).toList.length < fuel →
        readItems pairing fuel acc ((compactItems items).toList ++ ']' :: rest) =
          .ok (.arr (acc.reverse ++ items), rest) := by
  induction items with
  | nil => exact absurd rfl hne
  | cons j items ih =>
    intro fuel acc hfuel
    have hj : Readable pairing j := h j mem_cons_self
    cases fuel with
    | zero => exact absurd hfuel (Nat.not_lt_zero _)
    | succ fuel =>
      cases items with
      | nil =>
        rw [compactItems] at hfuel ⊢
        rw [readItems, hj fuel _ (ends_cons (by decide) (by decide) rest) (Nat.lt_succ_iff.mp hfuel), reverse_cons.symm]
        rfl
      | cons k items =>
        rw [compactItems_cons, length_append, length_cons] at hfuel
        rw [compactItems_cons, append_assoc, cons_append, readItems, hj fuel _ (ends_comma _) (by omega)]
        have hrest := ih (cons_ne_nil _ _) (fun l hl => h l (mem_cons_of_mem j hl)) fuel (j :: acc) (by omega)
        rw [reverse_cons, append_assoc] at hrest
        exact hrest

theorem readMembers_name (hj : Readable pairing j) {fuel : Nat}
    (hfuel : (compact j).toList.length ≤ fuel) (acc : List (String × Json)) (hrest : Ends rest) :
    readMembers pairing (fuel + 1) acc ((literal name).toList ++ ':' :: ((compact j).toList ++ rest)) =
      match rest.dropWhile isSpace with
      | ',' :: more => readMembers pairing fuel ((name, j) :: acc) more
      | '\x7d' :: after => return (.obj ((name, j) :: acc).reverse, after)
      | left => expected .afterMember left := by
  rw [toList_literal_append, readMembers, dropWhile_isSpace rfl]
  show (readString pairing ((afterQuote name _).length + 1) [] (afterQuote name _) >>= _) = _
  rw [readString_literal]
  show (readValue pairing fuel ((compact j).toList ++ rest) >>= _) = _
  rw [hj fuel rest hrest hfuel]
  rfl

theorem readMembers_compact (members : List (String × Json)) (rest : List Char) (hne : members ≠ [])
    (h : ∀ m ∈ members, Readable pairing m.2) : ∀ (fuel : Nat) (acc : List (String × Json)),
      (compactMembers members).toList.length < fuel →
        readMembers pairing fuel acc ((compactMembers members).toList ++ '\x7d' :: rest) =
          .ok (.obj (acc.reverse ++ members), rest) := by
  induction members with
  | nil => exact absurd rfl hne
  | cons m members ih =>
    intro fuel acc hfuel
    obtain ⟨name, j⟩ := m
    have hj : Readable pairing j := h (name, j) mem_cons_self
    cases fuel with
    | zero => exact absurd hfuel (Nat.not_lt_zero _)
    | succ fuel =>
      cases members with
      | nil =>
        rw [compactMembers_singleton, length_append, length_cons] at hfuel
        rw [compactMembers_singleton, append_assoc, cons_append,
          readMembers_name name hj (by omega) acc (ends_cons (by decide) (by decide) rest),
          dropWhile_isSpace (by decide), reverse_cons]
        rfl
      | cons m' members =>
        rw [compactMembers_cons, length_append, length_cons, length_append, length_cons] at hfuel
        rw [compactMembers_cons, append_assoc, cons_append, append_assoc, cons_append,
          readMembers_name name hj (by omega) acc (ends_comma _), dropWhile_isSpace (by decide)]
        have hrest := ih (cons_ne_nil _ _) (fun l hl => h l (mem_cons_of_mem _ hl)) fuel ((name, j) :: acc) (by omega)
        rw [reverse_cons, append_assoc] at hrest
        exact hrest

theorem readable_arr {items : List Json} (hintegral : IntegralItems items) (h : ∀ j ∈ items, Readable pairing j) :
    Readable pairing (.arr items) := by
  intro fuel rest _ hfuel
  rw [toList_compact_arr, length_cons, length_append, length_singleton] at hfuel
  rw [toList_compact_arr, cons_append, append_assoc, singleton_append]
  cases fuel with
  | zero => cases hfuel
  | succ fuel =>
    cases items with
    | nil => rfl
    | cons j items =>
      have hread := readItems_compact (j :: items) rest (cons_ne_nil _ _) h fuel [] (by omega)
      -- The first character decides that the array is not empty.
      rw [IntegralItems] at hintegral
      obtain ⟨c, s, hc, hspace, hne⟩ := exists_compact hintegral.1
      obtain ⟨s', hs'⟩ : ∃ s', (compactItems (j :: items)).toList ++ ']' :: rest = c :: s' := by
        cases items with
        | nil =>
          rw [compactItems, hc]
          exact ⟨_, rfl⟩
        | cons k items =>
          rw [compactItems_cons, hc]
          exact ⟨_, rfl⟩
      rw [hs'] at hread ⊢
      rw [readValue_bracket hspace hne, hread]
      rfl

theorem readable_obj {members : List (String × Json)} (h : ∀ m ∈ members, Readable pairing m.2) :
    Readable pairing (.obj members) := by
  intro fuel rest _ hfuel
  rw [toList_compact_obj, length_cons, length_append, length_singleton] at hfuel
  rw [toList_compact_obj, cons_append, append_assoc, singleton_append]
  cases fuel with
  | zero => cases hfuel
  | succ fuel =>
    cases members with
    | nil => rfl
    | cons m members =>
      have hread := readMembers_compact (m :: members) rest (cons_ne_nil _ _) h fuel [] (by omega)
      obtain ⟨s', hs'⟩ : ∃ s', (compactMembers (m :: members)).toList ++ '\x7d' :: rest = '"' :: s' := by
        obtain ⟨name, j⟩ := m
        cases members with
        | nil =>
          rw [compactMembers_singleton, toList_literal]
          exact ⟨_, rfl⟩
        | cons k members =>
          rw [compactMembers_cons, toList_literal]
          exact ⟨_, rfl⟩
      rw [hs'] at hread ⊢
      show readMembers pairing fuel [] _ = _
      rw [hread]
      rfl

mutual

theorem readable : ∀ j : Json, Integral j → Readable pairing j
  | .null, _ => readable_null
  | .bool b, _ => readable_bool b
  | .num text, h => by
    rw [Integral] at h
    obtain ⟨i, rfl⟩ := h
    exact readable_num i
  | .str s, _ => readable_str s
  | .arr items, h => by
    rw [Integral] at h
    exact readable_arr h (readable_items items h)
  | .obj members, h => by
    rw [Integral] at h
    exact readable_obj (readable_members members h)

theorem readable_items : ∀ items : List Json, IntegralItems items → ∀ j ∈ items, Readable pairing j
  | [], _, j, hj => by cases hj
  | k :: items, h, j, hj => by
    rw [IntegralItems] at h
    rcases mem_cons.mp hj with heq | hj
    · exact heq ▸ readable k h.1
    · exact readable_items items h.2 j hj

theorem readable_members : ∀ members : List (String × Json), IntegralMembers members →
    ∀ m ∈ members, Readable pairing m.2
  | [], _, m, hm => by cases hm
  | (name, k) :: members, h, m, hm => by
    rw [IntegralMembers] at h
    rcases mem_cons.mp hm with heq | hm
    · exact heq ▸ readable k h.1
    · exact readable_members members h.2 m hm

end

/-- **A value is read from its text** if its numbers are integers. -/
theorem read_compact (hj : Integral j) : read pairing (compact j) = .ok j := by
  have hreadable : Readable pairing j := readable j hj
  have hread := hreadable ((compact j).toList.length + 1) [] ends_nil (Nat.le_succ _)
  rw [append_nil] at hread
  unfold read
  dsimp only
  rw [hread]
  rfl

end MessageCompiler.Json
