/-
Printing ICU messages.

A message is written back by putting its texts, headers, labels and brace blocks one after another. A
plural label may carry an equals sign, so printing is a relation between segments and texts.
-/
import Mathlib.Data.List.TakeWhile
import MessageCompiler.Message.Parser

namespace MessageCompiler

open List

variable {s : List Char} {c : Char} {kind : IcuKind}

/-! ### Printed texts -/

def IcuKind.clause (kind : IcuKind) : List Char :=
  [',', ' '] ++ kind.word.toList ++ [',', ' ']

/-- The ways to write a label: as it is and, for a plural, behind an equals sign. -/
def IcuKind.Writes (kind : IcuKind) (label written : List Char) : Prop :=
  written = label ∨ kind = .plural ∧ written = '=' :: label

mutual

def Icu.Prints : Icu → List Char → Prop
  | .mk kind main cases, block =>
    ∃ rest, Case.Prints kind cases rest ∧
      block = Message.mark :: Nat.toDigits 10 main.toNat ++ Message.mark :: kind.clause ++ rest

def Case.Prints (kind : IcuKind) : List Case → List Char → Prop
  | [], text => text = []
  | .mk label body :: cases, text =>
    ∃ written inner rest, kind.Writes label.toList written ∧ Segment.Prints body inner ∧
      Case.Prints kind cases rest ∧ text = written ++ ' ' :: Message.braced inner ++ rest

def Segment.Prints : List Segment → List Char → Prop
  | [], text => text = []
  | .text s :: segments, text => ∃ rest, Segment.Prints segments rest ∧ text = s.toList ++ rest
  | .icu e :: segments, text =>
    ∃ block rest, e.Prints block ∧ Segment.Prints segments rest ∧ text = Message.braced block ++ rest

end

mutual

theorem Icu.exists_prints : ∀ e : Icu, ∃ block, e.Prints block
  | .mk kind _ cases => by
    obtain ⟨rest, hcases⟩ := Case.exists_prints kind cases
    exact ⟨_, rest, hcases, rfl⟩

theorem Case.exists_prints (kind : IcuKind) : ∀ cases : List Case, ∃ text, Case.Prints kind cases text
  | [] => ⟨[], rfl⟩
  | .mk _ body :: cases => by
    obtain ⟨inner, hbody⟩ := Segment.exists_prints body
    obtain ⟨rest, hcases⟩ := Case.exists_prints kind cases
    exact ⟨_, _, inner, rest, .inl rfl, hbody, hcases, rfl⟩

theorem Segment.exists_prints : ∀ segments : List Segment, ∃ text, Segment.Prints segments text
  | [] => ⟨[], rfl⟩
  | .text _ :: segments => by
    obtain ⟨rest, hrest⟩ := Segment.exists_prints segments
    exact ⟨_, rest, hrest, rfl⟩
  | .icu e :: segments => by
    obtain ⟨block, hblock⟩ := Icu.exists_prints e
    obtain ⟨rest, hrest⟩ := Segment.exists_prints segments
    exact ⟨_, block, rest, hblock, hrest, rfl⟩

end

/-! ### Canonical segments -/

def Message.Braceless (s : List Char) : Prop := '\x7b' ∉ s ∧ '\x7d' ∉ s

/-- The labels of an expression: not empty, without braces and without blanks at their ends; for a
plural, one word. -/
structure IcuKind.Labels (kind : IcuKind) (label : List Char) : Prop where
  ne_nil : label ≠ []
  braceless : Message.Braceless label
  trim_eq : Text.trim label = label
  word : kind = .plural → ∀ c ∈ label, Text.isWord c = true

mutual

/-- A select or a plural over a binding that fits 64 bits, with proper labels and canonical bodies. -/
def Icu.Canonical : Icu → Prop
  | .mk kind main cases =>
    kind ≠ .exact ∧ 0 ≤ main ∧ main < 2 ^ 63 ∧ Case.Canonical kind cases

def Case.Canonical (kind : IcuKind) : List Case → Prop
  | [] => True
  | .mk label body :: cases =>
    kind.Labels label.toList ∧ (body = [] ∨ body ≠ [.text ""] ∧ Segment.Alternates body) ∧ Case.Canonical kind cases

def Segment.Alternates : List Segment → Prop
  | [.text s] => Message.Braceless s.toList
  | .text s :: .icu e :: segments =>
    Message.Braceless s.toList ∧ e.Canonical ∧ Segment.Alternates segments
  | _ => False

end

/-- Nothing, or text and expressions in turn that are not only an empty text. -/
def Segment.Canonical (segments : List Segment) : Prop :=
  segments = [] ∨ segments ≠ [.text ""] ∧ Segment.Alternates segments

namespace Message

open Text (isBlank isPatternBlank isWord trim)

/-! ### Blocks in a printed text -/

theorem Braceless.append {t : List Char} (hs : Braceless s) (ht : Braceless t) : Braceless (s ++ t) := by
  simp only [Braceless, mem_append, not_or]
  exact ⟨⟨hs.1, ht.1⟩, ⟨hs.2, ht.2⟩⟩

theorem braceless_cons :
    Braceless (c :: s) ↔ c ≠ '\x7b' ∧ c ≠ '\x7d' ∧ Braceless s := by
  simp only [Braceless, mem_cons, not_or]
  constructor
  · rintro ⟨⟨hopen, hs⟩, hclose, hs'⟩
    exact ⟨Ne.symm hopen, Ne.symm hclose, hs, hs'⟩
  · rintro ⟨hopen, hclose, hs, hs'⟩
    exact ⟨⟨Ne.symm hopen, hs⟩, Ne.symm hclose, hs'⟩

def Enclosable (s : List Char) : Prop :=
  ∀ (depth : Nat) (text block more : List Char),
    splitBracesFrom (depth + 1) text block (s ++ more) =
      splitBracesFrom (depth + 1) text (s.reverse ++ block) more

theorem Enclosable.append {t : List Char} (hs : Enclosable s) (ht : Enclosable t) : Enclosable (s ++ t) := by
  intro depth text block more
  rw [append_assoc, hs, ht, reverse_append, append_assoc]

theorem Braceless.enclosable (hs : Braceless s) : Enclosable s := by
  induction s with
  | nil => exact fun depth text block more => rfl
  | cons c s ih =>
    obtain ⟨hopen, hclose, hs⟩ := braceless_cons.mp hs
    intro depth text block more
    simp [splitBracesFrom, hopen, hclose, ih hs depth]

theorem Enclosable.braced (hs : Enclosable s) : Enclosable (braced s) := by
  intro depth text block more
  -- the two braces move the depth up and down again around the scan of `s`
  have hinner := hs (depth + 1) text ('\x7b' :: block) ('\x7d' :: more)
  simp only [Message.braced, cons_append, append_assoc, nil_append, splitBracesFrom, reduceIte] at hinner ⊢
  rw [hinner]
  simp

theorem splitBracesFrom_plain (hs : '\x7b' ∉ s) : ∀ text block more : List Char,
      splitBracesFrom 0 text block (s ++ more) = splitBracesFrom 0 (s.reverse ++ text) block more := by
  induction s with
  | nil => exact fun text block more => rfl
  | cons c s ih =>
    obtain ⟨hopen, hs⟩ := ne_and_not_mem_of_not_mem_cons hs
    intro text block more
    simp [splitBracesFrom, hopen.symm, ih hs]

theorem splitBraces_plain (hs : '\x7b' ∉ s) : splitBraces s = ⟨[], s⟩ := by
  have hscan := splitBracesFrom_plain hs [] [] []
  simpa [splitBraces, splitBracesFrom] using hscan

theorem splitBraces_braced {front block : List Char} (hfront : '\x7b' ∉ front) (hblock : Enclosable block)
    (rest : List Char) :
    splitBraces (front ++ (braced block ++ rest)) = (splitBraces rest).cons front block := by
  have hinner := hblock 0 front.reverse [] ('\x7d' :: rest)
  rw [splitBraces, splitBracesFrom_plain hfront]
  simp only [braced, cons_append, append_assoc, nil_append, splitBracesFrom, reduceIte, append_nil] at hinner ⊢
  rw [hinner]
  simp [splitBraces]

/-! ### Labels -/

theorem trim_cons_blank (hc : isBlank c = true) (s : List Char) : trim (c :: s) = trim s := by
  simp [trim, hc]

theorem trim_concat_blank (hc : isBlank c = true) (s : List Char) : trim (s ++ [c]) = trim s := by
  by_cases hs : (s.dropWhile isBlank).isEmpty
  · simp [trim, dropWhile_append, hc, Text.dropRightWhile, isEmpty_iff.mp hs]
  · simp [trim, dropWhile_append, hs, hc, Text.dropRightWhile]

theorem isWord_range (hc : isWord c = true) : 48 ≤ c.toNat ∧ c.toNat ≤ 122 := by
  simp only [isWord, Text.isDigit, Bool.or_eq_true, Bool.and_eq_true, decide_eq_true_eq, beq_iff_eq,
    Char.le_def, UInt32.le_iff_toNat_le] at hc
  rcases hc with ((h | h) | h) | rfl
  · exact ⟨h.1, Nat.le_trans h.2 (by decide)⟩
  · exact ⟨Nat.le_trans (by decide) h.1, h.2⟩
  · exact ⟨Nat.le_trans (by decide) h.1, Nat.le_trans h.2 (by decide)⟩
  · decide

theorem isBlank_eq_false (h : 48 ≤ c.toNat ∧ c.toNat ≤ 122) : isBlank c = false := by
  simp only [isBlank, Bool.or_eq_false_iff, Bool.and_eq_false_iff, decide_eq_false_iff_not, beq_eq_false_iff_ne]
  omega

theorem isPatternBlank_eq_false (h : 48 ≤ c.toNat ∧ c.toNat ≤ 122) : isPatternBlank c = false := by
  have hne : ∀ d : Char, d.toNat < 48 → (c == d) = false := by
    intro d hd
    rw [beq_eq_false_iff_ne]
    rintro rfl
    omega
  simp only [isPatternBlank, Bool.or_eq_false_iff]
  exact ⟨⟨⟨⟨hne _ (by decide), hne _ (by decide)⟩, hne _ (by decide)⟩, hne _ (by decide)⟩, hne _ (by decide)⟩

theorem trim_eq_of_forall (hs : ∀ c ∈ s, isBlank c = false) : trim s = s := by
  have hdrop : ∀ t : List Char, (∀ c ∈ t, isBlank c = false) → t.dropWhile isBlank = t := by
    intro t ht
    cases t with
    | nil => rfl
    | cons c t => simp [ht c mem_cons_self]
  rw [trim, Text.dropRightWhile, hdrop s hs, hdrop s.reverse (fun c hc => hs c (mem_reverse.mp hc)), reverse_reverse]

theorem labelWord?_word {w : List Char} (hne : w ≠ []) (hw : ∀ c ∈ w, isWord c = true) :
    labelWord? w = some (w, []) ∧ labelWord? ('=' :: w) = some (w, []) := by
  obtain ⟨c, s, rfl⟩ := exists_cons_of_ne_nil hne
  have hc := hw c mem_cons_self
  have hblank := isPatternBlank_eq_false (isWord_range hc)
  have hequals : c ≠ '=' := by
    rintro rfl
    exact absurd hc (by decide)
  have htake : (c :: s).takeWhile isWord = c :: s := takeWhile_eq_self_iff.mpr hw
  have hdrop : (c :: s).dropWhile isWord = [] := dropWhile_eq_nil_iff.mpr hw
  constructor
  · simp [labelWord?, hblank, hequals, htake, hdrop]
  · simp [labelWord?, show isPatternBlank '=' = false from rfl, htake, hdrop]

theorem pluralLabel_word {w : List Char} (hne : w ≠ []) (hw : ∀ c ∈ w, isWord c = true) :
    pluralLabel w = w ∧ pluralLabel ('=' :: w) = w := by
  obtain ⟨hplain, hequals⟩ := labelWord?_word hne hw
  obtain ⟨c, s, rfl⟩ := exists_cons_of_ne_nil hne
  constructor
  · unfold pluralLabel
    rw [hplain]
    exact append_nil _
  · unfold pluralLabel
    rw [hequals]
    exact append_nil _

theorem label_written {key written pad : List Char} (hkind : kind ≠ .exact)
    (hkey : kind.Labels key) (hwritten : kind.Writes key written) (hpad : pad = [] ∨ pad = [' ']) :
    label kind (pad ++ (written ++ [' '])) = key := by
  have htrim : trim (pad ++ (written ++ [' '])) = trim written := by
    rcases hpad with rfl | rfl
    · exact trim_concat_blank rfl written
    · exact (trim_cons_blank rfl _).trans (trim_concat_blank rfl written)
  have hself : trim written = written := by
    rcases hwritten with rfl | ⟨rfl, rfl⟩
    · exact hkey.trim_eq
    · refine trim_eq_of_forall fun c hc => ?_
      rcases mem_cons.mp hc with rfl | hc
      · rfl
      · exact isBlank_eq_false (isWord_range (hkey.word rfl c hc))
  cases kind with
  | select =>
    show trim _ = key
    rw [htrim, hself]
    rcases hwritten with h | ⟨h, -⟩
    · exact h
    · cases h
  | plural =>
    show pluralLabel (trim _) = key
    rw [htrim, hself]
    obtain ⟨hplain, hequals⟩ := pluralLabel_word hkey.ne_nil (hkey.word rfl)
    rcases hwritten with rfl | ⟨-, rfl⟩
    · exact hplain
    · exact hequals
  | exact => exact absurd rfl hkind

/-! ### Headers -/

theorem kindClause?_clause (hkind : kind ≠ .exact) (rest : List Char) :
    kindClause? (kind.clause ++ rest) = some (kind, ' ' :: rest) := by
  cases kind with
  | select => rfl
  | plural => rfl
  | exact => exact absurd rfl hkind

theorem Header.read?_print (hkind : kind ≠ .exact) (n : Nat) (rest : List Char) :
    Header.read? (mark :: Nat.toDigits 10 n ++ mark :: kind.clause ++ rest) =
      some ⟨⟨Nat.toDigits 10 n, []⟩, kind, ' ' :: rest⟩ := by
  have hmark : isPatternBlank mark = false := rfl
  have hstop : Text.isDigit mark = false := rfl
  have hread : ∀ more, Ordinal.read? (Nat.toDigits 10 n ++ mark :: more) = some ⟨Nat.toDigits 10 n, []⟩ := by
    intro more
    have hne : Nat.toDigits 10 n ≠ [] := Nat.toDigits_ne_nil
    simp [Ordinal.read?, Text.takeWhile_toDigits n hstop, Text.dropWhile_toDigits n hstop, Ordinal.suffixOf,
      Ordinal.closes, hne, show mark ≠ ':' by decide]
  have hbinding : binding? (mark :: Nat.toDigits 10 n ++ mark :: kind.clause ++ rest) =
      some (⟨Nat.toDigits 10 n, []⟩, (Nat.toDigits 10 n).length + 2) := by
    simp [binding?, hread, Ordinal.text]
  have hrest : (mark :: Nat.toDigits 10 n ++ mark :: kind.clause ++ rest).drop ((Nat.toDigits 10 n).length + 2) =
      kind.clause ++ rest := by
    simp [drop_append]
  have hfront : (mark :: Nat.toDigits 10 n ++ mark :: kind.clause ++ rest).dropWhile isPatternBlank =
      mark :: Nat.toDigits 10 n ++ mark :: kind.clause ++ rest := by
    simp [hmark]
  rw [Header.read?]
  simp only [hfront, hbinding, hrest, kindClause?_clause hkind, Option.bind_eq_bind, Option.bind_some]
  rfl

/-! ### Printed blocks are closed -/

theorem braceless_toDigits (n : Nat) : Braceless (Nat.toDigits 10 n) := by
  constructor
  · exact fun h => absurd (Text.isDigit_of_mem_toDigits h) (by decide)
  · exact fun h => absurd (Text.isDigit_of_mem_toDigits h) (by decide)

theorem braceless_clause (kind : IcuKind) : Braceless kind.clause := by
  cases kind <;> exact ⟨by decide, by decide⟩

end Message

theorem IcuKind.Writes.braceless {key written : List Char} (hkey : kind.Labels key)
    (hwritten : kind.Writes key written) : Message.Braceless written := by
  rcases hwritten with rfl | ⟨-, rfl⟩
  · exact hkey.braceless
  · exact Message.braceless_cons.mpr ⟨by decide, by decide, hkey.braceless⟩

mutual

theorem Icu.Prints.enclosable : ∀ (e : Icu) (block : List Char), e.Canonical → e.Prints block → Message.Enclosable block
  | .mk kind main cases, block, hcanonical, hprints => by
    obtain ⟨rest, hcases, rfl⟩ := hprints
    have hmark : Message.Braceless [Message.mark] := ⟨by decide, by decide⟩
    have hheader := ((hmark.append (Message.braceless_toDigits main.toNat)).append hmark).append
      (Message.braceless_clause kind)
    have hrest := Case.Prints.enclosable kind cases rest hcanonical.2.2.2 hcases
    simpa using hheader.enclosable.append hrest

theorem Case.Prints.enclosable (kind : IcuKind) : ∀ (cases : List Case) (text : List Char),
    Case.Canonical kind cases → Case.Prints kind cases text → Message.Enclosable text
  | [], text, _, hprints => by
    cases hprints
    exact fun depth text block more => rfl
  | .mk label body :: cases, text, hcanonical, hprints => by
    obtain ⟨written, inner, rest, hwritten, hbody, hcases, rfl⟩ := hprints
    obtain ⟨hlabel, hshape, hcanonical⟩ := hcanonical
    have hblank : Message.Braceless [' '] := ⟨by decide, by decide⟩
    have hfront := ((hwritten.braceless hlabel).append hblank).enclosable
    have hinner := Segment.Prints.enclosable body inner (hshape.imp_right And.right) hbody
    have hrest := Case.Prints.enclosable kind cases rest hcanonical hcases
    simpa using (hfront.append hinner.braced).append hrest

theorem Segment.Prints.enclosable : ∀ (segments : List Segment) (text : List Char),
    segments = [] ∨ Segment.Alternates segments → Segment.Prints segments text → Message.Enclosable text
  | [], text, _, hprints => by
    cases hprints
    exact fun depth text block more => rfl
  | [.text s], text, .inr halternates, hprints => by
    obtain ⟨rest, hrest, rfl⟩ := hprints
    cases hrest
    simpa using Message.Braceless.enclosable halternates
  | .text s :: .icu e :: segments, text, .inr halternates, hprints => by
    obtain ⟨rest, ⟨block, more, hicu, hmore, rfl⟩, rfl⟩ := hprints
    obtain ⟨hs, hcanonical, halternates⟩ := halternates
    have hblock := (Icu.Prints.enclosable e block hcanonical hicu).braced
    have hmore := Segment.Prints.enclosable segments more (.inr halternates) hmore
    exact hs.enclosable.append (hblock.append hmore)

end

namespace Message

/-! ### Reading a printed text -/

/-- The bodies that `splitBody` has to read: it undoes printing for texts up to a length. -/
def Undoes (splitBody : List Char → Parsed (List Segment)) (bound : Nat) : Prop :=
  ∀ (segments : List Segment) (text : List Char), text.length ≤ bound → Segment.Canonical segments →
    Segment.Prints segments text → splitBody text = pure segments

section Reading

variable {splitBody : List Char → Parsed (List Segment)} {bound : Nat}

section

variable (hbody : Undoes splitBody bound)
include hbody

theorem parseCases_print (hkind : kind ≠ .exact) :
    ∀ (cases : List Case) (text pad : List Char), pad = [] ∨ pad = [' '] → text.length ≤ bound →
      Case.Canonical kind cases → Case.Prints kind cases text →
        parseCases splitBody kind (splitBraces (pad ++ text)).items = pure cases ∧
          label kind (splitBraces (pad ++ text)).last = [] := by
  intro cases
  induction cases with
  | nil =>
    intro text pad hpad _ _ hprints
    cases hprints
    have hbraceless : Braceless pad := by
      rcases hpad with rfl | rfl <;> exact ⟨by decide, by decide⟩
    rw [append_nil, splitBraces_plain hbraceless.1]
    refine ⟨rfl, ?_⟩
    rcases hpad with rfl | rfl <;> cases kind <;> rfl
  | cons c cases ih =>
    obtain ⟨key, body⟩ := c
    intro text pad hpad hbound hcanonical hprints
    obtain ⟨written, inner, rest, hwritten, hinner, hrest, rfl⟩ := hprints
    obtain ⟨hlabel, hshape, hcanonical⟩ := hcanonical
    have hlength : inner.length ≤ bound ∧ rest.length ≤ bound := by
      simp only [braced, length_append, length_cons] at hbound
      omega
    have hfront : Braceless (pad ++ (written ++ [' '])) := by
      have hblank : Braceless [' '] := ⟨by decide, by decide⟩
      rcases hpad with rfl | rfl
      · exact (hwritten.braceless hlabel).append hblank
      · exact hblank.append ((hwritten.braceless hlabel).append hblank)
    have hclosed := Segment.Prints.enclosable body inner (hshape.imp_right And.right) hinner
    have hsplit : splitBraces (pad ++ (written ++ ' ' :: braced inner ++ rest)) =
        (splitBraces rest).cons (pad ++ (written ++ [' '])) inner := by
      rw [← splitBraces_braced hfront.1 hclosed rest]
      simp
    obtain ⟨hcases, hlast⟩ := ih rest [] (.inl rfl) hlength.2 hcanonical hrest
    rw [hsplit]
    refine ⟨?_, hlast⟩
    have hkey := label_written hkind hlabel hwritten hpad
    have hne : key.toList.isEmpty = false := isEmpty_eq_false_iff.mpr hlabel.ne_nil
    simp only [Text.Interleaved.cons, parseCases, hkey, hne, hbody body inner hlength.1 hshape hinner]
    simp only [nil_append] at hcases
    rw [hcases]
    simp
    rfl

theorem parseBlockWith_print {e : Icu} {block : List Char}
    (hbound : block.length ≤ bound) (hcanonical : e.Canonical) (hprints : e.Prints block) :
    parseBlockWith splitBody block = pure e := by
  obtain ⟨kind, main, cases⟩ := e
  obtain ⟨rest, hcases, rfl⟩ := hprints
  obtain ⟨hkind, hnonneg, hlt, hcanonical⟩ := hcanonical
  obtain ⟨n, rfl⟩ := Int.eq_ofNat_of_zero_le hnonneg
  have hvalue : Ordinal.value? ⟨Nat.toDigits 10 n, []⟩ = some (n : Int) := by
    have hread := Text.readInt?_of_digits (Nat.toDigits_ne_nil (b := 10) (n := n))
      (fun c hc => Text.isDigit_of_mem_toDigits hc)
    rw [Text.natOfDigits_toDigits, if_pos (by omega)] at hread
    exact hread
  have hlength : rest.length ≤ bound := by
    simp only [length_append, length_cons] at hbound
    omega
  obtain ⟨hparsed, hdangling⟩ :=
    parseCases_print hbody hkind cases rest [' '] (.inr rfl) hlength hcanonical hcases
  simp only [cons_append, nil_append] at hparsed hdangling
  rw [parseBlockWith, Int.toNat_natCast, Header.read?_print hkind n rest]
  simp only [hvalue, hparsed, hdangling]
  rfl

theorem segments_print :
    ∀ (found : List Segment) (text : List Char), text.length ≤ bound + 1 → Segment.Alternates found →
      Segment.Prints found text → segments splitBody (splitBraces text).last [] (splitBraces text).items = pure found
  | [.text s], text, _, halternates, hprints => by
    obtain ⟨rest, hrest, rfl⟩ := hprints
    cases hrest
    rw [append_nil, splitBraces_plain (And.left halternates)]
    simp [segments]
  | .text s :: .icu e :: found, text, hbound, halternates, hprints => by
    obtain ⟨rest, ⟨block, more, hicu, hmore, rfl⟩, rfl⟩ := hprints
    obtain ⟨hs, hcanonical, halternates⟩ := halternates
    have hlength : block.length ≤ bound ∧ more.length ≤ bound + 1 := by
      simp only [braced, length_append, length_cons] at hbound
      omega
    have hheader : (Header.read? block).isSome = true := by
      obtain ⟨kind, main, cases⟩ := e
      obtain ⟨rest, -, rfl⟩ := hicu
      rw [Header.read?_print hcanonical.1]
      rfl
    have hclosed := Icu.Prints.enclosable e block hcanonical hicu
    have hblock := parseBlockWith_print hbody hlength.1 hcanonical hicu
    have hmore := segments_print found more hlength.2 halternates hmore
    rw [splitBraces_braced hs.1 hclosed]
    simp only [Text.Interleaved.cons, segments, hheader, hblock, hmore]
    simp
    rfl

end

end Reading

theorem eq_nil_of_prints_nil {found : List Segment} (hcanonical : Segment.Canonical found)
    (hprints : Segment.Prints found []) : found = [] := by
  rcases hcanonical with h | ⟨hne, halternates⟩
  · exact h
  · match found, halternates, hprints with
    | [.text s], _, ⟨rest, _, hnil⟩ =>
      have hs : s = "" := String.toList_eq_nil_iff.mp (append_eq_nil_iff.mp hnil.symm).1
      exact absurd (by rw [hs]) hne
    | .text s :: .icu e :: found, _, ⟨rest, ⟨block, more, _, _, hrest⟩, hnil⟩ =>
      rw [hrest] at hnil
      simp [braced] at hnil

theorem undoes_splitLevels : ∀ levels : Nat, Undoes (splitLevels levels) levels := by
  intro levels
  induction levels with
  | zero =>
    intro found text hlength hcanonical hprints
    obtain rfl := length_eq_zero_iff.mp (Nat.le_zero.mp hlength)
    rw [eq_nil_of_prints_nil hcanonical hprints]
    rfl
  | succ levels ih =>
    intro found text hlength hcanonical hprints
    cases text with
    | nil =>
      rw [eq_nil_of_prints_nil hcanonical hprints]
      rfl
    | cons c text =>
      rcases hcanonical with rfl | ⟨-, halternates⟩
      · cases hprints
      · exact segments_print ih found (c :: text) hlength halternates hprints

/-- **Reading undoes printing.** Every text printed from canonical segments splits into these segments,
and every printed content of one block is read as its expression; nothing is reported. -/
theorem split_print : (∀ found : List Segment, Segment.Canonical found →
      (∃ text, Segment.Prints found text) ∧ ∀ text, Segment.Prints found text → split text = pure found) ∧
    ∀ e : Icu, e.Canonical → (∃ block, e.Prints block) ∧ ∀ block, e.Prints block → parseBlock block = pure e := by
  constructor
  · intro found hcanonical
    refine ⟨Segment.exists_prints found, fun text hprints => ?_⟩
    exact undoes_splitLevels text.length found text (Nat.le_refl _) hcanonical hprints
  · intro e hcanonical
    refine ⟨Icu.exists_prints e, fun block hprints => ?_⟩
    exact parseBlockWith_print (undoes_splitLevels block.length) (Nat.le_refl _) hcanonical hprints

/-- A select with a label of two words, in the only case of a plural. -/
def nestedSelect : Icu := .mk .select 12 [.mk "x y" [.text "b"], .mk "other" []]

def nestingPlural : Icu := .mk .plural 0 [.mk "1" [.text "", .icu nestedSelect, .text "c"]]

theorem split_print_nested :
    split "a\x7b�0�, plural, =1 \x7b\x7b�12�, select, x y \x7bb\x7dother \x7b\x7d\x7dc\x7d\x7d".toList =
        pure [.text "a", .icu nestingPlural, .text ""] ∧
      parseBlock "�0�, plural, =1 \x7b\x7b�12�, select, x y \x7bb\x7dother \x7b\x7d\x7dc\x7d".toList =
        pure nestingPlural := by
  have hbraceless : ∀ s : List Char, s.all (fun c => c ≠ '\x7b' && c ≠ '\x7d') = true → Braceless s := by
    intro s hs
    rw [List.all_eq_true] at hs
    exact ⟨fun h => absurd (hs _ h) (by decide), fun h => absurd (hs _ h) (by decide)⟩
  have hselect : nestedSelect.Canonical :=
    ⟨by decide, by decide, by decide, ⟨by decide, hbraceless _ (by decide), by decide, by decide⟩,
      .inr ⟨by simp, hbraceless _ (by decide)⟩, ⟨by decide, hbraceless _ (by decide), by decide, by decide⟩,
      .inl rfl, trivial⟩
  have hword : ∀ c ∈ "1".toList, Text.isWord c = true := List.all_eq_true.mp (by decide)
  have hplural : nestingPlural.Canonical :=
    ⟨by decide, by decide, by decide, ⟨by decide, hbraceless _ (by decide), by decide, fun _ => hword⟩,
      .inr ⟨by simp, hbraceless _ (by decide), hselect, hbraceless _ (by decide)⟩, trivial⟩
  have hmessage : Segment.Canonical [.text "a", .icu nestingPlural, .text ""] :=
    .inr ⟨by simp, hbraceless _ (by decide), hplural, hbraceless _ (by decide)⟩
  have hinner : nestedSelect.Prints "�12�, select, x y \x7bb\x7dother \x7b\x7d".toList :=
    ⟨_, ⟨_, _, _, .inl rfl, ⟨_, rfl, rfl⟩, ⟨_, _, _, .inl rfl, rfl, rfl, rfl⟩, rfl⟩, by decide⟩
  have hblock : nestingPlural.Prints
      "�0�, plural, =1 \x7b\x7b�12�, select, x y \x7bb\x7dother \x7b\x7d\x7dc\x7d".toList :=
    ⟨_, ⟨_, _, _, .inr ⟨rfl, rfl⟩, ⟨_, ⟨_, _, hinner, ⟨_, rfl, rfl⟩, rfl⟩, rfl⟩, rfl, rfl⟩, by decide⟩
  have htext : Segment.Prints [.text "a", .icu nestingPlural, .text ""]
      "a\x7b�0�, plural, =1 \x7b\x7b�12�, select, x y \x7bb\x7dother \x7b\x7d\x7dc\x7d\x7d".toList :=
    ⟨_, ⟨_, _, hblock, ⟨_, rfl, rfl⟩, rfl⟩, by decide⟩
  exact ⟨(split_print.1 _ hmessage).2 _ htext, (split_print.2 _ hplural).2 _ hblock⟩

end Message

end MessageCompiler
