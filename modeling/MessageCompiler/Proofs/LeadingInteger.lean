/-
The integer in front of a text, and its plural category.

* **`leadingInt?_eq_some_iff`** — what is read is the integer in front of the trimmed text, if it fits 64 bits.
* **`category?_of_leadsWith`** — its sign does not count, and only the least integer has no category.
-/
import MessageCompiler.Locale.Plural

namespace MessageCompiler.Plural

open List Text

/-- The least integer of 64 bits. -/
def least : Int := -9223372036854775808

/-- The sign in front of a number, or none. -/
def IsSign (sign : List Char) : Prop := sign = [] ∨ sign = ['+'] ∨ sign = ['-']

/-- The trimmed text starts with the integer: a sign or none, and then all digits that follow, at least one. -/
def LeadsWith (value : String) (n : Int) : Prop :=
  ∃ sign digits rest, trim value.toList = sign ++ (digits ++ rest) ∧ IsSign sign ∧ digits ≠ [] ∧
    (∀ c ∈ digits, isDigit c = true) ∧ (rest.head?.all fun c => !isDigit c) ∧
    n = signed (sign == ['-']) (natOfDigits digits)

variable {value : String} {n : Int} {s sign digits rest : List Char}

theorem readInt?_signed (hsign : IsSign sign) (hdigits : ∀ c ∈ digits, isDigit c = true) :
    readInt? (sign ++ digits) = if digits = [] then none else
      if fitsWord (signed (sign == ['-']) (natOfDigits digits)) then
        some (signed (sign == ['-']) (natOfDigits digits)) else none := by
  have hall := all_eq_true.mpr hdigits
  rcases hsign with rfl | rfl | rfl
  · simp [readInt?, splitSign_of_digits hdigits, hall]
  · simp [readInt?, splitSign, hall]
  · simp [readInt?, splitSign, hall]

/-- The sign that reading takes off. -/
def signOf (s : List Char) : List Char := (s.takeWhile fun c => c == '-' || c == '+').take 1

theorem isSign_signOf (s : List Char) : IsSign (signOf s) ∧ s = signOf s ++ s.drop (signOf s).length := by
  cases s with
  | nil => exact ⟨.inl rfl, rfl⟩
  | cons c s =>
    by_cases hc : c = '-' ∨ c = '+'
    · rcases hc with rfl | rfl
      · exact ⟨.inr (.inr rfl), rfl⟩
      · exact ⟨.inr (.inl rfl), rfl⟩
    · simp_all [signOf, IsSign]

theorem signOf_append (hsign : IsSign sign) (hne : digits ≠ []) (hdigits : ∀ c ∈ digits, isDigit c = true) :
    signOf (sign ++ (digits ++ rest)) = sign := by
  rcases hsign with rfl | rfl | rfl
  · obtain ⟨d, ds, rfl⟩ := exists_cons_of_ne_nil hne
    have hd := hdigits d mem_cons_self
    have hminus : d ≠ '-' := fun h => absurd (h ▸ hd) (by decide)
    have hplus : d ≠ '+' := fun h => absurd (h ▸ hd) (by decide)
    simp [signOf, hminus, hplus]
  · rfl
  · rfl

theorem takeWhile_digits (hdigits : ∀ c ∈ digits, isDigit c = true) (hrest : rest.head?.all fun c => !isDigit c) :
    (digits ++ rest).takeWhile isDigit = digits := by
  rw [takeWhile_append_of_pos hdigits]
  cases rest <;> simp_all

/-- A text starts with one integer at most. -/
theorem LeadsWith.eq {m : Int} (h : LeadsWith value n) (hm : LeadsWith value m) : n = m := by
  obtain ⟨sign, digits, rest, hparts, hsign, hne, hdigits, hrest, rfl⟩ := h
  obtain ⟨sign', digits', rest', hparts', hsign', hne', hdigits', hrest', rfl⟩ := hm
  rw [hparts] at hparts'
  have heq := congrArg signOf hparts'
  rw [signOf_append hsign hne hdigits, signOf_append hsign' hne' hdigits'] at heq
  subst heq
  have hread := congrArg (takeWhile isDigit) (append_cancel_left hparts')
  rw [takeWhile_digits hdigits hrest, takeWhile_digits hdigits' hrest'] at hread
  rw [hread]

/-- What is read is the integer in front of the trimmed text, if it fits 64 bits. -/
theorem leadingInt?_eq_some_iff : leadingInt? value.toList = some n ↔ LeadsWith value n ∧ fitsWord n = true := by
  show readInt? (signOf (trim value.toList) ++
    ((trim value.toList).drop (signOf (trim value.toList)).length).takeWhile isDigit) = _ ↔ _
  constructor
  · intro h
    obtain ⟨hsign, hparts⟩ := isSign_signOf (trim value.toList)
    generalize signOf (trim value.toList) = sign at h hsign hparts
    generalize (trim value.toList).drop sign.length = s at h hparts
    have hdigits : ∀ c ∈ s.takeWhile isDigit, isDigit c = true := all_eq_true.mp all_takeWhile
    rw [readInt?_signed hsign hdigits] at h
    split at h
    · cases h
    · next hne =>
      split at h
      · next hfits =>
        cases h
        refine ⟨⟨sign, _, s.dropWhile isDigit, ?_, hsign, hne, hdigits, ?_, rfl⟩, hfits⟩
        · rwa [takeWhile_append_dropWhile]
        · have hnot := head?_dropWhile_not isDigit s
          cases hhead : (s.dropWhile isDigit).head? <;> simp_all
      · cases h
  · rintro ⟨⟨sign, digits, rest, hparts, hsign, hne, hdigits, hrest, rfl⟩, hfits⟩
    rw [hparts, signOf_append hsign hne hdigits, drop_left, takeWhile_digits hdigits hrest,
      readInt?_signed hsign hdigits, if_neg hne, if_pos hfits]

theorem leadingInt?_eq_none (h : ∀ n, LeadsWith value n → fitsWord n = false) : leadingInt? value.toList = none := by
  refine Option.eq_none_iff_forall_ne_some.mpr fun n hn => ?_
  obtain ⟨hlead, hfits⟩ := leadingInt?_eq_some_iff.mp hn
  exact absurd hfits (Bool.eq_false_iff.mp (h n hlead))

theorem category?_of_leadsWith (h : LeadsWith value n) (l : Locale) :
    category? l value = if n = least then none else some (if fitsWord n then ruleFor l n.natAbs else .other) := by
  unfold category?
  by_cases hfits : fitsWord n = true
  · rw [leadingInt?_eq_some_iff.mpr ⟨h, hfits⟩, if_pos hfits]
    rfl
  · have hne : n ≠ least := fun hn => hfits (hn ▸ by decide)
    rw [leadingInt?_eq_none fun m hm => h.eq hm ▸ Bool.eq_false_iff.mpr hfits, if_neg hfits, if_neg hne]

end MessageCompiler.Plural
