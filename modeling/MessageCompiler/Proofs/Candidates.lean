/-
The candidates of a sanitized `srcset` value.

No piece between two commas holds a comma and `unsafe:` brings none in, so what is written from sanitized candidates
is read back as these candidates. Trimming takes only the space away that stands behind each comma, because a
candidate is trimmed before it is sanitized.

* **`candidates_intercalate`** — trimmed texts without commas are read back from their list.
-/
import MessageCompiler.Sanitize.Url

namespace MessageCompiler

open List

namespace Text

variable {sep : Char} {s piece : List Char}

theorem splitOnChar_cons_of_ne {c : Char} (hc : c ≠ sep) (s : List Char) :
    ∃ front rest, splitOnChar sep s = front :: rest ∧ splitOnChar sep (c :: s) = (c :: front) :: rest := by
  obtain ⟨front, rest, hs⟩ := exists_cons_of_ne_nil (splitOnChar_ne_nil sep s)
  exact ⟨front, rest, hs, by simp [splitOnChar, hc, hs]⟩

theorem not_mem_of_mem_splitOnChar (h : piece ∈ splitOnChar sep s) : sep ∉ piece := by
  induction s generalizing piece with
  | nil => simp_all [splitOnChar]
  | cons c s ih =>
    by_cases hc : c = sep
    · rw [splitOnChar, if_pos hc] at h
      rcases mem_cons.mp h with rfl | h
      · exact not_mem_nil
      · exact ih h
    · obtain ⟨front, rest, hs, hcons⟩ := splitOnChar_cons_of_ne hc s
      rw [hcons] at h
      rcases mem_cons.mp h with rfl | h
      · exact not_mem_cons_of_ne_of_not_mem (Ne.symm hc) (ih (hs ▸ mem_cons_self))
      · exact ih (hs ▸ mem_cons_of_mem _ h)

theorem splitOnChar_append (h : sep ∉ s) (rest : List Char) :
    splitOnChar sep (s ++ sep :: rest) = s :: splitOnChar sep rest := by
  induction s with
  | nil => simp [splitOnChar]
  | cons c s ih =>
    obtain ⟨hc, hs⟩ := ne_and_not_mem_of_not_mem_cons h
    simp [splitOnChar, hc.symm, ih hs]

theorem splitOnChar_of_not_mem (h : sep ∉ s) : splitOnChar sep s = [s] := by
  induction s with
  | nil => rfl
  | cons c s ih =>
    obtain ⟨hc, hs⟩ := ne_and_not_mem_of_not_mem_cons h
    simp [splitOnChar, hc.symm, ih hs]

/-- Neither the first nor the last character is blank. -/
def Trimmed (s : List Char) : Prop := (s.head?.all fun c => !isBlank c) ∧ s.getLast?.all fun c => !isBlank c

theorem all_head?_dropWhile (p : Char → Bool) (s : List Char) : (s.dropWhile p).head?.all fun c => !p c := by
  have hnot := head?_dropWhile_not p s
  cases hs : (s.dropWhile p).head? <;> simp_all

theorem trimmed_trim (s : List Char) : Trimmed (trim s) := by
  refine ⟨?_, ?_⟩
  · -- what is taken off the end leaves the first character, if there is one left
    have hfront := all_head?_dropWhile isBlank s
    have hparts : s.dropWhile isBlank = trim s ++ ((s.dropWhile isBlank).reverse.takeWhile isBlank).reverse := by
      rw [trim, dropRightWhile, ← reverse_append, takeWhile_append_dropWhile, reverse_reverse]
    rw [hparts, head?_append] at hfront
    cases hhead : (trim s).head? with
    | none => rfl
    | some c => rwa [hhead, Option.some_or] at hfront
  · rw [trim, dropRightWhile, getLast?_reverse]
    exact all_head?_dropWhile isBlank _

theorem mem_of_mem_trim {c : Char} (h : c ∈ trim s) : c ∈ s := by
  rw [trim, dropRightWhile, mem_reverse] at h
  have h := (dropWhile_sublist isBlank).mem h
  exact (dropWhile_sublist isBlank).mem (mem_reverse.mp h)

theorem Trimmed.trim_eq (h : Trimmed s) : trim s = s := by
  have hdrop (s : List Char) (hs : s.head?.all fun c => !isBlank c) : s.dropWhile isBlank = s := by
    cases s <;> simp_all
  rw [trim, hdrop s h.1, dropRightWhile, hdrop s.reverse (by rw [head?_reverse]; exact h.2), reverse_reverse]

end Text

namespace Url

open Text

/-- A sanitized candidate is a trimmed text without commas, if the candidate is one. -/
theorem sanitizeUrl_candidate {url : String} (htrim : Trimmed url.toList) (hcomma : ',' ∉ url.toList) :
    Trimmed (sanitizeUrl url).toList ∧ ',' ∉ (sanitizeUrl url).toList := by
  rcases sanitizeUrl_eq url with heq | heq
  · rw [heq]
    exact ⟨htrim, hcomma⟩
  · rw [heq, String.toList_append]
    refine ⟨⟨rfl, ?_⟩, ?_⟩
    · rw [getLast?_append]
      cases hlast : url.toList.getLast? with
      | none => rfl
      | some c => simpa [hlast] using htrim.2
    · rw [mem_append, not_or]
      exact ⟨by decide, hcomma⟩

theorem candidates_intercalate {texts : List String} (hne : texts ≠ [])
    (h : ∀ t ∈ texts, Trimmed t.toList ∧ ',' ∉ t.toList) : candidates (", ".intercalate texts) = texts := by
  induction texts with
  | nil => exact absurd rfl hne
  | cons t texts ih =>
    obtain ⟨ht, hrest⟩ := forall_mem_cons.mp h
    cases texts with
    | nil => simp [candidates, splitOnChar_of_not_mem ht.2, ht.1.trim_eq]
    | cons u texts =>
      have hread := ih (cons_ne_nil _ _) hrest
      generalize hrest' : ", ".intercalate (u :: texts) = rest at hread
      obtain ⟨front, more, hsplit, hspace⟩ := splitOnChar_cons_of_ne (by decide : ' ' ≠ ',') rest.toList
      have hlist : (t ++ ", " ++ rest).toList = t.toList ++ ',' :: ' ' :: rest.toList := by simp
      rw [candidates, hsplit, map_cons] at hread
      rw [String.intercalate_cons_cons, hrest', candidates, hlist, splitOnChar_append ht.2, map_cons, hspace, map_cons,
        ht.1.trim_eq, String.ofList_toList]
      exact congrArg (t :: ·) hread

/-- The candidates of a sanitized value are the sanitized candidates, and each of them is safe or made unsafe. -/
theorem candidates_sanitizeSrcset (srcset : String) :
    candidates (sanitizeSrcset srcset) = (candidates srcset).map sanitizeUrl ∧
      ∀ c ∈ candidates (sanitizeSrcset srcset),
        isSafeLink c.toList = true ∨ isSafeData c.toList = true ∨ "unsafe:".toList <+: c.toList := by
  have hread : candidates (sanitizeSrcset srcset) = (candidates srcset).map sanitizeUrl := by
    refine candidates_intercalate (by simp [candidates, splitOnChar_ne_nil]) ?_
    intro t ht
    obtain ⟨url, hurl, rfl⟩ := mem_map.mp ht
    obtain ⟨piece, hpiece, rfl⟩ := mem_map.mp hurl
    refine sanitizeUrl_candidate (by simpa using trimmed_trim piece) ?_
    rw [String.toList_ofList]
    exact fun hmem => not_mem_of_mem_splitOnChar hpiece (mem_of_mem_trim hmem)
  refine ⟨hread, ?_⟩
  intro c hc
  rw [hread] at hc
  obtain ⟨url, -, rfl⟩ := mem_map.mp hc
  rw [sanitizeUrl]
  split
  · next hsafe => exact (Bool.or_eq_true_iff.mp hsafe).imp_right .inl
  · exact .inr (.inr ⟨url.toList, by simp⟩)

end Url

end MessageCompiler
