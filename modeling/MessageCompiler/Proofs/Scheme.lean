/-
The scheme that a reader sees in a sanitized URL.

A reader of URLs takes tabs and line ends out, and whatever is not above a space in front, before it looks for a
scheme. None of the characters that it takes out ends the part of a URL in which a scheme can stand, so the first of
these characters is the same before and after.

* **`seen_of_after?`** — a word that stands in front is seen there.
-/
import Mathlib.Data.List.Forall2
import Mathlib.Data.List.TakeWhile
import MessageCompiler.Sanitize.Url

namespace MessageCompiler.Url

open List

/-- A character that a reader of URLs takes out wherever it stands. -/
def isSkipped (c : Char) : Bool := c == '\t' || c == '\n' || c == '\r'

def seen (url : List Char) : List Char := (url.filter (!isSkipped ·)).dropWhile (· ≤ ' ')

def isSchemeChar (c : Char) : Bool := c.isAlphanum || c == '+' || c == '.' || c == '-'

/-- A letter, then letters, digits and the signs that a scheme may have. -/
def IsScheme : List Char → Prop
  | [] => False
  | c :: rest => c.isAlpha = true ∧ ∀ d ∈ rest, isSchemeChar d = true

def harmless : List String := ["http", "https", "mailto", "ftp", "tel", "file", "sms", "data", "unsafe"]

def media : List String := ["image/", "video/", "audio/"]

/-- The scheme is a harmless one, and inline data is of a harmless kind. -/
def Harmless (scheme rest : List Char) : Prop :=
  ∃ name ∈ harmless, scheme.map Char.toLower = name.toList ∧
    (name = "data" → ∃ kind ∈ media, kind.toList <+: rest.map Char.toLower)

variable {s rest scheme : List Char}

theorem IsScheme.isSchemeChar (h : IsScheme scheme) : ∀ c ∈ scheme, isSchemeChar c = true := by
  cases scheme with
  | nil => exact h.elim
  | cons c front =>
    refine forall_mem_cons.mpr ⟨?_, h.2⟩
    simp only [Url.isSchemeChar, Char.isAlphanum, h.1, Bool.true_or]

variable {c w : Char} {front more word tail : List Char}

theorem endsScheme_of_isSchemeChar (h : isSchemeChar c = true) : endsScheme c = false := by
  cases hends : endsScheme c with
  | false => rfl
  | true =>
    simp only [endsScheme, Bool.or_eq_true, beq_iff_eq] at hends
    rcases hends with (((rfl | rfl) | rfl) | rfl) | rfl <;> exact absurd h (by decide)

/-! ### Characters that are taken out -/

theorem space_lt_of_endsScheme (h : endsScheme c = true) : ' ' < c := by
  simp only [endsScheme, Bool.or_eq_true, beq_iff_eq] at h
  rcases h with (((rfl | rfl) | rfl) | rfl) | rfl <;> decide

theorem isSkipped_of_space_lt (h : ' ' < c) : isSkipped c = false := by
  cases hskip : isSkipped c with
  | false => rfl
  | true =>
    simp only [isSkipped, Bool.or_eq_true, beq_iff_eq] at hskip
    rcases hskip with (rfl | rfl) | rfl <;> exact absurd h (by decide)

theorem find?_seen (s : List Char) : (seen s).find? endsScheme = s.find? endsScheme := by
  have hdrop : ∀ t : List Char, (t.dropWhile (· ≤ ' ')).find? endsScheme = t.find? endsScheme := by
    intro t
    have hfront : (t.takeWhile (· ≤ ' ')).find? endsScheme = none := by
      refine List.find?_eq_none.mpr fun c hc hends => ?_
      have hle : c ≤ ' ' := of_decide_eq_true (all_eq_true.mp all_takeWhile c hc)
      exact absurd (space_lt_of_endsScheme hends) (Char.not_lt.mpr hle)
    rw [← takeWhile_append_dropWhile (p := (· ≤ ' ')) (l := t), List.find?_append, hfront]
    simp
  unfold seen
  rw [hdrop, List.find?_filter]
  congr 1
  funext c
  cases hends : endsScheme c with
  | false => simp
  | true => simp [isSkipped_of_space_lt (space_lt_of_endsScheme hends)]

theorem seen_append (hfront : ∀ c ∈ front, ' ' < c) (hne : front ≠ []) :
    seen (front ++ rest) = front ++ rest.filter (!isSkipped ·) := by
  have hfilter : front.filter (!isSkipped ·) = front :=
    filter_eq_self.mpr fun c hc => by rw [isSkipped_of_space_lt (hfront c hc), Bool.not_false]
  unfold seen
  rw [filter_append, hfilter]
  cases front with
  | nil => exact absurd rfl hne
  | cons c front =>
    simp_all [cons_append, dropWhile_cons_of_neg]

/-! ### Words in front -/

def Folds (front word : List Char) : Prop := List.Forall₂ (fun c w => folds c w = true) front word

theorem after?_append : ∀ {s : List Char}, after? (word ++ more) s = some rest →
    ∃ front back, s = front ++ back ∧ Folds front word ∧ after? more back = some rest := by
  induction word with
  | nil => exact fun {s} h => ⟨[], s, rfl, .nil, h⟩
  | cons w word ih =>
    intro s h
    cases s with
    | nil => cases h
    | cons c s =>
      rw [cons_append, after?] at h
      split at h
      · next hfolds =>
        obtain ⟨front, back, rfl, hfront, hback⟩ := ih h
        exact ⟨c :: front, back, rfl, .cons hfolds hfront, hback⟩
      · cases h

def isPlain (w : Char) : Bool := ' ' < w && w.toLower == w

theorem toLower_of_le (h : c ≤ ' ') : c.toLower = c := by
  unfold Char.toLower
  refine dif_neg fun hupper => ?_
  have hle : 'A' ≤ c := hupper.1
  exact absurd (Char.le_trans hle h) (by decide)

theorem toLower_of_folds (hw : isPlain w = true) (h : folds c w = true) :
    ' ' < c ∧ (c.toLower = w ∨ isSchemeChar c = false ∧ (w = 's' ∨ w = 'k')) := by
  simp only [isPlain, Bool.and_eq_true, decide_eq_true_eq, beq_iff_eq] at hw
  simp only [folds, Bool.or_eq_true, Bool.and_eq_true, beq_iff_eq] at h
  rcases h with ((rfl | h) | ⟨hs, rfl⟩) | ⟨hk, hc⟩
  · exact ⟨hw.1, .inl hw.2⟩
  · refine ⟨?_, .inl h⟩
    grind [toLower_of_le]
  · exact ⟨by decide, .inr ⟨by decide, .inl hs⟩⟩
  · have hkelvin : c = Char.ofNat 0x212A := by rw [← hc, Char.ofNat_toNat]
    subst hkelvin
    exact ⟨by decide, .inr ⟨by decide, .inr hk⟩⟩

theorem Folds.mem (h : Folds front word) : ∀ c ∈ front, ∃ w ∈ word, folds c w = true := by
  induction h with
  | nil => exact fun c hc => absurd hc not_mem_nil
  | @cons c w front word hfolds _ ih =>
    grind

theorem Folds.visible (h : Folds front word) (hword : ∀ w ∈ word, isPlain w = true) : ∀ c ∈ front, ' ' < c := by
  intro c hc
  obtain ⟨w, hw, hfolds⟩ := h.mem c hc
  exact (toLower_of_folds (hword w hw) hfolds).1

theorem Folds.map_toLower (h : Folds front word) (hword : ∀ w ∈ word, isPlain w = true)
    (hown : (∀ c ∈ front, isSchemeChar c = true) ∨ ∀ w ∈ word, w ≠ 's' ∧ w ≠ 'k') : front.map Char.toLower = word := by
  induction h with
  | nil => rfl
  | @cons c w front word hfolds _ ih =>
    have hrest := ih (fun w hw => hword w (mem_cons_of_mem _ hw))
      (hown.imp (fun h c hc => h c (mem_cons_of_mem _ hc)) fun h w hw => h w (mem_cons_of_mem _ hw))
    rw [map_cons, hrest]
    rcases (toLower_of_folds (hword w mem_cons_self) hfolds).2 with hlower | ⟨hscheme, hsk⟩
    · rw [hlower]
    · rcases hown with hown | hown
      · rw [hown c mem_cons_self] at hscheme
        cases hscheme
      · exact absurd hsk (not_or.mpr (hown w mem_cons_self))

theorem folds_colon (h : folds c ':' = true) : c = ':' := by
  simp only [folds, Bool.or_eq_true, Bool.and_eq_true, beq_iff_eq] at h
  rcases h with ((rfl | h) | ⟨hs, -⟩) | ⟨hk, -⟩
  · rfl
  · unfold Char.toLower at h
    split at h
    · next hupper =>
      have hval : c.val + 32 = 58 := congrArg Char.val h
      grind
    · exact h
  · exact absurd hs (by decide)
  · exact absurd hk (by decide)

theorem folds_of_colon (hw : isPlain w = true) (h : folds ':' w = true) : w = ':' := by
  rcases (toLower_of_folds hw h).2 with hlower | ⟨-, hsk⟩
  · exact hlower ▸ rfl
  · rcases hsk with rfl | rfl <;> exact absurd h (by decide)

theorem append_colon_inj {back : List Char} (hfront : ':' ∉ front) (hscheme : IsScheme scheme)
    (h : front ++ ':' :: back = scheme ++ ':' :: tail) : front = scheme ∧ back = tail := by
  have hcut : ∀ {l l' : List Char}, ':' ∉ l → (l ++ ':' :: l').takeWhile (· != ':') = l := by
    intro l l' hl
    rw [takeWhile_append_of_pos fun c hc => bne_iff_ne.mpr (ne_of_mem_of_not_mem hc hl)]
    simp
  have hcolon : ':' ∉ scheme := fun hmem => absurd (hscheme.isSchemeChar _ hmem) (by decide)
  have heq := congrArg (List.takeWhile (· != ':')) h
  rw [hcut hfront, hcut hcolon] at heq
  subst heq
  exact ⟨rfl, (List.cons.inj (append_cancel_left h)).2⟩

/-- A word with a colon that stands in front is the scheme that is seen, and what follows it is seen behind. -/
theorem seen_of_after? {name : List Char} (hname : ∀ w ∈ name, isPlain w = true ∧ w ≠ ':')
    (h : after? (name ++ ':' :: more) s = some rest) (hscheme : IsScheme scheme)
    (hseen : seen s = scheme ++ ':' :: tail) :
    scheme.map Char.toLower = name ∧ ∃ back, (after? more back).isSome = true ∧ tail = back.filter (!isSkipped ·) := by
  obtain ⟨front, back, rfl, hfront, hback⟩ := after?_append h
  have hplain : ∀ w ∈ name, isPlain w = true := fun w hw => (hname w hw).1
  cases back with
  | nil => cases hback
  | cons c back =>
    rw [after?] at hback
    split at hback
    · next hc =>
      obtain rfl := folds_colon hc
      have hvisible : ∀ c ∈ front ++ [':'], ' ' < c := by
        intro c hc
        rcases mem_append.mp hc with hc | hc
        · exact hfront.visible hplain c hc
        · rw [mem_singleton.mp hc]
          decide
      have hcolon : ':' ∉ front := by
        intro hmem
        obtain ⟨w, hw, hfolds⟩ := hfront.mem _ hmem
        exact (hname w hw).2 (folds_of_colon (hplain w hw) hfolds)
      rw [append_cons, seen_append hvisible (append_ne_nil_of_right_ne_nil _ (cons_ne_nil _ _)), append_assoc] at hseen
      obtain ⟨rfl, htail⟩ := append_colon_inj hcolon hscheme hseen
      exact ⟨hfront.map_toLower hplain (.inl hscheme.isSchemeChar), back, by rw [hback]; rfl, htail.symm⟩
    · cases hback

theorem not_seen_of_isRelative (h : isRelative s = true) (hscheme : IsScheme scheme) :
    seen s ≠ scheme ++ ':' :: tail := by
  intro hseen
  have hfind := (find?_seen s).trans (s.find?_eq_head?_dropWhile_not endsScheme)
  have hnone : scheme.find? endsScheme = none := by
    refine List.find?_eq_none.mpr fun c hc => ?_
    rw [endsScheme_of_isSchemeChar (hscheme.isSchemeChar c hc)]
    exact Bool.false_ne_true
  rw [hseen, List.find?_append, hnone] at hfind
  unfold isRelative at h
  cases hdrop : s.dropWhile (fun c => !endsScheme c) with
  | nil =>
    rw [hdrop] at hfind
    cases hfind
  | cons c rest =>
    rw [hdrop] at hfind h
    cases hfind
    exact absurd h Bool.false_ne_true

theorem safeSchemes_eq : ∀ word ∈ safeSchemes, ∃ name ∈ harmless, word.toList = name.toList ++ [':'] ∧ name ≠ "data" := by
  decide

theorem safeDataKinds_eq : ∀ word ∈ safeDataKinds, ∃ kind ∈ media,
    "data".toList ++ ':' :: (kind.toList ++ word.toList.drop (5 + kind.toList.length)) = word.toList := by
  decide

theorem harmless_plain {name : String} (h : name ∈ harmless) : ∀ w ∈ name.toList, isPlain w = true ∧ w ≠ ':' := by
  have hall : (harmless.all fun name => name.toList.all fun w => isPlain w && w != ':') = true := by decide
  intro w hw
  simpa using all_eq_true.mp (all_eq_true.mp hall name h) w hw

theorem media_plain {kind : String} (h : kind ∈ media) : ∀ w ∈ kind.toList, isPlain w = true ∧ w ≠ 's' ∧ w ≠ 'k' := by
  have hall : (media.all fun kind => kind.toList.all fun w => isPlain w && w != 's' && w != 'k') = true := by decide
  grind

theorem harmless_of_isSafe {url : String} (hsafe : isSafe url = true) (hscheme : IsScheme scheme)
    (hseen : seen url.toList = scheme ++ ':' :: tail) : Harmless scheme tail := by
  unfold isSafe isSafeLink isSafeData afterAny? at hsafe
  rw [Bool.or_eq_true, Bool.or_eq_true] at hsafe
  rcases hsafe with (hword | hrelative) | hdata
  · rw [Bool.not_eq_true', isEmpty_eq_false_iff] at hword
    obtain ⟨rest, hrest⟩ := exists_mem_of_ne_nil _ hword
    obtain ⟨word, hmem, hafter⟩ := mem_filterMap.mp hrest
    obtain ⟨name, hname, heq, hother⟩ := safeSchemes_eq word hmem
    rw [heq] at hafter
    exact ⟨name, hname, (seen_of_after? (harmless_plain hname) hafter hscheme hseen).1, fun h => absurd h hother⟩
  · exact absurd hseen (not_seen_of_isRelative hrelative hscheme)
  · obtain ⟨rest, hrest, -⟩ := any_eq_true.mp hdata
    obtain ⟨word, hmem, hafter⟩ := mem_filterMap.mp hrest
    obtain ⟨kind, hkind, heq⟩ := safeDataKinds_eq word hmem
    rw [← heq] at hafter
    have hname : "data" ∈ harmless := by decide
    obtain ⟨hlower, back, hback, htail⟩ := seen_of_after? (harmless_plain hname) hafter hscheme hseen
    refine ⟨"data", hname, hlower, fun _ => ⟨kind, hkind, ?_⟩⟩
    obtain ⟨rest', hrest'⟩ := Option.isSome_iff_exists.mp hback
    obtain ⟨front, more, rfl, hfront, -⟩ := after?_append hrest'
    have hplain : ∀ w ∈ kind.toList, isPlain w = true := fun w hw => (media_plain hkind w hw).1
    have hkept : front.filter (!isSkipped ·) = front :=
      filter_eq_self.mpr fun c hc => by rw [isSkipped_of_space_lt (hfront.visible hplain c hc), Bool.not_false]
    rw [htail, filter_append, hkept, map_append,
      hfront.map_toLower hplain (.inr fun w hw => (media_plain hkind w hw).2)]
    exact prefix_append _ _

/-- **No dangerous scheme gets through.** What a reader takes for the scheme of a sanitized URL is harmless, whatever
the URL is, which is kept or has `unsafe:` in front. -/
theorem scheme_sanitizeUrl (url : String) :
    (∀ scheme tail, seen (sanitizeUrl url).toList = scheme ++ ':' :: tail → IsScheme scheme → Harmless scheme tail) ∧
      (sanitizeUrl url = url ∨ sanitizeUrl url = "unsafe:" ++ url) := by
  refine ⟨fun scheme tail hseen hscheme => ?_, sanitizeUrl_eq url⟩
  unfold sanitizeUrl at hseen
  split at hseen
  · next hsafe => exact harmless_of_isSafe hsafe hscheme hseen
  · have hname : "unsafe" ∈ harmless := by decide
    have hsplit : ("unsafe:" ++ url).toList = "unsafe".toList ++ ':' :: url.toList := by
      rw [String.toList_append]
      rfl
    have hafter : after? ("unsafe".toList ++ [':']) ("unsafe:" ++ url).toList = some url.toList := by
      rw [hsplit]
      rfl
    refine ⟨"unsafe", hname, (seen_of_after? (harmless_plain hname) hafter hscheme hseen).1, fun h => ?_⟩
    exact absurd h (by decide)

theorem scheme_sanitizeUrl_data : Harmless "DATA".toList "Image/png;base64,AA==".toList :=
  (scheme_sanitizeUrl "DATA:Image/png;base64,AA==").1 _ _ (by decide +kernel) ⟨by decide, List.all_eq_true.mp (by decide)⟩

end MessageCompiler.Url
