/-
Messages without placeholders.

A message that has neither elements nor sub-templates is not cut into pieces, whatever spaces are kept in it:
its root items are those for the segments of its text.

* **`Message.partFor_root`** — the root template gets all of such a message.
* **`occurs_releaseSpaces`** — writing kept spaces as spaces makes no placeholder and breaks none.
-/
import MessageCompiler.Proofs.Denotation
import MessageCompiler.Proofs.PlannedMessage

namespace MessageCompiler

open List

/-! ### Texts without placeholders -/

namespace Message

open Text (isDigit)

theorem occurs_eq_false {α β : Type} {item? : List Char → Option (α × Nat)}
    {other? : List Char → Option (β × Nat)} (h : ∀ s, (other? s).isSome = true → (item? s).isSome = true) :
    ∀ {s : List Char}, occurs item? s = false → occurs other? s = false
  | [], _ => rfl
  | c :: s, hs => by
    rw [occurs, Bool.or_eq_false_iff] at hs ⊢
    refine ⟨?_, occurs_eq_false h hs.2⟩
    rw [← Bool.not_eq_true]
    intro hother
    rw [h _ hother] at hs
    cases hs.1

theorem Ordinal.isSome_read? {s rest : List Char} (hdigits : s.takeWhile isDigit ≠ [])
    (hrest : s.dropWhile isDigit = ':' :: rest) (hcloses : closes (rest.dropWhile isDigit) = true) :
    (Ordinal.read? s).isSome = true := by
  have hdrop : rest.drop (rest.takeWhile isDigit).length = rest.dropWhile isDigit := by
    have hparts := takeWhile_append_dropWhile (p := isDigit) (l := rest)
    generalize rest.takeWhile isDigit = digits, rest.dropWhile isDigit = after at hparts ⊢
    rw [← hparts, drop_left]
  unfold Ordinal.read?
  dsimp only
  rw [hrest, suffixOf, length_cons, drop_succ_cons, hdrop, hcloses, Bool.and_true, if_pos]
  · rfl
  · simpa using hdigits

theorem Border.isSome_placeholder {s : List Char} (h : (Border.read? s).isSome = true) :
    (Placeholder.read? s).isSome = true := by
  cases s with
  | nil => cases h
  | cons c s =>
    rw [Border.read?] at h
    rw [Placeholder.read?]
    split at h
    · next hmark =>
      rw [if_pos hmark]
      dsimp only at h ⊢
      split at h
      · next s' hs =>
        split at h
        · next rest hrest =>
          split at h
          · next hcond =>
            simp only [Bool.and_eq_true, Bool.not_eq_true', isEmpty_eq_false_iff] at hcond
            rw [hs, Placeholder.splitKind?]
            dsimp only
            rw [Option.isSome_map]
            exact Ordinal.isSome_read? hcond.1.1 hrest hcond.2
          · cases h
        · cases h
      · cases h
    · cases h

theorem partFor_root {s : List Char} (h : occurs Placeholder.read? s = false) : partFor .root s = .ok s := by
  have hsplit : splitBorders s = ⟨[], s⟩ :=
    Text.Interleaved.splitBy_of_not_occurs (occurs_eq_false (fun _ => Border.isSome_placeholder) h)
  unfold partFor emptied emptyRegions
  rw [hsplit]
  rfl

end Message

/-! ### Kept spaces -/

section ReleaseSpaces

open Message
open Text (isDigit)

theorem releaseSpaces_cons {c : Char} (hc : c ≠ keptSpace) (s : List Char) :
    releaseSpaces (c :: s) = c :: releaseSpaces s :=
  congrArg (· :: releaseSpaces s) (if_neg hc)

theorem releaseSpaces_cases {P : List Char → List Char → Prop} (nil : P [] [])
    (kept : ∀ s, P (keptSpace :: s) (' ' :: releaseSpaces s))
    (other : ∀ c s, c ≠ keptSpace → P (c :: s) (c :: releaseSpaces s)) (s : List Char) :
    P s (releaseSpaces s) := by
  cases s with
  | nil => exact nil
  | cons c s =>
    by_cases hc : c = keptSpace
    · rw [hc]
      exact kept s
    · rw [releaseSpaces_cons hc]
      exact other c s hc

theorem span_releaseSpaces : ∀ s : List Char, (releaseSpaces s).takeWhile isDigit = s.takeWhile isDigit ∧
    (releaseSpaces s).dropWhile isDigit = releaseSpaces (s.dropWhile isDigit)
  | [] => ⟨rfl, rfl⟩
  | c :: s => by
    obtain ⟨htake, hdrop⟩ := span_releaseSpaces s
    by_cases hc : c = keptSpace
    · rw [hc]
      exact ⟨rfl, rfl⟩
    · rw [releaseSpaces_cons hc, takeWhile_cons, takeWhile_cons, dropWhile_cons, dropWhile_cons, htake, hdrop]
      refine ⟨rfl, ?_⟩
      split
      · rfl
      · rw [releaseSpaces_cons hc]

section

variable (s : List Char)

theorem closes_releaseSpaces : Ordinal.closes (releaseSpaces s) = Ordinal.closes s :=
  releaseSpaces_cases (P := fun s s' => Ordinal.closes s' = Ordinal.closes s) rfl (fun _ => rfl) (fun _ _ _ => rfl) s

theorem suffixOf_releaseSpaces : Ordinal.suffixOf (releaseSpaces s) = Ordinal.suffixOf s := by
  refine releaseSpaces_cases (P := fun s s' => Ordinal.suffixOf s' = Ordinal.suffixOf s) rfl (fun _ => rfl)
    (fun c s _ => ?_) s
  by_cases hcolon : c = ':'
  · rw [hcolon]
    exact congrArg (':' :: ·) (span_releaseSpaces s).1
  · simp [Ordinal.suffixOf, hcolon]

theorem ordinal_releaseSpaces : Ordinal.read? (releaseSpaces s) = Ordinal.read? s := by
  have hdrop : ∀ n l, (releaseSpaces l).drop n = releaseSpaces (l.drop n) := fun n l => map_drop.symm
  simp_all [span_releaseSpaces, suffixOf_releaseSpaces, closes_releaseSpaces, Ordinal.read?]

theorem splitSlash_releaseSpaces : Placeholder.splitSlash (releaseSpaces s) =
    ((Placeholder.splitSlash s).1, releaseSpaces (Placeholder.splitSlash s).2) := by
  refine releaseSpaces_cases (P := fun s s' => Placeholder.splitSlash s' =
    ((Placeholder.splitSlash s).1, releaseSpaces (Placeholder.splitSlash s).2)) rfl (fun _ => rfl)
    (fun c s hc => ?_) s
  by_cases hslash : c = '/'
  · rw [hslash]
    rfl
  · simp [Placeholder.splitSlash, hslash, releaseSpaces_cons hc]

theorem splitKind?_releaseSpaces : Placeholder.splitKind? (releaseSpaces s) =
    (Placeholder.splitKind? s).map fun found => (found.1, releaseSpaces found.2) := by
  refine releaseSpaces_cases (P := fun s s' => Placeholder.splitKind? s' =
    (Placeholder.splitKind? s).map fun found => (found.1, releaseSpaces found.2)) rfl (fun _ => rfl)
    (fun c s _ => ?_) s
  by_cases helement : c = '#'
  · rw [helement]
    rfl
  · by_cases hsub : c = '*'
    · rw [hsub]
      rfl
    · simp [Placeholder.splitKind?, helement, hsub]

theorem placeholder_releaseSpaces : Placeholder.read? (releaseSpaces s) = Placeholder.read? s := by
  refine releaseSpaces_cases (P := fun s s' => Placeholder.read? s' = Placeholder.read? s) rfl (fun _ => rfl)
    (fun c s _ => ?_) s
  rw [Placeholder.read?, Placeholder.read?, splitSlash_releaseSpaces]
  dsimp only
  rw [splitKind?_releaseSpaces]
  cases Placeholder.splitKind? (Placeholder.splitSlash s).2 with
  | none => rfl
  | some found =>
    dsimp only [Option.map_some]
    rw [ordinal_releaseSpaces]

end

theorem occurs_releaseSpaces : ∀ s : List Char, occurs Placeholder.read? (releaseSpaces s) = occurs Placeholder.read? s
  | [] => rfl
  | c :: s => by
    have hhead := placeholder_releaseSpaces (c :: s)
    show ((Placeholder.read? (releaseSpaces (c :: s))).isSome || occurs _ (releaseSpaces s)) = _
    rw [hhead, occurs_releaseSpaces s, occurs]

end ReleaseSpaces

/-! ### Compiling a message without placeholders -/

open TemplateView Steps in
theorem compiled_planSegments {t : TemplateView} (hs : t.Sound) {cfg : Config} {site : Site} {message : String}
    {handle : Handle} (hslot : ∀ serial block, t.slot? site.index ≠ some (.block serial block))
    (hmessage : Message.occurs Message.Placeholder.read? message.toList = false)
    (h : (t.compile cfg site message .root).result = .ok handle) :
    ∃ segments, (Message.split (releaseSpaces message.toList)).result = .ok segments ∧
      Compiled t (t.compile cfg site message .root).view handle.block site.parent
        (planSegments cfg site true segments t.size).1 := by
  obtain ⟨part, p, hpass, hview, rfl⟩ := exists_compiling hslot h
  have hpart := hpass.part_eq
  rw [Message.partFor_root hmessage] at hpart
  cases hpart
  have hparts : Message.splitPlaceholders (releaseSpaces message.toList) = ⟨[], releaseSpaces message.toList⟩ := by
    refine Text.Interleaved.splitBy_of_not_occurs ?_
    rw [occurs_releaseSpaces, hmessage]
  have htraverses := traverses_compileScoped hpass.run
  rw [hparts] at htraverses
  cases htraverses with
  | done hrun =>
    obtain ⟨segments, hsplit, hlaid⟩ := laid_compileRun hrun
    have hchoices := choices_planSegments cfg site true segments t.size
      (Message.every_split (fun _ hc => hc) hsplit).2
    rw [hview]
    exact ⟨segments, hsplit, hlaid.compiled hs.bounded (hpass.grows.bounded hs.bounded) hpass.index.2 hchoices⟩

end MessageCompiler
