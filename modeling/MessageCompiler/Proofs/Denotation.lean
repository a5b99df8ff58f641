/-
What a message means.

A text means itself with values in the place of its binding markers. An expression means the case that is
chosen by the value of its main binding: the first with that label, or with the label of its plural
category, or with the label `other`.

* **`chooseCase_eq`** — a running message chooses the case whose meaning counts.
* **`textContent_eq`** — a text node shows the meaning of its text.
-/
import MessageCompiler.Proofs.Shows

namespace MessageCompiler

open Text (Interleaved isDigit)

/-! ### Meaning -/

/-- The value with the number of the marker; nothing if there are not so many values. -/
def Message.Ordinal.denote (values : List String) (o : Message.Ordinal) : String :=
  (values[Text.natOfDigits o.digits]?).getD ""

def denoteText (values : List String) (text : String) : String :=
  let parts := Message.splitBindings text.toList
  parts.items.foldr (fun part rest => String.ofList part.1 ++ (part.2.denote values ++ rest))
    (String.ofList parts.last)

def IcuKind.candidates (kind : IcuKind) (locale : Locale) (value : String) : List String :=
  match kind with
  | .select => [value, "other"]
  | .plural => value :: ((Plural.category? locale value).toList.map (·.name) ++ ["other"])
  | .exact => [value]

mutual

/-- The meaning of an expression; nothing if it has none of the labels it looks for. -/
def Icu.denote (locale : Locale) (values : List String) : Icu → String
  | .mk kind main cases =>
    match (kind.candidates locale (values[main.toNat]?.getD "")).find? (cases.map Case.label).contains with
    | some label => Case.denote locale values label cases
    | none => ""

def Case.denote (locale : Locale) (values : List String) (label : String) : List Case → String
  | [] => ""
  | .mk l body :: rest =>
    if l = label then Segment.denote locale values body else Case.denote locale values label rest

def Segment.denote (locale : Locale) (values : List String) : List Segment → String
  | [] => ""
  | .text s :: rest => denoteText values s ++ Segment.denote locale values rest
  | .icu e :: rest => e.denote locale values ++ Segment.denote locale values rest

end

/-! ### Choosing a case -/

theorem labelAt?_eq_none {labels : List String} {label : String} :
    labelAt? labels label = none ↔ labels.contains label = false := by
  rw [labelAt?, List.findIdx?_eq_none_iff, ← Bool.not_eq_true, List.contains_iff_mem]
  exact ⟨fun h hmem => by simpa using h label hmem, fun h l hl => by
    rw [beq_eq_false_iff_ne]
    rintro rfl
    exact h hl⟩

theorem findSome?_labelAt? (labels : List String) : ∀ candidates : List String,
    candidates.findSome? (labelAt? labels) = (candidates.find? labels.contains).bind (labelAt? labels)
  | [] => rfl
  | label :: rest => by
    rw [List.findSome?_cons, List.find?_cons]
    cases hlabel : labelAt? labels label with
    | none =>
      rw [labelAt?_eq_none.mp hlabel]
      exact findSome?_labelAt? labels rest
    | some k =>
      have hmem : labels.contains label = true := by
        rw [← Bool.not_eq_false, ← labelAt?_eq_none, hlabel]
        exact Option.some_ne_none k
      rw [hmem]
      exact hlabel.symm

theorem chooseCase_eq (kind : IcuKind) (locale : Locale) (labels : List String) (value : String) :
    chooseCase kind locale labels value =
      ((kind.candidates locale value).find? labels.contains).bind (labelAt? labels) := by
  rw [← findSome?_labelAt?]
  unfold chooseCase
  cases hvalue : labelAt? labels value with
  | some i => cases kind <;> simp only [IcuKind.candidates, List.findSome?_cons, hvalue]
  | none =>
    cases kind with
    | select => simp [IcuKind.candidates, hvalue]
    | exact => simp [IcuKind.candidates, hvalue]
    | plural =>
      cases hcategory : Plural.category? locale value with
      | none => simp [IcuKind.candidates, hvalue, hcategory]
      | some c =>
        simp only [IcuKind.candidates, hvalue, hcategory, Option.toList_some, List.map_cons, List.map_nil,
          List.cons_append, List.nil_append, List.findSome?_cons, List.findSome?_nil, Option.bind_some]
        cases labelAt? labels c.name <;> cases labelAt? labels "other" <;> rfl

/-! ### Texts -/

section

variable {values : List String} (hvalues : values.length ≤ 2147483647)
include hvalues

/-- The instructions for markers refer to the values that the markers mean. Numbers that are too large for
64 bits refer to a value behind the last one. -/
theorem valueAt_bindingIndex {s : List Char} {o : Message.Ordinal} {n : Nat} (h : Message.binding? s = some (o, n)) :
    valueAt values (bindingIndex 0 o) = o.denote values := by
  have hvalue : o.value? = _ := Text.readInt?_of_digits (Message.binding?_ne_nil h) (Message.binding?_digits h)
  unfold bindingIndex valueAt Message.Ordinal.denote
  rw [hvalue]
  by_cases hle : Text.natOfDigits o.digits ≤ 9223372036854775807
  · rw [if_pos hle]
    dsimp only
    rw [Int.zero_add, wrap_of_range (by omega) (by omega), Int.toNat_natCast]
  · grind

theorem joined_splitBindings (text : String) :
    joined values (bindingParts 0 (Message.splitBindings text.toList)) = denoteText values text := by
  rw [joined_bindingParts]
  refine List.foldr_ext _ _ _ fun part hpart rest => ?_
  obtain ⟨-, s, n, -, hfound⟩ := (Interleaved.foundIn_splitBy _ _).1 _ _ hpart
  rw [valueAt_bindingIndex hvalues hfound]

theorem textContent_eq (slot : Nat)
    (text : String) : textContent (some values) slot text = .text (denoteText values text) := by
  unfold textContent textUpdate initialText
  cases hbinding : Message.hasBinding text.toList with
  | true =>
    show Markup.Content.text (joined values (bindingParts 0 (Message.splitBindings text.toList))) = _
    rw [joined_splitBindings hvalues]
  | false =>
    have hsplit : Message.splitBindings text.toList = ⟨[], text.toList⟩ :=
      Interleaved.splitBy_of_not_occurs hbinding
    show Markup.Content.text text = _
    simp_all [String.ofList_toList, denoteText]

end

end MessageCompiler
