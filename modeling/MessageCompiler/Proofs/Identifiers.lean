/-
Which messages of a catalogue can be read by their identifiers.

The path of an identifier has its special characters escaped, so that it is read back as the identifier, unless it
starts a selector: an opening bracket with something behind it is not escaped.

* **`message_of_tables`** — what a path without a selector finds is what the table holds under the identifier.
* **`afterSelector?_escape`** — what a selector leaves of a path is the path of a shorter identifier.
-/
import Mathlib.Data.List.Nodup
import MessageCompiler.Catalogue.Basic

namespace MessageCompiler.Catalogue

open List

/-- The identifier starts with an opening bracket, and something stands behind it. -/
def Selects (id : String) : Prop := ∃ c rest, id.toList = c :: rest ∧ (c = '[' ∨ c = '\x7b') ∧ rest ≠ []

/-- The message that a value under an identifier stands for. -/
def stored (id : String) : Json → Except CatalogueError String
  | .str s => .ok s
  | _ => .error (.notText id)

/-- Every value of the table is read by its identifier, and nothing else is. -/
def Readable (c : Catalogue) (members : List (String × Json)) (id : String) : Prop :=
  (∀ value, (id, value) ∈ members → c.message id = stored id value) ∧
    (id ∉ c.ids → c.message id = .error (.missing id))

variable {c : Catalogue} {members : List (String × Json)} {id : String} {s path : List Char}

theorem escape_eq_nil (h : escape s = []) : s = [] := by
  cases s with
  | nil => rfl
  | cons d s =>
    rw [escape] at h
    split at h <;> cases h

theorem selector?_escape (h : ¬Selects id) : selector? (escape id.toList) = none := by
  cases hid : id.toList with
  | nil => rfl
  | cons d s =>
    rw [escape]
    split
    · rfl
    · rw [selector?]
      split
      · next hselect =>
        simp only [Bool.and_eq_true, Bool.or_eq_true, beq_iff_eq, Bool.not_eq_true', isEmpty_eq_false_iff] at hselect
        exact absurd ⟨d, s, hid, hselect.1, fun hs => hselect.2 (by rw [hs]; rfl)⟩ h
      · rfl

/-- A path without a selector finds what the table holds under the identifier. -/
theorem message_of_tables (htables : c.tables = [.obj members]) (h : ¬Selects id) :
    c.message id = ((members.lookup id).map (stored id)).getD (.error (.missing id)) := by
  have hlookup : lookup? (escape id.toList) (.obj members) = members.lookup id := by
    rw [lookup?, unescape_escape, String.ofList_toList]
  rw [message, find, selector?_escape h, htables, findSome?_cons, hlookup]
  cases members.lookup id with
  | none => rfl
  | some value => cases value <;> rfl

theorem lookup_of_mem {value : Json} (hkeys : (members.map Prod.fst).Nodup) (h : (id, value) ∈ members) :
    members.lookup id = some value := by
  induction members with
  | nil => cases h
  | cons q members ih =>
    obtain ⟨hq, hkeys⟩ := nodup_cons.mp hkeys
    rw [lookup_cons]
    rcases mem_cons.mp h with rfl | h
    · rw [beq_self_eq_true]
    · have hne : id ≠ q.1 := fun heq => hq (heq ▸ mem_map_of_mem h)
      rw [beq_eq_false_iff_ne.mpr hne]
      exact ih hkeys h

theorem readable_of_not_selects (htables : c.tables = [.obj members]) (hkeys : (members.map Prod.fst).Nodup)
    (h : ¬Selects id) : Readable c members id := by
  refine ⟨fun value hvalue => ?_, fun hid => ?_⟩
  · rw [message_of_tables htables h, lookup_of_mem hkeys hvalue]
    rfl
  · rw [ids, htables] at hid
    have hnone : members.lookup id = none := by
      refine lookup_eq_none_iff.mpr fun q hq => bne_iff_ne.mpr ?_
      rintro rfl
      exact hid (mem_map_of_mem hq)
    rw [message_of_tables htables h, hnone]
    rfl

/-- Behind a character that is no backslash the search for the closing bracket ends or goes on. -/
theorem afterSelector?_cons {depth : Nat} {quoted : Bool} {d : Char} (hd : d ≠ '\\')
    (h : afterSelector? depth quoted (d :: s) = some path) :
    path = s ∨ ∃ depth quoted, afterSelector? depth quoted s = some path := by
  rw [afterSelector?.eq_4 _ _ _ _ (by grind) (by grind)] at h
  grind

/-- What a selector leaves of a path is the path of a shorter identifier. -/
theorem afterSelector?_escape {depth : Nat} {quoted : Bool} (h : afterSelector? depth quoted (escape s) = some path) :
    ∃ t, path = escape t ∧ t.length < s.length := by
  induction s generalizing depth quoted with
  | nil => simp [escape, afterSelector?] at h
  | cons d s ih =>
    rw [escape] at h
    split at h
    · rw [afterSelector?] at h
      obtain ⟨t, rfl, ht⟩ := ih h
      exact ⟨t, rfl, Nat.lt_succ_of_lt ht⟩
    · next hd =>
      have hne : d ≠ '\\' := by
        rintro rfl
        exact hd rfl
      rcases afterSelector?_cons hne h with rfl | ⟨_, _, h⟩
      · exact ⟨s, rfl, Nat.lt_succ_self _⟩
      · obtain ⟨t, rfl, ht⟩ := ih h
        exact ⟨t, rfl, Nat.lt_succ_of_lt ht⟩

/-- The catalogue with one message. -/
def single (id : String) (text : String) : Catalogue := ⟨.obj [(tableName, .obj [(id, .str text)])]⟩

/-- A text under an identifier that selects is never found. -/
theorem message_single_ne (h : Selects id) (text : String) : (single id text).message id ≠ .ok text := by
  obtain ⟨d, rest, hid, hd, hrest⟩ := h
  have hlookup (path : List Char) (hpath : (unescape path).length ≤ rest.length) :
      (single id text).tables.head?.bind (lookup? path) = none := by
    have hne : String.ofList (unescape path) ≠ id := by
      rintro rfl
      rw [String.toList_ofList] at hid
      rw [hid] at hpath
      exact absurd hpath (Nat.not_succ_le_self _)
    show lookup _ [(id, Json.str text)] = none
    rw [lookup_cons, beq_eq_false_iff_ne.mpr hne]
    rfl
  have hselector : selector? (escape id.toList) = some (escape rest) := by
    have hne := mt escape_eq_nil hrest
    rcases hd with rfl | rfl <;> simp [hid, escape, isSpecial, selector?, hne]
  have hfind : (single id text).findSelected (escape rest) ≠ .text text := by
    rw [findSelected]
    dsimp only [single]
    split
    · intro h
      cases h
    · next path hpath =>
      obtain ⟨t, rfl, ht⟩ := afterSelector?_escape hpath
      have hnone := hlookup (escape t) (by rw [unescape_escape]; exact Nat.le_of_lt ht)
      rw [single] at hnone
      rw [hnone]
      intro h
      cases h
    · have hnone := hlookup [] (Nat.zero_le _)
      rw [single] at hnone
      rw [hnone]
      intro h
      cases h
  intro hmessage
  rw [message, find, hselector] at hmessage
  dsimp only at hmessage
  split at hmessage
  · cases hmessage
  · cases hmessage
  · next found hfound =>
    cases hmessage
    exact hfind hfound

/-- The identifiers that can be read in every table with distinct names are those that do not select. -/
theorem readable_iff (id : String) :
    (∀ (c : Catalogue) (members : List (String × Json)), c.tables = [.obj members] →
      (members.map Prod.fst).Nodup → Readable c members id) ↔ ¬Selects id := by
  refine ⟨fun h hselects => ?_, fun h c members htables hkeys => readable_of_not_selects htables hkeys h⟩
  exact message_single_ne hselects "" ((h (single id "") _ rfl (nodup_singleton id)).1 _ mem_cons_self)

/-- The identifier is there and its value is a text, which is not found. -/
theorem message_selecting : "[a" ∈ (single "[a" "x").ids ∧
    (single "[a" "x").message "[a" = .error (.missing "[a") ∧ stored "[a" (.str "x") = .ok "x" :=
  ⟨mem_cons_self, rfl, rfl⟩

end MessageCompiler.Catalogue
