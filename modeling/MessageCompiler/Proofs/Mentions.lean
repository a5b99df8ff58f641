/-
Where the bindings of a message come from.

The stream of a message refers to bindings that the message mentions (`Message.Mentions`). Those of its cases refer to
bindings that a text or an attribute in the markup of a case mentions, as it was read (`Message.CaseValue`), and the
message need not mention them.
-/
import Mathlib.Data.List.Infix
import MessageCompiler.Proofs.Owners

namespace MessageCompiler

open List
open Message (binding?)
open Text (Interleaved)

/-! ### Markers -/

def Message.Mentions (s : List Char) (i : Int) : Prop :=
  ∃ s' o n, s' <:+: s ∧ binding? s' = some (o, n) ∧ i = bindingIndex 0 o

instance (s : List Char) (i : Int) : Decidable (Message.Mentions s i) :=
  decidable_of_iff (∃ t ∈ s.tails, ∃ s' ∈ t.inits, ∃ x ∈ binding? s', i = bindingIndex 0 x.1) <| by
    constructor
    · rintro ⟨t, ht, s', hs', x, hx, hi⟩
      exact ⟨s', x.1, x.2, ((mem_inits ..).mp hs').isInfix.trans ((mem_tails ..).mp ht).isInfix, hx, hi⟩
    · rintro ⟨s', o, n, hs', hx, hi⟩
      obtain ⟨t, hinit, htail⟩ := infix_iff_prefix_suffix.mp hs'
      exact ⟨t, (mem_tails ..).mpr htail, s', (mem_inits ..).mpr hinit, (o, n), hx, hi⟩

theorem mentions_bindingUpdate {text : String} {index : Int} {target : Target} {i : Int}
    (h : .binding i ∈ (bindingUpdate text index target 0).parts) : Message.Mentions text.toList i := by
  obtain ⟨front, o, hmem, rfl⟩ := mem_bindingParts h
  obtain ⟨-, s, n, hs, hfound⟩ := (Interleaved.foundIn_splitBy _ _).1 _ _ hmem
  exact ⟨s, o, n, hs, hfound, rfl⟩

theorem heritable_mentions (whole : List Char) : Message.Heritable (Message.Mentions whole) (· <:+: whole) where
  part h ht := h.trans ht
  main {s o n i} hs hbinding hvalue := by
    obtain ⟨hnonneg, hle⟩ := Message.value?_nonneg hbinding hvalue
    refine ⟨s, o, n, hs, hbinding, ?_⟩
    unfold bindingIndex
    rw [hvalue]
    exact (wrap_of_range (by omega) (by omega)).symm.trans (congrArg wrap (Int.zero_add i).symm)

def UpdateOp.Mentioned (V : String → Prop) (op : UpdateOp) : Prop :=
  ∀ i, .binding i ∈ op.parts → ∃ value, V value ∧ Message.Mentions value.toList i

theorem mentioned_textUpdate {V : String → Prop} {slot : Nat} {value : String} (h : V value) :
    ∀ op ∈ textUpdate slot value, op.Mentioned V := by
  intro op hop i hi
  unfold textUpdate at hop
  split at hop
  · rw [mem_singleton.mp hop] at hi
    exact ⟨value, h, mentions_bindingUpdate hi⟩
  · cases hop

theorem mentioned_boundAttrs {V : String → Prop} {cfg : Config} {slot : Nat} {attrs : List Markup.Attr}
    (h : ∀ a ∈ attrs, V a.value) : ∀ op ∈ (boundAttrs cfg attrs).map (·.op slot), op.Mentioned V := by
  intro op hop i hi
  obtain ⟨b, hb, rfl⟩ := mem_map.mp hop
  obtain ⟨a, ha, hbound⟩ := mem_filterMap.mp hb
  have hvalue : b.value = a.value := by
    dsimp only at hbound
    split at hbound
    · split at hbound <;> cases hbound
      rfl
    · cases hbound
  exact ⟨b.value, hvalue ▸ h a ha, mentions_bindingUpdate hi⟩

/-! ### Messages -/

/-- A text or the value of an attribute that is read from the markup of a case, of an expression at any depth in a part
of the message. -/
def Message.CaseValue (cfg : Config) (whole : List Char) (value : String) : Prop :=
  ∃ text segments, text <:+: whole ∧ (split text).result = .ok segments ∧ ∃ e ∈ Segment.all segments, ∃ case ∈ e.cases,
    value ∈ valuesIn (cfg.nodesOf (caseMarkup 0 case.body))

section Items

variable {cfg : Config} {site : Site} {whole text : List Char} {item : RootItem}

/-- An item of a part of the message is a text of it, or stands for an expression with such bindings and values. -/
theorem RootItem.PlannedFor.cases (htext : text <:+: whole) (h : item.PlannedFor cfg site text) :
    (∃ slot s eager, item = .text slot s eager ∧ s.toList <:+: whole) ∨
      ∃ slot label e m eager, item = .icu slot label (planIcu cfg e m).1 eager ∧
        e.Every (Message.Mentions whole) fun body => ∀ value ∈ valuesIn (cfg.nodesOf (caseMarkup 0 body)),
          Message.CaseValue cfg whole value := by
  obtain ⟨segments, eager, n, hsplit, hitem⟩ := h
  obtain ⟨htidy, hevery⟩ := Message.parses_split (heritable_mentions whole) htext hsplit
  obtain ⟨_, hmem, ⟨slot, s, rfl, rfl⟩ | ⟨slot, label, e, m, rfl, rfl⟩⟩ := mem_planSegments hitem
  · exact .inl ⟨slot, s, eager, rfl, htidy.texts s hmem⟩
  · refine .inr ⟨slot, label, e, m, eager, rfl, e.every_iff.mpr fun x hx => ?_⟩
    have hall := Segment.mem_all hmem hx
    exact ⟨((Segment.every_iff segments).mp hevery x hall).1,
      fun case hcase value hvalue => ⟨text, segments, htext, hsplit, x, hall, case, hcase, hvalue⟩⟩

end Items

/-- **Bindings are mentioned.** The stream of an accepted message refers to bindings that the message mentions. What a case
refers to is mentioned by a text or the value of an attribute in the markup of a case, as it was read. -/
theorem mentions_of_compile {t : TemplateView} (ht : t.Reachable) {cfg : Config} {site : Site} {message : String}
    {scope : Message.Scope} {handle : Handle} (hslot : ∀ serial block, t.slot? site.index ≠ some (.block serial block))
    (hok : (t.compile cfg site message scope).result = .ok handle) :
    ∃ part, Message.partFor scope message.toList = .ok part ∧
      (∀ op ∈ handle.block.update, ∀ i, .binding i ∈ op.parts → Message.Mentions (releaseSpaces part) i) ∧
      ∀ x ∈ t.registered (t.compile cfg site message scope).view, ∀ c ∈ x.2.cases, ∀ op ∈ c.update,
        op.Mentioned (Message.CaseValue cfg (releaseSpaces part)) := by
  obtain ⟨part, items, hpart, hcompiled, hitems, -⟩ := exists_planned ht.sound hslot hok
  refine ⟨part, hpart, fun op hop i hi => ?_, fun x hx c hc op hop => ?_⟩
  · rw [hcompiled.update_eq] at hop
    obtain ⟨item, hitem, hop⟩ := mem_flatMap.mp hop
    obtain ⟨text, htext, hplanned⟩ := hitems item hitem
    rcases hplanned.cases htext with ⟨slot, s, eager, rfl, hs⟩ | ⟨slot, label, e, m, eager, rfl, hevery⟩
    · obtain ⟨value, rfl, s', o, n, hs', h⟩ := mentioned_textUpdate (V := (· = s)) rfl op hop i hi
      exact ⟨s', o, n, hs'.trans hs, h⟩
    · obtain ⟨x, hx, hupdates⟩ := (planIcu cfg e m).1.mem_stream 0 slot hop
      have hchoices := descends_choices.post (choices_planIcu cfg e m hevery) x hx
      cases hupdates with
      | switch =>
        cases mem_singleton.mp hi
        exact hchoices _ mem_cons_self
      | update hop =>
        rw [eq_of_mem_updateOps hop] at hi
        cases hi
  · obtain ⟨post, hpost, rfl⟩ := mem_map.mp ((hcompiled.perm_registered ht.indexed).mem_iff.mp hx)
    obtain ⟨item, hitem, hpost⟩ := mem_flatMap.mp hpost
    obtain ⟨text, htext, hplanned⟩ := hitems item hitem
    rcases hplanned.cases htext with ⟨slot, s, eager, rfl, hs⟩ | ⟨slot, label, e, m, eager, rfl, hevery⟩
    · cases hpost
    · have hm : Making cfg (Message.Mentions (releaseSpaces part)) (Message.CaseValue cfg (releaseSpaces part)) _ _ _ :=
        making_ops (K := fun _ => True) (fun _ _ => trivial) (fun _ _ _ => trivial) (fun _ _ => mentioned_textUpdate)
          fun _ _ => mentioned_boundAttrs
      exact (hm.expression (fun _ h => h) e m hevery site.parent slot post hpost c hc).2 op hop

/-- A message with references to the character that markers are made of. -/
def referenceMessage : String := "\x7b\uFFFD1\uFFFD, select, other \x7b&#65533;5&#65533;\x7d\x7d"

theorem mentions_of_compile_reference :
    let t := TemplateView.new 4 1
    let o := t.compile .standard ⟨-1, 22⟩ referenceMessage .root
    ∃ handle part, o.result = .ok handle ∧ Message.partFor .root referenceMessage.toList = .ok part ∧
      (∀ op ∈ handle.block.update, ∀ i, .binding i ∈ op.parts → Message.Mentions (releaseSpaces part) i) ∧
      ∀ x ∈ t.registered o.view, ∀ c ∈ x.2.cases, ∀ op ∈ c.update,
        op.Mentioned (Message.CaseValue .standard (releaseSpaces part)) := by
  intro t o
  cases hok : o.result with
  | error e =>
    have hfine : o.result.isOk = true := by decide +kernel
    rw [hok] at hfine
    cases hfine
  | ok handle =>
    obtain ⟨part, h⟩ := mentions_of_compile (.new 4 1) (fun _ _ hslot => by cases hslot) hok
    exact ⟨handle, part, rfl, h⟩

/-- **A binding that the message does not mention.** -/
theorem not_mentions_reference :
    let o := (TemplateView.new 4 1).compile .standard ⟨-1, 22⟩ referenceMessage .root
    ((TemplateView.new 4 1).registered o.view).map (fun x => x.2.cases.map fun c =>
        c.update.map (·.parts.filterMap Part.binding?)) = [[[[5]]]] ∧
      ¬ Message.Mentions referenceMessage.toList 5 := by
  decide +kernel

end MessageCompiler
