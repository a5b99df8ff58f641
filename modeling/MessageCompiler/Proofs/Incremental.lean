/-
Updating a message and rendering it from scratch.

A running message only runs the instructions that wait for a binding that has changed. What it shows is
what a new view shows at once for the same values, unless an element of a case sets one attribute by two
instructions of which only the first waits for the binding that has changed.
-/
import Mathlib.Data.List.Infix
import MessageCompiler.Command.Render
import MessageCompiler.Proofs.Updating

namespace MessageCompiler

open Live LiveView

def LiveBlock.prepare (t : TemplateView) (block : Block) (placeholders : List (Int × String)) :
    LiveM LiveBlock := do
  let b ← LiveBlock.start block
  placeholders.forM (attachNew t)
  return b

/-- The nodes inside a new host after the message was prepared and values were bound. -/
def rendered (t : TemplateView) (block : Block) (host : String) (locale : Locale)
    (placeholders : List (Int × String)) (updates : List (List String)) :
    Except Fault (List Markup.Node) :=
  match (LiveBlock.prepare t block placeholders >>= fun b => b.updateAll t updates).run
      ⟨.new t (some host) locale, [], []⟩ with
  | .ok _ r => .ok (Command.hostNodes r.view)
  | .error e _ => .error e

instance (t : TemplateView) (s : Nat) : Decidable (SteadyAt t s) :=
  inferInstanceAs (Decidable (∀ icu ∈ t.icu? s, ∀ c ∈ icu.cases, steady c.update = true))

instance (t : TemplateView) (locale : Locale) (values : List String) (block : Block) :
    Decidable (block.Decided t locale values) :=
  inferInstanceAs (Decidable (∀ op ∈ block.update, op.target = .icuSwitch → ∀ icu ∈ t.icu? op.index,
    icu.kind = .plural → Plural.category? locale (joined values op.parts) ≠ none))

section Rendered

variable {t : TemplateView} {block : Block} {parent : Int} {items : List RootItem} {locale : Locale}

theorem yields_prepare (h : Installed t block parent items) (host : String) (placeholders : List (Int × String)) :
    Yields (LiveBlock.prepare t block placeholders) (.new t (some host) locale) fun b v =>
      b = ⟨block, .ofShown none⟩ ∧ v.Prepared 0 items t.size locale := by
  refine (yields_start_new h.create_eq h.nodup h.lt host).bind ?_
  rintro _ v ⟨rfl, hv⟩
  refine (yields_attachAll (fun item hitem => (h.registered item hitem).type_ne) placeholders v hv).bind ?_
  exact fun _ _ hv' => yields_pure ⟨rfl, hv'⟩

theorem exists_rendered (h : Installed t block parent items) (ht : 0 < t.size) {host : String}
    {placeholders : List (Int × String)} {Q : LiveView → Prop}
    (hprepare : Yields (LiveBlock.prepare t block placeholders) (.new t (some host) locale) fun b v =>
      b = ⟨block, .ofShown none⟩ ∧ Q v) (hQ : ∀ v, Q v → v.Prepared 0 items t.size locale) :
    ∃ base : LiveView, Q base ∧ ∀ updates : List (List String), updates ≠ [] →
      (∀ history, history <+: updates → history ≠ [] → block.Decided t locale (history.foldl rebound [])) →
      ∃ v, Standing 0 items base (some (updates.foldl rebound [])) v ∧
        rendered t block host locale placeholders updates = .ok (Command.hostNodes v) := by
  obtain ⟨b, r, hrun, hb, hbase⟩ := hprepare ⟨.new t (some host) locale, [], []⟩ rfl
  refine ⟨r.view, hbase, fun updates hne hdecided => ?_⟩
  have hall := yields_updateAll h (hQ _ hbase) ht updates none r.view hdecided ⟨_, (hQ _ hbase).supports⟩
  rw [if_neg hne, ← hb] at hall
  obtain ⟨b', r', hrun', hstanding⟩ := hall r rfl
  refine ⟨r'.view, hstanding, ?_⟩
  have hsequence : (LiveBlock.prepare t block placeholders >>= fun b => b.updateAll t updates)
      ⟨.new t (some host) locale, [], []⟩ = .ok b' r' := Steps.bind_eq_ok.mpr ⟨b, r, hrun, hrun'⟩
  unfold rendered EStateM.run
  rw [hsequence]

theorem hostNodes_eq {base v v' : LiveView} {values : Option (List String)} {size : Nat}
    (hbase : base.Prepared 0 items size locale) (h : Standing 0 items base values v)
    (h' : Standing 0 items base values v') : Command.hostNodes v = Command.hostNodes v' := by
  obtain ⟨front, hsupports, hstands⟩ := h
  obtain ⟨front', hsupports', hstands'⟩ := h'
  unfold Command.hostNodes
  rw [hsupports.host, hsupports'.host, hbase.host]
  exact hsupports.nodes_eq hsupports' hstands hstands' hbase.sound

end Rendered

open TemplateView in
/-- A message that was accepted shows after any sequence of updates what it shows after a single one with
the values bound last. The cases of its expressions have steady instructions, and plural selection has an
answer for the values after each update; other messages may have been compiled into the view since. -/
theorem incremental_eq_scratch {t t' : TemplateView} (ht : t.Reachable) (cfg : Config) (site : Site)
    (message : String) (scope : Message.Scope) {handle : Handle}
    (hnew : ∀ serial block, t.slot? site.index ≠ some (.block serial block))
    (hparent : site.parent = -1 ∨ t.contains site.parent = true)
    (hok : (t.compile cfg site message scope).result = .ok handle)
    (hlater : (t.compile cfg site message scope).view.Later (t.Added (t.compile cfg site message scope).view) t')
    (hsteady : ∀ s, t.Added (t.compile cfg site message scope).view s → SteadyAt t' s)
    (host : String) (locale : Locale) (placeholders : List (Int × String))
    (updates : List (List String)) (hne : updates ≠ [])
    (hdecided : ∀ history, history <+: updates → history ≠ [] →
      handle.block.Decided t' locale (history.foldl rebound [])) :
    ∃ nodes, rendered t' handle.block host locale placeholders updates = .ok nodes ∧
      rendered t' handle.block host locale placeholders [updates.foldl rebound []] = .ok nodes := by
  obtain ⟨items, hcompiled⟩ := compiled_compile ht.sound hnew hok
  have hs₁ := ht.sound.compile cfg site message scope
  have hstart := (retains_compile ht.sound cfg site message scope (fun _ (h : False) => h.elim) fun _ h => h.elim).2.2
  obtain ⟨hinstalled, hsize⟩ := hcompiled.installed ht.sound hs₁ hstart hlater hparent hsteady
  obtain ⟨base, hbase, hrender⟩ :=
    exists_rendered hinstalled hsize (yields_prepare hinstalled host placeholders) fun _ h => h
  have hscratch : ∀ history : List (List String), history <+: [updates.foldl rebound []] → history ≠ [] →
      handle.block.Decided t' locale (history.foldl rebound []) := by
    intro history hprefix hhistory
    rcases List.prefix_cons_iff.mp hprefix with rfl | ⟨rest, rfl, hrest⟩
    · exact absurd rfl hhistory
    · rw [List.prefix_nil.mp hrest, List.foldl_cons, List.foldl_nil, rebound_nil_left]
      exact hdecided updates (List.prefix_refl _) hne
  obtain ⟨v, hv, hrendered⟩ := hrender updates hne hdecided
  obtain ⟨v', hv', hrendered'⟩ := hrender [updates.foldl rebound []] (List.cons_ne_nil _ _) hscratch
  rw [List.foldl_cons, List.foldl_nil, rebound_nil_left] at hv'
  refine ⟨_, hrendered, ?_⟩
  rw [hrendered', hostNodes_eq hbase hv hv']

theorem exists_ok_of_check {ε α : Type} {r : Except ε α} (check : α → Bool) (h : (match r with
      | .ok a => check a
      | .error _ => false) = true) : ∃ a, r = .ok a ∧ check a = true := by
  cases r with
  | error e => cases h
  | ok a => exact ⟨a, rfl, h⟩

def firstValue? : Except Fault (List Markup.Node) → Option String
  | .ok (.element _ _ (a :: _) _ :: _) => some a.value
  | _ => none

/-- A plural expression inside an element of a case, which is left and entered again. -/
theorem incremental_eq_scratch_nested :
    let cfg : Config := ⟨⟨["b"]⟩, ⟨["t"]⟩, fun _ => none, fun markup =>
      if markup = "-<!--\uFFFD0\uFFFD-->" then
        .ok [.element .html "b" [⟨"", "t", "\uFFFD2\uFFFD"⟩] [.comment "\uFFFD0\uFFFD"]]
      else .ok [.text markup]⟩
    let o := (TemplateView.new 4 1).compile cfg ⟨-1, 22⟩
      "\x7b\uFFFD0\uFFFD, select, a \x7b-\x7b\uFFFD1\uFFFD, plural, one \x7b\uFFFD2\uFFFD\x7d other \x7bm\x7d\x7d\x7d other \x7bn\x7d\x7d" .root
    let updates := [["a", "1", "x"], ["b"], ["a", "5"], ["a", "1", "y"]]
    ∃ handle nodes, o.result = .ok handle ∧ rendered o.view handle.block "div" .standard [] updates = .ok nodes ∧
      rendered o.view handle.block "div" .standard [] [["a", "1", "y"]] = .ok nodes := by
  intro cfg o updates
  obtain ⟨handle, hok, hcheck⟩ := exists_ok_of_check (r := o.result)
    (fun handle : Handle => decide ((∀ s ∈ List.range o.view.size, SteadyAt o.view s) ∧
      ∀ history ∈ updates.inits, history ≠ [] → handle.block.Decided o.view .standard (history.foldl rebound [])))
    (by decide +kernel)
  obtain ⟨hsteady, hdecided⟩ := of_decide_eq_true hcheck
  obtain ⟨nodes, hrendered, hscratch⟩ := incremental_eq_scratch (.new 4 1) cfg ⟨-1, 22⟩ _ .root
    (fun _ _ h => by cases h) (.inl rfl) hok .refl
    (fun s hs => hsteady s (List.mem_range.mpr hs.2)) "div" .standard [] updates (List.cons_ne_nil _ _)
    (fun history h => hdecided history ((List.mem_inits _ _).mpr h))
  exact ⟨handle, nodes, hok, hrendered, hscratch⟩

def Outcome.firstShown? (o : Outcome Handle) (updates : List (List String)) : Option (Option String) :=
  match o.result with
  | .ok handle => some (firstValue? (rendered o.view handle.block "div" .standard [] updates))
  | .error _ => none

/-- An element of a case that sets an attribute twice: an update for the first value only brings that value
back, although the second one is set last. -/
theorem incremental_ne_scratch :
    let cfg : Config := ⟨⟨["b"]⟩, ⟨["t"]⟩, fun _ => none, fun _ =>
      .ok [.element .html "b" [⟨"", "t", "\uFFFD1\uFFFD"⟩, ⟨"", "t", "\uFFFD2\uFFFD"⟩] []]⟩
    let o := (TemplateView.new 4 1).compile cfg ⟨-1, 22⟩ "\x7b\uFFFD0\uFFFD, select, other \x7b-\x7d\x7d" .root
    ∃ handle, o.result = .ok handle ∧
      rendered o.view handle.block "div" .standard [] [["x", "a", "b"], ["x", "c", "b"]] ≠
        rendered o.view handle.block "div" .standard [] [["x", "c", "b"]] := by
  intro cfg o
  have hne : o.firstShown? [["x", "a", "b"], ["x", "c", "b"]] ≠ o.firstShown? [["x", "c", "b"]] := by decide +kernel
  cases hok : o.result with
  | error e => exact absurd (by simp only [Outcome.firstShown?, hok]) hne
  | ok handle =>
    refine ⟨handle, rfl, fun heq => hne ?_⟩
    simp only [Outcome.firstShown?, hok, heq]

end MessageCompiler
