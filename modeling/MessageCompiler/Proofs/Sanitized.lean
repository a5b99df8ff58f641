/-
What running messages write to attributes.

* **`Emits`** — a step on a live view writes only such attributes as a predicate allows, also if it fails.
* **`emits_updateAll`** — updates write fixed attributes, and bound ones through their sanitizers.
* **`compile_confines`** — what a compiled message brings along, and what it writes.
-/
import MessageCompiler.Proofs.Allowed
import MessageCompiler.Proofs.LiveLaw
import MessageCompiler.Proofs.Updating

namespace MessageCompiler

open Steps Live

variable {icu : CompiledIcu} {values : List String}

/-- Every attribute that the step writes, until it ends or fails, satisfies `P`. -/
def Emits {α : Type} (P : (name value : String) → Prop) (x : LiveM α) : Prop :=
  ∀ (r : Run) (id : Nat) (name value : String), .setAttribute id name value ∈ (after x r).trace →
    .setAttribute id name value ∈ r.trace ∨ P name value

section Emits

variable {α β : Type} {P : (name value : String) → Prop}
variable {x : LiveM α}

theorem Emits.mono {Q : (name value : String) → Prop} (hx : Emits P x)
    (h : ∀ name value, P name value → Q name value) : Emits Q x :=
  fun r id name value hmem => (hx r id name value hmem).imp_right (h name value)

theorem Emits.bind_result {f : α → LiveM β} (hx : Emits P x)
    (hf : ∀ a r r', x r = .ok a r' → Emits P (f a)) : Emits P (x >>= f) := by
  intro r
  let R : Run → Run → Prop := fun r r' => ∀ (id : Nat) (name value : String),
    .setAttribute id name value ∈ r'.trace → .setAttribute id name value ∈ r.trace ∨ P name value
  have htrans : ∀ {a b c : Run}, R a b → R b c → R a c :=
    fun hab hbc id name value hmem => (hbc id name value hmem).elim (hab id name value) .inr
  exact along_bind (R := R) htrans (hx r) fun a r' h => hf a r r' h r'

theorem Emits.bind {f : α → LiveM β} (hx : Emits P x) (hf : ∀ a, Emits P (f a)) : Emits P (x >>= f) :=
  hx.bind_result fun a _ _ _ => hf a

theorem emits_change {e : Event} {f : Markup.Tree → Markup.Tree}
    (he : ∀ id name value, e = .setAttribute id name value → P name value) : Emits P (change e f) := by
  intro r id name value h
  rcases List.mem_append.mp h with h | h
  · exact .inl h
  · exact .inr (he id name value (List.mem_singleton.mp h).symm)

theorem emits_setAttribute (id : Nat) {name value : String} (h : P name value) : Emits P (setAttribute id name value) :=
  emits_change fun _ _ _ heq => by
    cases heq
    exact h

theorem emits_setSlot (i : Int) (s : LiveSlot) : Emits P (setSlot i s) := by
  have hget : Emits P (get : LiveM Run) := fun _ _ _ _ h => .inl h
  unfold setSlot
  refine hget.bind fun r => ?_
  dsimp only
  split
  · exact fun _ _ _ _ h => .inl h
  · exact fun _ _ _ _ h => .inl h

theorem liveLaw_emits (P : (name value : String) → Prop) : LiveLaw (Emits P) where
  pure _ _ _ _ _ h := .inl h
  throw _ _ _ _ _ h := .inl h
  bind := Emits.bind
  get _ _ _ _ h := .inl h
  setSlot i s _ := emits_setSlot i s
  removeChild _ := emits_change fun _ _ _ h => by cases h
  setText _ _ := emits_change fun _ _ _ h => by cases h
  report _ _ _ _ _ h := .inl h

/-! ### Cases -/

def FixedIn (P : (name value : String) → Prop) (ops : List IcuCreateOp) : Prop :=
  ∀ index name value, .setAttribute index name value ∈ ops → P name value

theorem emits_create {content : Markup.Content} {event : Nat → Event}
    (he : ∀ k id name value, event k ≠ .setAttribute id name value) : Emits P (create content event) :=
  (liveLaw_emits P).bind (liveLaw_emits P).get fun _ =>
    (emits_change fun id name value h => absurd h (he _ id name value)).bind fun _ => (liveLaw_emits P).pure _

theorem emits_applyCase (t : TemplateView) (anchor : Nat) :
    ∀ (ops : List IcuCreateOp) (root : Option (Int × Option Nat)), FixedIn P ops →
      Emits P (applyCase t anchor root ops) := by
  have law := liveLaw_emits P
  intro ops
  induction ops with
  | nil => exact fun root _ => law.pure _
  | cons op rest ih =>
    intro root hops
    have hrest : ∀ root, Emits P (applyCase t anchor root rest) :=
      fun root => ih root fun index name value h => hops index name value (List.mem_cons_of_mem _ h)
    unfold applyCase
    cases op with
    | text index value =>
      exact (emits_create (by simp)).bind fun _ => (emits_setSlot _ _).bind fun _ => hrest root
    | element index tag =>
      exact (emits_create (by simp)).bind fun _ => (emits_setSlot _ _).bind fun _ => hrest root
    | anchor index label =>
      refine (emits_create (by simp)).bind fun _ => (emits_setSlot _ _).bind fun _ => ?_
      dsimp only
      split
      · exact (emits_setSlot _ _).bind fun _ => hrest root
      · exact hrest root
    | setAttribute index name value =>
      refine (law.node? _).bind fun id => ?_
      dsimp only
      split
      · exact (emits_setAttribute _ (hops index name value List.mem_cons_self)).bind fun _ => hrest root
      · exact hrest root
    | append child parent =>
      refine (law.node? _).bind fun id => ?_
      split
      · exact hrest root
      · refine law.get.bind fun r => ?_
        dsimp only
        split
        · split
          · exact (emits_change fun _ _ _ h => by cases h).bind fun _ => hrest _
          · exact hrest _
        · refine (law.node? _).bind fun p => ?_
          split
          · exact (emits_change fun _ _ _ h => by cases h).bind fun _ => hrest _
          · exact hrest _
    | unknown => exact hrest root

/-! ### Updates -/

/-- What the instruction writes to an attribute, if it does, satisfies `P`. -/
def UpdateOp.WritesIn (P : (name value : String) → Prop) (values : List String) (op : UpdateOp) : Prop :=
  ∀ name sanitizer sanitizerName, op.target = .attribute name sanitizer sanitizerName →
    P name (Sanitizer.through sanitizer (joined values op.parts))

/-- The instruction concerns a case of an expression in `t`: the fixed attributes and the instructions of all
cases satisfy `P`, and no instruction of a case concerns an expression in turn. -/
def UpdateOp.ConcernsIn (P : (name value : String) → Prop) (t : TemplateView) (values : List String)
    (op : UpdateOp) : Prop :=
  ∀ icu, t.icu? op.index = some icu → ∀ c ∈ icu.cases, FixedIn P c.create ∧
    ∀ op' ∈ c.update, op'.WritesIn P values ∧ op'.target ≠ .icuSwitch ∧ op'.target ≠ .icuUpdate

section Updates

variable {t : TemplateView} {values : List String}

theorem UpdateOp.WritesIn.emits {op : UpdateOp} (h : op.WritesIn P values) : ∀ name sanitizer sanitizerName,
    op.target = .attribute name sanitizer sanitizerName →
      ∀ id, Emits P (setAttribute id name (Sanitizer.through sanitizer (joined values op.parts))) :=
  fun name sanitizer sanitizerName htarget id => emits_setAttribute id (h name sanitizer sanitizerName htarget)

theorem emits_caseUpdates : ∀ (depth : Nat) {ops : List UpdateOp} (changes : Mask),
    (∀ op ∈ ops, op.WritesIn P values ∧ op.target ≠ .icuSwitch ∧ op.target ≠ .icuUpdate) →
      Emits P (applyUpdatesTo t values depth ops changes)
  | 0, _, _, _ => (liveLaw_emits P).throw _
  | depth + 1, ops, changes, h => by
    refine (liveLaw_emits P).forM fun op hop => ?_
    obtain ⟨hwrites, hswitch, hupdate⟩ := h op hop
    exact (liveLaw_emits P).applyUpdate hwrites.emits fun _ _ _ _ =>
      ⟨fun htarget => absurd htarget hswitch, fun htarget => absurd htarget hupdate⟩

theorem emits_applyUpdates {ops : List UpdateOp} (changes : Mask)
    (h : ∀ op ∈ ops, op.WritesIn P values ∧ op.ConcernsIn P t values) :
    Emits P (applyUpdates t ops values changes) := by
  refine (liveLaw_emits P).forM fun op hop => ?_
  obtain ⟨hwrites, hconcerns⟩ := h op hop
  refine (liveLaw_emits P).applyUpdate hwrites.emits fun icu hicu c hc => ?_
  obtain ⟨hfixed, hupdates⟩ := hconcerns icu hicu c hc
  grind [emits_applyCase, emits_caseUpdates]

end Updates

end Emits

/-! ### Compiled messages -/

/-- A case of an allowed expression sets the attribute to that value, or binds it: then the value is what
its sanitizer makes of all parts together. -/
def TemplateView.Sources (t : TemplateView) (values : List String) (name value : String) : Prop :=
  ∃ (i : Int) (icu : CompiledIcu), t.icu? i = some icu ∧ icu.Allowed ∧ ∃ c ∈ icu.cases,
    (∃ index, .setAttribute index name value ∈ c.create) ∨
      ∃ op ∈ c.update, ∃ sanitizer sanitizerName, op.target = .attribute name sanitizer sanitizerName ∧
        value = Sanitizer.through sanitizer (joined values op.parts)

/-- The instructions of a message write no attribute themselves, and concern allowed expressions only. -/
def Block.Confined (t : TemplateView) (block : Block) : Prop :=
  ∀ op ∈ block.update, (∀ name sanitizer sanitizerName, op.target ≠ .attribute name sanitizer sanitizerName) ∧
    ∀ icu, t.icu? op.index = some icu → icu.Allowed

section Running

variable {t : TemplateView} {block : Block}

theorem emits_update (hblock : block.Confined t) (bindings : Bindings) (values : List String) :
    Emits (t.Sources (rebound bindings.values values)) (LiveBlock.update t ⟨block, bindings⟩ values) := by
  have hupdates : ∀ mask, Emits (t.Sources (rebound bindings.values values))
      (applyUpdates t block.update (rebound bindings.values values) mask) := by
    intro mask
    refine emits_applyUpdates mask fun op hop => ⟨fun name _ _ htarget => absurd htarget ((hblock op hop).1 _ _ _), ?_⟩
    intro icu hicu c hc
    have hallowed := (hblock op hop).2 icu hicu
    refine ⟨fun index name value hmem => ⟨op.index, icu, hicu, hallowed, c, hc, .inl ⟨index, hmem⟩⟩, fun op' hop' => ?_⟩
    have htarget := (hallowed c hc).2 op' hop'
    refine ⟨fun name sanitizer sanitizerName heq => ?_, ?_, ?_⟩
    · exact ⟨op.index, icu, hicu, hallowed, c, hc, .inr ⟨op', hop', sanitizer, sanitizerName, heq, rfl⟩⟩
    · intro heq
      rw [heq] at htarget
      exact htarget
    · intro heq
      rw [heq] at htarget
      exact htarget
  exact (liveLaw_emits _).update hupdates

theorem update_result {bindings : Bindings} {b : LiveBlock} {r r' : Run}
    (h : LiveBlock.update t ⟨block, bindings⟩ values r = .ok b r') :
    b = ⟨block, (bindings.bind values).2⟩ := by
  unfold LiveBlock.update at h
  dsimp only at h
  split at h
  · obtain ⟨_, r₁, -, h⟩ := bind_eq_ok.mp h
    exact (pure_eq_ok.mp h).1.symm
  · exact (pure_eq_ok.mp h).1.symm

theorem emits_updateAll (hblock : block.Confined t) : ∀ (updates : List (List String)) (bindings : Bindings),
    Emits (fun name value => ∃ history, history <+: updates ∧ history ≠ [] ∧
      t.Sources (history.foldl rebound bindings.values) name value)
      (LiveBlock.updateAll t ⟨block, bindings⟩ updates) := by
  intro updates
  induction updates with
  | nil => exact fun bindings => (liveLaw_emits _).pure _
  | cons values rest ih =>
    intro bindings
    show Emits _ (LiveBlock.update t ⟨block, bindings⟩ values >>= fun b => b.updateAll t rest)
    refine Emits.bind_result ?_ fun b r r' hb => ?_
    · refine (emits_update hblock bindings values).mono fun name value h => ?_
      exact ⟨[values], ⟨rest, rfl⟩, List.cons_ne_nil _ _, h⟩
    · rw [update_result hb]
      refine (ih _).mono ?_
      rintro name value ⟨history, hprefix, -, h⟩
      exact ⟨values :: history, List.prefix_cons_inj values |>.mpr hprefix, List.cons_ne_nil _ _, h⟩

end Running

section Compiled

variable {t : TemplateView} {cfg : Config} {site : Site} {message : String} {scope : Message.Scope}

theorem RootItem.target_ne {item : RootItem} {op : UpdateOp} (h : op ∈ item.stream) :
    ∀ name sanitizer sanitizerName, op.target ≠ .attribute name sanitizer sanitizerName := by
  intro name sanitizer sanitizerName heq
  cases item with
  | text slot value eager => cases (target_textUpdate h).symm.trans heq
  | icu slot label plan eager =>
    obtain ⟨x, -, hupdates⟩ := plan.mem_stream 0 slot h
    rcases hupdates.target.2 with htarget | htarget <;> cases htarget.symm.trans heq

/-- **Confinement.** Whatever way markup is read, a message that is accepted registers no expressions but
allowed ones; nothing below an element that is not allowed makes a difference; and every attribute that its
updates write, also if one of them fails, is a fixed attribute of an allowed expression, or a bound one with
the value that its sanitizer makes of the whole text. -/
theorem compile_confines (hreachable : t.Reachable) (hcfg : cfg.Usual)
    (hslot : ∀ serial block, t.slot? site.index ≠ some (.block serial block)) {handle : Handle}
    (hok : (t.compile cfg site message scope).result = .ok handle) :
    (∀ (i : Nat) (icu : CompiledIcu), (t.compile cfg site message scope).view.icu? i = some icu →
      t.icu? i = some icu ∨ icu.Allowed) ∧
    t.compile cfg.pruning site message scope = t.compile cfg site message scope ∧
    ∀ (bindings : Bindings) (updates : List (List String)) (r : Run) (id : Nat) (name value : String),
      .setAttribute id name value ∈ (after (LiveBlock.updateAll (t.compile cfg site message scope).view
        ⟨handle.block, bindings⟩ updates) r).trace →
      .setAttribute id name value ∈ r.trace ∨ ∃ history, history <+: updates ∧ history ≠ [] ∧
        (t.compile cfg site message scope).view.Sources (history.foldl rebound bindings.values) name value := by
  obtain ⟨items, hcompiled, hplanned⟩ := exists_compiled hreachable.sound hslot hok
  have hicus : ∀ (i : Nat) (icu : CompiledIcu), (t.compile cfg site message scope).view.icu? i = some icu →
      t.icu? i = some icu ∨ icu.Allowed := by
    intro i icu hicu
    refine ((hcompiled.surveyed 0 (Nat.zero_le _)).found hreachable.indexed i icu (Nat.zero_le _) hicu).imp_right ?_
    intro hanchor
    obtain ⟨post, hpost, rfl⟩ := List.mem_map.mp hanchor
    cases (hcompiled.icu?_post hpost).symm.trans hicu
    exact allowed_post hcfg hplanned hpost
  refine ⟨hicus, compile_pruned cfg t site message scope, fun bindings updates => emits_updateAll ?_ updates bindings⟩
  intro op hop
  rw [hcompiled.update_eq] at hop
  obtain ⟨item, hitem, hop⟩ := List.mem_flatMap.mp hop
  refine ⟨RootItem.target_ne hop, fun icu hicu => ?_⟩
  -- the instruction concerns a slot that is new, so the expression there is new as well
  obtain ⟨s, hs, hindex⟩ := item.stream_index op hop
  rw [hindex] at hicu
  have hnew := (hcompiled.increasing.2.2 s (List.mem_flatMap.mpr ⟨item, hitem, hs⟩)).1
  exact (hicus s icu hicu).resolve_left fun hold => Nat.not_lt.mpr hnew (TemplateView.lt_of_icu? hold)

end Compiled

/-- Markup with a link whose address is bound, next to an element that is not allowed. -/
def linkConfig : Config := ⟨.validElements, .validAttrs, NamedSanitizer.forAttribute, fun _ =>
  .ok [.element .html "a" [⟨"", "href", "javascript:\uFFFD1\uFFFD"⟩, ⟨"", "onclick", "\uFFFD1\uFFFD"⟩] [],
    .element .html "script" [] [.element .html "b" [] []]]⟩

def linkMessage : String := "\x7b\uFFFD0\uFFFD, select, other \x7b-\x7d\x7d"

theorem compile_confines_link :
    ∃ handle, ((TemplateView.new 4 1).compile linkConfig ⟨-1, 22⟩ linkMessage .root).result = .ok handle ∧
      ∀ (r : Run) (id : Nat) (value : String), .setAttribute id "href" value ∉ r.trace →
        .setAttribute id "href" value ∈
          (after (LiveBlock.updateAll ((TemplateView.new 4 1).compile linkConfig ⟨-1, 22⟩ linkMessage .root).view
            ⟨handle.block, .new⟩ [["x", "alert(1)"]]) r).trace →
        ((TemplateView.new 4 1).compile linkConfig ⟨-1, 22⟩ linkMessage .root).view.Sources
          ["x", "alert(1)"] "href" value := by
  have hpart : Message.partFor .root linkMessage.toList = .ok linkMessage.toList := by rfl
  have hparts : Message.splitPlaceholders (releaseSpaces linkMessage.toList) = ⟨[], linkMessage.toList⟩ := by rfl
  have hreadable : Message.Readable linkMessage.toList :=
    ⟨[.text "", .icu (.mk .select 0 [.mk "other" [.text "-"]]), .text ""], by rfl⟩
  have hslot : ∀ serial block, (TemplateView.new 4 1).slot? 22 ≠ some (.block serial block) :=
    fun _ _ h => by cases h
  have hreads : linkConfig.ReadsAll := fun _ => ⟨_, rfl⟩
  have husual : linkConfig.Usual := ⟨rfl, rfl, rfl⟩
  obtain ⟨handle, hok⟩ : ∃ handle,
      ((TemplateView.new 4 1).compile linkConfig ⟨-1, 22⟩ linkMessage .root).result = .ok handle := by
    refine TemplateView.exists_handle (TemplateView.sound_new 4 1) hreads (by decide) (by decide) hslot hpart ?_ ?_
    · rw [hparts]
      exact ⟨.nil, by simp⟩
    · rw [hparts]
      exact ⟨by simp, hreadable⟩
  obtain ⟨-, -, hwrites⟩ := compile_confines (.new 4 1) husual hslot hok
  refine ⟨handle, hok, fun r id value hbefore hwritten => ?_⟩
  rcases hwrites _ _ _ _ _ _ hwritten with hold | ⟨history, hprefix, hne, hsources⟩
  · exact absurd hold hbefore
  · rcases List.prefix_cons_iff.mp hprefix with rfl | ⟨rest, rfl, hrest⟩
    · exact absurd rfl hne
    · rw [List.prefix_nil.mp hrest] at hsources
      exact hsources

end MessageCompiler
