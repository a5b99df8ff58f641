/-
Binding values to a message, again and again.

* **`Block.Decided`** — plural selection has an answer for the values.
* **`Installed`** — what a view needs to know of a message to run it.
* **`yields_update`** — after values are bound, all items show the values that are bound now.
* **`yields_updateAll`** — the same for any sequence of such calls.
-/
import MessageCompiler.Proofs.Prepared

namespace MessageCompiler

open List
open Live LiveView

variable {parent : Int} {values : List String} {t t' t₁ : TemplateView} {block : Block} {items : List RootItem}

/-- Every plural expression of the message has a category for the value it chooses by. -/
def Block.Decided (t : TemplateView) (locale : Locale) (values : List String) (block : Block) : Prop :=
  ∀ op ∈ block.update, op.target = .icuSwitch → ∀ icu, t.icu? op.index = some icu → icu.kind = .plural →
    Plural.category? locale (joined values op.parts) ≠ none

def LiveBlock.updateAll (t : TemplateView) (b : LiveBlock) (updates : List (List String)) :
    LiveM LiveBlock :=
  updates.foldlM (fun b values => b.update t values) b

/-! ### Choices -/

section Choices

variable {t : TemplateView}

/-- The stream has the instruction for the choice, and the expression is registered. -/
def SwitchedBy (t : TemplateView) (stream : List UpdateOp) (choice : IcuKind × Int) : Prop :=
  ∃ (anchor : Nat) (icu : CompiledIcu), switchOp anchor choice.2 ∈ stream ∧ t.icu? anchor = some icu ∧
    icu.kind = choice.1

theorem SwitchedBy.mono {stream stream' : List UpdateOp} {choice : IcuKind × Int}
    (h : SwitchedBy t stream choice) (hsub : stream ⊆ stream') : SwitchedBy t stream' choice := by
  obtain ⟨anchor, icu, hmem, hicu, hkind⟩ := h
  exact ⟨anchor, icu, hsub hmem, hicu, hkind⟩

theorem switchedBy_append {stream stream' : List UpdateOp} {choices choices' : List (IcuKind × Int)}
    (h : ∀ c ∈ choices, SwitchedBy t stream c) (h' : ∀ c ∈ choices', SwitchedBy t stream' c) :
    ∀ c ∈ choices ++ choices', SwitchedBy t (stream ++ stream') c :=
  forall_mem_append.mpr ⟨fun c hc => (h c hc).mono (subset_append_left _ _),
    fun c hc => (h' c hc).mono (subset_append_right _ _)⟩

mutual

theorem Plan.Registered.switchedBy : ∀ {plan : Plan} {parent : Int}, plan.Registered t parent →
    ∀ c ∈ plan.choices, SwitchedBy t plan.stream c
  | .nil, _, _ => forall_mem_nil _
  | .text _ _ _, _, h => h.2.switchedBy
  | .element _ _ _ _ _ _, _, h => switchedBy_append h.2.1.switchedBy h.2.2.switchedBy
  | .icu _ _ _ _, _, h => switchedBy_append h.2.1.switchedBy h.2.2.switchedBy

theorem IcuPlan.Registered.switchedBy : ∀ {icu : IcuPlan} {parent : Int} {anchor : Nat},
    icu.Registered t parent anchor → ∀ c ∈ icu.choices, SwitchedBy t (icu.stream anchor) c
  | .mk _ _ _ _, _, anchor, h =>
    forall_mem_cons.mpr ⟨⟨anchor, _, mem_cons_self, h.1, rfl⟩, fun c hc =>
      (h.2.2.switchedBy c hc).mono fun _ hop => mem_cons_of_mem _ (mem_append_left _ hop)⟩

theorem CasePlans.Registered.switchedBy : ∀ {cases : CasePlans} {parent : Int}, cases.Registered t parent →
    ∀ c ∈ cases.choices, SwitchedBy t cases.stream c
  | .nil, _, _ => forall_mem_nil _
  | .cons _ _ _, _, h => switchedBy_append h.1.switchedBy h.2.switchedBy

end

theorem RootItem.Registered.switchedBy {item : RootItem} (h : item.Registered t parent) :
    ∀ c ∈ item.choices, SwitchedBy t item.stream c := by
  cases item with
  | text slot value eager => exact fun c hc => absurd hc not_mem_nil
  | icu slot label plan eager => exact h.2.switchedBy

theorem joined_switchOp (values : List String) (anchor : Nat) (main : Int) :
    joined values (switchOp anchor main).parts = valueAt values main :=
  String.append_empty

end Choices

/-! ### Messages that are installed -/

/-- The view has compiled the message into the items, and its cases have steady instructions. -/
structure Installed (t : TemplateView) (block : Block) (parent : Int) (items : List RootItem) : Prop where
  create_eq : block.create = items.map RootItem.create
  update_eq : block.update = items.flatMap RootItem.stream
  registered : ∀ item ∈ items, item.Registered t parent
  choices : ∀ item ∈ items, ∀ c ∈ item.choices, 0 ≤ c.2
  nodup : (items.flatMap RootItem.slots).Nodup
  lt : ∀ item ∈ items, ∀ s ∈ item.slots, s < t.size
  length_le : ∀ item ∈ items, item.slots.length ≤ t.size
  parent_ne : ∀ item ∈ items, ∀ s ∈ item.slots, (s : Int) ≠ parent
  steady : ∀ item ∈ items, ∀ s ∈ item.slots, t.type? s = some .icu → SteadyAt t s

namespace Installed

variable {t : TemplateView} {block : Block} {parent : Int} {items : List RootItem}

theorem decides (h : Installed t block parent items) {locale : Locale}
    (hdecided : block.Decided t locale values) {item : RootItem} (hitem : item ∈ items) :
    Decides locale values item.choices := by
  intro c hc
  refine ⟨h.choices item hitem c hc, fun hplural => ?_⟩
  obtain ⟨anchor, icu, hmem, hicu, hkind⟩ := (h.registered item hitem).switchedBy c hc
  have hop : switchOp anchor c.2 ∈ block.update := by
    rw [h.update_eq]
    exact mem_flatMap.mpr ⟨item, hitem, hmem⟩
  rw [← joined_switchOp values anchor c.2]
  exact hdecided _ hop rfl icu hicu (hkind.trans hplural)

theorem runnable (h : Installed t block parent items) {base : LiveView} {locale : Locale}
    (hsize : base.slots.size = t.size) (hlocale : base.locale = locale)
    (hdecided : block.Decided t locale values) : Runnable t (t.size + 1) values parent items base := { h with
  lt item hitem s hs := hsize ▸ h.lt item hitem s hs
  ready item hitem := {
    depth_le := Nat.le_succ_of_le (h.length_le item hitem)
    parent_ne := h.parent_ne item hitem
    decides := hlocale ▸ h.decides hdecided hitem
    steady := h.steady item hitem } }

end Installed

open TemplateView in
theorem Compiled.registered_later (h : Compiled t t₁ block parent items) (hs : t.Sound) (hs₁ : t₁.Sound)
    (hstart : t₁.bindingStart = t.bindingStart) (hlater : t₁.Later (t.Added t₁) t') :
    t₁.size ≤ t'.size ∧ ∀ item ∈ items, item.Registered t' parent := by
  have hdeclared : ∀ k, t.Added t₁ k → ¬t₁.declares k := by
    intro k hk hdeclares
    unfold declares at hdeclares
    rw [hstart] at hdeclares
    have := hs.header_le
    have := hs.bindingStart_le
    have := hk.1
    omega
  obtain ⟨hretains, -, hsize, -⟩ := hlater.retains hs₁ hdeclared
  refine ⟨hsize, fun item hitem => (h.registered item hitem).retained hretains fun s hs hnot => hnot ?_⟩
  exact h.increasing.2.2 s (mem_flatMap.mpr ⟨item, hitem, hs⟩)

open TemplateView in
/-- A message that is accepted is installed, and stays so when others are compiled after it, if what it has
registered is steady. -/
theorem Compiled.installed_of_registered (h : Compiled t t₁ block parent items) (hs : t.Sound) (hs₁ : t₁.Sound)
    (hstart : t₁.bindingStart = t.bindingStart) (hlater : t₁.Later (t.Added t₁) t')
    (hparent : parent = -1 ∨ t.contains parent = true)
    (hsteady : ∀ item ∈ items, item.Registered t' parent → ∀ s ∈ item.slots, t.Added t₁ s →
      t'.type? s = some .icu → SteadyAt t' s) :
    Installed t' block parent items ∧ 0 < t'.size := by
  obtain ⟨hsize, hregistered⟩ := h.registered_later hs hs₁ hstart hlater
  have hadded : ∀ item ∈ items, ∀ s ∈ item.slots, t.Added t₁ s := fun item hitem s hs =>
    h.increasing.2.2 s (mem_flatMap.mpr ⟨item, hitem, hs⟩)
  refine ⟨{ h with
    registered := hregistered
    nodup := h.increasing.nodup
    lt := fun item hitem s hs => Nat.lt_of_lt_of_le (hadded item hitem s hs).2 hsize
    length_le := fun item hitem => ?_
    parent_ne := fun item hitem s hmem heq => ?_
    steady := fun item hitem s hs =>
      hsteady item hitem (hregistered item hitem) s hs (hadded item hitem s hs) }, ?_⟩
  · have hsub : item.slots.Sublist (items.flatMap RootItem.slots) := by
      obtain ⟨before, after, rfl⟩ := append_of_mem hitem
      rw [flatMap_append, flatMap_cons]
      exact (sublist_append_left _ _).trans (sublist_append_right _ _)
    have := hsub.length_le
    have := h.increasing.length_le
    omega
  · have hlow := (hadded item hitem s hmem).1
    rcases hparent with hparent | hparent
    · omega
    · simp only [TemplateView.contains, Bool.and_eq_true, decide_eq_true_eq] at hparent
      omega
  · have := hs₁.header_le
    have := hs₁.bindingStart_le
    unfold header at *
    omega

open TemplateView in
theorem Compiled.installed (h : Compiled t t₁ block parent items) (hs : t.Sound) (hs₁ : t₁.Sound)
    (hstart : t₁.bindingStart = t.bindingStart) (hlater : t₁.Later (t.Added t₁) t')
    (hparent : parent = -1 ∨ t.contains parent = true) (hsteady : ∀ s, t.Added t₁ s → SteadyAt t' s) :
    Installed t' block parent items ∧ 0 < t'.size :=
  h.installed_of_registered hs hs₁ hstart hlater hparent fun _ _ _ s _ hadded _ => hsteady s hadded

/-! ### One call -/

/-- The bindings of a message that shows the values; one that is new shows none. -/
def Bindings.ofShown : Option (List String) → Bindings
  | none => .new
  | some values => ⟨values, true⟩

theorem rebound_nil_left (values : List String) : rebound [] values = values := by
  simp [rebound]

theorem rebound_of_changes : ∀ (new old : List String) (k : Nat),
    Bindings.changes k old new = 0#32 → rebound old new = old
  | [], _, _, _ => rfl
  | n :: new, [], k, h => by
    rw [Bindings.changes, BitVec.or_eq_zero_iff] at h
    exact absurd h.1 (Mask.ofBinding_ne_zero (Int.natCast_nonneg k))
  | n :: new, o :: old, k, h => by
    rw [Bindings.changes, BitVec.or_eq_zero_iff] at h
    have hrest := rebound_of_changes new old (k + 1) h.2
    by_cases heq : o = n
    · rw [heq]
      exact congrArg (n :: ·) hrest
    · rw [if_neg heq] at h
      exact absurd h.1 (Mask.ofBinding_ne_zero (Int.natCast_nonneg k))

theorem refreshes_bind (old : Option (List String)) (values : List String) :
    Refreshes ((Bindings.ofShown old).bind values).1 old (rebound (old.getD []) values) := by
  cases old with
  | none => exact ⟨fun _ => rfl, fun _ h => by cases h⟩
  | some old =>
    refine ⟨fun h => by (cases h), fun E hE => ?_⟩
    cases hE
    exact covers_changes old values

theorem bind_snd (old : Option (List String)) (values : List String) :
    ((Bindings.ofShown old).bind values).2 = Bindings.ofShown (some (rebound (old.getD []) values)) := by
  cases old <;> rfl

theorem shown_of_bind_eq_zero {old : Option (List String)}
    (h : ((Bindings.ofShown old).bind values).1 = 0#32) : old = some (rebound (old.getD []) values) := by
  cases old with
  | none =>
    have hall : Mask.all ≠ 0#32 := by decide
    exact absurd h hall
  | some old => exact congrArg some (rebound_of_changes values old 0 h).symm

def Standing (root : Nat) (items : List RootItem) (base : LiveView) (values : Option (List String))
    (v : LiveView) : Prop :=
  ∃ front, base.Supports root items front v ∧ ∀ item ∈ items, item.Stands root base front values v

section Update

variable {root : Nat} {t : TemplateView} {block : Block} {parent : Int} {items : List RootItem}
  {base v : LiveView} {locale : Locale} {old : Option (List String)}

section

variable (hinstalled : Installed t block parent items) (hbase : base.Prepared root items t.size locale) (ht : 0 < t.size)
include hinstalled hbase ht

theorem yields_update (hdecided : block.Decided t locale (rebound (old.getD []) values))
    (h : Standing root items base old v) : Yields (LiveBlock.update t ⟨block, .ofShown old⟩ values) v fun b v' =>
      b = ⟨block, .ofShown (some (rebound (old.getD []) values))⟩ ∧
        Standing root items base (some (rebound (old.getD []) values)) v' := by
  have hrun := hinstalled.runnable hbase.size_eq hbase.locale_eq hdecided
  have hrefresh := refreshes_bind old values
  have hdone : (⟨block, ((Bindings.ofShown old).bind values).2⟩ : LiveBlock) =
      ⟨block, .ofShown (some (rebound (old.getD []) values))⟩ := by rw [bind_snd]
  unfold LiveBlock.update
  dsimp only
  split
  · obtain ⟨front, hsupports, hstands⟩ := h
    obtain ⟨updateDepth, hdepth⟩ : ∃ d, t.size = d + 1 := ⟨t.size - 1, by omega⟩
    have happly : applyUpdates t block.update ((Bindings.ofShown old).bind values).2.values
          ((Bindings.ofShown old).bind values).1 =
        (items.flatMap RootItem.stream).forM (applyUpdate t (t.size + 1) (applyUpdatesTo t
          (rebound (old.getD []) values) (updateDepth + 1)) (rebound (old.getD []) values)
          ((Bindings.ofShown old).bind values).1) := by
      rw [bind_snd, hinstalled.update_eq, ← hdepth]
      rfl
    rw [happly]
    refine (yields_items hbase.sound hrun hrefresh items [] front v rfl hsupports
      (fun _ hitem => absurd hitem not_mem_nil) hstands).bind ?_
    intro _ v' hstanding
    exact yields_pure ⟨hdone, hstanding⟩
  · next hzero =>
    have hmask : ((Bindings.ofShown old).bind values).1 = 0#32 := by simpa using hzero
    have hsame := shown_of_bind_eq_zero hmask
    refine yields_pure ⟨hdone, ?_⟩
    rw [← hsame]
    exact h

theorem yields_updateAll : ∀ (updates : List (List String)) (old : Option (List String)) (v : LiveView),
      (∀ history, history <+: updates → history ≠ [] → block.Decided t locale (history.foldl rebound (old.getD []))) →
      Standing root items base old v → Yields (LiveBlock.updateAll t ⟨block, .ofShown old⟩ updates) v fun _ v' =>
          Standing root items base (if updates = [] then old else some (updates.foldl rebound (old.getD []))) v'
  | [], old, v, _, h => yields_pure h
  | values :: rest, old, v, hdecided, h => by
    have hfirst := hdecided [values] (prefix_iff_eq_take.mpr rfl) (cons_ne_nil _ _)
    refine (yields_update hinstalled hbase ht hfirst h).bind ?_
    rintro _ v' ⟨rfl, h'⟩
    refine (yields_updateAll rest _ v' ?_ h').mono ?_
    · intro history hprefix _
      exact hdecided (values :: history) (cons_prefix_cons.mpr ⟨rfl, hprefix⟩) (cons_ne_nil _ _)
    · intro _ v'' h''
      rw [if_neg (cons_ne_nil _ _)]
      cases rest with
      | nil => exact h''
      | cons _ _ =>
        rw [if_neg (cons_ne_nil _ _)] at h''
        exact h''

end

end Update

end MessageCompiler
