/-
Running messages keeps the tree of a view a forest.

What an operation does to the view is followed up to the point where it ends or fails. The cases of expressions only
put nodes somewhere that they have just created, and the nodes of the messages go to the host, or to the element of a
placeholder when that is attached. The element itself is new, so it may go anywhere but into itself.

* **`upholds_applyCase`**, **`upholds_update`**, **`upholds_start`** — cases, updates and starting a message keep a
  view planted.
-/
import MessageCompiler.Proofs.Arranged
import MessageCompiler.Proofs.Forest
import MessageCompiler.Proofs.LiveLaw

namespace MessageCompiler

open List
open Markup (Tree Content)
open Steps LiveView

namespace Live

/-! ### Operations that may fail -/

/-- From a run with the view `v` the operation ends with a result and a view as `Q` says, or fails with a view as `I`
says. -/
def Leads {α : Type} (I : LiveView → Prop) (x : LiveM α) (v : LiveView) (Q : α → LiveView → Prop) : Prop :=
  ∀ r : Run, r.view = v →
    match x r with
    | .ok a r' => Q a r'.view
    | .error _ r' => I r'.view

def Upholds {α : Type} (I : LiveView → Prop) (x : LiveM α) : Prop := ∀ v, I v → Leads I x v fun _ v' => I v'

section Leads

variable {α β : Type} {I J : LiveView → Prop} {v v₁ : LiveView} {P Q : α → LiveView → Prop} {x : LiveM α} {a : α}

theorem Yields.leads (h : Yields x v Q) : Leads I x v Q := by
  intro r hr
  obtain ⟨a, r', hrun, hQ⟩ := h r hr
  rw [hrun]
  exact hQ

theorem Leads.mono (h : Leads I x v P) (hIJ : ∀ v', I v' → J v') (hPQ : ∀ a v', P a v' → Q a v') : Leads J x v Q := by
  intro r hr
  have hx := h r hr
  cases hrun : x r with
  | ok a r' =>
    rw [hrun] at hx
    exact hPQ a r'.view hx
  | error e r' =>
    rw [hrun] at hx
    exact hIJ r'.view hx

theorem Leads.bind {f : α → LiveM β} {Q : β → LiveView → Prop} (hx : Leads I x v P)
    (hf : ∀ a v', P a v' → Leads I (f a) v' Q) : Leads I (x >>= f) v Q := by
  intro r hr
  have hstep := hx r hr
  show match EStateM.bind x f r with
    | .ok a r' => Q a r'.view
    | .error _ r' => I r'.view
  unfold EStateM.bind
  cases hrun : x r with
  | ok a r' =>
    rw [hrun] at hstep
    exact hf a r'.view hstep r' rfl
  | error e r' =>
    rw [hrun] at hstep
    exact hstep

theorem leads_andThen {f : α → LiveM β} {Q : β → LiveView → Prop}
    (hx : ∀ {P : α → LiveView → Prop}, P a v₁ → Yields x v P) (hf : Leads I (f a) v₁ Q) : Leads I (x >>= f) v Q := by
  refine (hx (P := fun b v' => b = a ∧ v' = v₁) ⟨rfl, rfl⟩).leads.bind ?_
  rintro _ _ ⟨rfl, rfl⟩
  exact hf

theorem leads_pure (h : Q a v) : Leads I (pure a) v Q := (yields_pure h).leads

theorem leads_get {f : Run → LiveM β} {Q : β → LiveView → Prop} (h : ∀ r : Run, r.view = v → Leads I (f r) v Q) :
    Leads I (get >>= f) v Q :=
  fun r hr => h r hr r hr

theorem leads_setSlot {i : Int} {s : LiveSlot} {Q : Unit → LiveView → Prop} (hfail : I v)
    (h : ∀ k : Nat, i = k → k < v.slots.size → Q () (v.set k s)) : Leads I (setSlot i s) v Q := by
  rintro r rfl
  by_cases hi : i < 0 ∨ r.view.slots.size ≤ i.toNat
  · rw [setSlot_eq, if_pos hi]
    exact hfail
  · rw [setSlot_eq, if_neg hi]
    exact h i.toNat (by omega) (by omega)

theorem leads_foldlM_cons {f : β → α → LiveM β} {b : β} {l : List α} {P Q : β → LiveView → Prop}
    (ha : Leads I (f b a) v P) (hl : ∀ b' v', P b' v' → Leads I (l.foldlM f b') v' Q) :
    Leads I ((a :: l).foldlM f b) v Q := by
  rw [foldlM_cons]
  exact ha.bind hl

theorem leads_foldlM_append {f : β → α → LiveM β} {b : β} {l l' : List α} {P Q : β → LiveView → Prop}
    (hl : Leads I (l.foldlM f b) v P) (hl' : ∀ b' v', P b' v' → Leads I (l'.foldlM f b') v' Q) :
    Leads I ((l ++ l').foldlM f b) v Q := by
  rw [foldlM_append]
  exact hl.bind hl'

end Leads

section Upholds

variable {α β : Type} {I : LiveView → Prop}
variable {x : LiveM α}

theorem Upholds.bind {f : α → LiveM β} (hx : Upholds I x) (hf : ∀ a, Upholds I (f a)) :
    Upholds I (x >>= f) := fun v hv => (hx v hv).bind fun a v' hv' => hf a v' hv'

theorem Upholds.after (hx : Upholds I x) {r : Run} (hr : I r.view) : I (after x r).view := by
  have hstep := hx r.view hr r rfl
  unfold Steps.after
  cases hrun : x r with
  | ok a r' =>
    rw [hrun] at hstep
    exact hstep
  | error e r' =>
    rw [hrun] at hstep
    exact hstep

theorem upholds_pure (a : α) : Upholds I (pure a) := fun _ hv => leads_pure hv

theorem upholds_forM {f : α → LiveM PUnit} {l : List α} (h : ∀ a ∈ l, Upholds I (f a)) : Upholds I (l.forM f) := by
  induction l with
  | nil => exact upholds_pure _
  | cons a l ih =>
    show Upholds I (f a >>= fun _ => l.forM f)
    exact (h a mem_cons_self).bind fun _ => ih fun b hb => h b (mem_cons_of_mem _ hb)

end Upholds

theorem liveLaw_upholds (leaf : Nat → Prop) : LiveLaw (Upholds (Planted leaf)) where
  pure := upholds_pure
  throw _ _ hv := fun _ hr => by
    subst hr
    exact hv
  bind := Upholds.bind
  get _ hv _ hr := by rwa [← hr] at hv
  setSlot i _ hx _ hv := leads_setSlot hv fun _ _ hk => hv.set hk hx
  removeChild c _ hv := (yields_change (hv.detach c)).leads
  setText id _ _ hv := (yields_change (hv.modifyContent id _)).leads
  report _ _ hv := (yields_report hv).leads

end Live

/-! ### Creating a case -/

namespace LiveView

variable {s : Nat} {sure : Prop} {slots : List Nat}

variable {leaf : Nat → Prop} {v v₁ v₂ : LiveView}

/-- A new node was created for the slot `s`, which holds it unless it has been emptied since; it has not if `sure`. -/
structure Sprouts (leaf : Nat → Prop) (s : Nat) (sure : Prop) (v v₁ : LiveView) : Prop where
  planted : v₁.Planted leaf
  size_eq : v₁.tree.size = v.tree.size + 1
  children : v₁.tree.children v.tree.size = []
  self : ∀ id : Nat, v₁.slots[s]? = some (.node id) → id = v.tree.size
  held : sure → v₁.slots[s]? = some (.node v.tree.size)
  old : ∀ k id : Nat, k ≠ s → v₁.slots[k]? = some (.node id) → v.slots[k]? = some (.node id)

theorem Planted.sprouts (h : v.Planted leaf) (hs : s < v.slots.size) (content : Content) :
    v.Sprouts leaf s True (v.addNew s content) where
  planted := h.addNew hs content
  size_eq := v.tree.size_create content
  children := by
    show (v.tree.create content).children v.tree.size = []
    rw [Tree.children_create]
    exact Planted.children_size v
  self id hid := by
    simp_all [slots_addNew]
  held _ := by rw [slots_addNew hs, if_pos rfl]
  old k id hk hslot := by rwa [slots_addNew hs, if_neg hk] at hslot

theorem Sprouts.unsure (h : v.Sprouts leaf s True v₁) : v.Sprouts leaf s False v₁ :=
  ⟨h.planted, h.size_eq, h.children, h.self, False.elim, h.old⟩

theorem Sprouts.set_empty (h : v.Sprouts leaf s False v₁) {k : Nat} (hk : k < v₁.slots.size) :
    v.Sprouts leaf s False (v₁.set k .empty) := by
  have hslot : ∀ i id : Nat, (v₁.set k .empty).slots[i]? = some (.node id) → v₁.slots[i]? = some (.node id) := by
    intro i id hi
    rw [slots_set hk] at hi
    split at hi
    · cases hi
    · exact hi
  exact ⟨h.planted.set hk (by simp), h.size_eq, h.children, fun id hid => h.self id (hslot s id hid), False.elim,
    fun i id hi hold => h.old i id hi (hslot i id hold)⟩

/-- The instructions of a case are run: what is known of the parent of the expression is that it may get children, and
that its slot is `own`; it is known if `known`. -/
structure Growing (leaf : Nat → Prop) (own : Int) (known : Prop) (root : Option (Int × Option Nat)) (v : LiveView) :
    Prop where
  planted : v.Planted leaf
  takes : ∀ r p, root = some (r, some p) → v.Takes leaf p
  slot_eq : ∀ x, root = some x → x.1 = own
  ne_none : known → root ≠ none

variable {own parent : Int} {known : Prop} {root : Option (Int × Option Nat)}

theorem Growing.extend (h : v.Growing leaf own known root) (h₁ : v₁.Planted leaf) (hsize : v.tree.size ≤ v₁.tree.size)
    (hold : ∀ k id : Nat, leaf k → v₁.slots[k]? = some (.node id) → v.slots[k]? = some (.node id)) :
    v₁.Growing leaf own known root := { h with
  planted := h₁
  takes r p hr := ⟨Nat.lt_of_lt_of_le (h.takes r p hr).lt hsize,
    fun k hk hslot => (h.takes r p hr).ne k hk (hold k p hk hslot)⟩ }

theorem Growing.sprouts (h : v.Growing leaf own known root) (h₁ : v.Sprouts leaf s sure v₁) (hs : ¬leaf s) :
    v₁.Growing leaf own known root :=
  h.extend h₁.planted (h₁.size_eq ▸ Nat.le_succ _) fun k id hk => h₁.old k id fun heq => hs (heq ▸ hk)

/-- Nodes may go to the slot `parent`: it is the slot of the expression's own parent, or that parent is known, and the
slot is no leaf slot and none of the given ones. -/
def Fits (leaf : Nat → Prop) (own : Int) (known : Prop) (parent : Int) (slots : List Nat) : Prop :=
  parent = own ∨ known ∧ ∀ k : Nat, parent = k → ¬leaf k ∧ k ∉ slots

theorem Fits.mono {slots' : List Nat} (h : Fits leaf own known parent slots) (hsub : slots' ⊆ slots) :
    Fits leaf own known parent slots' :=
  h.imp id fun hout => ⟨hout.1, fun k hk => ⟨(hout.2 k hk).1, fun hmem => (hout.2 k hk).2 (hsub hmem)⟩⟩

/-- The parent of the expression is looked up above the anchor, unless it is known. It is not a new node, which has
nothing inside it. -/
theorem Growing.lookup (h : v.Growing leaf own known root) (h₁ : v.Sprouts leaf s sure v₁) (hs : ¬leaf s)
    (hfits : Fits leaf own known parent slots) (anchor : Nat) :
    v₁.Growing leaf own True (some (root.getD (parent, v₁.tree.parent? anchor))) ∧
      ∀ p, (root.getD (parent, v₁.tree.parent? anchor)).2 = some p → p ≠ v.tree.size := by
  cases root with
  | none =>
    have hown : parent = own := hfits.resolve_right fun hout => h.ne_none hout.1 rfl
    refine ⟨⟨h₁.planted, fun r p hr => ?_, fun x hx => ?_, by simp⟩, ?_⟩
    · exact h₁.planted.takes_parent (congrArg Prod.snd (Option.some.inj hr))
    · cases hx
      exact hown
    · rintro p hp rfl
      have hmem := (h₁.planted.forest.linked.child _ _).mpr hp
      rw [h₁.children] at hmem
      cases hmem
  | some x =>
    exact ⟨{ h.sprouts h₁ hs with ne_none := by simp },
      fun p hp => Nat.ne_of_lt (h.takes x.1 p (congrArg some (Prod.ext rfl hp))).lt⟩

end LiveView

namespace Live

section Cases

variable {s : Nat} {sure known : Prop} {own parent : Int}

variable {leaf : Nat → Prop} {v : LiveView} {t : TemplateView} {anchor : Nat} {root : Option (Int × Option Nat)}

section

variable (h : v.Planted leaf)
include h

theorem leads_sprout {α : Type} (s : Nat) (content : Content) (event : Nat → Event)
    {y : LiveM α} {Q : α → LiveView → Prop} (hy : ∀ v₁, v.Sprouts leaf s True v₁ → Leads (Planted leaf) y v₁ Q) :
    Leads (Planted leaf) (do
      setSlot s (.node (← create content event))
      y) v Q := by
  refine leads_andThen yields_create (Leads.bind (P := fun _ v₁ => v.Sprouts leaf s True v₁) ?_ fun _ => hy)
  refine leads_setSlot (h.create content) fun k hk hlt => ?_
  obtain rfl : s = k := Int.ofNat_inj.mp hk
  exact h.sprouts hlt content

theorem leads_caseOp_anchor (s : Nat) (label : String) :
    Leads (Planted leaf) (caseOp t anchor root (.anchor s label)) v fun root' v₁ =>
      root = root' ∧ v.Sprouts leaf s False v₁ := by
  refine leads_sprout h s (.comment label) _ fun v₁ h₁ => ?_
  split
  · refine Leads.bind (P := fun _ v' => v.Sprouts leaf s False v') ?_ fun _ v' h' => leads_pure ⟨rfl, h'⟩
    exact leads_setSlot h₁.planted fun k _ hk => h₁.unsure.set_empty hk
  · exact leads_pure ⟨rfl, h₁.unsure⟩

theorem leads_put {I : LiveView → Prop} {e : Event} {f : Tree → Tree} {p c : Nat}
    (htakes : v.Takes leaf p) (hc : v.tree.children c = []) (hne : p ≠ c)
    (hplaced : ∃ pre post, Tree.Placed v.tree (f v.tree) p c pre post) :
    Leads I (change e f) v fun _ v' => v'.Planted leaf ∧ v'.slots = v.slots ∧ v'.tree.size = v.tree.size := by
  obtain ⟨pre, post, hplaced⟩ := hplaced
  exact (yields_change ⟨h.placed hplaced htakes hc hne, rfl, hplaced.size_eq⟩).leads

end

theorem leads_caseOp_append {v₁ : LiveView} (h : v.Growing leaf own known root) (h₁ : v.Sprouts leaf s sure v₁)
    (hs : ¬leaf s) (hfits : Fits leaf own known parent [s]) :
    Leads (Planted leaf) (caseOp t anchor root (.append s parent)) v₁ fun root' v' =>
      v'.Growing leaf own (known ∨ sure) root' := by
  refine leads_andThen yields_node? ?_
  cases hnode : v₁.node? s with
  | none =>
    refine leads_pure { h.sprouts h₁ hs with ne_none := fun hknown => h.ne_none (hknown.resolve_right fun hsure => ?_) }
    rw [node?_of_slot (h₁.held hsure)] at hnode
    cases hnode
  | some id =>
    have hslot := slot_of_node? hnode
    obtain rfl := h₁.self id hslot
    have hlt : v.tree.size < v₁.tree.size := h₁.size_eq ▸ Nat.lt_succ_self _
    have hlinked := h₁.planted.forest.linked
    refine leads_get fun r hr => ?_
    subst hr
    obtain ⟨hgrowing, hother⟩ := h.lookup h₁ hs hfits anchor
    generalize root.getD (parent, r.view.tree.parent? anchor) = x at hgrowing hother ⊢
    obtain ⟨rootSlot, rootNode⟩ := x
    obtain rfl : rootSlot = own := hgrowing.slot_eq _ rfl
    dsimp only
    have hstay : Leads (Planted leaf) (pure (some (rootSlot, rootNode))) r.view fun root' v' =>
        v'.Growing leaf rootSlot (known ∨ sure) root' := leads_pure { hgrowing with ne_none := by simp }
    have hput : ∀ {e f p}, r.view.Takes leaf p → p ≠ v.tree.size →
        (∃ pre post, Tree.Placed r.view.tree (f r.view.tree) p v.tree.size pre post) →
        Leads (Planted leaf) (change e f >>= fun _ => pure (some (rootSlot, rootNode))) r.view fun root' v' =>
          v'.Growing leaf rootSlot (known ∨ sure) root' := by
      intro e f p hp hne hplaced
      refine (leads_put h₁.planted hp h₁.children hne hplaced).bind ?_
      rintro _ v₂ ⟨hv₂, hslots, hsize⟩
      exact leads_pure { hgrowing.extend hv₂ (Nat.le_of_eq hsize.symm) fun _ _ _ h => hslots ▸ h with
        ne_none := by simp }
    by_cases hown : parent = rootSlot
    · -- A node of the expression itself goes in front of the anchor.
      rw [if_pos hown]
      cases rootNode with
      | none => exact hstay
      | some p =>
        have hp := hgrowing.takes _ p rfl
        exact hput hp (hother p rfl) (hlinked.exists_placed hp.lt hlt _)
    · -- Any other goes into the element in its parent's slot.
      rw [if_neg hown]
      refine leads_andThen yields_node? ?_
      cases hparent : r.view.node? parent with
      | none => exact hstay
      | some p =>
        obtain ⟨k, rfl, hk⟩ := node?_eq_some.mp hparent
        obtain ⟨hkleaf, hks⟩ := (hfits.resolve_left hown).2 k rfl
        have hp : r.view.Takes leaf p := h₁.planted.takes_slot hkleaf hk
        have hne : p ≠ v.tree.size := by
          rintro rfl
          exact hks (mem_singleton.mpr (h₁.planted.slot_inj k s _ hk hslot))
        exact hput hp hne ⟨_, _, hlinked.placed_append hp.lt hlt⟩

theorem leads_new {op : IcuCreateOp} {ops : List IcuCreateOp}
    {Q : Option (Int × Option Nat) → LiveView → Prop} (h : v.Growing leaf own known root)
    (hop : Leads (Planted leaf) (caseOp t anchor root op) v fun root' v₁ => root = root' ∧ v.Sprouts leaf s sure v₁)
    (hs : ¬leaf s) (hfits : Fits leaf own known parent [s])
    (hrest : ∀ root₁ v₁, v₁.Growing leaf own (known ∨ sure) root₁ →
      Leads (Planted leaf) (ops.foldlM (caseOp t anchor) root₁) v₁ Q) :
    Leads (Planted leaf) ((op :: .append s parent :: ops).foldlM (caseOp t anchor) root) v Q := by
  refine leads_foldlM_cons hop ?_
  rintro _ v₁ ⟨rfl, h₁⟩
  exact leads_foldlM_cons (leads_caseOp_append h h₁ hs hfits) hrest

theorem leads_fixed (slot : Nat) (fixed : List (String × String)) : ∀ v : LiveView, v.Growing leaf own known root →
    Leads (Planted leaf) ((fixed.map fun a => .setAttribute slot a.1 a.2).foldlM (caseOp t anchor) root) v
      fun root' v' => v'.Growing leaf own known root' := by
  induction fixed with
  | nil => exact fun _ h => leads_pure h
  | cons a rest ih =>
    intro v h
    refine leads_foldlM_cons (P := fun root' v' => root = root' ∧ v'.Growing leaf own known root) ?_ ?_
    · refine leads_andThen yields_node? ?_
      cases v.node? slot with
      | none => exact leads_pure ⟨rfl, h⟩
      | some id =>
        refine leads_andThen yields_change (leads_pure ⟨rfl, ?_⟩)
        exact h.extend (h.planted.modifyContent id _) (Nat.le_of_eq (Tree.size_modifyContent id _ v.tree).symm)
          fun _ _ _ h => h
    · rintro _ v₁ ⟨rfl, h₁⟩
      exact ih v₁ h₁

/-- **The nodes of a plan.** The induction follows the plan; what is inside an element goes to a node that has just been
created, and everything else to where the first node went. -/
theorem leads_create (plan : Plan) : ∀ (parent : Int) (known : Prop) (root : Option (Int × Option Nat)) (v : LiveView),
    v.Growing leaf own known root → (∀ s ∈ plan.slots, ¬leaf s) → plan.slots.Nodup →
      Fits leaf own known parent plan.slots →
        Leads (Planted leaf) ((plan.create parent).foldlM (caseOp t anchor) root) v fun root' v' =>
          v'.Growing leaf own known root' := by
  induction plan using Plan.update.induct with
  | case1 => exact fun _ _ _ _ h _ _ _ => leads_pure h
  | case2 slot value rest ih =>
    intro parent known root v h hleaf hnodup hfits
    rw [Plan.slots] at hleaf hnodup hfits
    obtain ⟨hslot, hrest⟩ := forall_mem_cons.mp hleaf
    refine leads_new h (leads_sprout h.planted slot (.text _) _ fun _ h₁ => leads_pure ⟨rfl, h₁⟩) hslot
      (hfits.mono (by simp)) fun root₁ v₁ h₁ => ?_
    exact ih parent known root₁ v₁ { h₁ with ne_none := h₁.ne_none ∘ .inl } hrest (nodup_cons.mp hnodup).2
      (hfits.mono (subset_cons_self _ _))
  | case3 slot tag fixed bound content rest ihcontent ihrest =>
    intro parent known root v h hleaf hnodup hfits
    rw [Plan.slots] at hleaf hnodup hfits
    obtain ⟨hslot, hinner⟩ := forall_mem_cons.mp hleaf
    obtain ⟨hnew, hnodup⟩ := nodup_cons.mp hnodup
    obtain ⟨hcontent, hrest, -⟩ := nodup_append.mp hnodup
    refine leads_new h (leads_sprout h.planted slot (.element .html tag []) _ fun _ h₁ => leads_pure ⟨rfl, h₁⟩) hslot
      (hfits.mono (by simp)) fun root₁ v₁ h₁ => ?_
    refine leads_foldlM_append (leads_fixed slot fixed v₁ h₁) fun root₂ v₂ h₂ => ?_
    have hinside : Fits leaf own (known ∨ True) slot content.slots := .inr ⟨.inr trivial, fun k hk => by
      obtain rfl : slot = k := Int.ofNat_inj.mp hk
      exact ⟨hslot, fun hmem => hnew (mem_append_left _ hmem)⟩⟩
    refine leads_foldlM_append (ihcontent slot _ root₂ v₂ h₂ (fun s hs => hinner s (mem_append_left _ hs)) hcontent
      hinside) fun root₃ v₃ h₃ => ?_
    exact ihrest parent known root₃ v₃ { h₃ with ne_none := h₃.ne_none ∘ .inl }
      (fun s hs => hinner s (mem_append_right _ hs)) hrest
      (hfits.mono fun s hs => mem_cons_of_mem _ (mem_append_right _ hs))
  | case4 slot label icu rest ih =>
    intro parent known root v h hleaf hnodup hfits
    rw [Plan.slots] at hleaf hnodup hfits
    obtain ⟨hslot, hinner⟩ := forall_mem_cons.mp hleaf
    obtain ⟨-, hrest, -⟩ := nodup_append.mp (nodup_cons.mp hnodup).2
    refine leads_new h (leads_caseOp_anchor h.planted slot label) hslot (hfits.mono (by simp)) fun root₁ v₁ h₁ => ?_
    exact ih parent known root₁ v₁ { h₁ with ne_none := h₁.ne_none ∘ .inl }
      (fun s hs => hinner s (mem_append_right _ hs)) hrest
      (hfits.mono fun s hs => mem_cons_of_mem _ (mem_append_right _ hs))

end Cases

end Live

/-! ### Updates -/

/-- The case creates the nodes of a plan, and none of its slots is a leaf slot. -/
def CompiledCase.Sown (leaf : Nat → Prop) (c : CompiledCase) : Prop :=
  ∃ (plan : Plan) (parent : Int), c.create = plan.create parent ∧ plan.slots.Nodup ∧ ∀ s ∈ plan.slots, ¬leaf s

def TemplateView.Sown (leaf : Nat → Prop) (t : TemplateView) : Prop :=
  ∀ (i : Int) (icu : CompiledIcu), t.icu? i = some icu → ∀ c ∈ icu.cases, c.Sown leaf

namespace Live

section Updates

variable {leaf : Nat → Prop} {t : TemplateView}

theorem upholds_applyCase (anchor : Nat) {c : CompiledCase} (hc : c.Sown leaf) :
    Upholds (Planted leaf) (applyCase t anchor none c.create) := by
  intro v h
  obtain ⟨plan, parent, heq, hnodup, hleaf⟩ := hc
  rw [applyCase_eq, heq]
  have hstart : v.Growing leaf parent False none := ⟨h, nofun, nofun, False.elim⟩
  exact (leads_create plan parent False none v hstart hleaf hnodup (.inl rfl)).bind fun _ _ h' => leads_pure h'.planted

theorem upholds_applyUpdatesTo (ht : t.Sown leaf) (values : List String) : ∀ (depth : Nat) (ops : List UpdateOp)
    (changes : Mask), Upholds (Planted leaf) (applyUpdatesTo t values depth ops changes) := by
  intro depth
  induction depth with
  | zero => exact fun _ _ => (liveLaw_upholds leaf).throw _
  | succ depth ih =>
    intro ops changes
    refine upholds_forM fun op _ => (liveLaw_upholds leaf).applyUpdate (fun name _ _ _ id v hv => ?_) ?_
    · exact (yields_change (hv.modifyContent id _)).leads
    · exact fun icu hicu c hc => ⟨fun _ anchor => upholds_applyCase anchor (ht _ icu hicu c hc), fun _ => ih c.update⟩

theorem upholds_update (ht : t.Sown leaf) (b : LiveBlock) (values : List String) :
    Upholds (Planted leaf) (b.update t values) :=
  (liveLaw_upholds leaf).update (upholds_applyUpdatesTo ht _ _ _)

end Updates

/-! ### Starting messages and attaching elements -/

section Placing

variable {leaf : Nat → Prop} {v : LiveView}

theorem upholds_applyCreateOp {op : CreateOp} (hop : ∀ k : Nat, op.index = k → leaf k) :
    Upholds (Planted leaf) (applyCreateOp op) := by
  intro v h
  rw [applyCreateOp_eq]
  -- The node of the instruction is in its slot, which is a leaf slot.
  have hnode : Leads (Planted leaf) (nodeFor op) v fun id v' =>
      v'.Planted leaf ∧ ∃ k : Nat, leaf k ∧ v'.slots[k]? = some (.node id) := by
    refine leads_andThen yields_node? ?_
    cases hid : v.node? op.index with
    | some id =>
      obtain ⟨k, hk, hslot⟩ := node?_eq_some.mp hid
      exact leads_pure ⟨h, k, hop k hk, hslot⟩
    | none =>
      have hadd : ∀ (content : Content) (event : Nat → Event), Leads (Planted leaf) (do
          let id ← create content event
          setSlot op.index (.node id)
          pure id) v fun id v' => v'.Planted leaf ∧ ∃ k : Nat, leaf k ∧ v'.slots[k]? = some (.node id) := by
        intro content event
        refine leads_andThen yields_create (Leads.bind (P := fun _ v' => v'.Planted leaf ∧
          ∃ k : Nat, leaf k ∧ v'.slots[k]? = some (.node v.tree.size)) ?_ fun _ v' h' => leads_pure h')
        refine leads_setSlot (h.create content) fun k hk hlt => ?_
        exact ⟨h.addNew hlt content, k, hop k hk, slot_of_node? (node?_addNew (v := v) hlt content)⟩
      dsimp only
      split
      · exact hadd _ _
      · exact hadd _ _
  refine hnode.bind ?_
  rintro id v' ⟨h', k, hk, hslot⟩
  unfold appendEager
  split
  · refine leads_get fun r hr => ?_
    subst hr
    cases hhost : r.view.host with
    | none => exact upholds_pure () _ h'
    | some host =>
      have hne : host ≠ id := fun heq => h'.host_ne host k hhost (heq ▸ hslot)
      have htakes := h'.takes_host hhost
      exact (leads_put h' htakes (h'.childless k id hk hslot) hne
        ⟨_, _, h'.forest.linked.placed_append htakes.lt (h'.slot_lt k id hslot)⟩).mono (fun _ h => h) fun _ _ hput => hput.1
  · exact upholds_pure () _ h'

theorem upholds_start {block : Block} (hblock : ∀ op ∈ block.create, ∀ k : Nat, op.index = k → leaf k) :
    Upholds (Planted leaf) (LiveBlock.start block) :=
  (upholds_forM fun op hop => upholds_applyCreateOp (hblock op hop)).bind fun _ => upholds_pure _

end Placing

end Live

/-- A new node may be attached to the placeholder in the slot `k`: the placeholder is not directly inside itself, what
is around it may get children, and what goes inside it are leaves. -/
structure TemplateNode.Roomy (leaf : Nat → Prop) (k : Nat) (node : TemplateNode) : Prop where
  own : ¬leaf k
  apart : node.parent ≠ some (k : Int)
  around : ∀ j : Nat, node.parent = some (j : Int) → ¬leaf j
  inside : ∀ j : Nat, (j : Int) ∈ node.children → leaf j

namespace Live

section Attaching

variable {leaf : Nat → Prop} {v : LiveView} {k id : Nat} {node : TemplateNode}

theorem upholds_adopt (hk : ¬leaf k) {child : Int} (hchild : ∀ j : Nat, child = j → leaf j) :
    Upholds (fun v => v.Planted leaf ∧ v.slots[k]? = some (.node id)) (adopt id child) := by
  rintro v ⟨h, hslot⟩
  refine leads_andThen yields_node? ?_
  cases hn : v.node? child with
  | none => exact leads_pure ⟨h, hslot⟩
  | some n =>
    obtain ⟨j, hj, hnode⟩ := node?_eq_some.mp hn
    have hleaf := hchild j hj
    have hne : id ≠ n := by
      rintro rfl
      exact hk (h.slot_inj j k id hnode hslot ▸ hleaf)
    refine (leads_put h (h.takes_slot hk hslot) (h.childless j n hleaf hnode) hne
      ⟨_, _, h.forest.linked.placed_append (h.slot_lt k id hslot) (h.slot_lt j n hnode)⟩).mono (fun _ h => h) ?_
    rintro _ v' ⟨h', hslots, -⟩
    exact ⟨h', hslots ▸ hslot⟩

/-- **A new node is attached to a placeholder.** It has no children and is in no slot, so what it goes into is another
node, unless the placeholder is directly inside itself. -/
theorem leads_attachNode (h : v.Planted leaf) (hnode : node.Roomy leaf k) (hid : id < v.tree.size)
    (hhost : v.host ≠ some id) (hnew : ∀ s : Nat, v.slots[s]? ≠ some (.node id)) (hleaf : v.tree.children id = []) :
    Leads (Planted leaf) (attachNode { node with index := k } id) v fun _ v' => v'.Planted leaf := by
  rw [attachNode_eq]
  refine Leads.bind (P := fun _ v₁ => k < v.slots.size ∧ v.set k (.node id) = v₁)
    (leads_setSlot h fun i hi hlt => ?_) ?_
  · obtain rfl : k = i := Int.ofNat_inj.mp hi
    exact ⟨hlt, rfl⟩
  rintro _ _ ⟨hlt, rfl⟩
  have h₁ : (v.set k (.node id)).Planted leaf := h.hold hlt hid hhost hnew hleaf
  have hslot : (v.set k (.node id)).slots[k]? = some (.node id) := by rw [slots_set hlt, if_pos rfl]
  refine leads_get fun r hr => ?_
  have hadopt : ∀ v₂ : LiveView, v₂.Planted leaf → v₂.slots[k]? = some (.node id) →
      Leads (Planted leaf) (node.children.forM (adopt id)) v₂ fun _ v' => v'.Planted leaf := by
    intro v₂ h₂ hslot₂
    have hall : Upholds (fun v => v.Planted leaf ∧ v.slots[k]? = some (.node id)) (node.children.forM (adopt id)) :=
      upholds_forM fun child hchild => upholds_adopt hnode.own fun j hj => hnode.inside j (hj ▸ hchild)
    exact (hall v₂ ⟨h₂, hslot₂⟩).mono (fun _ h' => h'.1) fun _ _ h' => h'.1
  cases haround : TemplateNode.around? { node with index := k } r.view with
  | none => exact hadopt _ h₁ hslot
  | some p =>
    have hp : (v.set k (.node id)).Takes leaf p ∧ p ≠ id := by
      rw [← hr] at h₁ hslot ⊢
      unfold TemplateNode.around? at haround
      cases hparent : node.parent with
      | none =>
        rw [hparent] at haround
        refine ⟨h₁.takes_host haround, ?_⟩
        rintro rfl
        exact h₁.host_ne p k haround hslot
      | some f =>
        rw [hparent] at haround
        obtain ⟨j, rfl, hj⟩ := node?_eq_some.mp haround
        refine ⟨h₁.takes_slot (hnode.around j hparent) hj, ?_⟩
        rintro rfl
        obtain rfl := h₁.slot_inj j k p hj hslot
        exact hnode.apart hparent
    refine (leads_put h₁ hp.1 hleaf hp.2 (h₁.forest.linked.exists_placed hp.1.lt hid _)).bind ?_
    rintro _ v₂ ⟨h₂, hslots, -⟩
    exact hadopt v₂ h₂ (hslots ▸ hslot)

end Attaching

end Live

end MessageCompiler
