/-
A message at work in two views at once.

An update is followed in a view and in one that looks the same to the message, except that its nodes may have other
numbers there. Both go the same way, step by step: wherever the one comes upon a node, the other comes upon its image.

* **`tandem_removeCase`**, **`tandem_switchCase`** — removing it, and showing another case.
-/
import MessageCompiler.Proofs.Commutes
import MessageCompiler.Proofs.Dormant
import MessageCompiler.Proofs.Moves

namespace MessageCompiler

open List
open Markup (Content Tree)
open Live LiveView

/-! ### The stage of the updates -/

/-- The slots and nodes that the updates of a message work with. -/
structure Stage where
  /-- Nodes with smaller numbers were there before the updates. -/
  limit : Nat
  /-- The anchors of the expressions outside of any case. -/
  calm : List Nat
  /-- The slots of these anchors. -/
  anchors : List Nat
  /-- The slots of the texts outside of any case. -/
  texts : List Nat
  /-- The slots of what is inside the expressions. -/
  inner : List Nat

def Stage.Front (S : Stage) (a : Nat) : Prop := S.limit ≤ a ∨ a ∈ S.calm

def LiveSlot.rename (name : Nat → Nat) : LiveSlot → LiveSlot
  | .node id => .node (name id)
  | .empty => .empty
  | .chosen case fresh => .chosen case fresh

theorem LiveSlot.rename_id : LiveSlot.rename id = id := by
  funext x
  cases x <;> rfl

def Stage.Owns (S : Stage) (v : LiveView) (n : Nat) : Prop := S.limit ≤ n ∧ n < v.tree.size

/-- In related views the message finds the same in its slots, where the node `n` of the one is the node `name n` of the
other; and what it does to both keeps them related. -/
structure Follows (S : Stage) (name : Nat → Nat) (R : LiveView → LiveView → Prop) : Prop where
  -- what the message finds
  linked : ∀ {v w}, R v w → v.tree.Linked
  locale_eq : ∀ {v w}, R v w → w.locale = v.locale
  node?_eq : ∀ {v w}, R v w → ∀ {s : Nat}, s ∈ S.anchors ∨ s ∈ S.texts ∨ s ∈ S.inner →
    w.node? s = (v.node? s).map name
  slots_eq : ∀ {v w}, R v w → ∀ {s}, s ∈ S.inner → w.slots[s]? = v.slots[s]?.map (LiveSlot.rename name)
  inner_lt : ∀ {v w}, R v w → ∀ {s}, s ∈ S.inner → s < v.slots.size ∧ s < w.slots.size
  owns : ∀ {v w}, R v w → ∀ {s n : Nat}, s ∈ S.inner → v.node? s = some n → S.Owns v n
  front : ∀ {v w}, R v w → ∀ {s a : Nat}, s ∈ S.anchors ∨ s ∈ S.inner → v.node? s = some a →
    S.Front a ∧ a < v.tree.size
  parent?_eq : ∀ {v w}, R v w → ∀ {a}, S.Front a → a < v.tree.size →
    w.tree.parent? (name a) = (v.tree.parent? a).map name
  -- what it does: with its slots, with its texts and its own nodes, and with their places in the tree
  set : ∀ {v w}, R v w → ∀ {s x}, s ∈ S.inner → (∀ n, x ≠ .node n) → R (v.set s x) (w.set s x)
  addNew : ∀ {v w}, R v w → ∀ {s}, s ∈ S.inner → ∀ content, R (v.addNew s content) (w.addNew s content)
  write : ∀ {v w}, R v w → ∀ {s n : Nat}, s ∈ S.texts ∨ s ∈ S.inner → v.node? s = some n → ∀ g,
    R (v.withTree (modifyContent n g v.tree)) (w.withTree (modifyContent (name n) g w.tree))
  insertBefore : ∀ {v w}, R v w → ∀ {p c a}, S.Owns v c → v.tree.parent? c = none → S.Front a →
    v.tree.parent? a = some p → R (v.withTree (v.tree.insertBefore p c (some a)))
      (w.withTree (w.tree.insertBefore (name p) (name c) (some (name a))))
  append : ∀ {v w}, R v w → ∀ {p c}, S.Owns v p → S.Owns v c → v.tree.parent? c = none →
    R (v.withTree (v.tree.append p c)) (w.withTree (w.tree.append (name p) (name c)))
  detach : ∀ {v w}, R v w → ∀ {c}, S.Owns v c → R (v.withTree (v.tree.detach c)) (w.withTree (w.tree.detach (name c)))

section Tandem

variable {s : Nat} {icu : IcuPlan}

variable {S : Stage} {name : Nat → Nat} {R : LiveView → LiveView → Prop} {v w : LiveView} {t : TemplateView}

/-! ### Creating the content of a case -/

/-- What holds while the content of a case is created in front of the anchor `a`, whose parent is `q`. -/
structure BeforeAnchor (S : Stage) (R : LiveView → LiveView → Prop) (a : Nat) (q : Option Nat) (v w : LiveView) :
    Prop where
  related : R v w
  lt : a < v.tree.size
  parent : v.tree.parent? a = q
  front : S.Front a

variable {a : Nat} {q : Option Nat} {slot? : Option Int} {parent : Int} {Q : Unit → LiveView → LiveView → Prop}

section

variable (hf : Follows S name R)
include hf

theorem BeforeAnchor.placeIn (h : BeforeAnchor S R a q v w) {c : Nat} (hc : S.Owns v c)
    (hfree : v.tree.parent? c = none) (hne : a ≠ c) {slot : Int}
    (hparent : slot = parent ∨ ∃ k : Nat, k ∈ S.inner ∧ parent = k) :
    BeforeAnchor S R a q (v.placeIn a c parent (slot, q)) (w.placeIn (name a) (name c) parent (slot, q.map name)) := by
  have hlinked := hf.linked h.related
  unfold LiveView.placeIn
  by_cases heq : parent = slot
  · rw [if_pos heq, if_pos heq]
    cases q with
    | none => exact h
    | some p =>
      refine ⟨hf.insertBefore h.related hc hfree h.front h.parent, ?_, ?_, h.front⟩
      · exact Nat.lt_of_lt_of_eq h.lt (Tree.size_insertBefore _ _ _ _).symm
      · show (v.tree.insertBefore p c (some a)).parent? a = some p
        rw [hlinked.parent?_insertBefore (hlinked.parent_lt h.parent) hc.2, if_neg hne, h.parent]
  · obtain ⟨k, hk, rfl⟩ := hparent.resolve_left fun hslot => heq hslot.symm
    rw [if_neg heq, if_neg heq, hf.node?_eq h.related (.inr (.inr hk))]
    cases hnode : v.node? k with
    | none => exact h
    | some p =>
      have hp := hf.owns h.related hk hnode
      have hplaced := hlinked.placed_append hp.2 hc.2
      refine ⟨hf.append h.related hp hc hfree, hplaced.size_eq.symm ▸ h.lt, ?_, h.front⟩
      show (v.tree.append p c).parent? a = q
      rw [hplaced.parent?_eq, if_neg hne, h.parent]

theorem tandem_new (h : BeforeAnchor S R a q v w) {slot : Nat} (hslot : slot ∈ S.inner)
    {content : Content} {v₁ w₁ : LiveView} {op : IcuCreateOp} {more : List IcuCreateOp}
    (hop : ∀ {P : _ → LiveView → Prop}, P (slot?.map (·, q)) v₁ → Yields (caseOp t a (slot?.map (·, q)) op) v P)
    (hop' : ∀ {P : _ → LiveView → Prop}, P (slot?.map (·, q.map name)) w₁ →
      Yields (caseOp t (name a) (slot?.map (·, q.map name)) op) w P)
    (hrelated : R v₁ w₁) (htree : v₁.tree = v.tree.create content) (hnode : v₁.node? slot = some v.tree.size)
    (hparent : slot?.getD parent = parent ∨ ∃ k : Nat, k ∈ S.inner ∧ parent = k)
    (hnext : ∀ v' w', BeforeAnchor S R a q v' w' → Tandem (applyCase t a (some (slot?.getD parent, q)) more)
      (applyCase t (name a) (some (slot?.getD parent, q.map name)) more) v' w' Q) :
    Tandem (applyCase t a (slot?.map (·, q)) (op :: .append slot parent :: more))
      (applyCase t (name a) (slot?.map (·, q.map name)) (op :: .append slot parent :: more)) v w Q := by
  have hat : BeforeAnchor S R a q v₁ w₁ := by
    refine ⟨hrelated, ?_, ?_, h.front⟩
    · rw [htree, Tree.size_create]
      exact Nat.lt_succ_of_lt h.lt
    · rw [htree, Tree.parent?_create]
      exact h.parent
  have hfree : v₁.tree.parent? v.tree.size = none := by
    rw [htree, Tree.parent?_create]
    unfold Tree.parent?
    rw [Tree.cells_size]
    rfl
  have hplaced := hat.placeIn hf (hf.owns hrelated hslot hnode) hfree (Nat.ne_of_lt h.lt) hparent
  have hgetD : ∀ q' : Option Nat, (slot?.map (·, q')).getD (parent, q') = (slot?.getD parent, q') := by
    intro q'
    cases slot? <;> rfl
  have hnode' : w₁.node? slot = some (name v.tree.size) := by
    rw [hf.node?_eq hrelated (.inr (.inr hslot)), hnode]
    rfl
  have hparent' : w₁.tree.parent? (name a) = q.map name := by
    rw [hf.parent?_eq hrelated hat.front hat.lt, hat.parent]
  rw [applyCase_cons, applyCase_cons]
  refine .andThen hop hop' ?_
  rw [applyCase_cons, applyCase_cons]
  refine .andThen (yields_caseOp_append hnode) (yields_caseOp_append hnode') ?_
  rw [hparent', hat.parent, hgetD, hgetD]
  exact hnext _ _ hplaced

theorem tandem_setAttributes {slot : Nat} (hslot : slot ∈ S.inner)
    {root root' : Option (Int × Option Nat)} {more : List IcuCreateOp} (hnext : ∀ v w, BeforeAnchor S R a q v w →
      Tandem (applyCase t a root more) (applyCase t (name a) root' more) v w Q) :
    ∀ (fixed : List (String × String)) (v w : LiveView), BeforeAnchor S R a q v w →
      Tandem (applyCase t a root ((fixed.map fun x => IcuCreateOp.setAttribute slot x.1 x.2) ++ more))
        (applyCase t (name a) root' ((fixed.map fun x => IcuCreateOp.setAttribute slot x.1 x.2) ++ more)) v w Q
  | [], v, w, h => hnext v w h
  | x :: fixed, v, w, h => by
    rw [map_cons, cons_append, applyCase_cons, applyCase_cons]
    refine .andThen yields_caseOp_setAttribute yields_caseOp_setAttribute ?_
    refine tandem_setAttributes hslot hnext fixed _ _ ?_
    rw [hf.node?_eq h.related (.inr (.inr hslot))]
    cases hnode : v.node? slot with
    | none => exact h
    | some id =>
      refine ⟨hf.write h.related (.inr hslot) hnode _, ?_, ?_, h.front⟩
      · exact Nat.lt_of_lt_of_eq h.lt (Tree.size_modifyContent _ _ _).symm
      · exact (Tree.parent?_modifyContent _ _ _ _).trans h.parent

/-- The content of a case, and what follows it. The parent of the first node that is appended is the parent of the
expression. -/
theorem tandem_create : ∀ (plan : Plan) (parent : Int) (slot? : Option Int)
    (more : List IcuCreateOp) (v w : LiveView), plan.Registered t parent → plan.slots ⊆ S.inner →
      plan.slots.Nodup → BeforeAnchor S R a q v w → (slot?.getD parent = parent ∨ ∃ k : Nat, k ∈ S.inner ∧ parent = k) →
      (∀ slot?' v' w', slot?' = slot? ∨ slot?' = some (slot?.getD parent) → BeforeAnchor S R a q v' w' →
        Tandem (applyCase t a (slot?'.map (·, q)) more) (applyCase t (name a) (slot?'.map (·, q.map name)) more)
          v' w' Q) → Tandem (applyCase t a (slot?.map (·, q)) (plan.create parent ++ more))
        (applyCase t (name a) (slot?.map (·, q.map name)) (plan.create parent ++ more)) v w Q
  | .nil, parent, slot?, more, v, w, _, _, _, h, _, hnext => hnext slot? v w (.inl rfl) h
  | .text slot value rest, parent, slot?, more, v, w, hreg, hsub, hnodup, h, hparent, hnext => by
    obtain ⟨hslot, hsub⟩ := cons_subset.mp hsub
    obtain ⟨hlt, hlt'⟩ := hf.inner_lt h.related hslot
    refine tandem_new hf h hslot (yields_caseOp_text hlt) (yields_caseOp_text hlt')
      (hf.addNew h.related hslot _) rfl (node?_addNew hlt _) hparent fun v' w' h' => ?_
    refine tandem_create rest parent (some (slot?.getD parent)) more v' w' hreg.2 hsub (nodup_cons.mp hnodup).2
      h' hparent fun slot?' v'' w'' hs => ?_
    exact hnext slot?' v'' w'' (.inr (hs.elim id id))
  | .element slot tag fixed bound content rest, parent, slot?, more, v, w, hreg, hsub, hnodup, h, hparent, hnext => by
    obtain ⟨hslot, hsub⟩ := cons_subset.mp hsub
    obtain ⟨hsubContent, hsubRest⟩ := append_subset.mp hsub
    obtain ⟨hnodupContent, hnodupRest, -⟩ := nodup_append.mp (nodup_cons.mp hnodup).2
    obtain ⟨hlt, hlt'⟩ := hf.inner_lt h.related hslot
    rw [Plan.create, cons_append, cons_append, append_assoc, append_assoc]
    refine tandem_new hf h hslot (yields_caseOp_element hlt) (yields_caseOp_element hlt')
      (hf.addNew h.related hslot _) rfl (node?_addNew hlt _) hparent fun v' w' h' => ?_
    refine tandem_setAttributes hf hslot (fun v₁ w₁ h₁ => ?_) fixed v' w' h'
    -- what is inside the element goes into it, and then come its siblings
    refine tandem_create content slot (some (slot?.getD parent)) _ v₁ w₁ hreg.2.1 hsubContent hnodupContent h₁
      (.inr ⟨slot, hslot, rfl⟩) fun slot?' v₂ w₂ hs h₂ => ?_
    rw [show slot?' = some (slot?.getD parent) from hs.elim id id]
    refine tandem_create rest parent (some (slot?.getD parent)) more v₂ w₂ hreg.2.2 hsubRest hnodupRest h₂ hparent
      fun slot?'' v₃ w₃ hs => ?_
    exact hnext slot?'' v₃ w₃ (.inr (hs.elim id id))
  | .icu slot label (.mk kind main current cases) rest, parent, slot?, more, v, w, hreg, hsub, hnodup, h, hparent,
      hnext => by
    obtain ⟨hslot, hsub⟩ := cons_subset.mp hsub
    obtain ⟨hnew, hnodup⟩ := nodup_cons.mp hnodup
    obtain ⟨hsubIcu, hsubRest⟩ := append_subset.mp hsub
    have hcurrent : current ∈ S.inner := hsubIcu mem_cons_self
    have hne : slot ≠ current := fun heq => hnew (heq ▸ mem_append_left _ mem_cons_self)
    obtain ⟨hlt, hlt'⟩ := hf.inner_lt h.related hslot
    obtain ⟨hltCurrent, hltCurrent'⟩ := hf.inner_lt h.related hcurrent
    refine tandem_new hf h hslot (yields_caseOp_anchor hlt hreg.2.1.1 rfl hltCurrent)
      (yields_caseOp_anchor hlt' hreg.2.1.1 rfl hltCurrent')
      (hf.set (hf.addNew h.related hslot _) hcurrent (by simp)) rfl ?_ hparent fun v' w' h' => ?_
    · rw [node?_natCast, slots_set ((size_set _ _ _).symm ▸ hltCurrent), if_neg hne, ← node?_natCast]
      exact node?_addNew hlt _
    · refine tandem_create rest parent (some (slot?.getD parent)) more v' w' hreg.2.2 hsubRest
        (nodup_append.mp hnodup).2.1 h' hparent fun slot?' v'' w'' hs => ?_
      exact hnext slot?' v'' w'' (.inr (hs.elim id id))

end

/-! ### Removing and switching -/

theorem CasePlans.exists_of_mem {c : CompiledCase} : ∀ {cases : CasePlans}, c ∈ cases.compiled parent →
    ∃ (label : String) (content : Plan), c = ⟨label, content.create parent, content.remove, content.update⟩ ∧
      content.slots.Sublist cases.slots ∧ (cases.Registered t parent → content.Registered t parent)
  | .nil, h => by cases h
  | .cons label content rest, h => by
    rcases mem_cons.mp h with rfl | h
    · exact ⟨label, content, rfl, sublist_append_left _ _, fun hreg => hreg.1⟩
    · obtain ⟨label', content', hc, hsub, hreg⟩ := exists_of_mem h
      exact ⟨label', content', hc, hsub.trans (sublist_append_right _ _), fun hreg' => hreg hreg'.2⟩

theorem descends_stage {S : Stage} : Descends (fun plan parent => plan.Registered t parent ∧ plan.slots ⊆ S.inner)
    (fun icu parent anchor => icu.Registered t parent anchor ∧ anchor ∈ S.inner ∧ icu.slots ⊆ S.inner)
    fun cases parent => cases.Registered t parent ∧ cases.slots ⊆ S.inner where
  text := fun ⟨hreg, hsub⟩ => ⟨hreg.2, (cons_subset.mp hsub).2⟩
  element := fun ⟨hreg, hsub⟩ => by
    obtain ⟨hcontent, hrest⟩ := append_subset.mp (cons_subset.mp hsub).2
    exact ⟨⟨hreg.2.1, hcontent⟩, hreg.2.2, hrest⟩
  icu := fun ⟨hreg, hsub⟩ => by
    obtain ⟨hslot, hsub⟩ := cons_subset.mp hsub
    obtain ⟨hicu, hrest⟩ := append_subset.mp hsub
    exact ⟨⟨hreg.2.1, hslot, hicu⟩, hreg.2.2, hrest⟩
  cases := fun ⟨hreg, _, hsub⟩ => ⟨hreg.2.2, (cons_subset.mp hsub).2⟩
  cons := fun ⟨hreg, hsub⟩ => ⟨⟨hreg.1, (append_subset.mp hsub).1⟩, hreg.2, (append_subset.mp hsub).2⟩

section

variable (hf : Follows S name R)
include hf

theorem tandem_setInner (h : R v w) (hs : s ∈ S.inner)
    {x : LiveSlot} (hx : ∀ n, x ≠ .node n) : Tandem (setSlot s x) (setSlot s x) v w fun _ v' w' =>
      R v' w' ∧ v'.tree.size = v.tree.size := by
  obtain ⟨hv, hw⟩ := hf.inner_lt h hs
  exact tandem_of_yields (yields_setSlot hv) (yields_setSlot hw) ⟨hf.set h hs hx, rfl⟩

theorem tandem_takeOut (h : R v w) (hs : s ∈ S.inner) : Tandem (do
      match ← node? (s : Int) with
      | some id =>
        removeChild id
        setSlot s .empty
      | none => pure ()) (do
      match ← node? (s : Int) with
      | some id =>
        removeChild id
        setSlot s .empty
      | none => pure ()) v w fun _ v' w' => R v' w' ∧ v'.tree.size = v.tree.size := by
  refine tandem_node? (hf.node?_eq h (.inr (.inr hs))) (fun _ => tandem_pure ⟨h, rfl⟩) fun n hn => ?_
  refine .andThen yields_change yields_change ?_
  refine (tandem_setInner hf (hf.detach h (hf.owns h hs hn)) hs (by simp)).mono fun _ v' w' h' => ?_
  exact ⟨h'.1, h'.2.trans (Tree.size_detach _ _)⟩

theorem tandem_current (h : R v w) (hsub : icu.slots ⊆ S.inner) {β : Type} {g k : Option (Nat × Bool) → LiveM β}
    {Q : β → LiveView → LiveView → Prop} (hnext : ∀ active, Tandem (g active) (k active) v w Q) :
    Tandem (currentCase (icu.compiled parent s) >>= g) (currentCase (icu.compiled parent s) >>= k) v w Q := by
  obtain ⟨kind, main, current, cases⟩ := icu
  have hcurrent : current ∈ S.inner := hsub mem_cons_self
  obtain ⟨hlt, -⟩ := hf.inner_lt h hcurrent
  have hslot : v.slots[current]? = some v.slots[current] := Array.getElem?_eq_getElem hlt
  have hslot' : w.slots[current]? = some (v.slots[current].rename name) := by
    rw [hf.slots_eq h hcurrent, hslot, Option.map_some]
  have hcase : LiveSlot.case? (v.slots[current].rename name) = LiveSlot.case? v.slots[current] := by
    cases v.slots[current] <;> rfl
  refine .andThen (yields_currentCase rfl hslot) (yields_currentCase rfl hslot') ?_
  rw [hcase]
  exact hnext _

theorem tandem_removeCase : ∀ (depth : Nat) (icu : IcuPlan) (parent : Int) (anchor : Nat)
    (v w : LiveView), icu.Registered t parent anchor → icu.slots ⊆ S.inner → R v w →
      Tandem (removeCase t depth (icu.compiled parent anchor)) (removeCase t depth (icu.compiled parent anchor)) v w
        fun _ v' w' => R v' w' ∧ v'.tree.size = v.tree.size
  | 0, _, _, _, _, _, _, _, _ => tandem_throw _
  | depth + 1, .mk kind main current cases, parent, anchor, v, w, hreg, hsub, h => by
    rw [removeCase_succ]
    refine tandem_current hf h hsub fun active => ?_
    obtain ⟨hcurrent, hsub⟩ := cons_subset.mp hsub
    cases active with
    | none => exact tandem_pure ⟨h, rfl⟩
    | some active =>
      refine tandem_caseAt fun c hc => ?_
      obtain ⟨label, content, rfl, hcontent, hregContent⟩ := CasePlans.exists_of_mem (t := t) hc
      refine Tandem.bind (P := fun _ v' w' => R v' w' ∧ v'.tree.size = v.tree.size)
        (tandem_forM (fun op hop v₁ w₁ h₁ => ?_) ⟨h, rfl⟩) fun _ v₁ w₁ h₁ => ?_
      · have hinside : content.slots ⊆ S.inner := fun s hs => hsub (hcontent.subset hs)
        unfold removeOp
        rcases descends_stage.remove (L := (· ∈ S.inner)) (fun h => h.2 mem_cons_self) (fun h => h.2 mem_cons_self)
          ⟨hregContent hreg.2.2, hinside⟩ op hop with ⟨slot, rfl, hslot⟩ | ⟨slot, nested, rfl, hregNested, hslot, hnested⟩
        · exact (tandem_takeOut hf h₁.1 hslot).mono fun _ v₂ w₂ h₂ => ⟨h₂.1, h₂.2.trans h₁.2⟩
        · dsimp only
          rw [hregNested.icu?_eq]
          -- what the nested expression shows goes first, then its anchor
          refine (tandem_removeCase depth nested parent slot v₁ w₁ hregNested hnested h₁.1).bind fun _ v₂ w₂ h₂ => ?_
          exact (tandem_takeOut hf h₂.1 hslot).mono fun _ v₃ w₃ h₃ => ⟨h₃.1, h₃.2.trans (h₂.2.trans h₁.2)⟩
      · exact (tandem_setInner hf h₁.1 hcurrent (by simp)).mono fun _ v₂ w₂ h₂ => ⟨h₂.1, h₂.2.trans h₁.2⟩

theorem tandem_switchCase (h : R v w)
    (hreg : icu.Registered t parent s) (hs : s ∈ S.anchors ∨ s ∈ S.inner) (hsub : icu.slots ⊆ S.inner)
    (hnodup : icu.slots.Nodup) (depth : Nat) (value : String) :
    Tandem (switchCase t depth (icu.compiled parent s) value) (switchCase t depth (icu.compiled parent s) value) v w
      fun _ => R := by
  have hanchor : (icu.compiled parent s).anchor = s := by cases icu; rfl
  unfold switchCase
  rw [hanchor]
  refine tandem_node? (hf.node?_eq h (hs.imp_right .inr)) (fun _ => tandem_pure h) fun a ha => ?_
  obtain ⟨hfront, hlt⟩ := hf.front h hs ha
  refine tandem_get fun r r' hr hr' => ?_
  rw [hr, hr', hf.locale_eq h]
  cases caseFor (icu.compiled parent s) v.locale value with
  | error e => exact tandem_throw e
  | ok chosen =>
    refine tandem_current hf h hsub fun active => ?_
    split
    · exact tandem_pure h
    · refine (tandem_removeCase hf depth icu parent s v w hreg hsub h).bind fun _ v₁ w₁ h₁ => ?_
      cases chosen with
      | none => exact tandem_pure h₁.1
      | some k =>
        obtain ⟨kind, main, current, cases⟩ := icu
        obtain ⟨hcurrent, hsubCases⟩ := cons_subset.mp hsub
        refine tandem_caseAt fun c hc => ?_
        obtain ⟨label, content, rfl, hcontent, hregContent⟩ := CasePlans.exists_of_mem (t := t) hc
        refine .andThen yields_report yields_report ?_
        refine (tandem_setInner hf h₁.1 hcurrent (by simp)).bind fun _ v₂ w₂ h₂ => ?_
        -- the anchor is still there, and no instruction follows those of the case
        have hat : BeforeAnchor S R a (v₂.tree.parent? a) v₂ w₂ :=
          ⟨h₂.1, (h₂.2.trans h₁.2).symm ▸ hlt, rfl, hfront⟩
        have hcreate := tandem_create (Q := fun _ => R) hf content parent none [] v₂ w₂
          (hregContent hreg.2.2) (List.Subset.trans hcontent.subset hsubCases)
          ((nodup_cons.mp hnodup).2.sublist hcontent) hat (.inl rfl) fun _ v₃ w₃ _ h₃ => tandem_pure h₃.related
        rw [append_nil] at hcreate
        exact hcreate

end

/-! ### Updates -/

/-- The instruction writes to a node, or belongs to an expression of the stage. -/
inductive UpdateOp.OnStage (t : TemplateView) (S : Stage) (op : UpdateOp) : Prop where
  | writes (s : Nat) (hs : s ∈ S.texts ∨ s ∈ S.inner) (hindex : op.index = s) (hop : op.Writes)
  | icu (s : Nat) (icu : IcuPlan) (parent : Int) (hs : s ∈ S.anchors ∨ s ∈ S.inner) (hindex : op.index = s)
      (htarget : op.target = .icuSwitch ∨ op.target = .icuUpdate) (hreg : icu.Registered t parent s)
      (hsub : icu.slots ⊆ S.inner) (hnodup : icu.slots.Nodup)

variable {run : List UpdateOp → Mask → LiveM Unit} {op : UpdateOp}

section

variable (hf : Follows S name R)
include hf

theorem tandem_updateCase (h : R v w) (hsub : icu.slots ⊆ S.inner)
    (hrun : ∀ (ops : List UpdateOp) (mask : Mask) (v w : LiveView), (∀ op ∈ ops, op.OnStage t S) →
      R v w → Tandem (run ops mask) (run ops mask) v w fun _ => R) (changes : Mask) :
    Tandem (updateCase run (icu.compiled parent s) changes) (updateCase run (icu.compiled parent s) changes) v w
      fun _ => R := by
  -- What remains once the case is no longer fresh.
  have hcase : ∀ (k : Nat) (mask : Mask) (v w : LiveView), R v w → Tandem (do
      let case ← caseAt (icu.compiled parent s) k
      run case.update mask) (do
      let case ← caseAt (icu.compiled parent s) k
      run case.update mask) v w fun _ => R := by
    intro k mask v w h
    refine tandem_caseAt fun c hc => hrun _ mask v w (fun op hop => ?_) h
    obtain ⟨kind, main, current, cases⟩ := icu
    obtain ⟨label, content, rfl, hcontent, -⟩ := CasePlans.exists_of_mem (t := t) hc
    obtain ⟨hwrites, k, hk, hindex⟩ := Plan.update_writes content op hop
    have hk : k ∈ content.slots := (Plan.slots_perm content).mem_iff.mp (mem_append_left _ hk)
    exact .writes k (.inr (hsub (mem_cons_of_mem _ (hcontent.subset hk)))) hindex hwrites
  unfold updateCase
  refine tandem_current hf h hsub fun active => ?_
  cases active with
  | none => exact tandem_pure h
  | some active =>
    obtain ⟨k, fresh⟩ := active
    cases fresh with
    | false => exact hcase k changes v w h
    | true =>
      obtain ⟨kind, main, current, cases⟩ := icu
      have hcurrent : current ∈ S.inner := hsub mem_cons_self
      exact (tandem_setInner hf h hcurrent (by simp)).bind fun _ v' w' h' => hcase k Mask.all v' w' h'.1

theorem Follows.commitAt (h : R v w) (hs : s ∈ S.texts ∨ s ∈ S.inner) (hindex : op.index = s) (values : List String) :
    R (v.commitAt values op) (w.commitAt values op) := by
  unfold LiveView.commitAt
  rw [hindex, hf.node?_eq h (.inr hs)]
  cases hnode : v.node? s with
  | none => exact h
  | some id => exact hf.write h hs hnode _

theorem tandem_applyUpdate (h : R v w)
    (hrun : ∀ (ops : List UpdateOp) (mask : Mask) (v w : LiveView), (∀ op ∈ ops, op.OnStage t S) →
      R v w → Tandem (run ops mask) (run ops mask) v w fun _ => R) (depth : Nat) (values : List String)
    (changes : Mask) (hop : op.OnStage t S) :
    Tandem (applyUpdate t depth run values changes op) (applyUpdate t depth run values changes op) v w fun _ => R := by
  cases hop with
  | writes s hs hindex hop =>
    refine tandem_of_yields (yields_write hop) (yields_write hop) ?_
    split
    · exact hf.commitAt h hs hindex values
    · exact h
  | icu s icu parent hs hindex htarget hreg hsub hnodup =>
    have hswitch := tandem_switchCase hf h hreg hs hsub hnodup depth
    have hupdate : ∀ mask, Tandem (updateCase run (icu.compiled parent s) mask)
        (updateCase run (icu.compiled parent s) mask) v w fun _ => R :=
      tandem_updateCase hf h hsub hrun
    unfold applyUpdate
    split
    · unfold applyChanged
      refine tandem_composed fun value => ?_
      rcases htarget with htarget | htarget
      · rw [htarget, hindex]
        dsimp only
        rw [hreg.icu?_eq]
        exact hswitch value
      · rw [htarget, hindex]
        dsimp only
        rw [hreg.icu?_eq]
        exact hupdate changes
    · unfold applyPending
      rcases htarget with htarget | htarget
      · have hanchor : (icu.compiled parent s).anchor = s := by cases icu; rfl
        rw [htarget, hindex]
        dsimp only
        rw [hreg.icu?_eq]
        dsimp only
        rw [hanchor]
        refine tandem_node? (hf.node?_eq h (hs.imp_right .inr)) (fun _ => tandem_pure h) fun a ha => ?_
        refine tandem_current hf h hsub fun active => ?_
        split
        · exact tandem_composed hswitch
        · exact tandem_pure h
      · rw [htarget, hindex]
        dsimp only
        rw [hreg.icu?_eq]
        refine tandem_current hf h hsub fun active => ?_
        split
        · exact hupdate 0#32
        · exact tandem_pure h

theorem tandem_applyUpdatesTo (values : List String) : ∀ (depth : Nat) (ops : List UpdateOp)
    (mask : Mask) (v w : LiveView), (∀ op ∈ ops, op.OnStage t S) → R v w →
      Tandem (applyUpdatesTo t values depth ops mask) (applyUpdatesTo t values depth ops mask) v w fun _ => R
  | 0, _, _, _, _, _, _ => tandem_throw _
  | depth + 1, _, mask, _, _, hops, h =>
    tandem_forM (fun op hop _ _ h' => tandem_applyUpdate hf h' (tandem_applyUpdatesTo values depth) (depth + 1)
      values mask (hops op hop)) h

/-- **An update does the same in both views.** -/
theorem tandem_update (h : R v w) {b : LiveBlock}
    (hops : ∀ op ∈ b.block.update, op.OnStage t S) (values : List String) :
    Tandem (b.update t values) (b.update t values) v w fun b' v' w' => b'.block = b.block ∧ R v' w' := by
  unfold LiveBlock.update
  dsimp only
  split
  · exact (tandem_applyUpdatesTo hf _ _ _ _ v w hops h).bind fun _ _ _ h' => tandem_pure ⟨rfl, h'⟩
  · exact tandem_pure ⟨rfl, h⟩

end

end Tandem

end MessageCompiler
