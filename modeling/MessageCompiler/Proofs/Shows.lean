/-
What a live view shows of a plan.

Content that is shown stands below the host as its plan says, and every other slot of the plan holds
nothing that is below the host. Instructions that leave the slots of a plan alone leave it shown.

* **`Plan.Shows.frame`** — what leaves nodes and slots alone leaves them shown.
-/
import MessageCompiler.Proofs.Commits
import MessageCompiler.Proofs.LiveFrame
import MessageCompiler.Proofs.Plan

namespace MessageCompiler

open List

variable {labels : List String} {k : Nat} {kind : IcuKind} {locale : Locale} {value : String}

open Markup (Content Tree)
open LiveView

/-! ### The case for a value -/

def labelAt? (labels : List String) (label : String) : Option Nat := labels.findIdx? (· == label)

def chooseCase (kind : IcuKind) (locale : Locale) (labels : List String) (value : String) : Option Nat :=
  match labelAt? labels value with
  | some i => some i
  | none =>
    match kind with
    | .select => labelAt? labels "other"
    | .plural =>
      ((Plural.category? locale value).bind fun c => labelAt? labels c.name).or (labelAt? labels "other")
    | .exact => none

def chosenFor (kind : IcuKind) (locale : Locale) (labels : List String) (main : Int)
    (values : Option (List String)) : Option Nat :=
  values.bind fun values => chooseCase kind locale labels (valueAt values main)

theorem labelAt?_lt {label : String} (h : labelAt? labels label = some k) :
    k < labels.length :=
  (List.findIdx?_eq_some_iff_getElem.mp h).1

theorem chooseCase_lt (h : chooseCase kind locale labels value = some k) : k < labels.length := by
  unfold chooseCase at h
  split at h
  · next i hi =>
    cases h
    exact labelAt?_lt hi
  · cases kind with
    | select => exact labelAt?_lt h
    | plural =>
      rcases Option.or_eq_some_iff.mp h with h | ⟨-, h⟩
      · obtain ⟨c, -, hc⟩ := Option.bind_eq_some_iff.mp h
        exact labelAt?_lt hc
      · exact labelAt?_lt h
    | exact => cases h

theorem chosenFor_lt {main : Int}
    {values : Option (List String)} (h : chosenFor kind locale labels main values = some k) :
    k < labels.length := by
  obtain ⟨values, -, h⟩ := Option.bind_eq_some_iff.mp h
  exact chooseCase_lt h

theorem CasePlans.labels_compiled (parent : Int) : ∀ cases : CasePlans,
    (cases.compiled parent).map (·.label) = cases.labels
  | .nil => rfl
  | .cons label content rest => by
    rw [compiled, map_cons, labels_compiled parent rest, labels]

theorem labelIndex?_compiled (kind : IcuKind) (anchor : Int) (current : Int) (parent : Int)
    (cases : CasePlans) (label : String) :
    Live.labelIndex? ⟨kind, anchor, current, cases.compiled parent⟩ label = labelAt? cases.labels label := by
  unfold Live.labelIndex? labelAt?
  rw [← cases.labels_compiled parent, List.findIdx?_map]
  rfl

theorem caseFor_compiled
    (hcategory : kind = .plural → Plural.category? locale value ≠ none) (anchor : Int) (current : Int)
    (parent : Int) (cases : CasePlans) :
    Live.caseFor ⟨kind, anchor, current, cases.compiled parent⟩ locale value =
      .ok (chooseCase kind locale cases.labels value) := by
  unfold Live.caseFor chooseCase
  rw [labelIndex?_compiled, labelIndex?_compiled]
  cases labelAt? cases.labels value with
  | some i => rfl
  | none =>
    cases kind with
    | select => rfl
    | exact => rfl
    | plural =>
      cases hfound : Plural.category? locale value with
      | none => exact absurd hfound (hcategory rfl)
      | some c =>
        dsimp only [Option.bind_some]
        rw [labelIndex?_compiled]
        cases labelAt? cases.labels c.name <;> rfl

def CasePlans.content? : CasePlans → Nat → Option Plan
  | .nil, _ => none
  | .cons _ content _, 0 => some content
  | .cons _ _ rest, k + 1 => rest.content? k

theorem CasePlans.exists_content (parent : Int) : ∀ {cases : CasePlans} {k : Nat},
    k < cases.labels.length → ∃ label content, cases.content? k = some content ∧
      (cases.compiled parent)[k]? = some ⟨label, content.create parent, content.remove, content.update⟩
  | .nil, _, hk => by cases hk
  | .cons label content _, 0, _ => ⟨label, content, rfl, rfl⟩
  | .cons _ _ rest, k + 1, hk => by
    have hk' : k < rest.labels.length := Nat.lt_of_succ_lt_succ hk
    obtain ⟨label, content, hcontent, hcompiled⟩ := exists_content parent hk'
    exact ⟨label, content, hcontent, hcompiled⟩

theorem Descends.content {P : Plan → Int → Prop} {Q : IcuPlan → Int → Nat → Prop} {C : CasePlans → Int → Prop}
    (hd : Descends P Q C) {parent : Int} : ∀ {cases : CasePlans} {k : Nat} {content : Plan}, C cases parent →
      cases.content? k = some content → P content parent
  | .nil, _, _, _, h => by cases h
  | .cons _ _ _, 0, _, hcases, h => by
    cases h
    exact (hd.cons hcases).1
  | .cons _ _ _, _ + 1, _, hcases, h => hd.content (hd.cons hcases).2 h

/-! ### Instructions of nodes -/

theorem bindingUpdate_writes {text : String} (h : Message.hasBinding text.toList = true) (index : Int)
    {target : Target} (hplace : (bindingUpdate text index target 0).place?.isSome = true) :
    (bindingUpdate text index target 0).Writes :=
  ⟨hplace, partsNonneg_bindingUpdate text index target, rfl, bindingUpdate_mask_ne h index target⟩

variable {op : UpdateOp} {slot : Nat}

theorem textUpdate_writes (h : op ∈ textUpdate slot value) : op.Writes ∧ op.index = slot := by
  unfold textUpdate at h
  split at h
  · next hbinding =>
    rw [mem_singleton.mp h]
    exact ⟨bindingUpdate_writes hbinding slot rfl, rfl⟩
  · cases h

theorem BoundAttr.op_writes (b : BoundAttr) (slot : Nat) : (b.op slot).Writes ∧ (b.op slot).index = slot := by
  refine ⟨bindingUpdate_writes b.bound slot ?_, rfl⟩
  unfold UpdateOp.place? bindingUpdate Target.ofAttribute
  dsimp only
  cases b.name.isEmpty <;> rfl

theorem boundAttr_writes {bound : List BoundAttr} (h : op ∈ bound.map (·.op slot)) : op.Writes ∧ op.index = slot := by
  obtain ⟨b, -, rfl⟩ := mem_map.mp h
  exact b.op_writes slot

/-! ### What is not shown -/

namespace LiveView

def Loose (root : Nat) (v : LiveView) (s : Nat) : Prop :=
  ∀ id, v.slots[s]? = some (.node id) → ¬v.Below root id

def Settled (v : LiveView) (s n : Nat) : Prop :=
  v.slots[s]? = some .empty ∨ ∃ k fresh, v.slots[s]? = some (.chosen k fresh) ∧ k < n

/-- What the slots hold is the same in both views, and nothing of it has got below the root. -/
structure Carries (root : Nat) (S : List Nat) (v v' : LiveView) : Prop where
  locale : v'.locale = v.locale
  slots : ∀ s ∈ S, v'.slots[s]? = v.slots[s]?
  cells : ∀ s ∈ S, ∀ id, v.slots[s]? = some (.node id) → v.Below root id → v'.tree.cells[id]? = v.tree.cells[id]?
  dead : ∀ s ∈ S, ∀ id, v.slots[s]? = some (.node id) → v'.Below root id → v.Below root id

variable {root : Nat} {S S' : List Nat} {hosts : Nat → Prop} {v v' : LiveView}

theorem Carries.mono (h : Carries root S v v') (hS : ∀ s ∈ S', s ∈ S) : Carries root S' v v' where
  locale := h.locale
  slots s hs := h.slots s (hS s hs)
  cells s hs := h.cells s (hS s hs)
  dead s hs := h.dead s (hS s hs)

theorem Keeps.carries (hs : v.Sound root) (h : v.Keeps root S hosts v') (hdisjoint : ∀ s ∈ S', s ∉ S)
    (hhosts : ∀ id, hosts id → ¬v.Holds S' id) : Carries root S' v v' where
  locale := h.locale
  slots s hs := h.slots s (hdisjoint s hs)
  cells s hmem id hid hbelow := by
    refine h.cell hbelow ?_ fun hhost => hhosts id hhost ⟨s, hmem, hid⟩
    rintro ⟨k, hk, hkid⟩
    exact hdisjoint s hmem (hs.slot_inj s k id hid hkid ▸ hk)
  dead s hmem id hid := h.dead s id (hdisjoint s hmem) hid

theorem Loose.frame {s : Nat} (hloose : v.Loose root s) (h : Carries root S v v') (hs : s ∈ S) : v'.Loose root s := by
  intro id hid hbelow
  rw [h.slots s hs] at hid
  exact hloose id hid (h.dead s hs id hid hbelow)

theorem Settled.frame {s n : Nat} (hsettled : v.Settled s n) (h : Carries root S v v') (hs : s ∈ S) :
    v'.Settled s n := by
  unfold Settled
  rw [h.slots s hs]
  exact hsettled

end LiveView

mutual

def Plan.Idle (root : Nat) (v : LiveView) : Plan → Prop
  | .nil => True
  | .text slot _ rest => v.Loose root slot ∧ rest.Idle root v
  | .element slot _ _ _ content rest => v.Loose root slot ∧ content.Idle root v ∧ rest.Idle root v
  | .icu slot _ icu rest => v.Loose root slot ∧ icu.Idle root v ∧ rest.Idle root v

def IcuPlan.Idle (root : Nat) (v : LiveView) : IcuPlan → Prop
  | .mk _ _ current cases => v.Settled current cases.labels.length ∧ cases.Idle root v

def CasePlans.Idle (root : Nat) (v : LiveView) : CasePlans → Prop
  | .nil => True
  | .cons _ content rest => content.Idle root v ∧ rest.Idle root v

end

/-! ### The slots of what is not shown -/

mutual

def Plan.nodeSlots : Plan → List Nat
  | .nil => []
  | .text slot _ rest => slot :: rest.nodeSlots
  | .element slot _ _ _ content rest => slot :: (content.nodeSlots ++ rest.nodeSlots)
  | .icu slot _ icu rest => slot :: (icu.nodeSlots ++ rest.nodeSlots)

def IcuPlan.nodeSlots : IcuPlan → List Nat
  | .mk _ _ _ cases => cases.nodeSlots

def CasePlans.nodeSlots : CasePlans → List Nat
  | .nil => []
  | .cons _ content rest => content.nodeSlots ++ rest.nodeSlots

end

mutual

def Plan.currents : Plan → List (Nat × Nat)
  | .nil => []
  | .text _ _ rest => rest.currents
  | .element _ _ _ _ content rest => content.currents ++ rest.currents
  | .icu _ _ icu rest => icu.currents ++ rest.currents

def IcuPlan.currents : IcuPlan → List (Nat × Nat)
  | .mk _ _ current cases => (current, cases.labels.length) :: cases.currents

def CasePlans.currents : CasePlans → List (Nat × Nat)
  | .nil => []
  | .cons _ content rest => content.currents ++ rest.currents

end

theorem perm_interleave {α : Type} (a b c d : List α) : ((a ++ b) ++ (c ++ d)).Perm ((a ++ c) ++ (b ++ d)) := by
  rw [append_assoc, append_assoc]
  exact (perm_append_comm_assoc b c d).append_left a

mutual

theorem Plan.slots_perm : ∀ (plan : Plan), (plan.nodeSlots ++ plan.currents.map (·.1)).Perm plan.slots
  | .nil => .nil
  | .text slot _ rest => (Plan.slots_perm rest).cons slot
  | .element slot _ _ _ content rest => by
    rw [Plan.nodeSlots, Plan.currents, map_append, cons_append, Plan.slots]
    exact ((perm_interleave _ _ _ _).trans ((Plan.slots_perm content).append (Plan.slots_perm rest))).cons slot
  | .icu slot _ icu rest => by
    rw [Plan.nodeSlots, Plan.currents, map_append, cons_append, Plan.slots]
    exact ((perm_interleave _ _ _ _).trans ((IcuPlan.slots_perm icu).append (Plan.slots_perm rest))).cons slot

theorem IcuPlan.slots_perm : ∀ (icu : IcuPlan), (icu.nodeSlots ++ icu.currents.map (·.1)).Perm icu.slots
  | .mk _ _ current cases => perm_middle.trans ((CasePlans.slots_perm cases).cons current)

theorem CasePlans.slots_perm : ∀ (cases : CasePlans), (cases.nodeSlots ++ cases.currents.map (·.1)).Perm cases.slots
  | .nil => .nil
  | .cons _ content rest => by
    rw [CasePlans.nodeSlots, CasePlans.currents, map_append, CasePlans.slots]
    exact (perm_interleave _ _ _ _).trans ((Plan.slots_perm content).append (CasePlans.slots_perm rest))

end

/-- Nothing in the slots is below the root. -/
structure LiveView.Dormant (root : Nat) (N : List Nat) (C : List (Nat × Nat)) (v : LiveView) : Prop where
  loose : ∀ s ∈ N, v.Loose root s
  settled : ∀ c ∈ C, v.Settled c.1 c.2

section Frame

variable {root s : Nat} {N S : List Nat} {C : List (Nat × Nat)} {v v' : LiveView}

theorem dormant_cons : v.Dormant root (s :: N) C ↔ v.Loose root s ∧ v.Dormant root N C :=
  ⟨fun h => ⟨h.loose s mem_cons_self, (forall_mem_cons.mp h.loose).2, h.settled⟩,
    fun h => ⟨forall_mem_cons.mpr ⟨h.1, h.2.loose⟩, h.2.settled⟩⟩

theorem dormant_append {N' : List Nat} {C' : List (Nat × Nat)} :
    v.Dormant root (N ++ N') (C ++ C') ↔ v.Dormant root N C ∧ v.Dormant root N' C' :=
  ⟨fun h => ⟨⟨fun s hs => h.loose s (mem_append_left _ hs), fun c hc => h.settled c (mem_append_left _ hc)⟩,
      ⟨fun s hs => h.loose s (mem_append_right _ hs), fun c hc => h.settled c (mem_append_right _ hc)⟩⟩,
    fun h => ⟨forall_mem_append.mpr ⟨h.1.loose, h.2.loose⟩, forall_mem_append.mpr ⟨h.1.settled, h.2.settled⟩⟩⟩

mutual

theorem Plan.idle_iff : ∀ (plan : Plan), plan.Idle root v ↔ v.Dormant root plan.nodeSlots plan.currents
  | .nil => ⟨fun _ => ⟨by simp [Plan.nodeSlots], by simp [Plan.currents]⟩, fun _ => trivial⟩
  | .text slot _ rest => by
    rw [Plan.Idle, Plan.idle_iff rest, ← dormant_cons]
    rfl
  | .element slot _ _ _ content rest => by
    rw [Plan.Idle, Plan.idle_iff content, Plan.idle_iff rest, ← dormant_append, ← dormant_cons]
    rfl
  | .icu slot _ icu rest => by
    rw [Plan.Idle, IcuPlan.idle_iff icu, Plan.idle_iff rest, ← dormant_append, ← dormant_cons]
    rfl

theorem IcuPlan.idle_iff : ∀ (icu : IcuPlan), icu.Idle root v ↔ v.Dormant root icu.nodeSlots icu.currents
  | .mk _ _ current cases => by
    rw [IcuPlan.Idle, CasePlans.idle_iff cases]
    exact ⟨fun h => ⟨h.2.loose, forall_mem_cons.mpr ⟨h.1, h.2.settled⟩⟩,
      fun h => ⟨h.settled _ mem_cons_self, h.loose, (forall_mem_cons.mp h.settled).2⟩⟩

theorem CasePlans.idle_iff : ∀ (cases : CasePlans), cases.Idle root v ↔ v.Dormant root cases.nodeSlots cases.currents
  | .nil => ⟨fun _ => ⟨by simp [CasePlans.nodeSlots], by simp [CasePlans.currents]⟩, fun _ => trivial⟩
  | .cons _ content rest => by
    rw [CasePlans.Idle, Plan.idle_iff content, CasePlans.idle_iff rest, ← dormant_append]
    rfl

end

theorem LiveView.Dormant.frame (h : v.Dormant root N C) (hperm : (N ++ C.map (·.1)).Perm S)
    (hc : Carries root S v v') : v'.Dormant root N C :=
  ⟨fun s hs => (h.loose s hs).frame hc (hperm.subset (mem_append_left _ hs)),
    fun c hs => (h.settled c hs).frame hc (hperm.subset (mem_append_right _ (mem_map_of_mem hs)))⟩

theorem LiveView.Dormant.not_below (h : v.Dormant root N C) (hperm : (N ++ C.map (·.1)).Perm S) {id : Nat}
    (hid : v.Holds S id) : ¬v.Below root id := by
  obtain ⟨s, hs, hslot⟩ := hid
  rcases mem_append.mp (hperm.symm.subset hs) with hs | hs
  · exact h.loose s hs id hslot
  · obtain ⟨c, hc, rfl⟩ := mem_map.mp hs
    rcases h.settled c hc with hempty | ⟨k, fresh, hchosen, -⟩
    · cases hempty.symm.trans hslot
    · cases hchosen.symm.trans hslot

theorem Plan.Idle.frame {plan : Plan} (h : plan.Idle root v) (hc : Carries root plan.slots v v') : plan.Idle root v' :=
  plan.idle_iff.mpr ((plan.idle_iff.mp h).frame plan.slots_perm hc)

theorem IcuPlan.Idle.frame {icu : IcuPlan} (h : icu.Idle root v) (hc : Carries root icu.slots v v') :
    icu.Idle root v' :=
  icu.idle_iff.mpr ((icu.idle_iff.mp h).frame icu.slots_perm hc)

theorem CasePlans.Idle.frame {cases : CasePlans} (h : cases.Idle root v) (hc : Carries root cases.slots v v') :
    cases.Idle root v' :=
  cases.idle_iff.mpr ((cases.idle_iff.mp h).frame cases.slots_perm hc)

end Frame

/-! ### What is shown -/

def textContent (own : Option (List String)) (slot : Nat) (value : String) : Content :=
  shown own (textUpdate slot value) (.text (initialText value))

def elementBase (tag : String) (fixed : List (String × String)) : Content :=
  fixed.foldl (fun c a => Live.withAttribute a.1 a.2 c) (.element .html tag [])

def elementContent (own : Option (List String)) (slot : Nat) (tag : String)
    (fixed : List (String × String)) (bound : List BoundAttr) : Content :=
  shown own (bound.map (·.op slot)) (elementBase tag fixed)

mutual

/-- The nodes `tops` with the parent `p` are the nodes of the plan. Their texts and attributes show the
values `own`, the expressions among them the values `nested`; what is new shows none yet. -/
def Plan.Shows (root : Nat) (v : LiveView) (own nested : Option (List String)) :
    (p : Nat) → Plan → (tops : List Nat) → Prop
  | _, .nil, tops => tops = []
  | p, .text slot value rest, tops =>
    ∃ id tops', tops = id :: tops' ∧ v.slots[slot]? = some (.node id) ∧
      v.tree.cells[id]? = some ⟨textContent own slot value, some p, []⟩ ∧
      rest.Shows root v own nested p tops'
  | p, .element slot tag fixed bound content rest, tops =>
    ∃ id kids tops', tops = id :: tops' ∧ v.slots[slot]? = some (.node id) ∧
      v.tree.cells[id]? = some ⟨elementContent own slot tag fixed bound, some p, kids⟩ ∧
      content.Shows root v own nested id kids ∧ rest.Shows root v own nested p tops'
  | p, .icu slot label icu rest, tops =>
    ∃ front id tops', tops = front ++ id :: tops' ∧ v.slots[slot]? = some (.node id) ∧
      v.tree.cells[id]? = some ⟨.comment label, some p, []⟩ ∧
      icu.Shows root v nested p front ∧ rest.Shows root v own nested p tops'

def IcuPlan.Shows (root : Nat) (v : LiveView) (values : Option (List String)) (p : Nat) :
    IcuPlan → (tops : List Nat) → Prop
  | .mk kind main current cases, tops =>
    match chosenFor kind v.locale cases.labels main values with
    | none => v.slots[current]? = some .empty ∧ tops = [] ∧ cases.Idle root v
    | some k =>
      ∃ fresh, v.slots[current]? = some (.chosen k fresh) ∧ (fresh = true → cases.updates = []) ∧
        cases.Shows root v values values p k tops

/-- The nodes `tops` are those of the case with the number `k`, and no other case is shown. -/
def CasePlans.Shows (root : Nat) (v : LiveView) (own nested : Option (List String)) (p : Nat) :
    CasePlans → (k : Nat) → (tops : List Nat) → Prop
  | .nil, _, _ => False
  | .cons _ content rest, 0, tops => content.Shows root v own nested p tops ∧ rest.Idle root v
  | .cons _ content rest, k + 1, tops => content.Idle root v ∧ rest.Shows root v own nested p k tops

end

section Shows

variable {root : Nat} {v v' : LiveView}
variable {children : List Nat} {content : Content} {id p slot : Nat}

/-- An expression shows no case and has chosen none, or it shows the case that it has chosen. -/
theorem IcuPlan.shows_iff {kind : IcuKind} {main : Int} {current : Nat} {cases : CasePlans}
    {values : Option (List String)} {tops : List Nat} : (IcuPlan.mk kind main current cases).Shows root v values p tops ↔
      (chosenFor kind v.locale cases.labels main values = none ∧ v.slots[current]? = some .empty ∧ tops = [] ∧
        cases.Idle root v) ∨
      ∃ k fresh, chosenFor kind v.locale cases.labels main values = some k ∧
        v.slots[current]? = some (.chosen k fresh) ∧ (fresh = true → cases.updates = []) ∧
          cases.Shows root v values values p k tops := by
  unfold IcuPlan.Shows
  cases chosenFor kind v.locale cases.labels main values <;> simp

theorem below_of_cell (hp : v.Below root p) (hcell : v.tree.cells[id]? = some ⟨content, some p, children⟩) : v.Below root id :=
  hp.child (Tree.parent?_of_cell hcell)

mutual

theorem Plan.Shows.frame : ∀ {plan : Plan} {own nested : Option (List String)} {p : Nat}
    {tops : List Nat}, v.Below root p → plan.Shows root v own nested p tops →
      Carries root plan.slots v v' → plan.Shows root v' own nested p tops
  | .nil, _, _, _, _, _, h, _ => h
  | .text slot value rest, own, nested, p, tops, hp, h, hc => by
    obtain ⟨id, tops', rfl, hslot, hcell, hrest⟩ := h
    have hmem : slot ∈ (Plan.text slot value rest).slots := mem_cons_self
    refine ⟨id, tops', rfl, (hc.slots slot hmem).trans hslot, ?_, ?_⟩
    · exact (hc.cells slot hmem id hslot (below_of_cell hp hcell)).trans hcell
    · exact hrest.frame hp (hc.mono fun _ hs => mem_cons_of_mem slot hs)
  | .element slot tag fixed bound content rest, own, nested, p, tops, hp, h, hc => by
    obtain ⟨id, kids, tops', rfl, hslot, hcell, hcontent, hrest⟩ := h
    have hmem : slot ∈ (Plan.element slot tag fixed bound content rest).slots := mem_cons_self
    have hid := below_of_cell hp hcell
    refine ⟨id, kids, tops', rfl, (hc.slots slot hmem).trans hslot, ?_, ?_, ?_⟩
    · exact (hc.cells slot hmem id hslot hid).trans hcell
    · exact hcontent.frame hid (hc.mono fun _ hs => mem_cons_of_mem slot (mem_append_left _ hs))
    · exact hrest.frame hp (hc.mono fun _ hs => mem_cons_of_mem slot (mem_append_right _ hs))
  | .icu slot label icu rest, own, nested, p, tops, hp, h, hc => by
    obtain ⟨front, id, tops', rfl, hslot, hcell, hicu, hrest⟩ := h
    have hmem : slot ∈ (Plan.icu slot label icu rest).slots := mem_cons_self
    refine ⟨front, id, tops', rfl, (hc.slots slot hmem).trans hslot, ?_, ?_, ?_⟩
    · exact (hc.cells slot hmem id hslot (below_of_cell hp hcell)).trans hcell
    · exact hicu.frame hp (hc.mono fun _ hs => mem_cons_of_mem slot (mem_append_left _ hs))
    · exact hrest.frame hp (hc.mono fun _ hs => mem_cons_of_mem slot (mem_append_right _ hs))

theorem IcuPlan.Shows.frame : ∀ {icu : IcuPlan} {values : Option (List String)} {p : Nat}
    {tops : List Nat}, v.Below root p → icu.Shows root v values p tops →
      Carries root icu.slots v v' → icu.Shows root v' values p tops
  | .mk kind main current cases, values, p, tops, hp, h, hc => by
    have hcases : Carries root cases.slots v v' := hc.mono fun _ hs => mem_cons_of_mem current hs
    have hcurrent := hc.slots current mem_cons_self
    rw [IcuPlan.shows_iff, hc.locale, hcurrent]
    rcases IcuPlan.shows_iff.mp h with ⟨hnone, hslot, htops, hidle⟩ | ⟨k, fresh, hsome, hslot, hfresh, hshows⟩
    · exact .inl ⟨hnone, hslot, htops, hidle.frame hcases⟩
    · exact .inr ⟨k, fresh, hsome, hslot, hfresh, hshows.frame hp hcases⟩

theorem CasePlans.Shows.frame : ∀ {cases : CasePlans} {own nested : Option (List String)} {p k : Nat}
    {tops : List Nat}, v.Below root p → cases.Shows root v own nested p k tops →
      Carries root cases.slots v v' → cases.Shows root v' own nested p k tops
  | .nil, _, _, _, _, _, _, h, _ => h
  | .cons _ _ _, _, _, _, 0, _, hp, h, hc =>
    ⟨h.1.frame hp (hc.mono fun _ hs => mem_append_left _ hs), h.2.frame (hc.mono fun _ hs => mem_append_right _ hs)⟩
  | .cons _ _ _, _, _, _, _ + 1, _, hp, h, hc =>
    ⟨h.1.frame (hc.mono fun _ hs => mem_append_left _ hs), h.2.frame hp (hc.mono fun _ hs => mem_append_right _ hs)⟩

end

/-! ### The slots of what is shown -/

theorem LiveView.Holds.mono {S S' : List Nat} (h : v.Holds S id) (hS : ∀ s ∈ S, s ∈ S') : v.Holds S' id := by
  obtain ⟨s, hs, hid⟩ := h
  exact ⟨s, hS s hs, hid⟩

theorem holds_cons {S : List Nat} : v.Holds (slot :: S) id ↔ v.slots[slot]? = some (.node id) ∨ v.Holds S id := by
  unfold Holds
  simp

theorem holds_append {S S' : List Nat} : v.Holds (S ++ S') id ↔ v.Holds S id ∨ v.Holds S' id := by
  unfold Holds
  simp [or_and_right, exists_or]

theorem not_holds_nil (id : Nat) : ¬v.Holds [] id := by
  rintro ⟨s, hs, -⟩
  cases hs

/-- The nodes are in the slots, and so is what is below a node in one of them. -/
structure LiveView.Closed (root : Nat) (S tops : List Nat) (v : LiveView) : Prop where
  held : ∀ id ∈ tops, v.Holds S id
  children : ∀ q, v.Holds S q → v.Below root q → ∀ c ∈ v.tree.children q, v.Holds S c

namespace LiveView.Closed

variable {S S' tops tops' : List Nat}

theorem idle (h : ∀ id, v.Holds S id → ¬v.Below root id) : v.Closed root S [] :=
  ⟨fun _ hid => absurd hid not_mem_nil, fun q hq hbelow => absurd hbelow (h q hq)⟩

theorem nil : v.Closed root [] [] := idle fun id hid => absurd hid (not_holds_nil id)

theorem cell {slot id : Nat} {content : Content} {p : Option Nat} (h : v.Closed root S tops)
    (hslot : v.slots[slot]? = some (.node id)) (hcell : v.tree.cells[id]? = some ⟨content, p, tops⟩) :
    v.Closed root (slot :: S) [id] := by
  refine ⟨fun k hk => ?_, fun q hq hbelow c hc => holds_cons.mpr (.inr ?_)⟩
  · rw [mem_singleton.mp hk]
    exact holds_cons.mpr (.inl hslot)
  · rcases holds_cons.mp hq with hq | hq
    · cases hslot.symm.trans hq
      rw [Tree.children_of_cell hcell] at hc
      exact h.held c hc
    · exact h.children q hq hbelow c hc

theorem append (h : v.Closed root S tops) (h' : v.Closed root S' tops') : v.Closed root (S ++ S') (tops ++ tops') where
  held id hid := holds_append.mpr ((mem_append.mp hid).imp (h.held id) (h'.held id))
  children q hq hbelow c hc := holds_append.mpr ((holds_append.mp hq).imp
    (fun hq => h.children q hq hbelow c hc) fun hq => h'.children q hq hbelow c hc)

end LiveView.Closed

mutual

theorem Plan.Shows.closed : ∀ {plan : Plan} {own nested : Option (List String)} {p : Nat} {tops : List Nat},
    plan.Shows root v own nested p tops → v.Closed root plan.slots tops
  | .nil, _, _, _, _, h => by
    rw [h]
    exact .nil
  | .text _ _ rest, own, nested, p, tops, h => by
    obtain ⟨id, tops', rfl, hslot, hcell, hrest⟩ := h
    exact (Closed.nil.cell hslot hcell).append hrest.closed
  | .element _ _ _ _ content rest, own, nested, p, tops, h => by
    obtain ⟨id, kids, tops', rfl, hslot, hcell, hcontent, hrest⟩ := h
    exact (hcontent.closed.cell hslot hcell).append hrest.closed
  | .icu _ _ icu rest, own, nested, p, tops, h => by
    obtain ⟨front, id, tops', rfl, hslot, hcell, hicu, hrest⟩ := h
    have hall := (Closed.nil.cell hslot hcell).append (hicu.closed.append hrest.closed)
    have hperm : (front ++ id :: tops').Perm (id :: (front ++ tops')) := perm_middle
    exact ⟨fun k hk => hall.held k (hperm.mem_iff.mp hk), hall.children⟩

theorem IcuPlan.Shows.closed : ∀ {icu : IcuPlan} {values : Option (List String)} {p : Nat} {tops : List Nat},
    icu.Shows root v values p tops → v.Closed root icu.slots tops
  | .mk kind main current cases, values, p, tops, h => by
    rcases IcuPlan.shows_iff.mp h with ⟨-, hslot, rfl, hidle⟩ | ⟨k, fresh, -, hslot, -, hshows⟩
    · have hidle : (IcuPlan.mk kind main current cases).Idle root v := ⟨.inl hslot, hidle⟩
      exact .idle fun _ => (IcuPlan.idle_iff _).mp hidle |>.not_below (IcuPlan.slots_perm _)
    · have hcurrent : v.Closed root [current] [] := .idle fun id ⟨s, hs, hid⟩ => by
        rw [mem_singleton.mp hs, hslot] at hid
        cases hid
      exact hcurrent.append hshows.closed

theorem CasePlans.Shows.closed : ∀ {cases : CasePlans} {own nested : Option (List String)} {p k : Nat}
    {tops : List Nat}, cases.Shows root v own nested p k tops → v.Closed root cases.slots tops
  | .nil, _, _, _, _, _, h => absurd h id
  | .cons _ content rest, own, nested, p, 0, tops, h => by
    have hrest : v.Closed root rest.slots [] := .idle fun _ => (rest.idle_iff.mp h.2).not_below rest.slots_perm
    have hall := h.1.closed.append hrest
    rwa [append_nil] at hall
  | .cons _ content rest, own, nested, p, k + 1, tops, h => by
    have hcontent : v.Closed root content.slots [] :=
      .idle fun _ => (content.idle_iff.mp h.1).not_below content.slots_perm
    exact hcontent.append h.2.closed

end

theorem loose_of_cell (hs : v.Sound root) (hp : ¬v.Below root p) (hslot : v.slots[slot]? = some (.node id))
    (hcell : v.tree.cells[id]? = some ⟨content, some p, children⟩) :
    v.Loose root slot ∧ ¬v.Below root id := by
  have hid : ¬v.Below root id := fun hid => hp (hs.below_parent hid (Tree.parent?_of_cell hcell))
  refine ⟨fun other hother => ?_, hid⟩
  cases hslot.symm.trans hother
  exact hid

mutual

theorem Plan.Shows.idle (hs : v.Sound root) : ∀ {plan : Plan} {own nested : Option (List String)} {p : Nat}
    {tops : List Nat}, ¬v.Below root p → plan.Shows root v own nested p tops → plan.Idle root v
  | .nil, _, _, _, _, _, _ => trivial
  | .text slot _ rest, own, nested, p, tops, hp, h => by
    obtain ⟨id, tops', -, hslot, hcell, hrest⟩ := h
    exact ⟨(loose_of_cell hs hp hslot hcell).1, hrest.idle hs hp⟩
  | .element slot _ _ _ content rest, own, nested, p, tops, hp, h => by
    obtain ⟨id, kids, tops', -, hslot, hcell, hcontent, hrest⟩ := h
    obtain ⟨hloose, hid⟩ := loose_of_cell hs hp hslot hcell
    exact ⟨hloose, hcontent.idle hs hid, hrest.idle hs hp⟩
  | .icu slot _ icu rest, own, nested, p, tops, hp, h => by
    obtain ⟨front, id, tops', -, hslot, hcell, hicu, hrest⟩ := h
    exact ⟨(loose_of_cell hs hp hslot hcell).1, hicu.idle hs hp, hrest.idle hs hp⟩

theorem IcuPlan.Shows.idle (hs : v.Sound root) : ∀ {icu : IcuPlan} {values : Option (List String)} {p : Nat}
    {tops : List Nat}, ¬v.Below root p → icu.Shows root v values p tops → icu.Idle root v
  | .mk kind main current cases, values, p, tops, hp, h => by
    rcases IcuPlan.shows_iff.mp h with ⟨-, hslot, -, hidle⟩ | ⟨k, fresh, hsome, hslot, -, hshows⟩
    · exact ⟨.inl hslot, hidle⟩
    · exact ⟨.inr ⟨k, fresh, hslot, chosenFor_lt hsome⟩, hshows.idle hs hp⟩

theorem CasePlans.Shows.idle (hs : v.Sound root) : ∀ {cases : CasePlans} {own nested : Option (List String)}
    {p k : Nat} {tops : List Nat}, ¬v.Below root p → cases.Shows root v own nested p k tops → cases.Idle root v
  | .nil, _, _, _, _, _, _, h => absurd h id
  | .cons _ _ _, _, _, _, 0, _, hp, h =>
    ⟨h.1.idle hs hp, h.2⟩
  | .cons _ _ _, _, _, _, _ + 1, _, hp, h =>
    ⟨h.1, h.2.idle hs hp⟩

end

/-! ### Other values, other views -/

theorem Plan.Shows.own_congr {nested : Option (List String)} : ∀ {plan : Plan}
    {own own' : Option (List String)} {p : Nat} {tops : List Nat},
      (∀ ops : List UpdateOp, (∀ op ∈ ops, op ∈ plan.update) → ∀ c, shown own ops c = shown own' ops c) →
        plan.Shows root v own nested p tops → plan.Shows root v own' nested p tops
  | .nil, _, _, _, _, _, h => h
  | .text slot value rest, own, own', p, tops, hsame, h => by
    obtain ⟨id, tops', htops, hslot, hcell, hrest⟩ := h
    refine ⟨id, tops', htops, hslot, ?_, ?_⟩
    · rw [hcell]
      unfold textContent
      rw [hsame _ fun op hop => mem_append_left _ hop]
    · exact hrest.own_congr (fun ops hops => hsame ops fun op hop => mem_append_right _ (hops op hop))
  | .element slot tag fixed bound content rest, own, own', p, tops, hsame, h => by
    obtain ⟨id, kids, tops', htops, hslot, hcell, hcontent, hrest⟩ := h
    refine ⟨id, kids, tops', htops, hslot, ?_, ?_, ?_⟩
    · rw [hcell]
      unfold elementContent
      rw [hsame _ fun op hop => mem_append_left _ hop]
    · exact hcontent.own_congr (fun ops hops => hsame ops fun op hop =>
        mem_append_right _ (mem_append_left _ (hops op hop)))
    · exact hrest.own_congr (fun ops hops => hsame ops fun op hop =>
        mem_append_right _ (mem_append_right _ (hops op hop)))
  | .icu slot label expression rest, own, own', p, tops, hsame, h => by
    obtain ⟨front, id, tops', htops, hslot, hcell, hicu, hrest⟩ := h
    exact ⟨front, id, tops', htops, hslot, hcell, hicu, hrest.own_congr hsame⟩

theorem CasePlans.Shows.own_congr {own own' nested : Option (List String)} : ∀ {cases : CasePlans}
    {p k : Nat} {tops : List Nat},
      (∀ ops : List UpdateOp, (∀ op ∈ ops, op ∈ cases.updates) → ∀ c, shown own ops c = shown own' ops c) →
        cases.Shows root v own nested p k tops → cases.Shows root v own' nested p k tops
  | .nil, _, _, _, _, h => h
  | .cons _ _ _, _, 0, _, hsame, h =>
    ⟨h.1.own_congr (fun ops hops => hsame ops fun op hop => mem_append_left _ (hops op hop)), h.2⟩
  | .cons _ _ _, _, _ + 1, _, hsame, h =>
    ⟨h.1, h.2.own_congr (fun ops hops => hsame ops fun op hop => mem_append_right _ (hops op hop))⟩

theorem toNode_eq_of_cells {t t' : Tree} {id' : Nat} {p p' : Option Nat} {kids kids' : List Nat}
    (h : t.cells[id]? = some ⟨content, p, kids⟩) (h' : t'.cells[id']? = some ⟨content, p', kids'⟩)
    (hkids : ∀ n, kids.map (t.toNode n) = kids'.map (t'.toNode n)) (n : Nat) :
    t.toNode n id = t'.toNode n id' := by
  cases n with
  | zero => rfl
  | succ n =>
    simp_all [Tree.content?_of_cell, Tree.children_of_cell, Tree.toNode]

mutual

theorem Plan.Shows.toNode_eq (hlocale : v'.locale = v.locale) : ∀ {plan : Plan}
    {own nested : Option (List String)} {p p' : Nat} {tops tops' : List Nat},
      plan.Shows root v own nested p tops → plan.Shows root v' own nested p' tops' →
        ∀ n, tops.map (v.tree.toNode n) = tops'.map (v'.tree.toNode n)
  | .nil, _, _, _, _, _, _, h, h', _ => by rw [h, h']; rfl
  | .text slot value rest, own, nested, p, p', _, _, h, h', n => by
    obtain ⟨id, tops, rfl, -, hcell, hrest⟩ := h
    obtain ⟨id', tops', rfl, -, hcell', hrest'⟩ := h'
    rw [map_cons, map_cons, toNode_eq_of_cells hcell hcell' (fun _ => rfl), hrest.toNode_eq hlocale hrest']
  | .element slot tag fixed bound content rest, own, nested, p, p', _, _, h, h', n => by
    obtain ⟨id, kids, tops, rfl, -, hcell, hcontent, hrest⟩ := h
    obtain ⟨id', kids', tops', rfl, -, hcell', hcontent', hrest'⟩ := h'
    rw [map_cons, map_cons, toNode_eq_of_cells hcell hcell' (hcontent.toNode_eq hlocale hcontent'),
      hrest.toNode_eq hlocale hrest']
  | .icu slot label icu rest, own, nested, p, p', _, _, h, h', n => by
    obtain ⟨front, id, tops, rfl, -, hcell, hicu, hrest⟩ := h
    obtain ⟨front', id', tops', rfl, -, hcell', hicu', hrest'⟩ := h'
    rw [map_append, map_append, map_cons, map_cons, toNode_eq_of_cells hcell hcell' (fun _ => rfl),
      hicu.toNode_eq hlocale hicu',
      hrest.toNode_eq hlocale hrest']

theorem IcuPlan.Shows.toNode_eq (hlocale : v'.locale = v.locale) : ∀ {icu : IcuPlan}
    {values : Option (List String)} {p p' : Nat} {tops tops' : List Nat}, icu.Shows root v values p tops →
      icu.Shows root v' values p' tops' → ∀ n, tops.map (v.tree.toNode n) = tops'.map (v'.tree.toNode n)
  | .mk kind main current cases, values, p, p', tops, tops', h, h', n => by
    rw [IcuPlan.shows_iff, hlocale] at h'
    rcases IcuPlan.shows_iff.mp h with ⟨hnone, -, rfl, -⟩ | ⟨k, fresh, hsome, -, -, hshows⟩
    · obtain ⟨-, -, rfl, -⟩ := h'.resolve_right (by simp [hnone])
      rfl
    · obtain ⟨k', fresh', hsome', -, -, hshows'⟩ := h'.resolve_left (by simp [hsome])
      cases hsome.symm.trans hsome'
      exact hshows.toNode_eq hlocale hshows' n

theorem CasePlans.Shows.toNode_eq (hlocale : v'.locale = v.locale) : ∀ {cases : CasePlans}
    {own nested : Option (List String)} {p p' k : Nat} {tops tops' : List Nat},
      cases.Shows root v own nested p k tops → cases.Shows root v' own nested p' k tops' →
        ∀ n, tops.map (v.tree.toNode n) = tops'.map (v'.tree.toNode n)
  | .nil, _, _, _, _, _, _, _, h, _, _ => absurd h id
  | .cons _ _ _, _, _, _, _, 0, _, _, h, h', n =>
    h.1.toNode_eq hlocale h'.1 n
  | .cons _ _ _, _, _, _, _, _ + 1, _, _, h, h', n =>
    h.2.toNode_eq hlocale h'.2 n

end

end Shows

end MessageCompiler
