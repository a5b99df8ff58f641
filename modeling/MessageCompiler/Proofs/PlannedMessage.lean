/-
Compiling a message follows the plan.

At the top level of a message, and directly inside its placeholders, texts and expressions become root
items, each with a slot of its own.

* **`exists_compiled`** — a message that is accepted is laid out in this way.
-/
import Mathlib.Data.List.Forall2
import MessageCompiler.Proofs.Planned
import MessageCompiler.Proofs.Rollback
import MessageCompiler.Proofs.Runs

namespace MessageCompiler

open List
open Steps TemplateView
open Message (Scope Placeholder)

variable {t : TemplateView} {parent : Int} {text : List Char} {p p' : Pass} {cfg : Config} {site : Site}
  {frame frame' : Frame} {message : String} {scope : Scope} {handle : Handle}

/-- A text or an expression of a message outside of any case. It is eager if it waits for no
placeholder. -/
inductive RootItem where
  | text (slot : Nat) (value : String) (eager : Bool)
  | icu (slot : Nat) (label : String) (plan : IcuPlan) (eager : Bool)

namespace RootItem

def slot : RootItem → Nat
  | .text slot _ _ => slot
  | .icu slot _ _ _ => slot

def inner : RootItem → List Nat
  | .text _ _ _ => []
  | .icu _ _ plan _ => plan.slots

def slots (item : RootItem) : List Nat := item.slot :: item.inner

def create : RootItem → CreateOp
  | .text slot value eager => ⟨slot, initialText value, false, eager⟩
  | .icu slot label _ eager => ⟨slot, label, true, eager⟩

def stream : RootItem → List UpdateOp
  | .text slot value _ => textUpdate slot value
  | .icu slot _ plan _ => plan.stream slot

def choices : RootItem → List (IcuKind × Int)
  | .text _ _ _ => []
  | .icu _ _ plan _ => plan.choices

def posts (parent : Int) : RootItem → List Post
  | .text _ _ _ => []
  | .icu slot _ plan _ => plan.posts parent slot

def expression? : RootItem → Option (Nat × IcuPlan)
  | .text _ _ _ => none
  | .icu slot _ plan _ => some (slot, plan)

def Registered (t : TemplateView) (parent : Int) : RootItem → Prop
  | .text slot _ _ => t.type? slot = some .text
  | .icu slot _ plan _ => t.type? slot = some .icu ∧ plan.Registered t parent slot

theorem index_create (item : RootItem) : item.create.index = item.slot := by
  cases item <;> rfl

theorem Registered.retained {touched : Nat → Prop} {t' : TemplateView}
    (h : t.Retains touched t') {item : RootItem} (hitem : item.Registered t parent)
    (hslots : ∀ s ∈ item.slots, ¬touched s) : item.Registered t' parent := by
  have hslot := hslots item.slot mem_cons_self
  cases item with
  | text slot value eager => exact h.type slot hslot _ hitem
  | icu slot label plan eager =>
    exact ⟨h.type slot hslot _ hitem.1, hitem.2.retained h hslot fun s hs => hslots s (mem_cons_of_mem slot hs)⟩

end RootItem

theorem map_slot_sublist : ∀ items : List RootItem, (items.map RootItem.slot).Sublist (items.flatMap RootItem.slots)
  | [] => .slnil
  | _ :: rest => ((map_slot_sublist rest).trans (sublist_append_right _ _)).cons_cons _

/-- The root items for texts and expressions in turn from the first free slot on, with the next free
slot. -/
def planSegments (cfg : Config) (site : Site) (eager : Bool) : List Segment → Nat → List RootItem × Nat
  | [], n => ([], n)
  | .text s :: rest, n =>
    if s.isEmpty then planSegments cfg site eager rest n
    else
      let r := planSegments cfg site eager rest (n + 1)
      (.text n s eager :: r.1, r.2)
  | .icu e :: rest, n =>
    let icu := planIcu cfg e (n + 1)
    let r := planSegments cfg site eager rest icu.2
    (.icu n (rootLabel site e.main) icu.1 eager :: r.1, r.2)

theorem mem_planSegments {cfg : Config} {site : Site} {eager : Bool} {item : RootItem} :
    ∀ {segments : List Segment} {n : Nat}, item ∈ (planSegments cfg site eager segments n).1 →
      ∃ segment ∈ segments, (∃ slot s, segment = .text s ∧ item = .text slot s eager) ∨
        ∃ slot label e m, segment = .icu e ∧ item = .icu slot label (planIcu cfg e m).1 eager
  | [], n, h => by cases h
  | segment :: rest, n, h => by
    have hrest : ∀ {k}, item ∈ (planSegments cfg site eager rest k).1 → ∃ x ∈ segment :: rest, _ := fun h =>
      (mem_planSegments h).imp fun _ hx => ⟨mem_cons_of_mem _ hx.1, hx.2⟩
    cases segment with
    | text s =>
      rw [planSegments] at h
      split at h
      · exact hrest h
      · grind
    | icu e =>
      rw [planSegments] at h
      rcases mem_cons.mp h with rfl | h
      · grind
      · exact hrest h

theorem choices_planSegments (cfg : Config) (site : Site) (eager : Bool) {M : Int → Prop} {shape : List Segment → Prop}
    (segments : List Segment) (n : Nat) (h : Segment.Every M shape segments) :
    ∀ item ∈ (planSegments cfg site eager segments n).1, ∀ c ∈ item.choices, M c.2 := by
  intro item hitem
  obtain ⟨_, he, ⟨slot, s, rfl, rfl⟩ | ⟨slot, label, e, m, rfl, rfl⟩⟩ := mem_planSegments hitem
  · exact fun _ hc => absurd hc not_mem_nil
  · exact choices_planIcu cfg e m (h.of_mem he)

def RootItem.PlannedFor (cfg : Config) (site : Site) (text : List Char) (item : RootItem) : Prop :=
  ∃ segments eager n, (Message.split text).result = .ok segments ∧ item ∈ (planSegments cfg site eager segments n).1

/-! ### Expressions and their plans -/

def Icu.Planned (cfg : Config) (e : Icu) (x : Nat × IcuPlan) : Prop := ∃ n, x.2 = (planIcu cfg e n).1

theorem planned_planSegments (cfg : Config) (site : Site) (eager : Bool) :
    ∀ (segments : List Segment) (n : Nat), List.Forall₂ (Icu.Planned cfg) (segments.filterMap Segment.expression?)
      ((planSegments cfg site eager segments n).1.filterMap RootItem.expression?)
  | [], n => .nil
  | .text s :: rest, n => by
    rw [planSegments]
    split
    · exact planned_planSegments cfg site eager rest n
    · exact planned_planSegments cfg site eager rest (n + 1)
  | .icu e :: rest, n => by
    rw [planSegments]
    exact .cons ⟨n + 1, rfl⟩ (planned_planSegments cfg site eager rest _)

namespace Message

def expressionsOf (text : List Char) : List Icu :=
  match (split text).result with
  | .ok segments => segments.filterMap Segment.expression?
  | .error _ => []

def expressionsFrom (last : List Char) (parts : List (List Char × Placeholder)) : List Icu :=
  parts.flatMap (expressionsOf ·.1) ++ expressionsOf last

/-- The expressions outside of any case in the part of a message that belongs to a template, in order. -/
def expressions (scope : Scope) (message : String) : List Icu :=
  match partFor scope message.toList with
  | .ok part =>
    let parts := splitPlaceholders (releaseSpaces part)
    expressionsFrom parts.last parts.items
  | .error _ => []

theorem expressionsOf_eq {segments : List Segment} (h : (split text).result = .ok segments) :
    expressionsOf text = segments.filterMap Segment.expression? := by
  unfold expressionsOf
  rw [h]

end Message

open Message (expressionsFrom expressions)

/-- The step has compiled a part of a message into the root items. -/
structure Laid (parent : Int) (items : List RootItem) (p p' : Pass) : Prop where
  increasing : Increasing p.view.size p'.view.size (items.flatMap RootItem.slots)
  create_eq : p'.create = p.create ++ items.map RootItem.create
  update_eq : p'.update = p.update ++ items.flatMap RootItem.stream
  registered : p.view.Bounded → ∀ item ∈ items, item.Registered p'.view parent
  surveyed : ∀ n ≤ p.view.size, p.view.Surveyed n ((items.flatMap (·.posts parent)).map (·.anchor)) p'.view

theorem Laid.nil (hsize : p'.view.size = p.view.size) (hcreate : p'.create = p.create) (hupdate : p'.update = p.update)
    (hsurveyed : ∀ n, p.view.Surveyed n [] p'.view) : Laid parent [] p p' := by
  refine ⟨?_, ?_, ?_, fun _ _ h => absurd h not_mem_nil, fun n _ => hsurveyed n⟩
  · rw [hsize]
    exact .nil _
  · rw [hcreate, map_nil, append_nil]
  · rw [hupdate, flatMap_nil, append_nil]

variable {items : List RootItem}

theorem Laid.append {items' : List RootItem} {p₁ : Pass}
    {touched : Nat → Prop} {n : Nat} (h : Laid parent items p p₁) (h' : Laid parent items' p₁ p')
    (hb : p.view.Bounded → p₁.view.Bounded) (hgrow : p₁.view.Grows touched n p'.view)
    (hslots : ∀ s, p.view.size ≤ s → ¬touched s) : Laid parent (items ++ items') p p' where
  increasing := by
    rw [flatMap_append]
    exact h.increasing.append h'.increasing
  create_eq := by rw [h'.create_eq, h.create_eq, map_append, append_assoc]
  update_eq := by rw [h'.update_eq, h.update_eq, flatMap_append, append_assoc]
  registered hbounded item hitem := by
    rcases mem_append.mp hitem with hitem | hitem
    · refine (h.registered hbounded item hitem).retained (hgrow.retains (hb hbounded)) fun s hs =>
        hslots s ?_
      exact (h.increasing.2.2 s (mem_flatMap.mpr ⟨item, hitem, hs⟩)).1
    · exact h'.registered (hb hbounded) item hitem
  surveyed n hn := by
    rw [flatMap_append, map_append]
    exact (h.surveyed n hn).trans (h'.surveyed n (Nat.le_trans hn h.increasing.1))

/-! ### Segments -/

theorem Frame.grows_createdPass (frame : Frame) (p : Pass) (type : NodeType) (text value : String) :
    p.view.Grows untouched 0 (frame.createdPass p type text value).view :=
  grows_createdView frame.above_zero (Nat.zero_le _) type value

theorem Frame.type?_createdPass {type : NodeType} {text value : String}
    (hgrow : (frame.createdPass p type text value).view.Grows untouched 0 p'.view)
    (hb : p.view.Bounded) : p'.view.type? p.view.size = some type := by
  have hcreated : (p.addNext type value).view.Grows untouched 0 (frame.createdPass p type text value).view :=
    (grows_precede _ _ _ _ frame.above_zero.nodes).trans (grows_addChild _ frame.above_zero.placeholder _ _)
  exact Pass.type?_addNext (hcreated.trans hgrow) hb

theorem Frame.size_createdPass (frame : Frame) (p : Pass) (type : NodeType) (text value : String) :
    (frame.createdPass p type text value).view.size = p.view.size + 1 := by
  have hadd := Pass.size_addNext p type value
  show (TemplateView.addChild (TemplateView.precede _ _ _) _ _).size = _
  cases frame.placeholder <;> exact (TemplateView.size_precede _ _ _).trans hadd

theorem compileText_eq_ok {text : String} (h : compileText frame text p = .ok frame' p') :
    frame'.placeholder = frame.placeholder ∧ p'.update = p.update ++ textUpdate p.view.size text ∧
      ∃ value, p'.view = (frame.createdPass p .text (initialText text) value).view ∧
        p'.create = (frame.createdPass p .text (initialText text) value).create := by
  unfold compileText at h
  unfold initialText textUpdate
  cases hbinding : Message.hasBinding text.toList with
  | true =>
    rw [hbinding] at h
    obtain ⟨r, p₁, hcreate, h⟩ := bind_eq_ok.mp h
    rw [Frame.create_eq] at hcreate
    cases hcreate
    cases h
    exact ⟨rfl, rfl, _, rfl, rfl⟩
  | false =>
    rw [hbinding] at h
    obtain ⟨r, p₁, hcreate, h⟩ := bind_eq_ok.mp h
    rw [Frame.create_eq] at hcreate
    cases hcreate
    cases h
    exact ⟨rfl, (append_nil _).symm, _, rfl, rfl⟩

theorem laid_compileText {text : String} (parent : Int) (h : compileText frame text p = .ok frame' p') :
    Laid parent [.text p.view.size text frame.placeholder.isNone] p p' ∧ p'.view.size = p.view.size + 1 := by
  obtain ⟨-, hupdate, value, hview, hcreate⟩ := compileText_eq_ok h
  have hsize : p'.view.size = p.view.size + 1 := by
    rw [hview]
    exact frame.size_createdPass p .text _ value
  refine ⟨⟨?_, hcreate, ?_, fun hb item hitem => ?_, fun n _ => ?_⟩, hsize⟩
  · rw [hsize]
    exact (Increasing.nil _).cons
  · rw [hupdate, flatMap_singleton]
    rfl
  · rw [mem_singleton.mp hitem]
    have hgrow : (frame.createdPass p .text (initialText text) value).view.Grows untouched 0 p'.view := by
      rw [hview]
      exact Grows.refl _ _ _
    exact Frame.type?_createdPass hgrow hb
  · rw [hview]
    exact surveyed_createdView n frame p.view .text value

theorem laid_compileIcu {e : Icu} {label : String}
    (h : compileIcu cfg e parent p.view.size (frame.createdPass p .icu label label) = .ok () p') :
    Laid parent [.icu p.view.size label (planIcu cfg e (p.view.size + 1)).1 frame.placeholder.isNone] p p' ∧
      p'.view.size = (planIcu cfg e (p.view.size + 1)).2 := by
  have hvacant := frame.vacant_createdView p.view .icu label
  have hgrow := grows_compileIcu cfg e 0 parent p.view.size (frame.createdPass p .icu label label) _
    hvacant (Nat.zero_le _) (Nat.zero_le _)
  rw [after_of_ok h] at hgrow
  have hbuilt := follows_compileIcu cfg e parent p.view.size _ _ p' hvacant h
  rw [frame.size_createdPass] at hbuilt
  refine ⟨⟨?_, hbuilt.create_eq, ?_, fun hb item hitem => ?_, fun n hn => ?_⟩, hbuilt.size_eq⟩
  · rw [hbuilt.size_eq, flatMap_singleton]
    exact (increasing_planIcu cfg e (p.view.size + 1)).cons
  · rw [hbuilt.update_eq, flatMap_singleton]
    rfl
  · rw [mem_singleton.mp hitem]
    have hb₁ := (frame.grows_createdPass p .icu label label).bounded hb
    exact ⟨Frame.type?_createdPass hgrow hb, hbuilt.registered hb₁⟩
  · rw [flatMap_singleton]
    exact (surveyed_createdView n frame p.view .icu label).then (hbuilt.surveyed n hn)

theorem Fills.laid {segments : List Segment} (h : Fills cfg site frame segments p frame' p') :
    Laid site.parent (planSegments cfg site frame.placeholder.isNone segments p.view.size).1 p p' ∧
      p.view.Grows untouched 0 p'.view := by
  induction h with
  | nil => exact ⟨Laid.nil rfl rfl rfl fun n => .refl n _, Grows.refl _ _ _⟩
  | skip hempty _ ih =>
    rw [planSegments, if_pos hempty]
    exact ih
  | @text frame frame₁ frame' s rest p p₁ p' hne htext _ ih =>
    obtain ⟨hfirst, hsize⟩ := laid_compileText site.parent htext
    obtain ⟨hplaceholder, -, -⟩ := compileText_eq_ok htext
    have hgrow := (grown_compileText frame.above_zero s (Nat.zero_le _) (p := p)).1
    rw [after_of_ok htext] at hgrow
    rw [hsize, hplaceholder] at ih
    obtain ⟨hrest, hgrow'⟩ := ih
    rw [planSegments, if_neg hne]
    exact ⟨hfirst.append hrest hgrow.bounded hgrow' fun _ _ h => h, hgrow.trans hgrow'⟩
  | @icu frame frame' e rest p p₁ p' hicu _ ih =>
    obtain ⟨hfirst, hsize⟩ := laid_compileIcu hicu
    have hgrow := grows_compileIcu cfg e 0 site.parent p.view.size
      (frame.createdPass p .icu (rootLabel site e.main) (rootLabel site e.main)) _
      (frame.vacant_createdView p.view .icu (rootLabel site e.main)) (Nat.zero_le _) (Nat.zero_le _)
    rw [after_of_ok hicu] at hgrow
    have hgrow₁ := (frame.grows_createdPass p .icu (rootLabel site e.main) (rootLabel site e.main)).trans hgrow
    rw [hsize] at ih
    obtain ⟨hrest, hgrow'⟩ := ih
    rw [planSegments]
    exact ⟨hfirst.append hrest hgrow₁.bounded hgrow' fun _ _ h => h, hgrow₁.trans hgrow'⟩

/-! ### Messages -/

theorem laid_compileRun (h : compileRun cfg site frame text p = .ok frame' p') :
    ∃ segments, (Message.split text).result = .ok segments ∧
      Laid site.parent (planSegments cfg site frame.placeholder.isNone segments p.view.size).1 p p' := by
  obtain ⟨segments, hsplit, hfills⟩ := exists_fills h
  obtain ⟨⟨hincreasing, hcreate, hupdate, hregistered, hsurveyed⟩, -⟩ := hfills.laid
  exact ⟨segments, hsplit, hincreasing, hcreate, hupdate, hregistered, hsurveyed⟩

theorem laid_opened (frame : Frame) (p : Pass) (slot : Int) :
    Laid parent [] p { p with view := frame.openedView p.view slot } :=
  Laid.nil ((TemplateView.size_precede _ _ _).trans (size_setSlot _ _ _)) rfl rfl fun n =>
    (surveyed_addNode n p.view rfl).then (surveyed_precede n _ _ _)

/-- The parts of a message are compiled into the root items; their texts have a property. -/
structure LaidOut (cfg : Config) (site : Site) (Q : List Char → Prop) (last : List Char)
    (parts : List (List Char × Placeholder)) (items : List RootItem) (p p' : Pass) : Prop where
  laid : Laid site.parent items p p'
  planned : ∀ item ∈ items, ∃ text, Q text ∧ item.PlannedFor cfg site text
  expressions : List.Forall₂ (Icu.Planned cfg) (expressionsFrom last parts) (items.filterMap RootItem.expression?)

section LaidOut

variable {Q : List Char → Prop} {last : List Char} {parts : List (List Char × Placeholder)}

theorem LaidOut.after_run {p₁ : Pass} {touched : Nat → Prop}
    (h : LaidOut cfg site Q last parts items p₁ p') (hrun : compileRun cfg site frame text p = .ok frame' p₁)
    (htext : Q text) (hgrow : p₁.view.Grows touched 0 p'.view) (htouched : ∀ s, touched s → s < p.view.size)
    (q : Placeholder) : ∃ items, LaidOut cfg site Q last ((text, q) :: parts) items p p' := by
  obtain ⟨segments, hsplit, hlaid⟩ := laid_compileRun hrun
  refine ⟨_, hlaid.append h.laid (grows_compileRun hrun).bounded hgrow fun s hs hin => ?_, ?_, ?_⟩
  · exact Nat.not_lt.mpr hs (htouched s hin)
  · exact forall_mem_append.mpr ⟨fun item hitem => ⟨text, htext, segments, _, _, hsplit, hitem⟩, h.planned⟩
  · have hfrom : expressionsFrom last ((text, q) :: parts) =
        segments.filterMap Segment.expression? ++ expressionsFrom last parts := by
      rw [← Message.expressionsOf_eq hsplit, expressionsFrom, flatMap_cons, append_assoc]
      rfl
    rw [hfrom, filterMap_append]
    exact rel_append (planned_planSegments cfg site _ segments _) h.expressions

/-- The parts of a message one after the other. Placeholders take declared slots; the slots of root items
are new, so nothing that follows touches them. -/
theorem Traverses.exists_laidOut (hlast : Q last) {outer : List Frame}
    (h : Traverses cfg site last frame outer parts p p') (hparts : ∀ part ∈ parts, Q part.1)
    (hsize : p.view.bindingStart ≤ p.view.size) : ∃ items, LaidOut cfg site Q last parts items p p' := by
  induction h with
  | done hrun =>
    obtain ⟨segments, hsplit, hlaid⟩ := laid_compileRun hrun
    refine ⟨_, hlaid, fun item hitem => ⟨last, hlast, segments, _, _, hsplit, hitem⟩, ?_⟩
    show List.Forall₂ _ (Message.expressionsOf last) _
    rw [Message.expressionsOf_eq hsplit]
    exact planned_planSegments cfg site _ segments _
  | close hrun _ hrest ih =>
    obtain ⟨htext, hothers⟩ := forall_mem_cons.mp hparts
    have hgrow := grows_compileRun hrun
    obtain ⟨items, hitems⟩ := ih hothers (hgrow.bindingStart ▸ Nat.le_trans hsize hgrow.size_le)
    refine hitems.after_run hrun htext hrest.grows.1 (fun s hs => ?_) _
    exact Nat.lt_of_lt_of_le (hgrow.bindingStart ▸ (hrest.grows.2 s hs).2) hsize
  | @enter _ frame₁ _ _ q _ _ p₁ _ hrun hopening hdenotes _ hrest ih =>
    obtain ⟨htext, hothers⟩ := forall_mem_cons.mp hparts
    have hgrow := grows_compileRun hrun
    have hopened := frame₁.grows_openedView p₁.view (declaredSlot q.number)
    have hstart := hopened.bindingStart.trans hgrow.bindingStart
    have hsize₁ := Nat.le_trans hsize hgrow.size_le
    obtain ⟨items, hlaid, hplanned, hexpressions⟩ := ih hothers (hstart ▸ Nat.le_trans hsize₁ hopened.size_le)
    have hlt : ∀ s ∈ Message.openedSlots _, s < p₁.view.bindingStart := fun s hs =>
      hopened.bindingStart ▸ (hrest.grows.2 s hs).2
    have hboth := (laid_opened frame₁ p₁ (declaredSlot q.number)).append hlaid hopened.bounded hrest.grows.1
      fun s hs hin => Nat.not_lt.mpr hs (Nat.lt_of_lt_of_le (hgrow.bindingStart ▸ hlt s hin) hsize₁)
    refine LaidOut.after_run ⟨hboth, hplanned, hexpressions⟩ hrun htext (hopened.trans' hrest.grows.1 fun i _ hi => hi)
      (fun s hs => Nat.lt_of_lt_of_le (hgrow.bindingStart ▸ ?_) hsize) q
    rcases hs with hs | hs
    · exact Int.natCast_inj.mp hs ▸ hdenotes.declared
    · exact hlt s hs

end LaidOut

/-- A compiled message: its streams are those of the root items, whose slots the view has got for it and
where their nodes and expressions are registered. -/
structure Compiled (t t' : TemplateView) (block : Block) (parent : Int) (items : List RootItem) : Prop where
  increasing : Increasing t.size t'.size (items.flatMap RootItem.slots)
  create_eq : block.create = items.map RootItem.create
  update_eq : block.update = items.flatMap RootItem.stream
  registered : ∀ item ∈ items, item.Registered t' parent
  /-- No case is chosen by a negative binding. -/
  choices : ∀ item ∈ items, ∀ c ∈ item.choices, 0 ≤ c.2
  /-- No other expressions are registered. -/
  surveyed : ∀ n ≤ t.size, t.Surveyed n ((items.flatMap (·.posts parent)).map (·.anchor)) t'

theorem Laid.compiled (h : Laid site.parent items ⟨t, [], [], []⟩ p') (hb : t.Bounded) (hb' : p'.view.Bounded)
    (hindex : t.contains site.index = true) (hchoices : ∀ item ∈ items, ∀ c ∈ item.choices, 0 ≤ c.2) :
    Compiled t (compiledView p' site.index) ⟨p'.create, p'.update⟩ site.parent items := by
  let next : TemplateView := { p'.view with serial := p'.view.serial + 1 }
  have hnext : p'.view.Retains (fun k => site.index = k) next :=
    ⟨fun _ _ _ h => h, fun _ _ _ h => h, fun _ _ h => h⟩
  have hset : next.Grows (fun k => site.index = k) 0 (compiledView p' site.index) :=
    grows_setSlot (fun _ hk => hk) 0 fun id hid => by cases hid
  have hsize : (compiledView p' site.index).size = p'.view.size := size_setSlot _ _ _
  refine ⟨?_, h.create_eq, h.update_eq, fun item hitem => ?_, hchoices, fun n hn => ?_⟩
  · rw [hsize]
    exact h.increasing
  · have hretains := hnext.trans (hset.retains hb')
    refine (h.registered hb item hitem).retained hretains fun s hs => ?_
    have hlow := (h.increasing.2.2 s (mem_flatMap.mpr ⟨item, hitem, hs⟩)).1
    have hlow : t.size ≤ s := hlow
    simp only [TemplateView.contains, Bool.and_eq_true, decide_eq_true_eq] at hindex
    omega
  · have hblock : next.Surveyed n [] (compiledView p' site.index) :=
      surveyed_setSlot _ _ _ (fun _ h => by cases h) fun _ h => by cases h
    have hlast : p'.view.Surveyed n [] (compiledView p' site.index) := ⟨hblock.indexed, hblock.found⟩
    have hboth := (h.surveyed n hn).trans hlast
    rw [append_nil] at hboth
    exact hboth

section

variable (hs : t.Sound) (hslot : ∀ serial block, t.slot? site.index ≠ some (.block serial block))
  (h : (t.compile cfg site message scope).result = .ok handle)
include hs hslot h

/-- A message that is accepted, and was not compiled before, is laid out as root items. Each of them is for a text
or an expression between two placeholders, and the expressions of the message are those of the items. -/
theorem exists_planned : ∃ part items, Message.partFor scope message.toList = .ok part ∧
      Compiled t (t.compile cfg site message scope).view handle.block site.parent items ∧
      (∀ item ∈ items, ∃ text, text <:+: releaseSpaces part ∧ item.PlannedFor cfg site text) ∧
      List.Forall₂ (Icu.Planned cfg) (expressions scope message) (items.filterMap RootItem.expression?) := by
  obtain ⟨part, p, hpass, hview, rfl⟩ := exists_compiling hslot h
  rw [hview]
  obtain ⟨hparts, hlast⟩ := Text.Interleaved.foundIn_splitBy Placeholder.read? (releaseSpaces part)
  obtain ⟨items, hlaid, hitems, hplanned⟩ := (traverses_compileScoped hpass.run).exists_laidOut
    (Q := (· <:+: releaseSpaces part)) hlast (fun q hq => (hparts q.1 q.2 hq).1) hs.bindingStart_le
  refine ⟨part, items, hpass.part_eq, hlaid.compiled hs.bounded (hpass.grows.bounded hs.bounded) hpass.index.2 fun item hitem => ?_,
    hitems, ?_⟩
  · obtain ⟨text, -, segments, eager, n, hsplit, hmem⟩ := hitems item hitem
    exact choices_planSegments cfg site eager segments n (Message.every_split (fun _ hc => hc) hsplit).2 item hmem
  · unfold expressions
    rw [hpass.part_eq]
    exact hplanned

theorem exists_compiled : ∃ items, Compiled t (t.compile cfg site message scope).view handle.block site.parent items ∧
      List.Forall₂ (Icu.Planned cfg) (expressions scope message) (items.filterMap RootItem.expression?) := by
  grind [exists_planned]

theorem compiled_compile :
    ∃ items, Compiled t (t.compile cfg site message scope).view handle.block site.parent items := by
  obtain ⟨items, hcompiled, -⟩ := exists_compiled hs hslot h
  exact ⟨items, hcompiled⟩

end

/-! ### Other messages in the same view -/

namespace TemplateView

def Added (t t' : TemplateView) (k : Nat) : Prop := t.size ≤ k ∧ k < t'.size

/-- The view has compiled more messages and attributes since, into slots that were not taken. -/
inductive Later (taken : Nat → Prop) (t : TemplateView) : TemplateView → Prop where
  | refl : Later taken t t
  | compile {t' : TemplateView} (h : Later taken t t') (cfg : Config) (site : Site) (message : String)
      (scope : Scope) (hindex : ∀ k : Nat, taken k → site.index ≠ k) :
      Later taken t (t'.compile cfg site message scope).view
  | compileAttributes {t' : TemplateView} (h : Later taken t t') (cfg : Config) (index element : Int)
      (values : List String) (hindex : ∀ k : Nat, taken k → index ≠ k) :
      Later taken t (t'.compileAttributes cfg index element values).view

variable {t t' : TemplateView} {taken : Nat → Prop}

theorem Unchanged.retains (hs : t.Sound) (h : t.Unchanged t') (touched : Nat → Prop) : t.Retains touched t' where
  type k _ type htype := by
    unfold type? at htype ⊢
    rw [h.node?_eq hs, htype]
  icu k _ icu hicu := by rw [h.icu?_eq hs, hicu]
  empty k _ hslot := by rw [h.slots, hslot]

theorem retains_compile (hs : t.Sound) (cfg : Config) (site : Site) (message : String)
    (scope : Scope) (htaken : ∀ k, taken k → ¬t.declares k)
    (hindex : ∀ k : Nat, taken k → site.index ≠ k) :
    t.Retains (fun k => ¬taken k) (t.compile cfg site message scope).view ∧
      t.size ≤ (t.compile cfg site message scope).view.size ∧
      (t.compile cfg site message scope).view.bindingStart = t.bindingStart := by
  rcases compile_cases t cfg site message scope with hsame | ⟨part, p, hpass, hview, -⟩
  · exact ⟨hsame.retains hs _, Nat.le_of_eq (congrArg Array.size hsame.slots).symm, hsame.bindingStart⟩
  · rw [hview]
    have hset : ({ p.view with serial := p.view.serial + 1 } : TemplateView).Grows
        (fun k => site.index = k) 0 (compiledView p site.index) :=
      grows_setSlot (fun _ hk => hk) 0 fun id hid => by cases hid
    have hb := (hs.grows hpass.grows).bounded
    have hnext : p.view.Retains (fun k => ¬taken k) { p.view with serial := p.view.serial + 1 } :=
      ⟨fun _ _ _ h => h, fun _ _ _ h => h, fun _ _ h => h⟩
    have hfirst : t.Retains (fun k => ¬taken k) p.view :=
      (hpass.grows.retains hs.bounded).mono fun k htouched hk => htaken k hk htouched
    have hlast : TemplateView.Retains (fun k => ¬taken k) _ (compiledView p site.index) :=
      (hset.retains hb).mono fun k heq hk => hindex k hk heq
    have hsize : (compiledView p site.index).size = p.view.size := size_setSlot _ _ _
    refine ⟨(hfirst.trans hnext).trans hlast, ?_, hset.bindingStart.trans hpass.grows.bindingStart⟩
    rw [hsize]
    exact hpass.grows.size_le

theorem Later.retains (hs : t.Sound) (htaken : ∀ k, taken k → ¬t.declares k) (h : t.Later taken t') :
    t.Retains (fun k => ¬taken k) t' ∧ t'.Sound ∧ t.size ≤ t'.size ∧ t'.bindingStart = t.bindingStart := by
  induction h with
  | refl => exact ⟨⟨fun _ _ _ h => h, fun _ _ _ h => h, fun _ _ h => h⟩, hs, Nat.le_refl _, rfl⟩
  | @compile t' h cfg site message scope hindex ih =>
    obtain ⟨hretains, hs', hsize, hstart⟩ := ih
    have htaken' : ∀ k, taken k → ¬t'.declares k := fun k hk => by
      simp_all [declares]
    obtain ⟨hstep, hle, hstart'⟩ := retains_compile hs' cfg site message scope htaken' hindex
    exact ⟨hretains.trans hstep, hs'.compile cfg site message scope, Nat.le_trans hsize hle, hstart'.trans hstart⟩
  | @compileAttributes t' h cfg index element values hindex ih =>
    rcases compileAttributes_view t' cfg index element values with hview | ⟨ops, -, hview⟩
    · rw [hview]
      exact ih
    · obtain ⟨hretains, hs', hsize, hstart⟩ := ih
      have hnode : ∀ id, Slot.attributes ops = .node id → id < t'.nodes.size := fun id hid => by cases hid
      have hset : t'.Grows (fun k => index = k) 0 (t'.setSlot index (.attributes ops)) :=
        grows_setSlot (fun _ hk => hk) 0 hnode
      rw [hview]
      refine ⟨hretains.trans ((hset.retains hs'.bounded).mono fun k heq hk => hindex k hk heq),
        hs'.setSlot index hnode, ?_, hset.bindingStart.trans hstart⟩
      rw [size_setSlot]
      exact hsize

end TemplateView

end MessageCompiler
