/-
The messages that are accepted.

* **`Placeholder.Opens`** — what a placeholder has to satisfy to be opened in a view.
* **`total_compileIcu`** — an expression is never refused if all markup can be read.
* **`compile_eq_ok_iff`** — a message is accepted if and only if its part is found, its placeholders are
  balanced and open slots that they may take, and the texts between them can be read.
-/
import MessageCompiler.Proofs.Law
import MessageCompiler.Proofs.PlannedMessage

namespace MessageCompiler

open List
open Steps
open Message (Placeholder Balanced Closes closes_opening closes_closing closes_nil_iff splitPlaceholders Scope partFor)
open TemplateView (declaredSlot)

/-! ### Steps that never fail -/

namespace Steps

variable {ε σ α β : Type}

def Total (x : EStateM ε σ α) : Prop := ∀ s, ∃ a s', x s = .ok a s'

theorem total_modify (f : σ → σ) : Total (modify f : EStateM ε σ PUnit) := fun s => ⟨⟨⟩, f s, rfl⟩

variable {f : α → EStateM ε σ β} {x : EStateM ε σ α} {s s' : σ}

theorem Total.bind (hx : Total x) (hf : ∀ a, Total (f a)) : Total (x >>= f) := by
  intro s
  obtain ⟨a, s₁, h₁⟩ := hx s
  obtain ⟨b, s₂, h₂⟩ := hf a s₁
  exact ⟨b, s₂, bind_eq_ok.mpr ⟨a, s₁, h₁, h₂⟩⟩

theorem bind_of_ok {a : α} (h : x s = .ok a s') : (x >>= f) s = f a s' := by
  show EStateM.bind x f s = _
  rw [EStateM.bind, h]

theorem bind_of_error {e : ε} (h : x s = .error e s') : (x >>= f) s = .error e s' := by
  show EStateM.bind x f s = _
  rw [EStateM.bind, h]

end Steps

def Config.ReadsAll (cfg : Config) : Prop := ∀ markup, ∃ nodes, cfg.parseFragment markup = .ok nodes

theorem total_compileIcu {cfg : Config} (hcfg : cfg.ReadsAll) (e : Icu) (parent anchor : Int) :
    Total (compileIcu cfg e parent anchor) := by
  have law : Law cfg Total := {
    pure := fun a p => ⟨a, p, rfl⟩
    bind := Total.bind
    report := fun _ => total_modify _
    emit := fun _ => total_modify _
    allocSlot := fun _ => ⟨_, _, rfl⟩
    addNode := fun _ => total_modify _
    setIcu := fun _ => total_modify _
    refuse := fun {markup reason} hmarkup _ => by
      obtain ⟨nodes, hnodes⟩ := hcfg markup
      cases hnodes.symm.trans hmarkup }
  exact law.compileIcu e parent anchor

/-! ### Texts between placeholders -/

/-- The step succeeds in every state, with a frame of the same placeholder. -/
def Frame.Continues (frame : Frame) (x : PassM Frame) : Prop :=
  ∀ p, ∃ frame' p', x p = .ok frame' p' ∧ frame'.placeholder = frame.placeholder

section Runs

variable {cfg : Config} (site : Site)

theorem continues_compileText (frame : Frame) (text : String) : frame.Continues (compileText frame text) := by
  intro p
  unfold compileText
  split
  · exact ⟨_, _, bind_eq_ok.mpr ⟨_, _, Frame.create_eq .., rfl⟩, rfl⟩
  · exact ⟨_, _, bind_eq_ok.mpr ⟨_, _, Frame.create_eq .., rfl⟩, rfl⟩

theorem continues_compileSegments (hcfg : cfg.ReadsAll) :
    ∀ (segments : List Segment) (frame : Frame), frame.Continues (compileSegments cfg site frame segments) := by
  intro segments
  induction segments with
  | nil => exact fun frame p => ⟨frame, p, rfl, rfl⟩
  | cons segment rest ih =>
    intro frame p
    cases segment with
    | text s =>
      unfold compileSegments
      dsimp only
      split
      · exact ih frame p
      · obtain ⟨frame₁, p₁, h₁, hsame₁⟩ := continues_compileText frame s p
        obtain ⟨frame₂, p₂, h₂, hsame₂⟩ := ih frame₁ p₁
        exact ⟨frame₂, p₂, bind_eq_ok.mpr ⟨_, _, h₁, h₂⟩, hsame₂.trans hsame₁⟩
    | icu e =>
      unfold compileSegments
      dsimp only
      obtain ⟨frame₁, hframe₁, hsame⟩ : ∃ frame₁, frame₁ = frame.grown p.view ∧
          frame₁.placeholder = frame.placeholder := ⟨_, rfl, rfl⟩
      obtain ⟨⟨⟩, p₁, h₁⟩ := total_compileIcu hcfg e site.parent p.view.size _
      obtain ⟨frame₂, p₂, h₂, hsame₂⟩ := ih frame₁ p₁
      refine ⟨frame₂, p₂, bind_eq_ok.mpr ⟨_, _, Frame.create_eq .., bind_eq_ok.mpr ⟨_, _, h₁, ?_⟩⟩, hsame₂.trans hsame⟩
      rw [← hframe₁]
      exact h₂

theorem continues_compileRun (hcfg : cfg.ReadsAll) {text : List Char} {segments : List Segment}
    (htext : (Message.split text).result = .ok segments) (frame : Frame) :
    frame.Continues (compileRun cfg site frame text) := by
  intro p
  obtain ⟨frame₁, p₁, h₁, hsame⟩ := continues_compileSegments site hcfg segments frame
    { p with log := p.log ++ (Message.split text).log }
  refine ⟨frame₁, p₁, bind_eq_ok.mpr ⟨segments, _, ?_, h₁⟩, hsame⟩
  unfold Pass.parsed
  refine bind_eq_ok.mpr ⟨⟨⟩, _, rfl, ?_⟩
  rw [htext]
  rfl

end Runs

/-! ### Placeholders -/

namespace TemplateView

/-- A placeholder with that number may be opened: the slot is empty or holds a placeholder. -/
structure Opens (t : TemplateView) (site : Site) (n : Nat) : Prop extends t.Denotes site n where
  free : t.slot? (declaredSlot n) = some .empty ∨
    ∃ node, t.node? (declaredSlot n) = some node ∧ node.type = .placeholder

end TemplateView

namespace TemplateView

variable {t t₁ t₂ : TemplateView}

theorem isFree_natCast {k : Nat} (hk : k < t.size) :
    t.isFree k = true ↔ t.slots[k]? = some .empty ∨ t.type? k = some .placeholder := by
  have hslot : ∃ s, t.slots[k]? = some s := ⟨_, Array.getElem?_eq_getElem hk⟩
  obtain ⟨s, hs⟩ := hslot
  have htype : t.type? k = (t.nodeId? k).bind fun id => t.nodes[id]?.map (·.type) := by
    show ((t.nodeId? k).bind _).map _ = _
    cases t.nodeId? k <;> rfl
  rw [htype, isFree, nodeId?, slot?_natCast, hs]
  cases s <;> simp

/-- The declared slots of `t'` are as free as those of `t`. -/
structure Alike (t t' : TemplateView) : Prop where
  bounded : t'.Bounded
  bindingStart : t'.bindingStart = t.bindingStart
  bindingStart_le : t.bindingStart ≤ t'.size
  isFree : ∀ k < t.bindingStart, t'.isFree k = t.isFree k

theorem Sound.alike (hs : t.Sound) : t.Alike t := ⟨hs.bounded, rfl, hs.bindingStart_le, fun _ _ => rfl⟩

theorem Alike.grows {touched : Nat → Prop} {n : Nat} (h : t.Alike t₁) (hgrows : t₁.Grows touched n t₂)
    (htouched : ∀ k < t.bindingStart, touched k → t₁.isFree k = true ∧ t₂.isFree k = true) : t.Alike t₂ where
  bounded := hgrows.bounded h.bounded
  bindingStart := hgrows.bindingStart.trans h.bindingStart
  bindingStart_le := Nat.le_trans h.bindingStart_le hgrows.size_le
  isFree k hk := by
    have hlt : k < t₁.size := Nat.lt_of_lt_of_le hk h.bindingStart_le
    rw [← h.isFree k hk]
    by_cases htouch : touched k
    · rw [(htouched k hk htouch).1, (htouched k hk htouch).2]
    · rw [Bool.eq_iff_iff, isFree_natCast hlt, isFree_natCast (Nat.lt_of_lt_of_le hlt hgrows.size_le),
        hgrows.slots k hlt htouch, hgrows.types h.bounded k hlt htouch]

end TemplateView

theorem Frame.type?_openedView (frame : Frame) {t : TemplateView} (hb : t.Bounded) {k : Nat} (hk : k < t.size) :
    (frame.openedView t k).type? k = some .placeholder := by
  have hadd : t.Grows (fun _ => True) 0 (t.addNode (frame.placeholderNode k)) :=
    TemplateView.grows_addNode (fun _ _ => trivial) (Nat.zero_le _)
  have hprecede : (t.addNode (frame.placeholderNode k)).Grows TemplateView.untouched 0 (frame.openedView t k) :=
    grows_precede _ _ _ _ fun _ _ => Nat.zero_le _
  have hid : (t.addNode (frame.placeholderNode k)).nodeId? k = some t.nodes.size :=
    (vacant_addNode t hk .placeholder "" (frame.placeholder.map (·.slot))).1
  rw [hprecede.types (TemplateView.bounded_addNode hb _) k (Nat.lt_of_lt_of_le hk hadd.size_le) id]
  show (((t.addNode (frame.placeholderNode k)).nodeId? k).bind _).map _ = _
  rw [hid]
  show ((t.nodes.push (frame.placeholderNode k))[t.nodes.size]?).map _ = _
  rw [Array.getElem?_push_size]
  rfl

namespace TemplateView

theorem Alike.opened {t t' : TemplateView} (h : t.Alike t') {k : Nat} (hk : k < t.bindingStart)
    (hfree : t'.isFree k = true) (frame : Frame) : t.Alike (frame.openedView t' k) := by
  have hlt : k < t'.size := Nat.lt_of_lt_of_le hk h.bindingStart_le
  refine h.grows (frame.grows_openedView t' k) fun i _ hi => ?_
  have hik : i = k := by omega
  rw [hik]
  refine ⟨hfree, ?_⟩
  rw [isFree_natCast (Nat.lt_of_lt_of_le hlt (frame.grows_openedView t' k).size_le)]
  exact .inr (frame.type?_openedView h.bounded hlt)

theorem Sound.opens_iff {t : TemplateView} (hs : t.Sound) {site : Site} {n : Nat} :
    t.Opens site n ↔ t.Denotes site n ∧ t.isFree (declaredSlot n) = true := by
  have hfree : declaredSlot n < t.bindingStart → (t.isFree (declaredSlot n) = true ↔
      t.slot? (declaredSlot n) = some .empty ∨
        ∃ node, t.node? (declaredSlot n) = some node ∧ node.type = .placeholder) := by
    intro hn
    rw [isFree_natCast (Nat.lt_of_lt_of_le hn hs.bindingStart_le), slot?_natCast, type?, Option.map_eq_some_iff]
  constructor
  · intro h
    exact ⟨h.toDenotes, (hfree h.declared).mpr h.free⟩
  · rintro ⟨h, hisFree⟩
    exact ⟨h, (hfree h.declared).mp hisFree⟩

end TemplateView

/-! ### Messages -/

/-- The frames inside which a text stands, innermost first, with the numbers of their placeholders. -/
def Stacked (frames : List Frame) (opened : List Nat) : Prop :=
  frames.map (fun f => f.placeholder.map (·.slot)) =
    opened.map (fun n => some (declaredSlot n : Int)) ++ [none]

/-- What the placeholders of a text have to satisfy while some are open. -/
structure TemplateView.Accepts (t : TemplateView) (site : Site) (opened : List Nat)
    (tokens : List Placeholder) : Prop where
  closes : Closes opened tokens
  opens : ∀ q ∈ tokens, q.closing = false → t.Opens site q.number

variable {frame : Frame} {outer : List Frame}

theorem stacked_nil :
    Stacked (frame :: outer) [] ↔ frame.placeholder = none ∧ outer = [] := by
  simp [Stacked]

variable {opened : List Nat}

theorem stacked_cons {n : Nat} : Stacked (frame :: outer) (n :: opened) ↔
      frame.placeholder.map (·.slot) = some (declaredSlot n : Int) ∧ Stacked outer opened := by
  simp only [Stacked, map_cons, cons_append, List.cons.injEq]

theorem Stacked.congr {frame' : Frame} (h : Stacked (frame :: outer) opened)
    (hsame : frame'.placeholder = frame.placeholder) : Stacked (frame' :: outer) opened := by
  simpa only [Stacked, map_cons, hsame] using h

theorem Stacked.exists_frame (h : Stacked outer opened) : ∃ frame outer', outer = frame :: outer' := by
  cases outer with
  | nil => simp [Stacked] at h
  | cons frame outer => exact ⟨frame, outer, rfl⟩

namespace TemplateView

variable {t : TemplateView} {site : Site} {opened : List Nat} {q : Placeholder} {rest : List Placeholder}

theorem accepts_opening (hq : q.closing = false) :
    t.Accepts site opened (q :: rest) ↔ t.Opens site q.number ∧ t.Accepts site (q.number :: opened) rest := by
  constructor
  · intro h
    exact ⟨h.opens q mem_cons_self hq, (closes_opening hq).mp h.closes, fun r hr => h.opens r (mem_cons_of_mem _ hr)⟩
  · rintro ⟨hopens, h⟩
    refine ⟨(closes_opening hq).mpr h.closes, fun r hr => ?_⟩
    rcases mem_cons.mp hr with rfl | hr
    · exact fun _ => hopens
    · exact h.opens r hr

theorem accepts_closing (hq : q.closing = true) :
    t.Accepts site opened (q :: rest) ↔ ∃ outer, opened = q.number :: outer ∧ t.Accepts site outer rest := by
  constructor
  · intro h
    obtain ⟨outer, rfl, hcloses⟩ := (closes_closing hq).mp h.closes
    exact ⟨outer, rfl, hcloses, fun r hr => h.opens r (mem_cons_of_mem _ hr)⟩
  · rintro ⟨outer, rfl, h⟩
    refine ⟨(closes_closing hq).mpr ⟨outer, rfl, h.closes⟩, fun r hr hopening => ?_⟩
    rcases mem_cons.mp hr with rfl | hr
    · rw [hq] at hopening
      cases hopening
    · exact h.opens r hr hopening

theorem Alike.denotes_iff {t' : TemplateView} (h : t.Alike t') {n : Nat} : t'.Denotes site n ↔ t.Denotes site n := by
  constructor
  · intro hn
    exact ⟨hn.fits, h.bindingStart ▸ hn.declared, hn.other⟩
  · intro hn
    exact ⟨hn.fits, h.bindingStart.symm ▸ hn.declared, hn.other⟩

theorem Accepts.denotes (h : t.Accepts site opened (q :: rest)) (hopened : ∀ n ∈ opened, t.Denotes site n) :
    t.Denotes site q.number := by
  by_cases hq : q.closing = true
  · obtain ⟨outer, rfl, -⟩ := (accepts_closing hq).mp h
    exact hopened _ mem_cons_self
  · rw [Bool.not_eq_true] at hq
    exact ((accepts_opening hq).mp h).1.toDenotes

end TemplateView

def Message.Readable (text : List Char) : Prop := ∃ segments, (Message.split text).result = .ok segments

/-- The texts before, between and after the placeholders can be read. -/
def Message.RunsReadable (parts : Text.Interleaved Placeholder) : Prop :=
  (∀ item ∈ parts.items, Message.Readable item.1) ∧ Message.Readable parts.last

section Items

variable {cfg : Config} (site : Site) {t : TemplateView} {last : List Char}
variable {p p' : Pass} {text : List Char} {frame : Frame}

theorem exists_compileRun (hcfg : cfg.ReadsAll) (htext : Message.Readable text) (frame : Frame)
    (halike : t.Alike p.view) :
    ∃ frame' p', compileRun cfg site frame text p = .ok frame' p' ∧
      frame'.placeholder = frame.placeholder ∧ t.Alike p'.view := by
  obtain ⟨segments, hsegments⟩ := htext
  obtain ⟨frame', p', hrun, hsame⟩ := continues_compileRun site hcfg hsegments frame p
  exact ⟨frame', p', hrun, hsame, halike.grows (grows_compileRun hrun) fun _ _ h => h.elim⟩

theorem compileItems_cases (hcfg : cfg.ReadsAll) (hs : t.Sound) (hlast : Message.Readable last) :
    ∀ (items : List (List Char × Placeholder)) (frame : Frame) (outer : List Frame) (opened : List Nat)
      (p : Pass), (∀ item ∈ items, item.2.Numbered ∧ Message.Readable item.1) →
      Stacked (frame :: outer) opened → (∀ n ∈ opened, t.Denotes site n) → t.Alike p.view →
        (t.Accepts site opened (items.map (·.2)) ∧ ∃ p', compileItems cfg site last frame outer items p = .ok () p') ∨
          (¬t.Accepts site opened (items.map (·.2)) ∧
            ∃ e p', compileItems cfg site last frame outer items p = .error (.invalidPlaceholder e) p') := by
  intro items
  induction items with
  | nil =>
    intro frame outer opened p _ hstacked _ halike
    obtain ⟨frame', p', hrun, hsame, -⟩ := exists_compileRun site hcfg hlast frame halike
    unfold compileItems
    rw [bind_of_ok hrun]
    cases opened with
    | nil =>
      rw [(stacked_nil.mp (hstacked.congr hsame)).1]
      exact .inl ⟨⟨rfl, by simp⟩, p', rfl⟩
    | cons n opened =>
      obtain ⟨o, ho, -⟩ := Option.map_eq_some_iff.mp (stacked_cons.mp (hstacked.congr hsame)).1
      rw [ho]
      refine .inr ⟨fun h => ?_, .neverClosed o.slot, p', rfl⟩
      exact cons_ne_nil n opened h.closes
  | cons item rest ih =>
    obtain ⟨text, q⟩ := item
    intro frame outer opened p hitems hstacked hopened halike
    obtain ⟨hq, htext⟩ := hitems _ mem_cons_self
    have hrest : ∀ item ∈ rest, item.2.Numbered ∧ Message.Readable item.1 :=
      fun item hitem => hitems item (mem_cons_of_mem _ hitem)
    obtain ⟨frame₁, p₁, hrun, hsame, halike₁⟩ := exists_compileRun site hcfg htext frame halike
    have hstacked₁ := hstacked.congr hsame
    rw [map_cons]
    unfold compileItems
    rw [bind_of_ok hrun]
    rcases placeholderSlot_cases site hq p₁ with ⟨hdenotes, hslot⟩ | ⟨hdenotes, e, hslot⟩
    · rw [halike₁.denotes_iff] at hdenotes
      rw [bind_of_ok hslot]
      by_cases hclosing : q.closing = true
      · rw [if_pos hclosing, TemplateView.accepts_closing hclosing]
        cases opened with
        | nil =>
          rw [(stacked_nil.mp hstacked₁).2]
          exact .inr ⟨by simp, .unexpectedClosing _, p₁, rfl⟩
        | cons n opened =>
          obtain ⟨hinner, hstacked₂⟩ := stacked_cons.mp hstacked₁
          obtain ⟨enclosing, outer, rfl⟩ := hstacked₂.exists_frame
          dsimp only
          by_cases hn : n = q.number
          · subst hn
            rw [if_pos hinner]
            have hagain := ih enclosing outer opened p₁ hrest hstacked₂
              (fun m hm => hopened m (mem_cons_of_mem _ hm)) halike₁
            simpa using hagain
          · have hne : ¬frame₁.placeholder.map (·.slot) = some (declaredSlot q.number : Int) := by
              rw [hinner]
              intro heq
              simp only [declaredSlot, Option.some.injEq] at heq
              omega
            rw [if_neg hne]
            refine .inr ⟨?_, .unexpectedClosing _, p₁, rfl⟩
            rintro ⟨outer', heq, -⟩
            exact hn (List.cons.inj heq).1
      · rw [if_neg hclosing, TemplateView.accepts_opening (Bool.not_eq_true _ ▸ hclosing), hs.opens_iff]
        have hfree := halike₁.isFree _ hdenotes.declared
        cases hisFree : t.isFree (declaredSlot q.number) with
        | true =>
          rw [hisFree] at hfree
          rw [bind_of_ok (by rw [openPlaceholder_eq, if_pos hfree])]
          have hinside : Stacked (Frame.inside p₁.view (declaredSlot q.number) ::
              frame₁.grown p₁.view :: outer) (q.number :: opened) :=
            stacked_cons.mpr ⟨rfl, hstacked₁.congr rfl⟩
          have hopened₁ : ∀ m ∈ q.number :: opened, t.Denotes site m := by
            intro m hm
            rcases mem_cons.mp hm with rfl | hm
            · exact hdenotes
            · exact hopened m hm
          have hagain := ih _ _ (q.number :: opened)
            { p₁ with view := frame₁.openedView p₁.view (declaredSlot q.number) } hrest hinside hopened₁
            (halike₁.opened hdenotes.declared hfree frame₁)
          simpa [hdenotes] using hagain
        | false =>
          rw [hisFree] at hfree
          rw [bind_of_error (by rw [openPlaceholder_eq, if_neg (by rw [hfree]; exact Bool.false_ne_true)])]
          exact .inr ⟨by simp, _, p₁, rfl⟩
    · rw [halike₁.denotes_iff] at hdenotes
      rw [bind_of_error hslot]
      exact .inr ⟨fun h => hdenotes (h.denotes hopened), e, p₁, rfl⟩

theorem readable_of_compileRun {site : Site} {frame' : Frame}
    (h : compileRun cfg site frame text p = .ok frame' p') : Message.Readable text := by
  obtain ⟨segments, hsplit, -⟩ := exists_fills h
  exact ⟨segments, hsplit⟩

theorem Traverses.readable {site : Site} {outer : List Frame} {items : List (List Char × Placeholder)}
    (h : Traverses cfg site last frame outer items p p') :
    (∀ item ∈ items, Message.Readable item.1) ∧ Message.Readable last := by
  induction h with
  | done hrun => exact ⟨by simp, readable_of_compileRun hrun⟩
  | close hrun _ _ ih => exact ⟨forall_mem_cons.mpr ⟨readable_of_compileRun hrun, ih.1⟩, ih.2⟩
  | enter hrun _ _ _ _ ih => exact ⟨forall_mem_cons.mpr ⟨readable_of_compileRun hrun, ih.1⟩, ih.2⟩

end Items

namespace TemplateView

variable {t : TemplateView} {site : Site} {cfg : Config}

/-- The placeholders of a message are balanced, and each may be opened in the view. -/
structure Places (t : TemplateView) (site : Site) (tokens : List Placeholder) : Prop where
  balanced : Balanced tokens
  opens : ∀ q ∈ tokens, q.closing = false → t.Opens site q.number

theorem accepts_nil_iff {tokens : List Placeholder} : t.Accepts site [] tokens ↔ t.Places site tokens := by
  constructor
  · exact fun h => ⟨closes_nil_iff.mp h.closes, h.opens⟩
  · exact fun h => ⟨closes_nil_iff.mpr h.balanced, h.opens⟩

theorem compileScoped_cases (site : Site) (hcfg : cfg.ReadsAll) (hs : t.Sound)
    {message : List Char} (hreadable : Message.RunsReadable (splitPlaceholders message)) :
    (t.Places site ((splitPlaceholders message).items.map (·.2)) ∧
        ∃ p, compileScoped cfg site message ⟨t, [], [], []⟩ = .ok () p) ∨
      (¬t.Places site ((splitPlaceholders message).items.map (·.2)) ∧
        ∃ e p, compileScoped cfg site message ⟨t, [], [], []⟩ = .error (.invalidPlaceholder e) p) := by
  have hitems : ∀ item ∈ (splitPlaceholders message).items, item.2.Numbered ∧ Message.Readable item.1 :=
    fun item hitem => ⟨Message.Placeholder.numbered_of_mem hitem, hreadable.1 item hitem⟩
  have hcases := compileItems_cases site hcfg hs hreadable.2 _ .top [] [] ⟨t, [], [], []⟩ hitems
    (stacked_nil.mpr ⟨rfl, rfl⟩) (by simp) hs.alike
  rwa [accepts_nil_iff] at hcases

theorem compile_result (hindex : header ≤ site.index)
    (hcontains : t.contains site.index = true) (hslot : ∀ serial block, t.slot? site.index ≠ some (.block serial block))
    (message : String) (scope : Scope) :
    (t.compile cfg site message scope).result =
      match partFor scope message.toList with
      | .error e => .error (.ofScope e)
      | .ok part =>
        match compileScoped cfg site (releaseSpaces part) ⟨t, [], [], []⟩ with
        | .error cause _ => .error (.refused message cause)
        | .ok _ p => .ok ⟨p.view.serial, ⟨p.create, p.update⟩⟩ := by
  have hinside : ¬(decide (site.index < header) || !t.contains site.index) = true := by
    rw [hcontains]
    simp only [Bool.not_true, Bool.or_false, decide_eq_true_eq]
    omega
  unfold compile
  rw [if_neg hinside]
  split
  · next serial block h => exact absurd h (hslot serial block)
  · cases partFor scope message.toList with
    | error e => rfl
    | ok part =>
      dsimp only [EStateM.run]
      cases compileScoped cfg site (releaseSpaces part) ⟨t, [], [], []⟩ <;> rfl

theorem exists_handle (hs : t.Sound) (hcfg : cfg.ReadsAll)
    (hindex : header ≤ site.index) (hcontains : t.contains site.index = true)
    (hslot : ∀ serial block, t.slot? site.index ≠ some (.block serial block)) {message : String}
    {scope : Scope} {part : List Char} (hpart : partFor scope message.toList = .ok part)
    (hplaces : t.Places site ((splitPlaceholders (releaseSpaces part)).items.map (·.2)))
    (hreadable : Message.RunsReadable (splitPlaceholders (releaseSpaces part))) :
    ∃ handle, (t.compile cfg site message scope).result = .ok handle := by
  rw [compile_result hindex hcontains hslot, hpart]
  rcases compileScoped_cases site hcfg hs hreadable with ⟨-, p, hrun⟩ | ⟨h, -⟩
  · dsimp only
    rw [hrun]
    exact ⟨_, rfl⟩
  · exact absurd hplaces h

/-- **Acceptance.** Compiling into a slot that holds no block succeeds if and only if the part of the
template is found, its placeholders are balanced and may be opened in the view, and the texts between them
can be read. If only the placeholders are at fault, the message is refused for one of them. -/
theorem compile_eq_ok_iff {t : TemplateView} {cfg : Config} {site : Site} (hreachable : t.Reachable)
    (hcfg : cfg.ReadsAll) (hindex : header ≤ site.index) (hcontains : t.contains site.index = true)
    (hslot : ∀ serial block, t.slot? site.index ≠ some (.block serial block)) (message : String)
    (scope : Message.Scope) :
    ((∃ handle, (t.compile cfg site message scope).result = .ok handle) ↔
      ∃ part, Message.partFor scope message.toList = .ok part ∧
        t.Places site ((Message.splitPlaceholders (releaseSpaces part)).items.map (·.2)) ∧
        Message.RunsReadable (Message.splitPlaceholders (releaseSpaces part))) ∧
    ∀ part, Message.partFor scope message.toList = .ok part →
      Message.RunsReadable (Message.splitPlaceholders (releaseSpaces part)) →
      ¬t.Places site ((Message.splitPlaceholders (releaseSpaces part)).items.map (·.2)) →
        ∃ e, (t.compile cfg site message scope).result = .error (.refused message (.invalidPlaceholder e)) := by
  refine ⟨⟨?_, ?_⟩, ?_⟩
  · rintro ⟨handle, h⟩
    rw [compile_result hindex hcontains hslot] at h
    cases hpart : Message.partFor scope message.toList with
    | error e =>
      rw [hpart] at h
      cases h
    | ok part =>
      rw [hpart] at h
      dsimp only at h
      cases hrun : compileScoped cfg site (releaseSpaces part) ⟨t, [], [], []⟩ with
      | error cause p =>
        rw [hrun] at h
        cases h
      | ok _ p =>
        have hreadable := (traverses_compileScoped hrun).readable
        refine ⟨part, rfl, ?_, hreadable⟩
        rcases compileScoped_cases site hcfg hreachable.sound hreadable with ⟨h, -⟩ | ⟨-, e, p', herror⟩
        · exact h
        · rw [hrun] at herror
          cases herror
  · rintro ⟨part, hpart, hplaces, hreadable⟩
    exact exists_handle hreachable.sound hcfg hindex hcontains hslot hpart hplaces hreadable
  · intro part hpart hreadable hplaces
    rw [compile_result hindex hcontains hslot, hpart]
    rcases compileScoped_cases site hcfg hreachable.sound hreadable with ⟨h, -⟩ | ⟨-, e, p, hrun⟩
    · exact absurd h hplaces
    · dsimp only
      rw [hrun]
      exact ⟨e, rfl⟩

/-- Placeholders one inside the other are accepted, also with a leading zero in one number; crossed ones are
not. -/
theorem compile_eq_ok_iff_crossed :
    (∃ handle, ((new 4 1).compile .standard ⟨-1, 22⟩ "�#1�a�*2:0�b�/*2:0��/#01�" .root).result = .ok handle) ∧
      ∃ e, ((new 4 1).compile .standard ⟨-1, 22⟩ "�#1�a�#2��/#1��/#2�" .root).result =
        .error (.refused "�#1�a�#2��/#1��/#2�" (.invalidPlaceholder e)) := by
  have hslot : ∀ serial block, (new 4 1).slot? 22 ≠ some (.block serial block) := by
    intro serial block h
    cases h
  have hopens : ∀ n, n = 1 ∨ n = 2 → (new 4 1).Opens ⟨-1, 22⟩ n := by
    rintro n (rfl | rfl)
    · exact ⟨⟨by decide, by decide, by decide⟩, .inl (by decide)⟩
    · exact ⟨⟨by decide, by decide, by decide⟩, .inl (by decide)⟩
  have haccepted := @compile_eq_ok_iff (new 4 1) .standard ⟨-1, 22⟩ (.new 4 1) (fun _ => ⟨_, rfl⟩)
    (by decide) (by decide) hslot
  have hreadable : ∀ s : List Char, s = [] ∨ s = ['a'] → Message.Readable s := by
    rintro s (rfl | rfl)
    · exact ⟨[], rfl⟩
    · exact ⟨[.text "a"], rfl⟩
  constructor
  · have hpart : Message.partFor .root "�#1�a�*2:0�b�/*2:0��/#01�".toList =
        .ok "�#1�a�*2:0��/*2:0��/#01�".toList := by cbv
    have hitems : (Message.splitPlaceholders (releaseSpaces "�#1�a�*2:0��/*2:0��/#01�".toList)).items =
        [([], ⟨false, .element, ⟨['1'], []⟩⟩), (['a'], ⟨false, .subTemplate, ⟨['2'], [':', '0']⟩⟩),
          ([], ⟨true, .subTemplate, ⟨['2'], [':', '0']⟩⟩), ([], ⟨true, .element, ⟨['0', '1'], []⟩⟩)] := by
      decide +kernel
    have hlast : (Message.splitPlaceholders (releaseSpaces "�#1�a�*2:0��/*2:0��/#01�".toList)).last = [] := by
      decide +kernel
    refine (haccepted _ _).1.mpr ⟨_, hpart, ⟨?_, ?_⟩, ?_, hreadable _ (.inl hlast)⟩
    · rw [hitems]
      exact .pair [_, _] rfl rfl (by decide) (.pair [] rfl rfl (by decide) .nil .nil) .nil
    · rw [hitems]
      intro q hq _
      apply hopens
      revert q
      decide
    · rw [hitems]
      intro item hitem
      apply hreadable
      revert item
      decide
  · have hitems : (Message.splitPlaceholders (releaseSpaces "�#1�a�#2��/#1��/#2�".toList)).items =
        [([], ⟨false, .element, ⟨['1'], []⟩⟩), (['a'], ⟨false, .element, ⟨['2'], []⟩⟩),
          ([], ⟨true, .element, ⟨['1'], []⟩⟩), ([], ⟨true, .element, ⟨['2'], []⟩⟩)] := by
      decide +kernel
    refine (haccepted _ _).2 "�#1�a�#2��/#1��/#2�".toList (by cbv) ⟨?_, ?_⟩ fun h => ?_
    · rw [hitems]
      intro item hitem
      apply hreadable
      revert item
      decide
    · exact hreadable _ (.inl (by decide +kernel))
    · have hcloses := Message.closes_nil_iff.mpr h.balanced
      rw [hitems] at hcloses
      simp [Message.Closes, Message.Placeholder.number] at hcloses
      revert hcloses
      decide

end TemplateView

end MessageCompiler
