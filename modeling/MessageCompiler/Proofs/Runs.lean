/-
Messages that are compiled without a failure.

A successful run over a message goes from one placeholder to the next. What it does in between, and at each placeholder,
is said here once; what holds of a compiled message is then shown along the run.

* **`traverses_compileScoped`** — a message that is accepted is traversed.
-/
import MessageCompiler.Proofs.Nesting
import MessageCompiler.Proofs.PassGrowth

namespace MessageCompiler

open Steps TemplateView
open Message (Placeholder)

/-! ### Texts and expressions -/

def rootLabel (site : Site) (main : Int) : String :=
  "ICU " ++ Text.showInt site.index ++ ":" ++ Text.showInt main

def Frame.createdPass (frame : Frame) (p : Pass) (type : NodeType) (text value : String) : Pass :=
  { p with
    view := frame.createdView p.view type value
    create := p.create ++ [⟨p.view.size, text, type == .icu, frame.placeholder.isNone⟩] }

theorem Frame.above_zero (frame : Frame) : frame.Above 0 :=
  ⟨fun _ _ => Nat.zero_le _, fun _ _ => Nat.zero_le _⟩

theorem grows_compileRun (h : compileRun cfg site frame text p = .ok frame' p') : p.view.Grows untouched 0 p'.view := by
  have hgrown := (grown_compileRun cfg site frame.above_zero text (Nat.zero_le _) (p := p)).1
  rwa [after_of_ok h] at hgrown

theorem Frame.grows_openedView (frame : Frame) (t : TemplateView) (slot : Int) :
    t.Grows (fun k => slot = k) 0 (frame.openedView t slot) :=
  MessageCompiler.grows_openedView frame.above_zero (Nat.zero_le _) slot

/-- Texts and expressions are compiled into a frame, one after the other. -/
inductive Fills (cfg : Config) (site : Site) : (frame : Frame) → List Segment → (p : Pass) → (frame' : Frame) →
    (p' : Pass) → Prop where
  | nil {frame : Frame} {p : Pass} : Fills cfg site frame [] p frame p
  | skip {frame frame' : Frame} {s : String} {rest : List Segment} {p p' : Pass} (hempty : s.isEmpty = true)
      (hrest : Fills cfg site frame rest p frame' p') : Fills cfg site frame (.text s :: rest) p frame' p'
  | text {frame frame₁ frame' : Frame} {s : String} {rest : List Segment} {p p₁ p' : Pass} (hne : ¬s.isEmpty = true)
      (htext : compileText frame s p = .ok frame₁ p₁) (hrest : Fills cfg site frame₁ rest p₁ frame' p') :
      Fills cfg site frame (.text s :: rest) p frame' p'
  | icu {frame frame' : Frame} {e : Icu} {rest : List Segment} {p p₁ p' : Pass}
      (hicu : compileIcu cfg e site.parent p.view.size
        (frame.createdPass p .icu (rootLabel site e.main) (rootLabel site e.main)) = .ok () p₁)
      (hrest : Fills cfg site (frame.grown p.view) rest p₁ frame' p') : Fills cfg site frame (.icu e :: rest) p frame' p'

section Fills

variable {cfg : Config} {site : Site} {frame frame' : Frame} {text : List Char} {p p' : Pass}

theorem fills_compileSegments : ∀ (segments : List Segment) (frame frame' : Frame) (p p' : Pass),
    compileSegments cfg site frame segments p = .ok frame' p' → Fills cfg site frame segments p frame' p'
  | [], frame, frame', p, p', h => by
    obtain ⟨rfl, rfl⟩ := pure_eq_ok.mp h
    exact .nil
  | .text s :: rest, frame, frame', p, p', h => by
    unfold compileSegments at h
    split at h
    · next hempty => exact .skip hempty (fills_compileSegments rest frame frame' p p' h)
    · next hne =>
      obtain ⟨frame₁, p₁, htext, h⟩ := bind_eq_ok.mp h
      exact .text hne htext (fills_compileSegments rest frame₁ frame' p₁ p' h)
  | .icu e :: rest, frame, frame', p, p', h => by
    unfold compileSegments at h
    obtain ⟨⟨frame₁, anchor⟩, p₁, hcreate, h⟩ := bind_eq_ok.mp h
    rw [Frame.create_eq] at hcreate
    cases hcreate
    obtain ⟨_, p₂, hicu, h⟩ := bind_eq_ok.mp h
    exact .icu hicu (fills_compileSegments rest _ frame' p₂ p' h)

theorem exists_fills (h : compileRun cfg site frame text p = .ok frame' p') :
    ∃ segments, (Message.split text).result = .ok segments ∧
      Fills cfg site frame segments { p with log := p.log ++ (Message.split text).log } frame' p' := by
  unfold compileRun at h
  obtain ⟨segments, p₁, hparsed, h⟩ := bind_eq_ok.mp h
  unfold Pass.parsed at hparsed
  obtain ⟨_, p₂, hlog, hparsed⟩ := bind_eq_ok.mp hparsed
  cases hlog
  cases hresult : (Message.split text).result with
  | error e =>
    rw [hresult] at hparsed
    cases hparsed
  | ok segments' =>
    rw [hresult] at hparsed
    obtain ⟨rfl, rfl⟩ := pure_eq_ok.mp hparsed
    exact ⟨_, rfl, fills_compileSegments _ frame frame' _ p' h⟩

theorem compileText_frame {text : String} (h : compileText frame text p = .ok frame' p') :
    frame' = frame.grown p.view := by
  unfold compileText at h
  split at h
  · obtain ⟨r, p₁, hcreate, h⟩ := bind_eq_ok.mp h
    rw [Frame.create_eq] at hcreate
    cases hcreate
    cases h
    rfl
  · obtain ⟨r, p₁, hcreate, h⟩ := bind_eq_ok.mp h
    rw [Frame.create_eq] at hcreate
    cases hcreate
    cases h
    rfl

theorem Fills.placeholder_eq {segments : List Segment} (h : Fills cfg site frame segments p frame' p') :
    frame'.placeholder = frame.placeholder := by
  induction h with
  | nil => rfl
  | skip _ _ ih => exact ih
  | text _ htext _ ih =>
    rw [ih, compileText_frame htext]
    rfl
  | icu _ _ ih => exact ih

theorem placeholder_compileRun (h : compileRun cfg site frame text p = .ok frame' p') :
    frame'.placeholder = frame.placeholder := by
  obtain ⟨segments, -, hfills⟩ := exists_fills h
  exact hfills.placeholder_eq

end Fills

/-! ### Placeholders -/

namespace TemplateView

def declaredSlot (n : Nat) : Nat := header + n

/-- The number denotes a declared slot other than the one of the message. -/
structure Denotes (t : TemplateView) (site : Site) (n : Nat) : Prop where
  fits : n ≤ 9223372036854775807
  declared : declaredSlot n < t.bindingStart
  other : (declaredSlot n : Int) ≠ site.index

end TemplateView

theorem placeholderSlot_eq (site : Site) (q : Placeholder) (p : Pass) : placeholderSlot site q p =
    (match q.ordinal.value? with
      | none => throw (.invalidPlaceholder (.outside (String.ofList q.name)))
      | some n => do
        if n ≥ (p.view.bindingStart - header : Nat) then
          throw (.invalidPlaceholder (.outside (String.ofList q.name)))
        let slot := header + n
        if slot = site.index then throw (.invalidPlaceholder (.ownSlot (String.ofList q.name)))
        return slot : PassM Int) p := rfl

variable {q : Placeholder}

theorem placeholderSlot_cases (site : Site) (hq : q.Numbered) (p : Pass) :
    (p.view.Denotes site q.number ∧ placeholderSlot site q p = .ok (declaredSlot q.number : Int) p) ∨
      (¬p.view.Denotes site q.number ∧ ∃ e, placeholderSlot site q p = .error (.invalidPlaceholder e) p) := by
  rw [placeholderSlot_eq, hq.value?_eq]
  by_cases hfits : q.number ≤ 9223372036854775807
  · rw [if_pos hfits]
    by_cases hdeclared : declaredSlot q.number < p.view.bindingStart
    · have hlt : ¬((q.number : Int) ≥ (p.view.bindingStart - header : Nat)) := by
        unfold declaredSlot at hdeclared
        omega
      by_cases hother : (declaredSlot q.number : Int) = site.index
      · refine .inr ⟨fun h => h.other hother, .ownSlot (String.ofList q.name), ?_⟩
        have hown : (header : Int) + q.number = site.index := hother
        simp [hlt, hown]
        rfl
      · refine .inl ⟨⟨hfits, hdeclared, hother⟩, ?_⟩
        have hown : ¬(header : Int) + q.number = site.index := hother
        simp [hlt, hown]
        rfl
    · have hge : (q.number : Int) ≥ (p.view.bindingStart - header : Nat) := by
        unfold declaredSlot at hdeclared
        omega
      refine .inr ⟨fun h => hdeclared h.declared, .outside (String.ofList q.name), ?_⟩
      simp [hge]
      rfl
  · rw [if_neg hfits]
    exact .inr ⟨fun h => hfits h.fits, .outside (String.ofList q.name), rfl⟩

/-- The run over texts and placeholders in turn, inside a frame and those around it. -/
inductive Traverses (cfg : Config) (site : Site) (last : List Char) : (frame : Frame) → (outer : List Frame) →
    List (List Char × Placeholder) → (p p' : Pass) → Prop where
  | done {frame frame' : Frame} {outer : List Frame} {p p' : Pass}
      (hrun : compileRun cfg site frame last p = .ok frame' p') : Traverses cfg site last frame outer [] p p'
  /-- A closing placeholder leads back to the frame around. -/
  | close {frame frame₁ around : Frame} {outer : List Frame} {text : List Char} {q : Placeholder}
      {rest : List (List Char × Placeholder)} {p p₁ p' : Pass} (hrun : compileRun cfg site frame text p = .ok frame₁ p₁)
      (hclosing : q.closing = true) (hrest : Traverses cfg site last around outer rest p₁ p') :
      Traverses cfg site last frame (around :: outer) ((text, q) :: rest) p p'
  /-- An opening one leads into a new frame. -/
  | enter {frame frame₁ : Frame} {outer : List Frame} {text : List Char} {q : Placeholder}
      {rest : List (List Char × Placeholder)} {p p₁ p' : Pass} (hrun : compileRun cfg site frame text p = .ok frame₁ p₁)
      (hopening : ¬q.closing = true) (hdenotes : p₁.view.Denotes site q.number)
      (hfree : p₁.view.isFree (declaredSlot q.number) = true)
      (hrest : Traverses cfg site last (.inside p₁.view (declaredSlot q.number)) (frame₁.grown p₁.view :: outer) rest
        { p₁ with view := frame₁.openedView p₁.view (declaredSlot q.number) } p') :
      Traverses cfg site last frame outer ((text, q) :: rest) p p'

section Traverses

variable {cfg : Config} {site : Site} {last text : List Char} {frame frame' : Frame} {outer : List Frame}
  {parts : List (List Char × Placeholder)} {p p' : Pass}

theorem traverses_compileItems : ∀ (parts : List (List Char × Placeholder)) (frame : Frame) (outer : List Frame)
    (p : Pass), (∀ item ∈ parts, item.2.Numbered) → compileItems cfg site last frame outer parts p = .ok () p' →
      Traverses cfg site last frame outer parts p p'
  | [], frame, outer, p, _, h => by
    unfold compileItems at h
    obtain ⟨frame₁, p₁, hrun, h⟩ := bind_eq_ok.mp h
    cases hplaceholder : frame₁.placeholder with
    | some o =>
      rw [hplaceholder] at h
      cases h
    | none =>
      rw [hplaceholder] at h
      cases h
      exact .done hrun
  | (text, q) :: rest, frame, outer, p, hnumbered, h => by
    unfold compileItems at h
    obtain ⟨hq, hrest⟩ := List.forall_mem_cons.mp hnumbered
    obtain ⟨frame₁, p₁, hrun, h⟩ := bind_eq_ok.mp h
    obtain ⟨slot, p₂, hslot, h⟩ := bind_eq_ok.mp h
    rcases placeholderSlot_cases site hq p₁ with ⟨hdenotes, hok⟩ | ⟨-, e, herror⟩
    · cases hok.symm.trans hslot
      by_cases hclosing : q.closing = true
      · rw [if_pos hclosing] at h
        cases outer with
        | nil => cases h
        | cons around outer =>
          dsimp only at h
          split at h
          · exact .close hrun hclosing (traverses_compileItems rest around outer p₁ hrest h)
          · cases h
      · rw [if_neg hclosing] at h
        obtain ⟨r, p₃, hopen, h⟩ := bind_eq_ok.mp h
        rw [openPlaceholder_eq] at hopen
        split at hopen
        · next hfree =>
          cases hopen
          exact .enter hrun hclosing hdenotes hfree (traverses_compileItems rest _ _ _ hrest h)
        · cases hopen
    · cases herror.symm.trans hslot

theorem traverses_compileScoped {message : List Char} (h : compileScoped cfg site message p = .ok () p') :
    Traverses cfg site (Message.splitPlaceholders message).last .top [] (Message.splitPlaceholders message).items p p' :=
  traverses_compileItems _ _ _ _ (fun _ hitem => Placeholder.numbered_of_mem hitem) h

end Traverses

/-! ### The slots of a message -/

namespace Message

def openedSlots (parts : List (List Char × Placeholder)) : List Nat :=
  parts.filterMap fun item => if item.2.closing then none else some (declaredSlot item.2.number)

theorem openedSlots_closing {text : List Char} (h : q.closing = true)
    (rest : List (List Char × Placeholder)) : openedSlots ((text, q) :: rest) = openedSlots rest := by
  simp [openedSlots, h]

theorem openedSlots_opening {text : List Char} (h : ¬q.closing = true) (rest : List (List Char × Placeholder)) :
    openedSlots ((text, q) :: rest) = declaredSlot q.number :: openedSlots rest := by
  simp [openedSlots, h]

end Message

theorem Traverses.grows {cfg : Config} {site : Site} {last : List Char} {frame : Frame} {outer : List Frame}
    {parts : List (List Char × Placeholder)} {p p' : Pass} (h : Traverses cfg site last frame outer parts p p') :
    p.view.Grows (· ∈ Message.openedSlots parts) 0 p'.view ∧
      ∀ s ∈ Message.openedSlots parts, header ≤ s ∧ s < p.view.bindingStart := by
  induction h with
  | done hrun =>
    exact ⟨(grows_compileRun hrun).weaken (fun _ _ hfalse => hfalse.elim) (Nat.le_refl 0), fun s hs => by cases hs⟩
  | close hrun hclosing _ ih =>
    have hgrow := grows_compileRun hrun
    rw [hgrow.bindingStart] at ih
    rw [Message.openedSlots_closing hclosing]
    exact ⟨hgrow.trans' ih.1 fun i _ hi => hi.resolve_left id, ih.2⟩
  | @enter _ frame₁ _ _ q _ _ p₁ _ hrun hopening hdenotes _ _ ih =>
    have hgrow := grows_compileRun hrun
    have hopened := frame₁.grows_openedView p₁.view (declaredSlot q.number)
    have hlt := hdenotes.declared
    rw [hopened.bindingStart] at ih
    rw [hgrow.bindingStart] at ih hlt
    rw [Message.openedSlots_opening hopening]
    refine ⟨(hgrow.trans' hopened fun i _ hi => hi.resolve_left id).trans' ih.1 fun i _ hi => ?_, ?_⟩
    · rcases hi with hi | hi
      · rw [← Int.natCast_inj.mp hi]
        exact List.mem_cons_self
      · exact List.mem_cons_of_mem _ hi
    · exact List.forall_mem_cons.mpr ⟨⟨Nat.le_add_right _ _, hlt⟩, ih.2⟩

end MessageCompiler
