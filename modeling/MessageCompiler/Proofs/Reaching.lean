/-
What is shown of a message with placeholders.

A placeholder gets its element where the element around it is, if that is there already, and nowhere if it is
not. Elements are attached in the order of their slots, so a placeholder whose slot is smaller than that of the
one around it stays outside of the host, with all that is inside of it.
-/
import MessageCompiler.Proofs.Moves
import MessageCompiler.Proofs.Placement

namespace MessageCompiler

open List
open Markup (Content Tree)
open Message (Placeholder Scope slotsOf Outlined)
open Live LiveView Steps
open Command (placeholderSlots Assignments attachAll)

/-! ### The slots of a message -/

namespace Message

/-- The slots from the top level down to the frame increase. -/
inductive Ascends (outline : List (Option Nat × Piece)) : (frame : Option Nat) → Prop where
  | top : Ascends outline none
  | inside {outer : Option Nat} {slot : Nat} (h : Ascends outline outer) (hmem : (outer, .placeholder slot) ∈ outline)
      (hlt : ∀ s, outer = some s → s < slot) : Ascends outline (some slot)

theorem slotsOf_outline {scope : Scope} {message : String} {part : List Char}
    (hpart : partFor scope message.toList = .ok part) :
    slotsOf (outline scope message) = openedSlots (splitPlaceholders (releaseSpaces part)).items := by
  rw [outline_eq hpart]
  exact slotsOf_outlineFrom _ _ _

theorem frame_ne_outlineFrom (last : List Char) : ∀ (parts : List (List Char × Placeholder)) (opened : List Nat),
    (openedSlots parts).Nodup → (∀ s ∈ opened, s ∉ openedSlots parts) →
      ∀ frame slot, (frame, Piece.placeholder slot) ∈ outlineFrom last opened parts → frame ≠ some slot
  | [], opened, _, _, frame, slot, hmem => by
    have hslot : slot ∈ slotsOf (outlineFrom last opened []) := mem_filterMap.mpr ⟨_, hmem, rfl⟩
    rw [slotsOf_outlineFrom] at hslot
    cases hslot
  | (text, q) :: rest, opened, hnodup, hapart, frame, slot, hmem => by
    rw [outlineFrom] at hmem
    rcases mem_append.mp hmem with hmem | hmem
    · have hslot : slot ∈ slotsOf ((pieces text).map (opened.head?, ·)) := mem_filterMap.mpr ⟨_, hmem, rfl⟩
      rw [slotsOf_pieces] at hslot
      cases hslot
    by_cases hclosing : q.closing = true
    · rw [openedSlots_closing hclosing] at hnodup hapart
      rw [if_pos hclosing] at hmem
      exact frame_ne_outlineFrom last rest opened.tail hnodup (fun s hs => hapart s (mem_of_mem_tail hs))
        frame slot hmem
    · rw [openedSlots_opening hclosing] at hnodup hapart
      obtain ⟨hnew, hnodup⟩ := nodup_cons.mp hnodup
      rw [if_neg hclosing] at hmem
      rcases mem_cons.mp hmem with heq | hmem
      · cases heq
        intro hhead
        exact hapart _ (mem_of_mem_head? hhead) mem_cons_self
      · refine frame_ne_outlineFrom last rest _ hnodup (fun s hs => ?_) frame slot hmem
        rcases mem_cons.mp hs with rfl | hs
        · exact hnew
        · exact fun hin => hapart s hs (mem_cons_of_mem _ hin)

theorem frame_ne_outline {scope : Scope} {message : String} (honce : (slotsOf (outline scope message)).Nodup)
    {frame : Option Nat} {slot : Nat} (hmem : (frame, Piece.placeholder slot) ∈ outline scope message) :
    frame ≠ some slot := by
  unfold outline at honce hmem
  cases hpart : partFor scope message.toList with
  | error e =>
    rw [hpart] at hmem
    cases hmem
  | ok part =>
    rw [hpart] at honce hmem
    dsimp only at honce hmem
    rw [slotsOf_outlineFrom] at honce
    exact frame_ne_outlineFrom _ _ [] honce (fun s hs => absurd hs not_mem_nil) frame slot hmem

end Message

open Message (Ascends)

/-! ### The placeholders of a view -/

variable {s : Nat}
variable {t : TemplateView}

theorem mem_placeholderSlots : s ∈ placeholderSlots t ↔
    s < t.bindingStart ∧ TemplateView.header ≤ s ∧ t.type? s = some .placeholder := by
  unfold placeholderSlots TemplateView.type?
  simp

theorem mem_placeholderSlots_compile (hs : t.Sound) {cfg : Config} {site : Site}
    {message : String} {scope : Scope} {handle : Handle}
    (hslot : ∀ serial block, t.slot? site.index ≠ some (.block serial block))
    (h : (t.compile cfg site message scope).result = .ok handle) (hnone : placeholderSlots t = [])
    {places : List Place} (hr : Reflects (t.compile cfg site message scope).view places)
    (hentries : places.map Place.entry = Message.outline scope message) :
    s ∈ placeholderSlots (t.compile cfg site message scope).view ↔ s ∈ slotsOf (Message.outline scope message) := by
  obtain ⟨part, p, hpass, hview, -⟩ := TemplateView.exists_compiling hslot h
  rw [hview] at hr ⊢
  obtain ⟨hgrow, hdeclared⟩ := (traverses_compileScoped hpass.run).grows
  rw [← Message.slotsOf_outline hpass.part_eq] at hgrow hdeclared
  have hset : ({ p.view with serial := p.view.serial + 1 } : TemplateView).Grows (fun k => site.index = k) 0
      (TemplateView.compiledView p site.index) :=
    TemplateView.grows_setSlot (fun _ hk => hk) 0 fun id hid => by cases hid
  have hstart : (TemplateView.compiledView p site.index).bindingStart = t.bindingStart :=
    hset.bindingStart.trans hgrow.bindingStart
  rw [mem_placeholderSlots, hstart]
  constructor
  · -- A slot that the message does not open has the type that it had, unless the message itself went there.
    rintro ⟨hlt, hheader, htype⟩
    by_contra hnot
    have hsize : s < t.size := Nat.lt_of_lt_of_le hlt hs.bindingStart_le
    have hsize' : s < p.view.size := Nat.lt_of_lt_of_le hsize hgrow.size_le
    by_cases hown : site.index = s
    · have hblock : (TemplateView.compiledView p s).slots[s]? = some (.block p.view.serial ⟨p.create, p.update⟩) :=
        TemplateView.slots_setSlot_self hsize' _
      simp_all [TemplateView.slot?_natCast, TemplateView.type?, TemplateView.node?, TemplateView.nodeId?]
    · have hsame : p.view.type? s = some .placeholder :=
        (hset.types (hgrow.bounded hs.bounded) s hsize' hown).symm.trans htype
      have hbefore : t.type? s = some .placeholder := (hgrow.types hs.bounded s hsize hnot).symm.trans hsame
      have hmem := mem_placeholderSlots.mpr ⟨hlt, hheader, hbefore⟩
      rw [hnone] at hmem
      cases hmem
  · intro hmem
    obtain ⟨hheader, hlt⟩ := hdeclared s hmem
    rw [← hentries] at hmem
    obtain ⟨x, hx, hown, rfl⟩ := hr.exists_place hmem
    obtain ⟨before, after, hsplit⟩ := append_of_mem hx
    refine ⟨hlt, hheader, ?_⟩
    unfold TemplateView.type?
    rw [hr.node? hsplit hown]
    rfl

/-! ### Where the nodes hang -/

/-- The node of the piece goes into the node of its frame: one of the message itself always does, and the element
of a placeholder does if its slot is larger than that of the placeholder around it. -/
def Place.Joins (x : Place) : Prop := x.piece.own = true ∨ ∀ s, x.frame = some s → s < x.slot

/-- The message's own nodes are there, the placeholders in `done` have elements, and every node has the parent
that it was given when it, or the element around it, was attached. -/
structure Hung (root : Nat) (places : List Place) (done : List Nat) (v : LiveView) : Prop where
  sound : v.Sound root
  host : v.host = some root
  created : ∀ x ∈ places, x.piece.own = true → ∃ n, v.node? x.slot = some n
  element : ∀ x ∈ places, x.piece.own = false → ((v.node? x.slot).isSome ↔ x.slot ∈ done)
  joined : ∀ x ∈ places, x.Joins → ∀ n, v.node? x.slot = some n → v.tree.parent? n = v.frameNode? x.frame
  apart : ∀ x ∈ places, ¬x.Joins → ∀ n, v.node? x.slot = some n → v.tree.parent? n = none

section Hung

variable {root : Nat} {site : Site} {t : TemplateView} {places before after : List Place} {x : Place} {done : List Nat}
  {v : LiveView}

theorem Begun.hung (h : Begun root site places places v) (hr : Reflects t places) : Hung root places [] v := by
  have hvacant : ∀ y ∈ places, y.piece.own = false → v.node? y.slot = none := fun y hy hown =>
    h.vacant y hy (.inr hown)
  refine ⟨h.arranged.sound, h.arranged.host, fun y hy hown => ?_, fun y hy hown => ?_, fun y hy _ n hn => ?_,
    fun y hy hnot n hn => ?_⟩
  · obtain ⟨op, hop⟩ := Place.exists_op? site hown
    obtain ⟨n, hn, -⟩ := h.created y hy op hop
    exact ⟨n, hn⟩
  · simp [hvacant y hy hown]
  · -- Only the message's own nodes are there: at the top level in the host, elsewhere still without a parent.
    have hown : y.piece.own = true := by
      grind
    cases hframe : y.frame with
    | none =>
      have hmem : n ∈ v.nodesIn places none :=
        mem_filterMap.mpr ⟨y, mem_filter.mpr ⟨hy, by simp [hframe]⟩, hn⟩
      rw [← h.arranged.children none (fun s hs => by cases hs) root h.arranged.host] at hmem
      rw [(h.arranged.sound.linked.child root n).mp hmem]
      exact h.arranged.host.symm
    | some s =>
      have hnone := h.frameNode?_some hr (s := s) fun k hk => hr.framed y hy k (hframe.trans hk)
      rw [hnone]
      exact h.arranged.waiting y hy hown (hframe ▸ hnone) n hn
  · rw [hvacant y hy (Bool.not_eq_true _ ▸ fun hown => hnot (.inl hown))] at hn
    cases hn

theorem Hung.create (h : Hung root places done v) (content : Content) :
    Hung root places done (v.withTree (v.tree.create content)) := by
  have hprepared : v.Prepared root [] v.slots.size v.locale := ⟨h.sound, h.host, rfl, rfl, by simp⟩
  refine ⟨(hprepared.create content).sound, h.host, h.created, h.element, fun y hy hjoins n hn => ?_,
    fun y hy hnot n hn => ?_⟩
  · exact (v.tree.parent?_create content n).trans (h.joined y hy hjoins n hn)
  · exact (v.tree.parent?_create content n).trans (h.apart y hy hnot n hn)

variable {n slot id q : Nat} {y : Place}

theorem Reflects.mem_kids (hr : Reflects t places) (hs : v.Sound root) (hy : y ∈ places)
    (hn : v.node? y.slot = some n) :
    n ∈ (Place.inside places slot).filterMap (fun s : Nat => v.node? s) ↔ y.frame = some slot ∧ y.piece.own = true := by
  constructor
  · intro hkid
    obtain ⟨s, hs', hnode⟩ := mem_filterMap.mp hkid
    obtain ⟨z, hz, rfl⟩ := mem_map.mp hs'
    obtain ⟨hzmem, hinside⟩ := mem_filter.mp hz
    rw [hr.eq_of_slot hzmem hy (hs.slot_inj _ _ n (slot_of_node? hnode) (slot_of_node? hn))] at hinside
    simpa using hinside
  · rintro ⟨hframe, hown⟩
    refine mem_filterMap.mpr ⟨y.slot, mem_map.mpr ⟨y, mem_filter.mpr ⟨hy, ?_⟩, rfl⟩, hn⟩
    simp [hframe, hown]

theorem Hung.vacant (h : Hung root places done v) (hnext : Next places done x) (hy : y ∈ places)
    (hown : y.piece.own = false) (hle : x.slot ≤ y.slot) : v.node? y.slot = none := by
  refine Option.not_isSome_iff_eq_none.mp fun hsome => ?_
  have hlt := (hnext y hy hown).mp ((h.element y hy hown).mp hsome)
  omega

section

variable (h : Hung root places done v) (hr : Reflects t places)
include h hr

theorem Hung.frameNode?_of_not_joins (hx : x ∈ places)
    (hnext : Next places done x) (hnot : ¬x.Joins) : v.frameNode? x.frame = none := by
  obtain ⟨-, hlarger⟩ := not_or.mp hnot
  push Not at hlarger
  obtain ⟨s, hframe, hle⟩ := hlarger
  obtain ⟨y, hy, hpiece⟩ := hr.framed x hx s hframe
  have hvacant := h.vacant hnext hy (by rw [hpiece]; rfl) (hr.placeholder y hy s hpiece ▸ hle)
  rw [hr.placeholder y hy s hpiece] at hvacant
  rw [hframe]
  exact hvacant

/-- The element of the next placeholder hangs where the node of its frame is, if that is there, and has taken
what was waiting for it. -/
theorem Hung.attached (hx : x ∈ places)
    (hown : x.piece.own = false) (hnext : Next places done x) (hframe : x.frame ≠ some x.slot)
    (hid : v.Fresh root id) (hs : x.slot < v.slots.size) {tree₁ tree₂ : Tree}
    (hplaced : ∀ k, tree₁.parent? k = if k = id then v.frameNode? x.frame else v.tree.parent? k)
    (hadopted : Tree.Adopted id ((Place.inside places x.slot).filterMap fun s : Nat => v.node? s) tree₁ tree₂)
    (hsound : ((v.set x.slot (.node id)).withTree tree₂).Sound root) :
    Hung root places (done ++ [x.slot]) ((v.set x.slot (.node id)).withTree tree₂) := by
  have hnode : ∀ k : Nat, ((v.set x.slot (.node id)).withTree tree₂).node? k =
      if k = x.slot then some id else v.node? k := fun k => node?_set hs id k
  have hframes : ∀ frame, ((v.set x.slot (.node id)).withTree tree₂).frameNode? frame =
      if frame = some x.slot then some id else v.frameNode? frame := fun frame => frameNode?_set hs id frame
  have hself : tree₂.parent? id = v.frameNode? x.frame := by
    have hnotin : id ∉ (Place.inside places x.slot).filterMap fun s : Nat => v.node? s := by
      intro hin
      obtain ⟨s, -, hn⟩ := mem_filterMap.mp hin
      exact hid.unheld s (slot_of_node? hn)
    rw [hadopted.parent?_eq, if_neg hnotin, hplaced, if_pos rfl]
  -- Any other node stays where it is, unless it was waiting for the element.
  have hother : ∀ y ∈ places, ∀ n, v.node? y.slot = some n →
      tree₂.parent? n = if y.frame = some x.slot ∧ y.piece.own = true then some id else v.tree.parent? n := by
    intro y hy n hn
    have hne : n ≠ id := by
      rintro rfl
      exact hid.unheld y.slot (slot_of_node? hn)
    rw [hadopted.parent?_eq, hplaced, if_neg hne]
    simp only [hr.mem_kids h.sound hy hn]
  refine ⟨hsound, h.host, fun y hy hyown => ?_, fun y hy hyown => ?_, fun y hy hjoins n hn => ?_,
    fun y hy hnot n hn => ?_⟩
  · obtain ⟨n, hn⟩ := h.created y hy hyown
    refine ⟨n, ?_⟩
    rw [hnode, if_neg]
    · exact hn
    · intro heq
      rw [hr.eq_of_slot hy hx heq, hown] at hyown
      cases hyown
  · rw [hnode, mem_append, mem_singleton]
    by_cases heq : y.slot = x.slot
    · simp [heq]
    · rw [if_neg heq, h.element y hy hyown]
      simp [heq]
  · rw [hnode] at hn
    rw [hframes]
    split at hn
    · next heq =>
      cases hn
      rw [hr.eq_of_slot hy hx heq, if_neg hframe]
      exact hself
    · refine (hother y hy n hn).trans ?_
      by_cases hinside : y.frame = some x.slot
      · have hyown : y.piece.own = true := by
          -- A placeholder inside `x` that joins it has a larger slot, so its turn is still to come.
          refine Bool.of_not_eq_false fun hyown => ?_
          have hlt := hjoins.resolve_left (fun hyown' => by rw [hyown] at hyown'; cases hyown') x.slot hinside
          rw [h.vacant hnext hy hyown (Nat.le_of_lt hlt)] at hn
          cases hn
        rw [if_pos ⟨hinside, hyown⟩, if_pos hinside]
      · rw [if_neg fun hboth => hinside hboth.1, if_neg hinside]
        exact h.joined y hy hjoins n hn
  · rw [hnode] at hn
    have hyown : y.piece.own = false := Bool.of_not_eq_true fun hyown => hnot (.inl hyown)
    split at hn
    · next heq =>
      cases hn
      rw [hr.eq_of_slot hy hx heq] at hnot
      exact hself.trans (h.frameNode?_of_not_joins hr hx hnext hnot)
    · refine (hother y hy n hn).trans ?_
      rw [if_neg fun hboth => by rw [hyown] at hboth; cases hboth.2]
      exact h.apart y hy hnot n hn

/-- **Attaching** the element of the next placeholder. -/
theorem yields_attach_hung
    (hx : places = before ++ x :: after) (hown : x.piece.own = false) (hnext : Next places done x)
    (hframe : x.frame ≠ some x.slot) (hid : v.Fresh root id) (hs : x.slot < v.slots.size) :
    Yields (attach t x.slot id) v fun result v' => result = .ok () ∧ v'.slots.size = v.slots.size ∧
      Hung root places (done ++ [x.slot]) v' := by
  have hmem : x ∈ places := hx ▸ mem_append_right _ mem_cons_self
  have hvacant : v.node? x.slot = none := h.vacant hnext hmem hown (Nat.le_refl _)
  refine (yields_attach_hang hr hx hown hframe h.sound h.host hid hs hvacant fun s hs' => ?_).mono ?_
  · obtain ⟨y, hy, rfl⟩ := mem_map.mp hs'
    obtain ⟨hymem, hinside⟩ := mem_filter.mp hy
    obtain ⟨hyframe, hyown⟩ := Bool.and_eq_true_iff.mp hinside
    obtain ⟨n, hn⟩ := h.created y hymem hyown
    refine ⟨n, slot_of_node? hn, ?_⟩
    rw [h.joined y hymem (.inl hyown) n hn, beq_iff_eq.mp hyframe]
    exact hvacant
  · rintro _ v' ⟨rfl, tree, rfl, hs', hadopted⟩
    obtain ⟨-, -, hparent⟩ := Place.placed_hang h.sound h.host hid hs
      ((x.template places after).insertBefore.bind (v.set x.slot (.node id)).node?)
    exact ⟨rfl, size_set _ _ _, h.attached hr hmem hown hnext hframe hid hs hparent hadopted hs'⟩

end

/-- **All placeholders** get their elements, in the order of their slots. -/
theorem yields_attachAll_hung (hr : Reflects t places) (tags : Assignments) {slots : List Nat}
    (hsorted : slots.Pairwise (· < ·))
    (hslots : ∀ s, s ∈ slots ↔ s ∈ slotsOf (places.map Place.entry))
    (hframe : ∀ x ∈ places, x.piece.own = false → x.frame ≠ some x.slot) :
    ∀ (rest done : List Nat) (v : LiveView), slots = done ++ rest → v.slots.size = t.size → Hung root places done v →
      Yields (attachAll t tags rest) v fun result v' => result = .ok () ∧ Hung root places slots v'
  | [], done, v, heq, _, h => by
    rw [append_nil] at heq
    exact yields_pure ⟨rfl, heq ▸ h⟩
  | s :: rest, done, v, heq, hsize, h => by
    have hmem : s ∈ slots := heq ▸ mem_append_right _ mem_cons_self
    obtain ⟨x, hx, hown, rfl⟩ := hr.exists_place ((hslots s).mp hmem)
    obtain ⟨before, after, hsplit⟩ := append_of_mem hx
    have hnext := hr.next (heq ▸ hsorted) (heq ▸ hslots)
    unfold attachAll
    refine Yields.andThen Live.yields_create ?_
    refine (yields_attach_hung (h.create _) hr hsplit hown hnext (hframe x hx hown) (fresh_create h.sound _)
      (hsize.symm ▸ hr.slot_lt hx)).bind ?_
    rintro _ v' ⟨rfl, hsize', h'⟩
    refine yields_attachAll_hung hr tags hsorted hslots hframe rest (done ++ [x.slot]) v' ?_ (hsize'.trans hsize) h'
    rw [heq, append_assoc]
    rfl

/-! ### What is below the host -/

/-- The frame that the node of a piece has to be reached through: that around the piece, or the placeholder itself. -/
def Piece.frame (around : Option Nat) : Piece → Option Nat
  | .placeholder slot => some slot
  | _ => around

def Complete (places : List Place) (done : List Nat) : Prop := ∀ x ∈ places, x.piece.own = false → x.slot ∈ done

theorem Hung.exists_node (h : Hung root places done v) (hall : Complete places done) (hx : x ∈ places) :
    ∃ n, v.node? x.slot = some n := by
  by_cases hown : x.piece.own = true
  · exact h.created x hx hown
  · rw [Bool.not_eq_true] at hown
    exact Option.isSome_iff_exists.mp ((h.element x hx hown).mpr (hall x hx hown))

variable {frame : Option Nat}

theorem Hung.exists_frameNode (h : Hung root places done v) (hr : Reflects t places) (hall : Complete places done)
    (hframe : IsFrame places frame) : ∃ p, v.frameNode? frame = some p := by
  cases frame with
  | none => exact ⟨root, h.host⟩
  | some s =>
    obtain ⟨y, hy, hpiece⟩ := hframe s rfl
    obtain ⟨n, hn⟩ := h.exists_node hall hy
    exact ⟨n, hr.placeholder y hy s hpiece ▸ hn⟩

theorem Reflects.exists_placeholder (hr : Reflects t places)
    (hmem : (frame, Piece.placeholder slot) ∈ places.map Place.entry) :
    ∃ x ∈ places, x.frame = frame ∧ x.piece = .placeholder slot ∧ x.slot = slot := by
  obtain ⟨x, hx, hentry⟩ := mem_map.mp hmem
  obtain ⟨hframe, hpiece⟩ := Prod.mk.inj hentry
  exact ⟨x, hx, hframe, hpiece, hr.placeholder x hx slot hpiece⟩

section

variable (h : Hung root places done v) (hr : Reflects t places)
include h hr

theorem Hung.below_of_ascends (hall : Complete places done) (hascends : Ascends (places.map Place.entry) frame)
    (hq : v.frameNode? frame = some q) : v.Below root q := by
  induction hascends generalizing q with
  | top =>
    cases h.host.symm.trans hq
    exact .root
  | @inside outer slot _ hmem hlt ih =>
    obtain ⟨x, hx, hframe, -, rfl⟩ := hr.exists_placeholder hmem
    obtain ⟨p, hp⟩ := h.exists_frameNode hr hall (hr.framed x hx)
    have hparent := h.joined x hx (.inr fun s hs => hlt s (hframe.symm.trans hs)) q hq
    exact (ih (hframe ▸ hp)).child (hparent.trans hp)

theorem Hung.ascends_of_below
    (hframe : IsFrame places frame) (hq : v.frameNode? frame = some q) (hbelow : v.Below root q) :
    Ascends (places.map Place.entry) frame := by
  unfold LiveView.Below at hbelow
  induction hbelow generalizing frame with
  | root =>
    have htop : v.frameNode? none = some root := h.host
    rw [h.sound.frameNode?_inj h.host hq htop]
    exact .top
  | child hparent _ ih =>
    cases frame with
    | none => exact .top
    | some s =>
      obtain ⟨x, hx, hpiece⟩ := hframe s rfl
      have hslot := hr.placeholder x hx s hpiece
      have hn : v.node? x.slot = some _ := hslot ▸ hq
      by_cases hjoins : x.Joins
      · rw [h.joined x hx hjoins _ hn] at hparent
        have hown : ¬x.piece.own = true := by
          rw [hpiece]
          exact Bool.false_ne_true
        refine .inside (ih (hr.framed x hx) hparent) (mem_map.mpr ⟨x, hx, by rw [Place.entry, hpiece]⟩) ?_
        exact hslot ▸ hjoins.resolve_left hown
      · rw [h.apart x hx hjoins _ hn] at hparent
        cases hparent

/-- **A node is below the host** if and only if the slots increase on the way down to it. -/
theorem Hung.below_iff (hall : Complete places done) (hx : x ∈ places) (hn : v.node? x.slot = some n) :
    v.Below root n ↔ Ascends (places.map Place.entry) (x.piece.frame x.frame) := by
  by_cases hown : x.piece.own = true
  · have hframe : x.piece.frame x.frame = x.frame := by
      cases hpiece : x.piece with
      | placeholder s =>
        rw [hpiece] at hown
        cases hown
      | text value => rfl
      | icu main => rfl
    have hparent := h.joined x hx (.inl hown) n hn
    rw [hframe]
    constructor
    · intro hbelow
      cases hbelow with
      | root => exact absurd rfl (h.sound.slot_ne x.slot root (slot_of_node? hn))
      | child hp hbelow => exact h.ascends_of_below hr (hr.framed x hx) (hparent.symm.trans hp) hbelow
    · intro hascends
      obtain ⟨p, hp⟩ := h.exists_frameNode hr hall (hr.framed x hx)
      exact (h.below_of_ascends hr hall hascends hp).child (hparent.trans hp)
  · obtain ⟨s, hpiece⟩ := Piece.exists_slot (Bool.not_eq_true _ ▸ hown)
    have hq : v.frameNode? (some s) = some n := hr.placeholder x hx s hpiece ▸ hn
    have hframe : IsFrame places (some s) := by
      rintro k hk
      cases hk
      exact ⟨x, hx, hpiece⟩
    rw [hpiece]
    exact ⟨h.ascends_of_below hr hframe hq, fun hascends => h.below_of_ascends hr hall hascends hq⟩

end

end Hung

theorem yields_attachAll_start {outline : List (Option Nat × Piece)} {block : Block} {site : Site}
    {places : List Place} (ho : Outlined site t block outline places)
    (hslots : ∀ s, s ∈ placeholderSlots t ↔ s ∈ slotsOf outline)
    (hframe : ∀ frame slot, (frame, Piece.placeholder slot) ∈ outline → frame ≠ some slot)
    (tags : Assignments) (host : String) (locale : Locale) :
    Yields (LiveBlock.start block >>= fun _ => attachAll t tags (placeholderSlots t))
      (.new t (some host) locale) fun result v => result = .ok () ∧ Hung 0 places (placeholderSlots t) v := by
  refine (yields_start_begun ho host locale).bind fun _ v hv => ?_
  rw [← ho.entries] at hslots hframe
  refine yields_attachAll_hung ho.reflects tags (pairwise_lt_range.filter _) hslots (fun x hx hown => ?_) _ [] v rfl
    hv.2.1 (hv.2.2.hung ho.reflects)
  obtain ⟨slot, hpiece⟩ := Piece.exists_slot hown
  rw [ho.reflects.placeholder x hx slot hpiece]
  exact hframe x.frame slot (mem_map.mpr ⟨x, hx, by rw [Place.entry, hpiece]⟩)

/-- The nodes, one for each piece of the outline, and those of them that are below the root. -/
structure LiveView.Reaches (root : Nat) (create : List CreateOp) (slots : List Nat)
    (outline : List (Option Nat × Piece)) (nodes : List Nat) (v : LiveView) : Prop where
  length_eq : nodes.length = outline.length
  /-- The nodes of the message's own pieces are those that its instructions have created, in order. -/
  create : create.map (fun op => v.node? op.index) = ((outline.zip nodes).filter (·.1.2.own)).map fun p => some p.2
  /-- The other nodes are the elements of the placeholders. -/
  element : ∀ p ∈ outline.zip nodes, ∀ slot, p.1.2 = .placeholder slot → v.node? slot = some p.2
  slots_iff : ∀ s, s ∈ slots ↔ s ∈ slotsOf outline
  below_iff : ∀ p ∈ outline.zip nodes, v.Below root p.2 ↔ Ascends outline (p.1.2.frame p.1.1)
  all_iff : (∀ n ∈ nodes, v.Below root n) ↔
    ∀ outer inner : Nat, (some outer, Piece.placeholder inner) ∈ outline → outer < inner

section Reaches

variable {root : Nat} {t : TemplateView} {places : List Place}

theorem Reflects.frame_eq (hr : Reflects t places) {frame frame' : Option Nat} {slot : Nat}
    (h : (frame, Piece.placeholder slot) ∈ places.map Place.entry)
    (h' : (frame', Piece.placeholder slot) ∈ places.map Place.entry) : frame = frame' := by
  obtain ⟨x, hx, rfl, -, hslot⟩ := hr.exists_placeholder h
  obtain ⟨y, hy, rfl, -, hslot'⟩ := hr.exists_placeholder h'
  rw [hr.eq_of_slot hx hy (hslot.trans hslot'.symm)]

theorem Reflects.ascends (hr : Reflects t places)
    (hnested : ∀ outer inner : Nat, (some outer, Piece.placeholder inner) ∈ places.map Place.entry → outer < inner) :
    ∀ (s : Nat), IsFrame places (some s) → Ascends (places.map Place.entry) (some s) := by
  intro s
  -- The placeholder around has the smaller slot.
  induction s using Nat.strongRecOn with
  | ind s ih =>
    intro hframe
    obtain ⟨x, hx, hpiece⟩ := hframe s rfl
    have hmem : (x.frame, Piece.placeholder s) ∈ places.map Place.entry :=
      mem_map.mpr ⟨x, hx, by rw [Place.entry, hpiece]⟩
    cases houter : x.frame with
    | none =>
      rw [houter] at hmem
      exact .inside .top hmem fun k hk => by cases hk
    | some o =>
      rw [houter] at hmem
      have hlt := hnested o s hmem
      refine .inside (ih o hlt fun k hk => hr.framed x hx k (houter.trans hk)) hmem fun k hk => ?_
      cases hk
      exact hlt

theorem Hung.reaches {v : LiveView} {site : Site} {block : Block} {outline : List (Option Nat × Piece)}
    {slots : List Nat} (h : Hung root places slots v) (ho : Outlined site t block outline places)
    (hslots : ∀ s, s ∈ slots ↔ s ∈ slotsOf outline) :
    v.Reaches root block.create slots outline (places.map v.nodeOf) := by
  obtain ⟨rfl, hr, hcreate⟩ := ho
  have hall : Complete places slots := fun x hx hown => (hslots x.slot).mpr (hr.slot_mem hx hown)
  have hnode : ∀ x ∈ places, v.node? x.slot = some (v.nodeOf x) := by
    intro x hx
    obtain ⟨n, hn⟩ := h.exists_node hall hx
    rw [LiveView.nodeOf, hn]
    rfl
  have hzip : ∀ p ∈ (places.map Place.entry).zip (places.map v.nodeOf), ∃ x ∈ places, p = (x.entry, v.nodeOf x) := by
    intro p hp
    rw [zip_map'] at hp
    obtain ⟨x, hx, rfl⟩ := mem_map.mp hp
    exact ⟨x, hx, rfl⟩
  refine ⟨by simp, ?_, fun p hp slot hpiece => ?_, hslots, fun p hp => ?_, ?_, fun hnested n hn => ?_⟩
  · rw [hcreate]
    exact create_eq_own hnode
  · obtain ⟨x, hx, rfl⟩ := hzip p hp
    exact hr.placeholder x hx slot hpiece ▸ hnode x hx
  · obtain ⟨x, hx, rfl⟩ := hzip p hp
    exact h.below_iff hr hall hx (hnode x hx)
  · intro hbelow outer inner hmem
    obtain ⟨x, hx, -, hpiece, -⟩ := hr.exists_placeholder hmem
    have hascends := (h.below_iff hr hall hx (hnode x hx)).mp (hbelow _ (mem_map_of_mem hx))
    rw [hpiece] at hascends
    cases hascends with
    | inside _ hmem' hlt => exact hlt outer (hr.frame_eq hmem' hmem)
  · obtain ⟨x, hx, rfl⟩ := mem_map.mp hn
    refine (h.below_iff hr hall hx (hnode x hx)).mpr ?_
    cases hframe : x.piece.frame x.frame with
    | none => exact .top
    | some s =>
      refine hr.ascends hnested s fun k hk => ?_
      cases hk
      cases hpiece : x.piece with
      | placeholder slot =>
        rw [hpiece] at hframe
        cases hframe
        exact ⟨x, hx, hpiece⟩
      | text value =>
        rw [hpiece] at hframe
        exact hr.framed x hx s hframe
      | icu main =>
        rw [hpiece] at hframe
        exact hr.framed x hx s hframe

end Reaches

/-- **What is shown of a message.** Let no placeholder of an accepted message be opened twice. After the message
was started in a new view and every placeholder of the view got a new element, in the order of the slots, a node
that was created for a piece, or the element of a placeholder, is below the host if and only if the slots of the
placeholders around it increase from the top level down to it. So everything is shown if and only if every
placeholder inside another has the larger slot. -/
theorem below_attached_iff {t : TemplateView} (hs : t.Sound) (hnone : Command.placeholderSlots t = []) {cfg : Config}
    {site : Site} {message : String} {scope : Message.Scope} {handle : Handle}
    (hslot : ∀ serial block, t.slot? site.index ≠ some (.block serial block))
    (h : (t.compile cfg site message scope).result = .ok handle)
    (honce : (Message.slotsOf (Message.outline scope message)).Nodup) (tags : Command.Assignments) (host : String)
    (locale : Locale) :
    ∃ r nodes, (LiveBlock.start handle.block >>= fun _ => Command.attachAll (t.compile cfg site message scope).view tags
        (Command.placeholderSlots (t.compile cfg site message scope).view)).run
          ⟨.new (t.compile cfg site message scope).view (some host) locale, [], []⟩ = .ok (.ok ()) r ∧
      r.view.Reaches 0 handle.block.create (Command.placeholderSlots (t.compile cfg site message scope).view)
        (Message.outline scope message) nodes := by
  obtain ⟨places, ho⟩ := exists_outlined hs hslot h honce
  have hslots : ∀ s, s ∈ Command.placeholderSlots (t.compile cfg site message scope).view ↔
      s ∈ Message.slotsOf (Message.outline scope message) := fun s =>
    mem_placeholderSlots_compile hs hslot h hnone ho.reflects ho.entries
  obtain ⟨_, r, hrun, rfl, hhung⟩ := yields_attachAll_start ho hslots
    (fun frame slot hmem => Message.frame_ne_outline honce hmem) tags host locale
    ⟨.new (t.compile cfg site message scope).view (some host) locale, [], []⟩ rfl
  exact ⟨r, _, hrun, hhung.reaches ho hslots⟩

/-- A placeholder inside another that has the larger slot, and a third inside it. -/
def reversedMessage : String := "a�#2�b�#1�c�#3�d�/#3��/#1��/#2�"

theorem outline_reversedMessage : Message.outline .root reversedMessage =
    [(none, .text "a"), (none, .placeholder 24), (some 24, .text "b"), (some 24, .placeholder 23),
      (some 23, .text "c"), (some 23, .placeholder 25), (some 25, .text "d")] := by
  decide +kernel

theorem below_attached_iff_reversed :
    ∃ handle r nodes, ((TemplateView.new 4 1).compile .standard ⟨-1, 22⟩ reversedMessage .root).result = .ok handle ∧
      (LiveBlock.start handle.block >>= fun _ => Command.attachAll
        ((TemplateView.new 4 1).compile .standard ⟨-1, 22⟩ reversedMessage .root).view ⟨[(2, "b")]⟩
        (Command.placeholderSlots ((TemplateView.new 4 1).compile .standard ⟨-1, 22⟩ reversedMessage .root).view)).run
          ⟨.new ((TemplateView.new 4 1).compile .standard ⟨-1, 22⟩ reversedMessage .root).view (some "div") .standard,
            [], []⟩ = .ok (.ok ()) r ∧
      r.view.Reaches 0 handle.block.create
        (Command.placeholderSlots ((TemplateView.new 4 1).compile .standard ⟨-1, 22⟩ reversedMessage .root).view)
        (Message.outline .root reversedMessage) nodes := by
  have haccepted : ((TemplateView.new 4 1).compile .standard ⟨-1, 22⟩ reversedMessage .root).result.isOk = true := by
    decide +kernel
  have honce : (Message.slotsOf (Message.outline .root reversedMessage)).Nodup := by
    rw [outline_reversedMessage]
    decide
  cases h : ((TemplateView.new 4 1).compile .standard ⟨-1, 22⟩ reversedMessage .root).result with
  | error e =>
    rw [h] at haccepted
    cases haccepted
  | ok handle =>
    obtain ⟨r, nodes, hrun, hreaches⟩ := below_attached_iff (TemplateView.Reachable.new 4 1).sound (by decide +kernel)
      (fun serial block hslot => by cases hslot) h honce ⟨[(2, "b")]⟩ "div" .standard
    exact ⟨handle, r, nodes, rfl, hrun, hreaches⟩

/-- The node of the instruction is in a node that has no parent, and neither of them is the host. -/
def LiveView.astray (v : LiveView) (op : CreateOp) : Bool :=
  (v.node? op.index).any fun n =>
    n != 0 && (v.tree.parent? n).any fun p => p != 0 && v.tree.parent? p == none

theorem LiveView.exists_not_below {v : LiveView} {op : CreateOp} (h : v.astray op = true) :
    ∃ n, v.node? op.index = some n ∧ ¬v.Below 0 n := by
  obtain ⟨n, hn, h⟩ := (Option.any_eq_true _ _).mp h
  obtain ⟨hne, h⟩ := Bool.and_eq_true_iff.mp h
  obtain ⟨p, hp, h⟩ := (Option.any_eq_true _ _).mp h
  obtain ⟨hpne, hnone⟩ := Bool.and_eq_true_iff.mp h
  refine ⟨n, hn, fun hbelow => ?_⟩
  cases hbelow with
  | root => exact absurd rfl (bne_iff_ne.mp hne)
  | child hparent hbelow =>
    cases hparent.symm.trans hp
    cases hbelow with
    | root => exact absurd rfl (bne_iff_ne.mp hpne)
    | child hparent _ => cases (beq_iff_eq.mp hnone).symm.trans hparent

/-- A node with the text is astray when the compiled message was started and all its placeholders got elements. -/
def Outcome.loses (o : Outcome Handle) (text : String) : Bool :=
  match o.result with
  | .ok handle =>
    match (LiveBlock.start handle.block >>= fun _ => attachAll o.view ⟨[]⟩ (placeholderSlots o.view)).run
        ⟨.new o.view (some "div") .standard, [], []⟩ with
    | .ok (.ok ()) r => handle.block.create.any fun op => op.text == text && r.view.astray op
    | _ => false
  | .error _ => false

/-- The text inside the inner placeholder of `reversedMessage` is lost. -/
theorem exists_not_below_attached :
    ∃ handle r, ((TemplateView.new 4 1).compile .standard ⟨-1, 22⟩ reversedMessage .root).result = .ok handle ∧
      (LiveBlock.start handle.block >>= fun _ => Command.attachAll
        ((TemplateView.new 4 1).compile .standard ⟨-1, 22⟩ reversedMessage .root).view ⟨[]⟩
        (Command.placeholderSlots ((TemplateView.new 4 1).compile .standard ⟨-1, 22⟩ reversedMessage .root).view)).run
          ⟨.new ((TemplateView.new 4 1).compile .standard ⟨-1, 22⟩ reversedMessage .root).view (some "div") .standard,
            [], []⟩ = .ok (.ok ()) r ∧
      ∃ op ∈ handle.block.create, op.text = "c" ∧ ∃ n, r.view.node? op.index = some n ∧ ¬r.view.Below 0 n := by
  have hlost : Outcome.loses ((TemplateView.new 4 1).compile .standard ⟨-1, 22⟩ reversedMessage .root) "c" = true := by
    decide +kernel
  unfold Outcome.loses at hlost
  split at hlost
  · next handle h =>
    split at hlost
    · next r hrun =>
      obtain ⟨op, hop, hastray⟩ := List.any_eq_true.mp hlost
      obtain ⟨htext, hastray⟩ := Bool.and_eq_true_iff.mp hastray
      exact ⟨handle, r, h, hrun, op, hop, beq_iff_eq.mp htext, LiveView.exists_not_below hastray⟩
    · cases hlost
  · cases hlost

end MessageCompiler
