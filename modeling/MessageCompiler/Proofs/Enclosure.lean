/-
Placeholders that are opened again.

A message may open a placeholder more than once, also inside itself, and so may the messages of a view together. Every
time there is a new template node in the slot, so the one that is found there in the end is that of the last opening.
It knows the placeholder around this opening, and what the messages have created directly inside. What was created
inside an earlier opening is known to a template node that no slot leads to any more.

* **`Recalls`** — what becomes of the placeholders of a view while others are opened and nodes are created in them.
* **`Message.housing`** — for every node of a message, the opening around it and what the message opens afterwards.
-/
import MessageCompiler.Proofs.Layout

namespace MessageCompiler

open List
open Steps TemplateView
open Message (Placeholder slotsOf pieces slotsOf_pieces outlineFrom openedSlots Scope)

variable {node : TemplateNode} {t t' : TemplateView} {id : Nat} {outline : List (Option Nat × Piece)}

/-! ### The last opening -/

namespace Message

/-- The outline opens the placeholder `s` in the frame, and not again after that. -/
def LastOpened (outline : List (Option Nat × Piece)) (frame : Option Nat) (s : Nat) : Prop :=
  ∃ front back, outline = front ++ (frame, .placeholder s) :: back ∧ s ∉ slotsOf back

variable {outline more : List (Option Nat × Piece)} {frame frame' : Option Nat} {s : Nat}

section

variable (h : LastOpened outline frame s)
include h

theorem LastOpened.prepend (front : List (Option Nat × Piece)) : LastOpened (front ++ outline) frame s := by
  obtain ⟨mid, back, rfl, hback⟩ := h
  exact ⟨front ++ mid, back, (append_assoc _ _ _).symm, hback⟩

theorem LastOpened.append (hs : s ∉ slotsOf more) : LastOpened (outline ++ more) frame s := by
  obtain ⟨front, back, rfl, hback⟩ := h
  refine ⟨front, back ++ more, ?_, ?_⟩
  · rw [append_assoc, cons_append]
  · simp_all [slotsOf_append, mem_append]

theorem LastOpened.unique (h' : LastOpened outline frame' s) : frame = frame' := by
  obtain ⟨front, back, rfl, hback⟩ := h
  obtain ⟨front', back', heq, hback'⟩ := h'
  -- Of two openings at different places, the earlier one has the later one behind it.
  have hbehind : ∀ (f : Option Nat) (rest mid : List (Option Nat × Piece)),
      s ∈ slotsOf (mid ++ (f, .placeholder s) :: rest) := fun f rest mid => by
    rw [slotsOf_append]
    exact mem_append_right _ mem_cons_self
  rcases append_eq_append_iff.mp heq with ⟨mid, -, hmid⟩ | ⟨mid, -, hmid⟩
  · cases mid with
    | nil => exact (Prod.mk.inj (List.cons.inj hmid).1).1
    | cons x mid =>
      rw [(List.cons.inj hmid).2] at hback
      exact absurd (hbehind frame' back' mid) hback
  · cases mid with
    | nil => exact (Prod.mk.inj (List.cons.inj hmid).1).1.symm
    | cons x mid =>
      rw [(List.cons.inj hmid).2] at hback'
      exact absurd (hbehind frame back mid) hback'

end

end Message

open Message (LastOpened slotsOf_append)

/-! ### Placeholders of an earlier view -/

/-- A placeholder in the slot `k`, opened in the frame, with the template node; `start` is the first slot that is not a
declared one. -/
structure TemplateNode.Opened (start : Nat) (frame : Option Nat) (k : Nat) (node : TemplateNode) : Prop where
  declared : k < start
  around : ∀ f, frame = some f → f < start
  parent_eq : node.parent = frame.map fun f : Nat => (f : Int)

theorem TemplateNode.Opened.congr {start : Nat} {frame : Option Nat} {k : Nat} {node' : TemplateNode}
    (h : node.Opened start frame k) (hparent : node'.parent = node.parent) : node'.Opened start frame k :=
  { h with parent_eq := hparent.trans h.parent_eq }

namespace TemplateView

/-- Of the new nodes, those inside the placeholder with that template node. -/
def listed (new : List (Option Nat × Int)) (id : Nat) : List Int := (new.filter (·.1 == some id)).map (·.2)

theorem listed_append (new new' : List (Option Nat × Int)) (id : Nat) :
    listed (new ++ new') id = listed new id ++ listed new' id := by
  unfold listed
  rw [filter_append, map_append]

/-- Between `t` and `t'` the placeholders of the outline are opened, and nodes are put inside placeholders: each is given
by the template node of the placeholder around it and its slot. -/
structure Recalls (outline : List (Option Nat × Piece)) (new : List (Option Nat × Int)) (t t' : TemplateView) :
    Prop where
  bindingStart : t'.bindingStart = t.bindingStart
  homes : ∀ x ∈ new, ∀ id, x.1 = some id → id < t'.nodes.size
  types : ∀ (id : Nat) (node : TemplateNode), t.nodes[id]? = some node →
    ∃ node', t'.nodes[id]? = some node' ∧ node'.type = node.type
  slots : ∀ (k id : Nat) (node' : TemplateNode), t'.slots[k]? = some (.node id) → t'.nodes[id]? = some node' →
    node'.type = .placeholder →
      (∃ node, t.slots[k]? = some (.node id) ∧ t.nodes[id]? = some node ∧ node.type = .placeholder ∧
        node'.parent = node.parent ∧ node'.children = node.children ++ listed new id ∧ k ∉ slotsOf outline) ∨
      t.nodes.size ≤ id ∧ node'.children = listed new id ∧
        ∃ frame, LastOpened outline frame k ∧ node'.Opened t.bindingStart frame k

namespace Recalls

variable {outline outline' : List (Option Nat × Piece)} {new new' : List (Option Nat × Int)} {t t₁ t' : TemplateView}

theorem nodes_le (h : t.Recalls outline new t') : t.nodes.size ≤ t'.nodes.size := by
  refine Nat.le_of_not_lt fun hlt => ?_
  obtain ⟨node', hnode', -⟩ := h.types _ _ (Array.getElem?_eq_getElem hlt)
  exact Nat.lt_irrefl _ (Array.getElem?_eq_some_iff.mp hnode').1

theorem trans (h : t.Recalls outline new t₁) (h' : t₁.Recalls outline' new' t') :
    t.Recalls (outline ++ outline') (new ++ new') t' where
  bindingStart := h'.bindingStart.trans h.bindingStart
  homes := forall_mem_append.mpr ⟨fun x hx id hid => Nat.lt_of_lt_of_le (h.homes x hx id hid) h'.nodes_le, h'.homes⟩
  types id node hnode := by
    obtain ⟨node₁, hnode₁, htype₁⟩ := h.types id node hnode
    obtain ⟨node', hnode', htype'⟩ := h'.types id node₁ hnode₁
    grind
  slots k id node' hslot hnode htype := by
    rw [listed_append, slotsOf_append, mem_append, not_or]
    rcases h'.slots k id node' hslot hnode htype with
      ⟨node₁, hslot₁, hnode₁, htype₁, hparent', hchildren', hnot'⟩ | ⟨hle, hchildren', frame, hlast, hopened⟩
    · rcases h.slots k id node₁ hslot₁ hnode₁ htype₁ with
        ⟨node, hslot, hnode, htype, hparent, hchildren, hnot⟩ | ⟨hle, hchildren, frame, hlast, hopened⟩
      · grind
      · exact .inr ⟨hle, by rw [hchildren', hchildren], frame, hlast.append hnot', hopened.congr hparent'⟩
    · -- A placeholder that is opened later has nothing of what was put inside others before.
      have hnone : listed new id = [] := by
        rw [listed, map_eq_nil_iff, filter_eq_nil_iff]
        exact fun x hx heq => Nat.not_lt.mpr hle (h.homes x hx id (beq_iff_eq.mp heq))
      rw [hnone, nil_append]
      exact .inr ⟨Nat.le_trans h.nodes_le hle, hchildren', frame, hlast.prepend outline, h.bindingStart ▸ hopened⟩

theorem silent (h : t.Recalls [] new t') (houtline : slotsOf outline = []) : t.Recalls outline new t' := { h with
  slots k id node' hslot hnode htype := by
    refine (h.slots k id node' hslot hnode htype).imp ?_ ?_
    · grind
    · rintro ⟨-, -, _, ⟨_, _, heq, -⟩, -⟩
      simp at heq }

theorem of_slots (hslots : ∀ k id : Nat, t'.slots[k]? = some (Slot.node id) → t.slots[k]? = some (Slot.node id))
    (hnodes : t'.nodes = t.nodes) (hstart : t'.bindingStart = t.bindingStart) : t.Recalls [] [] t' where
  bindingStart := hstart
  homes _ hx := absurd hx not_mem_nil
  types _ node hnode := ⟨node, hnodes ▸ hnode, rfl⟩
  slots k id node' hslot hnode htype :=
    .inl ⟨node', hslots k id hslot, hnodes ▸ hnode, htype, rfl, (append_nil _).symm, not_mem_nil⟩

end Recalls

variable (t : TemplateView)

theorem recalls_alloc (count : Nat) : t.Recalls [] [] (t.alloc count) :=
  .of_slots (fun _ _ h => slots_alloc_eq_some (by simp) h) rfl rfl

theorem recalls_setSlot (i : Int) {s : Slot} (hs : ∀ id, s ≠ .node id) : t.Recalls [] [] (t.setSlot i s) := by
  refine .of_slots (fun k id h => ?_) (t.nodes_setSlot i s) (bindingStart_setSlot _ _ _)
  grind [slots_setSlot_eq_some]

theorem recalls_compiledView (p : Pass) (index : Int) : p.view.Recalls [] [] (compiledView p index) := by
  refine .of_slots (fun k id h => ?_) (nodes_setSlot _ _ _) (bindingStart_setSlot _ _ _)
  rcases slots_setSlot_eq_some h with ⟨-, heq⟩ | ⟨-, hslot⟩
  · cases heq
  · exact hslot

theorem Unchanged.recalls (hb : t.Bounded) (h : t.Unchanged t') : t.Recalls [] [] t' where
  bindingStart := h.bindingStart
  homes _ hx := absurd hx not_mem_nil
  types id node hnode := ⟨node, (h.nodes id (Array.getElem?_eq_some_iff.mp hnode).1).trans hnode, rfl⟩
  slots k id node hslot hnode htype := by
    rw [h.slots] at hslot
    rw [h.nodes id (hb k id hslot)] at hnode
    exact .inl ⟨node, hslot, hnode, htype, rfl, (append_nil _).symm, not_mem_nil⟩

theorem nodes_addNode {old : TemplateNode} (h : t.nodes[id]? = some old) : (t.addNode node).nodes[id]? = some old := by
  show (t.nodes.push node)[id]? = some old
  grind

theorem recalls_addNode (hnode : node.type ≠ .placeholder) : t.Recalls [] [] (t.addNode node) where
  bindingStart := bindingStart_setSlot _ _ _
  homes _ hx := absurd hx not_mem_nil
  types id old hold := ⟨old, t.nodes_addNode hold, rfl⟩
  slots k id node' hslot hnode' htype := by
    have hpush : (t.nodes.push node)[id]? = some node' := hnode'
    rw [Array.getElem?_push] at hpush
    split at hpush
    · cases hpush
      exact absurd htype hnode
    · next hid =>
      rcases slots_setSlot_eq_some hslot with ⟨-, heq⟩ | ⟨-, hslot⟩
      · cases heq
        exact absurd rfl hid
      · exact .inl ⟨node', hslot, hpush, htype, rfl, (append_nil _).symm, not_mem_nil⟩

theorem recalls_modifyNode (id : Nat) {f : TemplateNode → TemplateNode} (added : List Int)
    (hid : added ≠ [] → id < t.nodes.size) (hf : ∀ node, (f node).type = node.type ∧ (f node).parent = node.parent ∧
      (f node).children = node.children ++ added) : t.Recalls [] (added.map (some id, ·)) (t.modifyNode id f) where
  bindingStart := rfl
  homes x hx k hk := by
    obtain ⟨c, hc, rfl⟩ := mem_map.mp hx
    cases hk
    simpa [modifyNode] using hid (ne_nil_of_mem hc)
  types k node hnode := by
    show ∃ node', (t.nodes.modify id f)[k]? = some node' ∧ _
    rw [Array.getElem?_modify, hnode]
    split
    · exact ⟨f node, rfl, (hf node).1⟩
    · exact ⟨node, rfl, rfl⟩
  slots k id' node' hslot hnode' htype := by
    have hmodify : (t.nodes.modify id f)[id']? = some node' := hnode'
    rw [Array.getElem?_modify] at hmodify
    split at hmodify
    · next heq =>
      obtain ⟨node, hnode, rfl⟩ := Option.map_eq_some_iff.mp hmodify
      refine .inl ⟨node, hslot, hnode, (hf node).1.symm.trans htype, (hf node).2.1, ?_, not_mem_nil⟩
      simp [(hf node).2.2, listed, filter_map, Function.comp_def, heq]
    · next hne =>
      refine .inl ⟨node', hslot, hmodify, htype, rfl, ?_, not_mem_nil⟩
      simp [listed, filter_map, Function.comp_def, hne]

theorem recalls_setIcu (i : Int) (icu : CompiledIcu) : t.Recalls [] [] (t.setIcu i icu) := by
  unfold setIcu
  split
  · exact t.recalls_modifyNode _ [] (absurd rfl) fun node => ⟨rfl, rfl, (append_nil _).symm⟩
  · exact t.recalls_setSlot i fun _ h => by cases h

theorem recalls_precede (node : TemplateNode) : ∀ (nodes : List Nat) (t : TemplateView),
    t.Recalls [] [] (t.precede nodes node)
  | [], t => .of_slots (fun _ _ h => h) rfl rfl
  | k :: rest, t => by
    have hmodify : t.Recalls [] [] (t.modifyNode k node.followedBy) := by
      refine t.recalls_modifyNode k [] (absurd rfl) fun earlier => ?_
      unfold TemplateNode.followedBy
      split <;> exact ⟨rfl, rfl, (append_nil _).symm⟩
    exact hmodify.trans (recalls_precede node rest _)

end TemplateView

/-! ### Expressions open no placeholder -/

/-- An expression puts no placeholder into a slot and nothing inside one, whether it is compiled or refused. -/
theorem recalls_compileIcu (cfg : Config) (e : Icu) (parent anchor : Int) (p : Pass) :
    p.view.Recalls [] [] (after (compileIcu cfg e parent anchor) p).view := by
  have hrefl : ∀ t : TemplateView, t.Recalls [] [] t := fun t => .of_slots (fun _ _ h => h) rfl rfl
  have law : Law cfg fun x => ∀ p : Pass, p.view.Recalls [] [] (after x p).view := {
    pure := fun _ _ => hrefl _
    bind := fun hx hf p => along_bind (R := fun p p' : Pass => p.view.Recalls [] [] p'.view)
      (fun h h' => h.trans h') (hx p) fun a p₁ _ => hf a p₁
    report := fun _ _ => hrefl _
    emit := fun _ _ => hrefl _
    allocSlot := fun p => p.view.recalls_alloc 1
    addNode := fun hnode p => p.view.recalls_addNode hnode
    setIcu := fun icu p => p.view.recalls_setIcu icu.anchor icu
    refuse := fun _ _ _ => hrefl _ }
  exact law.compileIcu e parent anchor p

/-! ### What a run adds -/

/-- The template node of the placeholder that the frame is inside of. -/
def Frame.home (frame : Frame) : Option Nat := frame.placeholder.map (·.node)

def TemplateView.Lodges (t : TemplateView) (id : Nat) : Prop :=
  ∃ node, t.nodes[id]? = some node ∧ node.type = .placeholder

theorem TemplateView.Recalls.lodges {new : List (Option Nat × Int)} (h : t.Recalls outline new t') (hid : t.Lodges id) :
    t'.Lodges id := by
  obtain ⟨node, hnode, htype⟩ := hid
  obtain ⟨node', hnode', htype'⟩ := h.types id node hnode
  exact ⟨node', hnode', htype'.trans htype⟩

theorem TemplateView.recalls_addChild (t : TemplateView) {o : Option OpenPlaceholder}
    (ho : ∀ id, o.map (·.node) = some id → t.Lodges id) (index : Int) :
    t.Recalls [] [(o.map (·.node), index)] (t.addChild o index) := by
  cases o with
  | none =>
    refine ⟨rfl, fun x hx id hid => ?_, fun id node hnode => ⟨node, hnode, rfl⟩, fun k id node hslot hnode htype => ?_⟩
    · rw [mem_singleton.mp hx] at hid
      cases hid
    · exact .inl ⟨node, hslot, hnode, htype, rfl, (append_nil _).symm, not_mem_nil⟩
  | some o =>
    obtain ⟨node, hnode, -⟩ := ho o.node rfl
    exact t.recalls_modifyNode o.node [index] (fun _ => (Array.getElem?_eq_some_iff.mp hnode).1)
      fun _ => ⟨rfl, rfl, rfl⟩

def Frame.Housed (frame : Frame) (t : TemplateView) : Prop := ∀ id, frame.home = some id → t.Lodges id

/-- The later pass has opened the placeholders of the outline, and has created nodes, each inside the placeholder with
the given template node. -/
structure Pass.Adds (p : Pass) (outline : List (Option Nat × Piece)) (new : List (Option Nat × CreateOp)) (p' : Pass) :
    Prop where
  create_eq : p'.create = p.create ++ new.map (·.2)
  eager_eq : ∀ x ∈ new, x.2.eager = x.1.isNone
  recalls : p.view.Recalls outline (new.map fun x => (x.1, x.2.index)) p'.view

section Adds

variable {p p₁ p' : Pass} {frame frame' : Frame} {cfg : Config} {site : Site} {type : NodeType}
  {outline outline' : List (Option Nat × Piece)} {new new' : List (Option Nat × CreateOp)}

theorem Pass.Adds.trans (h : p.Adds outline new p₁) (h' : p₁.Adds outline' new' p') :
    p.Adds (outline ++ outline') (new ++ new') p' where
  create_eq := by rw [h'.create_eq, h.create_eq, map_append, append_assoc]
  eager_eq := forall_mem_append.mpr ⟨h.eager_eq, h'.eager_eq⟩
  recalls := by
    rw [map_append]
    exact h.recalls.trans h'.recalls

theorem Pass.Adds.of_recalls (h : p.view.Recalls outline [] p'.view) (hcreate : p'.create = p.create) :
    p.Adds outline [] p' :=
  ⟨hcreate.trans (append_nil _).symm, fun _ hx => absurd hx not_mem_nil, h⟩

theorem Frame.Housed.adds (h : frame.Housed p.view) (hadds : p.Adds outline new p') : frame.Housed p'.view :=
  fun id hid => hadds.recalls.lodges (h id hid)

theorem adds_createdPass (htype : type ≠ .placeholder) (hframe : frame.Housed p.view) (text value : String) :
    p.Adds [] [(frame.home, ⟨p.view.size, text, type == .icu, frame.placeholder.isNone⟩)]
      (frame.createdPass p type text value) where
  create_eq := rfl
  eager_eq := forall_mem_singleton.mpr Option.isNone_map.symm
  recalls := by
    have hadd : (p.view.alloc 1).Recalls [] [] ((p.view.alloc 1).addNode (.fresh p.view.size type value none)) :=
      recalls_addNode _ htype
    have hbefore := ((p.view.recalls_alloc 1).trans hadd).trans
      (recalls_precede (.fresh p.view.size type value none) frame.nodes _)
    exact hbefore.trans (recalls_addChild _ (fun id hid => hbefore.lodges (hframe id hid)) _)

theorem Fills.exists_adds {segments : List Segment} (h : Fills cfg site frame segments p frame' p') :
    frame.Housed p.view → ∃ new, p.Adds [] new p' ∧
      new.map (·.1) = (segments.filterMap Segment.piece?).map fun _ => frame.home := by
  induction h with
  | nil => exact fun _ => ⟨[], .of_recalls (.of_slots (fun _ _ h => h) rfl rfl) rfl, rfl⟩
  | skip hempty _ ih =>
    intro hframe
    obtain ⟨new, hadds, hnew⟩ := ih hframe
    refine ⟨new, hadds, ?_⟩
    rw [filterMap_cons_none (by rw [Segment.piece?, if_pos hempty])]
    exact hnew
  | @text frame frame₁ _ s _ p p₁ _ hne htext _ ih =>
    intro hframe
    obtain ⟨-, -, value, hview, hcreate⟩ := compileText_eq_ok htext
    have hadds₁ := adds_createdPass (by simp : NodeType.text ≠ .placeholder) hframe (initialText s) value
    have hsame : Pass.Adds _ [] [] p₁ :=
      .of_recalls (.of_slots (fun _ _ h => hview ▸ h) (hview ▸ rfl) (hview ▸ rfl)) hcreate
    have hadds₁' := hadds₁.trans hsame
    rw [compileText_frame htext] at ih
    obtain ⟨new, hadds, hnew⟩ := ih (hframe.adds hadds₁')
    refine ⟨_, hadds₁'.trans hadds, ?_⟩
    rw [filterMap_cons_some (by rw [Segment.piece?, if_neg hne])]
    exact congrArg (frame.home :: ·) hnew
  | @icu frame _ e _ p p₁ _ hicu _ ih =>
    intro hframe
    have hcreated := adds_createdPass (by simp : NodeType.icu ≠ .placeholder) hframe (rootLabel site e.main)
      (rootLabel site e.main)
    have hvacant := frame.vacant_createdView p.view .icu (rootLabel site e.main)
    have hrecalls := recalls_compileIcu cfg e site.parent p.view.size
      (frame.createdPass p .icu (rootLabel site e.main) (rootLabel site e.main))
    rw [after_of_ok hicu] at hrecalls
    have hadds₁ := hcreated.trans (.of_recalls hrecalls (follows_compileIcu cfg e _ _ _ _ p₁ hvacant hicu).create_eq)
    obtain ⟨new, hadds, hnew⟩ := ih (hframe.adds hadds₁)
    exact ⟨_, hadds₁.trans hadds, congrArg (frame.home :: ·) hnew⟩

theorem exists_adds_compileRun {text : List Char} (h : compileRun cfg site frame text p = .ok frame' p')
    (hframe : frame.Housed p.view) (around : Option Nat) :
    ∃ new, p.Adds ((pieces text).map (around, ·)) new p' ∧ new.map (·.1) = (pieces text).map fun _ => frame.home := by
  obtain ⟨segments, hsplit, hfills⟩ := exists_fills h
  obtain ⟨new, hadds, hnew⟩ := hfills.exists_adds hframe
  refine ⟨new, ⟨hadds.create_eq, hadds.eager_eq, hadds.recalls.silent (slotsOf_pieces around text)⟩, ?_⟩
  rw [pieces, hsplit]
  exact hnew

/-- A placeholder in a slot after an opening is the new one, or was in the slot before, which is another one then. -/
theorem slots_openedView_eq_some {slot : Int} {k : Nat} (h : (frame.openedView t slot).slots[k]? = some (.node id)) :
    slot = k ∨ t.slots[k]? = some (.node id) := by
  have hslots : (frame.openedView t slot).slots = (t.addNode (frame.placeholderNode slot)).slots :=
    slots_precede _ _ _
  rw [hslots] at h
  exact (slots_setSlot_eq_some h).imp And.left And.right

/-- A placeholder is opened, perhaps again: its new template node is in the slot, and nothing is inside it yet. -/
theorem recalls_openedView {around : Option Nat} {s : Nat} (hb : t.Bounded)
    (hopened : (frame.placeholderNode s).Opened t.bindingStart around s) :
    t.Recalls [(around, .placeholder s)] [] (frame.openedView t s) := by
  have hadded : t.Recalls [(around, .placeholder s)] [] (t.addNode (frame.placeholderNode s)) := by
    refine ⟨bindingStart_setSlot _ _ _, fun _ hx => absurd hx not_mem_nil,
      fun id old hold => ⟨old, t.nodes_addNode hold, rfl⟩, fun k id node hslot hnode htype => ?_⟩
    have hpush : (t.nodes.push (frame.placeholderNode s))[id]? = some node := hnode
    rcases slots_setSlot_eq_some hslot with ⟨heq, hid⟩ | ⟨hne, hslot⟩
    · cases hid
      obtain rfl : s = k := Int.ofNat_inj.mp heq
      rw [Array.getElem?_push_size] at hpush
      cases hpush
      exact .inr ⟨Nat.le_refl _, rfl, around, ⟨[], [], rfl, not_mem_nil⟩, hopened⟩
    · have hlt := hb k id hslot
      rw [Array.getElem?_push_lt hlt, ← Array.getElem?_eq_getElem hlt] at hpush
      refine .inl ⟨node, hslot, hpush, htype, rfl, (append_nil _).symm, fun hmem => hne ?_⟩
      rw [show k = s from mem_singleton.mp hmem]
      rfl
  exact hadded.trans (recalls_precede (frame.placeholderNode s) frame.nodes _)

end Adds

/-! ### The openings around the nodes of a message -/

namespace Message

/-- For each node from an item on the innermost opening around it: the slot of the placeholder, and the slots of those
that are opened after it. The innermost one that is open is `around`, and `outer` are those around it. -/
def housingFrom (last : List Char) : (around : Option (Nat × List Nat)) → (outer : List (Option (Nat × List Nat))) →
    List (List Char × Placeholder) → List (Option (Nat × List Nat))
  | around, _, [] => (pieces last).map fun _ => around
  | around, outer, (text, q) :: rest =>
    ((pieces text).map fun _ => around) ++
      if q.closing then housingFrom last (outer.headD none) outer.tail rest
      else housingFrom last (some (declaredSlot q.number, openedSlots rest)) (around :: outer) rest

/-- For each node that the part of a message creates itself, in order, the innermost opening around it. -/
def housing (scope : Scope) (message : String) : List (Option (Nat × List Nat)) :=
  match partFor scope message.toList with
  | .ok part =>
    let parts := splitPlaceholders (releaseSpaces part)
    housingFrom parts.last none [] parts.items
  | .error _ => []

end Message

open Message (housingFrom housing)

/-- The opening is that of the slot, and the placeholder is not opened again. -/
def Lasting (around : Option (Nat × List Nat)) (k : Nat) : Prop := ∃ later, around = some (k, later) ∧ k ∉ later

instance (around : Option (Nat × List Nat)) (k : Nat) : Decidable (Lasting around k) :=
  decidable_of_iff (∃ x ∈ around, x.1 = k ∧ k ∉ x.2) <| by
    constructor
    · rintro ⟨⟨s, later⟩, hmem, rfl, hnot⟩
      exact ⟨later, hmem, hnot⟩
    · rintro ⟨later, rfl, hnot⟩
      exact ⟨(k, later), rfl, rfl, hnot⟩

/-- The template node of the opening is in its slot if the placeholder is not opened again. -/
def TemplateView.Seats (t : TemplateView) (home : Option Nat) (around : Option (Nat × List Nat)) : Prop :=
  home.isNone = around.isNone ∧ ∀ id, home = some id → t.Lodges id ∧
    ∀ k : Nat, t.slots[k]? = some (.node id) ↔ Lasting around k

theorem Stacked.around {frame : Frame} {opened : List Nat} (h : Stacked (frame :: outer) opened) :
    frame.placeholder.map (·.slot) = (opened.map declaredSlot).head?.map fun f : Nat => (f : Int) := by
  cases opened with
  | nil =>
    rw [(stacked_nil.mp h).1]
    rfl
  | cons n opened => exact (stacked_cons.mp h).1

section Traverses

variable {cfg : Config} {site : Site} {last : List Char} {frame : Frame} {outer : List Frame}
  {items : List (List Char × Placeholder)} {p p' : Pass}

theorem Traverses.seats_opened {n : Nat} {inner : Frame} {opened : List Nat} {new : List (Option Nat × CreateOp)}
    (h : Traverses cfg site last inner outer items { p with view := frame.openedView p.view (declaredSlot n) } p')
    (hadds : Pass.Adds { p with view := frame.openedView p.view (declaredSlot n) }
      (outlineFrom last opened items) new p')
    (hb : p.view.Bounded) (hs : declaredSlot n < p.view.size) (hother : (declaredSlot n : Int) ≠ site.index) :
    (compiledView p' site.index).Seats (some p.view.nodes.size) (some (declaredSlot n, openedSlots items)) := by
  have hstored := recalls_compiledView p' site.index
  have hopened : (frame.openedView p.view (declaredSlot n)).slots[declaredSlot n]? = some (.node p.view.nodes.size) := by
    unfold Frame.openedView
    rw [slots_precede]
    exact slots_setSlot_self hs _
  have hlodges : (frame.openedView p.view (declaredSlot n)).Lodges p.view.nodes.size :=
    (recalls_precede (frame.placeholderNode (declaredSlot n)) frame.nodes _).lodges ⟨_, Array.getElem?_push_size, rfl⟩
  obtain ⟨node, hnode, htype⟩ := hstored.lodges (hadds.recalls.lodges hlodges)
  refine ⟨rfl, fun id heq => ?_⟩
  cases heq
  refine ⟨⟨node, hnode, htype⟩, fun k => ⟨fun hslot => ?_, ?_⟩⟩
  · have hall := hadds.recalls.trans hstored
    rw [append_nil] at hall
    rcases hall.slots k _ node hslot hnode htype with ⟨-, hslot, -, -, -, -, hnot⟩ | ⟨hle, -⟩
    · rw [Message.slotsOf_outlineFrom] at hnot
      rcases slots_openedView_eq_some hslot with heq | hslot
      · obtain rfl : declaredSlot n = k := Int.ofNat_inj.mp heq
        exact ⟨_, rfl, hnot⟩
      · exact absurd (hb k _ hslot) (Nat.lt_irrefl _)
    · exact absurd ((frame.grows_openedView p.view (declaredSlot n)).bounded hb _ _ hopened) (Nat.not_lt.mpr hle)
  · rintro ⟨later, heq, hnot⟩
    cases heq
    have hlt := Nat.lt_of_lt_of_le hs (frame.grows_openedView p.view (declaredSlot n)).size_le
    unfold compiledView
    rw [slots_setSlot_ne (Ne.symm hother)]
    exact (h.grows.1.slots _ hlt hnot).trans hopened

theorem forall₂_pieces {home : Option Nat} {around : Option (Nat × List Nat)} (h : t.Seats home around)
    (text : List Char) :
    Forall₂ t.Seats ((pieces text).map fun _ => home) ((pieces text).map fun _ => around) :=
  forall₂_map_left_iff.mpr (forall₂_map_right_iff.mpr (forall₂_same.mpr fun _ _ => h))

/-- **Along a message**, every opening puts a new template node into its slot, and every node goes into the frame that
the run is in. -/
theorem Traverses.exists_adds (h : Traverses cfg site last frame outer items p p') :
    ∀ opened : List Nat, Stacked (frame :: outer) opened → (∀ n ∈ opened, declaredSlot n < p.view.bindingStart) →
      p.view.Bounded → p.view.bindingStart ≤ p.view.size → (∀ f ∈ frame :: outer, f.Housed p.view) →
      ∃ new, p.Adds (outlineFrom last (opened.map declaredSlot) items) new p' ∧
        ∀ (around : Option (Nat × List Nat)) (enclosing : List (Option (Nat × List Nat))),
          (compiledView p' site.index).Seats frame.home around →
          Forall₂ (fun f => (compiledView p' site.index).Seats f.home) outer enclosing →
            Forall₂ (compiledView p' site.index).Seats (new.map (·.1)) (housingFrom last around enclosing items) := by
  induction h with
  | done hrun =>
    intro opened _ _ _ _ hhoused
    obtain ⟨new, hadds, hnew⟩ := exists_adds_compileRun hrun (hhoused _ mem_cons_self) (opened.map declaredSlot).head?
    exact ⟨new, hadds, fun around _ hseats _ => hnew ▸ forall₂_pieces hseats last⟩
  | close hrun hclosing _ ih =>
    intro opened hstacked hopened hb hstart hhoused
    have hgrows := grows_compileRun hrun
    obtain ⟨new, hadds, hnew⟩ := exists_adds_compileRun hrun (hhoused _ mem_cons_self) (opened.map declaredSlot).head?
    cases opened with
    | nil => cases (stacked_nil.mp hstacked).2
    | cons n opened =>
      obtain ⟨new', hadds', hseats'⟩ := ih opened (stacked_cons.mp hstacked).2
        (fun m hm => hgrows.bindingStart ▸ hopened m (mem_cons_of_mem _ hm)) (hgrows.bounded hb)
        (hgrows.bindingStart ▸ Nat.le_trans hstart hgrows.size_le)
        fun f hf => (hhoused f (mem_cons_of_mem _ hf)).adds hadds
      rw [outlineFrom, if_pos hclosing]
      refine ⟨new ++ new', hadds.trans hadds', fun around enclosing hseats houter => ?_⟩
      cases houter with
      | cons hfirst houter =>
        rw [map_append, hnew, housingFrom, if_pos hclosing]
        exact rel_append (forall₂_pieces hseats _) (hseats' _ _ hfirst houter)
  | @enter frame frame₁ _ _ q _ _ p₁ _ hrun hopening hdenotes _ hrest ih =>
    intro opened hstacked hopened hb hstart hhoused
    have hgrows := grows_compileRun hrun
    have hgrows₂ := frame₁.grows_openedView p₁.view (declaredSlot q.number)
    have hopened₁ : ∀ n ∈ opened, declaredSlot n < p₁.view.bindingStart := hgrows.bindingStart ▸ hopened
    have hstart₁ : p₁.view.bindingStart ≤ p₁.view.size := hgrows.bindingStart ▸ Nat.le_trans hstart hgrows.size_le
    have hstacked₁ := hstacked.congr (placeholder_compileRun hrun)
    obtain ⟨new, hadds, hnew⟩ := exists_adds_compileRun hrun (hhoused _ mem_cons_self) (opened.map declaredSlot).head?
    have hopening₁ : (frame₁.placeholderNode (declaredSlot q.number)).Opened p₁.view.bindingStart
        (opened.map declaredSlot).head? (declaredSlot q.number) := by
      refine ⟨hdenotes.declared, fun f hf => ?_, hstacked₁.around⟩
      obtain ⟨n, hn, rfl⟩ := mem_map.mp (mem_of_head? hf)
      exact hopened₁ n hn
    have hrecalls : p₁.Adds _ [] { p₁ with view := frame₁.openedView p₁.view (declaredSlot q.number) } :=
      .of_recalls (recalls_openedView (hgrows.bounded hb) hopening₁) rfl
    have hadds₂ := hadds.trans hrecalls
    rw [append_nil] at hadds₂
    have hhome : (frame₁.grown p₁.view).home = frame.home := by
      show frame₁.placeholder.map _ = frame.placeholder.map _
      rw [placeholder_compileRun hrun]
    have hinside : (Frame.inside p₁.view (declaredSlot q.number)).Housed
        (frame₁.openedView p₁.view (declaredSlot q.number)) := by
      intro id hid
      cases hid
      exact (recalls_precede _ frame₁.nodes _).lodges ⟨_, Array.getElem?_push_size, rfl⟩
    have hframe : (frame₁.grown p₁.view).Housed (frame₁.openedView p₁.view (declaredSlot q.number)) := fun id hid =>
      (hhoused _ mem_cons_self).adds hadds₂ id (hhome ▸ hid)
    obtain ⟨new', hadds', hseats'⟩ := ih (q.number :: opened) (stacked_cons.mpr ⟨rfl, hstacked₁.congr rfl⟩)
      (hgrows₂.bindingStart ▸ forall_mem_cons.mpr ⟨hdenotes.declared, hopened₁⟩)
      (hgrows₂.bounded (hgrows.bounded hb)) (hgrows₂.bindingStart ▸ Nat.le_trans hstart₁ hgrows₂.size_le)
      (forall_mem_cons.mpr ⟨hinside, forall_mem_cons.mpr
        ⟨hframe, fun f hf => (hhoused f (mem_cons_of_mem _ hf)).adds hadds₂⟩⟩)
    rw [outlineFrom, if_neg hopening]
    refine ⟨new ++ new', ?_, fun around enclosing hseats houter => ?_⟩
    · have hall := hadds₂.trans hadds'
      rwa [append_assoc] at hall
    · rw [map_append, hnew, housingFrom, if_neg hopening]
      refine rel_append (forall₂_pieces hseats _) (hseats' _ _ ?_ (.cons (hhome ▸ hseats) houter))
      exact hrest.seats_opened hadds' (hgrows.bounded hb) (Nat.lt_of_lt_of_le hdenotes.declared hstart₁) hdenotes.other

end Traverses

theorem TemplateView.Compiling.exists_new {cfg : Config} {site : Site} {message : String}
    {scope : Scope} {part : List Char} {p : Pass} (hs : t.Sound)
    (h : t.Compiling cfg site message scope part p) :
    ∃ new : List (Option Nat × CreateOp), p.create = new.map (·.2) ∧ (∀ x ∈ new, x.2.eager = x.1.isNone) ∧
      t.Recalls (Message.outline scope message) (new.map fun x => (x.1, x.2.index)) (compiledView p site.index) ∧
      Forall₂ (compiledView p site.index).Seats (new.map (·.1)) (housing scope message) := by
  have hnone : ∀ t : TemplateView, t.Seats none none := fun t => ⟨rfl, fun id hid => by cases hid⟩
  obtain ⟨new, hadds, hseats⟩ := (traverses_compileScoped h.run).exists_adds [] (stacked_nil.mpr ⟨rfl, rfl⟩)
    (fun _ hn => absurd hn not_mem_nil) hs.bounded hs.bindingStart_le
    (forall_mem_singleton.mpr fun id hid => by cases hid)
  have hall := hadds.recalls.trans (recalls_compiledView p site.index)
  rw [append_nil, append_nil] at hall
  refine ⟨new, hadds.create_eq, hadds.eager_eq, ?_, ?_⟩
  · rw [Message.outline_eq h.part_eq]
    exact hall
  · unfold housing
    rw [h.part_eq]
    exact hseats none [] (hnone _) .nil

/-! ### What the template node of a placeholder says -/

/-- The template node of a placeholder that has inside it only what messages create. -/
structure TemplateNode.Enclosed (created : List Int) (start : Nat) (frame : Option Nat) (k : Nat)
    (node : TemplateNode) : Prop extends TemplateNode.Opened start frame k node where
  children : ∀ c ∈ node.children, c ∈ created

/-- Every placeholder in a slot is that of its last opening, and has inside it only what messages create. -/
def TemplateView.Sketched (t : TemplateView) (created : List Int) (outline : List (Option Nat × Piece)) : Prop :=
  ∀ (k id : Nat) (node : TemplateNode), t.slots[k]? = some (.node id) → t.nodes[id]? = some node →
    node.type = .placeholder →
      ∃ frame, LastOpened outline frame k ∧ node.Enclosed created t.bindingStart frame k

theorem TemplateView.Sketched.recalled {created : List Int}
    {more : List (Option Nat × Piece)} {new : List (Option Nat × Int)} (h : t.Sketched created outline)
    (hrecalls : t.Recalls more new t') : t'.Sketched (created ++ new.map (·.2)) (outline ++ more) := by
  have hlisted : ∀ id, ∀ c ∈ listed new id, c ∈ new.map (·.2) := fun id c hc =>
    map_subset _ (filter_sublist.subset) hc
  intro k id node' hslot hnode htype
  rw [hrecalls.bindingStart]
  rcases hrecalls.slots k id node' hslot hnode htype with
    ⟨node, hslot₁, hnode₁, htype₁, hparent, hchildren, hnot⟩ | ⟨-, hchildren, frame, hlast, hopened⟩
  · obtain ⟨frame, hlast, henclosed⟩ := h k id node hslot₁ hnode₁ htype₁
    refine ⟨frame, hlast.append hnot, henclosed.toOpened.congr hparent, fun c hc => ?_⟩
    rw [hchildren] at hc
    exact mem_append.mpr ((mem_append.mp hc).imp (henclosed.children c) (hlisted id c))
  · refine ⟨frame, hlast.prepend outline, hopened, fun c hc => mem_append_right _ (hlisted id c ?_)⟩
    rwa [hchildren] at hc

/-- **The template node of a placeholder is that of its last opening**, in this message or in an earlier one. -/
theorem sketched_compile {cfg : Config} {site : Site} (hs : t.Sound) {message : String}
    {scope : Scope} {handle : Handle} (hslot : ∀ serial block, t.slot? site.index ≠ some (.block serial block))
    (hok : (t.compile cfg site message scope).result = .ok handle) {created : List Int} (h : t.Sketched created outline) :
    (t.compile cfg site message scope).view.Sketched (created ++ handle.block.create.map (·.index))
      (outline ++ Message.outline scope message) := by
  obtain ⟨part, p, hpass, hview, rfl⟩ := exists_compiling hslot hok
  obtain ⟨new, hcreate, -, hrecalls, -⟩ := hpass.exists_new hs
  have hsketched := h.recalled hrecalls
  rw [map_map] at hsketched
  rw [hview]
  show (compiledView p site.index).Sketched (created ++ p.create.map (·.index)) _
  rw [hcreate, map_map]
  exact hsketched

end MessageCompiler
