/-
Where the pieces of a message stand.

A message consists of texts, expressions and placeholders, and what a placeholder encloses stands inside
it. The compiler keeps this order in the template nodes of the placeholders: each knows the placeholder
around it, what stands directly inside it, and in front of which later piece it has to go.
-/
import Mathlib.Data.List.Nodup
import MessageCompiler.Proofs.Acceptance

namespace MessageCompiler

open List
open Steps TemplateView
open Message (Placeholder Scope)

variable {touched : Nat → Prop} {n : Nat} {p : Pass} {frame : Frame} {cfg : Config}

variable {places : List Place} {x : Place} {s : Nat} {text : String} {t : TemplateView} {site : Site}

/-! ### The outline of a message -/

/-- What stands directly at the top level of a message or directly inside a placeholder. -/
inductive Piece where
  | text (value : String)
  | icu (main : Int)
  | placeholder (slot : Nat)
  deriving DecidableEq, Repr

def Piece.own : Piece → Bool
  | .placeholder _ => false
  | _ => true

theorem Piece.exists_slot {piece : Piece} (h : piece.own = false) : ∃ slot, piece = .placeholder slot := by
  cases piece with
  | placeholder slot => exact ⟨slot, rfl⟩
  | text value => cases h
  | icu main => cases h

def Piece.slot? : Piece → Option Nat
  | .placeholder slot => some slot
  | _ => none

def Segment.piece? : Segment → Option Piece
  | .text s => if s.isEmpty then none else some (.text s)
  | .icu e => some (.icu e.main)

namespace Message

def pieces (text : List Char) : List Piece :=
  match (split text).result with
  | .ok segments => segments.filterMap Segment.piece?
  | .error _ => []

/-- The pieces from an item on, with the slot of the innermost placeholder around each; `opened` are the
slots of the placeholders that are open, innermost first. -/
def outlineFrom (last : List Char) : (opened : List Nat) → List (List Char × Placeholder) → List (Option Nat × Piece)
  | opened, [] => (pieces last).map (opened.head?, ·)
  | opened, (text, q) :: rest =>
    (pieces text).map (opened.head?, ·) ++
      if q.closing then outlineFrom last opened.tail rest
      else
        (opened.head?, .placeholder (declaredSlot q.number)) ::
          outlineFrom last (declaredSlot q.number :: opened) rest

/-- The pieces of the part of a message that belongs to a template, in order, each with the slot of the
innermost placeholder around it. -/
def outline (scope : Scope) (message : String) : List (Option Nat × Piece) :=
  match partFor scope message.toList with
  | .ok part =>
    let parts := splitPlaceholders (releaseSpaces part)
    outlineFrom parts.last [] parts.items
  | .error _ => []

theorem outline_eq {scope : Scope} {message : String} {part : List Char}
    (h : partFor scope message.toList = .ok part) : outline scope message =
      outlineFrom (splitPlaceholders (releaseSpaces part)).last [] (splitPlaceholders (releaseSpaces part)).items := by
  unfold outline
  rw [h]

/-- The slots of the placeholders of an outline, in the order in which they are opened. -/
def slotsOf (outline : List (Option Nat × Piece)) : List Nat := outline.filterMap (·.2.slot?)

theorem slotsOf_append (outline more : List (Option Nat × Piece)) :
    slotsOf (outline ++ more) = slotsOf outline ++ slotsOf more :=
  filterMap_append

theorem slotsOf_pieces (frame : Option Nat) (text : List Char) : slotsOf ((pieces text).map (frame, ·)) = [] := by
  unfold slotsOf pieces
  split
  · next segments _ =>
    rw [filterMap_map, filterMap_filterMap, filterMap_eq_nil_iff]
    intro segment _
    cases segment with
    | text s =>
      rw [Segment.piece?]
      split <;> rfl
    | icu e => rfl
  · rfl

theorem slotsOf_outlineFrom (last : List Char) : ∀ (items : List (List Char × Placeholder)) (opened : List Nat),
    slotsOf (outlineFrom last opened items) = openedSlots items
  | [], opened => slotsOf_pieces opened.head? last
  | (text, q) :: rest, opened => by
    rw [outlineFrom, slotsOf_append, slotsOf_pieces, nil_append]
    by_cases hclosing : q.closing = true
    · rw [if_pos hclosing, openedSlots_closing hclosing]
      exact slotsOf_outlineFrom last rest opened.tail
    · rw [if_neg hclosing, openedSlots_opening hclosing]
      exact congrArg (_ :: ·) (slotsOf_outlineFrom last rest _)

end Message

open Message (slotsOf pieces outlineFrom)

/-! ### Pieces with slots -/

/-- A piece with the placeholder around it, its slot and the number of its template node. -/
structure Place where
  frame : Option Nat
  piece : Piece
  slot : Nat
  node : Nat

namespace Place

def entry (x : Place) : Option Nat × Piece := (x.frame, x.piece)

def op? (site : Site) (x : Place) : Option CreateOp :=
  match x.piece with
  | .text value => some ⟨x.slot, initialText value, false, x.frame.isNone⟩
  | .icu main => some ⟨x.slot, rootLabel site main, true, x.frame.isNone⟩
  | .placeholder _ => none

/-- The later piece `y` is there already when the placeholder `x` gets its element. -/
def Awaits (x y : Place) : Bool := y.frame == x.frame && (y.piece.own || y.slot < x.slot)

/-- The slots of the message's own pieces directly inside a placeholder. -/
def inside (places : List Place) (slot : Nat) : List Nat :=
  (places.filter fun y => y.frame == some slot && y.piece.own).map (·.slot)

/-- The template node of a placeholder that is followed by the pieces `after`. -/
def template (places after : List Place) (x : Place) : TemplateNode where
  index := x.slot
  type := .placeholder
  value := ""
  parent := x.frame.map fun s : Nat => (s : Int)
  icu := none
  insertBefore := (after.find? x.Awaits).map fun y => (y.slot : Int)
  children := (inside places x.slot).map fun s : Nat => (s : Int)

theorem mem_slotsOf (hx : x ∈ places) (h : x.piece = .placeholder s) :
    s ∈ slotsOf (places.map entry) :=
  mem_filterMap.mpr ⟨x.entry, mem_map_of_mem hx, by rw [entry, h]; rfl⟩

theorem inside_concat (places : List Place) (new : Place) (slot : Nat) : inside (places ++ [new]) slot =
      inside places slot ++ if new.frame = some slot ∧ new.piece.own = true then [new.slot] else [] := by
  unfold inside
  rw [filter_append, map_append]
  congr 1
  by_cases hinside : new.frame = some slot ∧ new.piece.own = true
  · simp [hinside.1, hinside.2]
  · rw [if_neg hinside]
    have hfalse : (new.frame == some slot && new.piece.own) = false := by
      simpa using hinside
    simp [hfalse]

theorem template_followed {after : List Place} {new : Place} {node : TemplateNode}
    (hindex : node.index = new.slot) (htype : node.type.fromMessage = new.piece.own) :
    (x.template places (after ++ [new])) =
      if new.frame = x.frame then node.followedBy (x.template places after) else x.template places after := by
  have hfind : (after ++ [new]).find? x.Awaits = (after.find? x.Awaits).or (if x.Awaits new then some new else none) := by
    rw [List.find?_append]
    congr 1
    by_cases hawaits : x.Awaits new = true
    · rw [List.find?_cons_of_pos hawaits, if_pos hawaits]
    · rw [List.find?_cons_of_neg hawaits, if_neg hawaits, List.find?_nil]
  unfold template TemplateNode.followedBy
  rw [hfind, htype, hindex]
  by_cases hframe : new.frame = x.frame
  · have hawaits : x.Awaits new = (new.piece.own || decide (new.slot < x.slot)) := by
      unfold Awaits
      rw [hframe, beq_self_eq_true, Bool.true_and]
    rw [if_pos hframe, hawaits]
    cases hfound : after.find? x.Awaits with
    | some y => simp
    | none =>
      by_cases hown : (new.piece.own || decide (new.slot < x.slot)) = true <;> simp [hown, NodeType.fromMessage]
  · have hawaits : x.Awaits new = false := by
      unfold Awaits
      rw [beq_eq_false_iff_ne.mpr hframe, Bool.false_and]
    rw [if_neg hframe, hawaits]
    simp

theorem template_concat (places after : List Place) (x new : Place) : x.template (places ++ [new]) after =
      if new.frame = some x.slot ∧ new.piece.own = true then
        { x.template places after with children := (x.template places after).children ++ [(new.slot : Int)] }
      else x.template places after := by
  unfold template
  rw [inside_concat]
  split <;> simp

end Place

/-- The template nodes of the placeholders agree with the places. -/
structure Reflects (t : TemplateView) (places : List Place) : Prop where
  slots : ∀ x ∈ places, t.slots[x.slot]? = some (.node x.node)
  slots_nodup : (places.map (·.slot)).Nodup
  nodes_nodup : (places.map (·.node)).Nodup
  placeholder : ∀ x ∈ places, ∀ s, x.piece = .placeholder s → x.slot = s
  framed : ∀ x ∈ places, ∀ s, x.frame = some s → ∃ y ∈ places, y.piece = .placeholder s
  template : ∀ before x after, places = before ++ x :: after → x.piece.own = false →
    t.nodes[x.node]? = some (x.template places after)

/-- The frame is that of the placeholder in a slot, or the top level, and its nodes are in place. -/
structure Frame.Holds (places : List Place) (frame : Frame) (slot : Option Nat) : Prop where
  slot_eq : frame.placeholder.map (·.slot) = slot.map fun s : Nat => (s : Int)
  nodes_eq : frame.nodes = ((places.filter (·.frame == slot)).map (·.node)).reverse
  placeholder : ∀ o, frame.placeholder = some o →
    ∃ x ∈ places, x.piece.own = false ∧ x.node = o.node ∧ o.slot = x.slot

/-! ### Adding a piece -/

theorem TemplateView.nodes_precede (node : TemplateNode) : ∀ (nodes : List Nat) (t : TemplateView) (id : Nat),
    nodes.Nodup → (t.precede nodes node).nodes[id]? =
      if id ∈ nodes then t.nodes[id]?.map node.followedBy else t.nodes[id]?
  | [], t, id, _ => by
    rw [if_neg not_mem_nil]
    rfl
  | k :: rest, t, id, hnodup => by
    obtain ⟨hk, hrest⟩ := nodup_cons.mp hnodup
    rw [precede_cons, nodes_precede node rest _ id hrest]
    have hmodify : (t.modifyNode k node.followedBy).nodes[id]? =
        if k = id then t.nodes[id]?.map node.followedBy else t.nodes[id]? := Array.getElem?_modify
    rw [hmodify]
    by_cases hid : k = id
    · subst hid
      rw [if_neg hk, if_pos rfl, if_pos mem_cons_self]
    · rw [if_neg hid]
      simp [Ne.symm hid]

theorem TemplateView.slots_precede (node : TemplateNode) : ∀ (nodes : List Nat) (t : TemplateView),
    (t.precede nodes node).slots = t.slots
  | [], _ => rfl
  | k :: rest, t => slots_precede node rest (t.modifyNode k node.followedBy)

namespace Reflects

variable {t t' : TemplateView} {places : List Place}

section

variable (h : Reflects t places) (hx : x ∈ places)
include h hx

theorem eq_of_node {y : Place} (hy : y ∈ places) (hnode : x.node = y.node) : x = y :=
  inj_on_of_nodup_map h.nodes_nodup hx hy hnode

theorem eq_of_slot {y : Place} (hy : y ∈ places) (hslot : x.slot = y.slot) : x = y :=
  inj_on_of_nodup_map h.slots_nodup hx hy hslot

theorem slot_lt : x.slot < t.size :=
  (Array.getElem?_eq_some_iff.mp (h.slots x hx)).choose

end

theorem grows (h : Reflects t places) (hgrows : t.Grows touched n t')
    (htouched : ∀ x ∈ places, ¬touched x.slot) (hn : ∀ x ∈ places, x.piece.own = false → x.node < n) :
    Reflects t' places := { h with
  slots x hx := (hgrows.slots x.slot (h.slot_lt hx) (htouched x hx)).trans (h.slots x hx)
  template before x after heq hown := by
    have hx : x ∈ places := heq ▸ mem_append_right _ mem_cons_self
    exact (hgrows.nodes x.node (hn x hx hown)).trans (h.template before x after heq hown) }

end Reflects

namespace Frame.Holds

variable {t : TemplateView} {places : List Place} {frame : Frame} {slot : Option Nat}

section

variable (hf : frame.Holds places slot) (h : Reflects t places)
include hf h

theorem nodup : frame.nodes.Nodup := by
  rw [hf.nodes_eq, nodup_reverse]
  exact h.nodes_nodup.sublist (filter_sublist.map _)

theorem mem_nodes (hx : x ∈ places) : x.node ∈ frame.nodes ↔ slot = x.frame := by
  rw [hf.nodes_eq, mem_reverse, mem_map]
  constructor
  · rintro ⟨y, hy, hnode⟩
    obtain ⟨hmem, hframe⟩ := mem_filter.mp hy
    rw [h.eq_of_node hx hmem hnode.symm]
    exact (beq_iff_eq.mp hframe).symm
  · rintro rfl
    exact ⟨x, mem_filter.mpr ⟨hx, beq_self_eq_true _⟩, rfl⟩

theorem node_eq_iff (hx : x ∈ places)
    {o : OpenPlaceholder} (ho : frame.placeholder = some o) : o.node = x.node ↔ slot = some x.slot := by
  obtain ⟨y, hy, -, hnode, hslot⟩ := hf.placeholder o ho
  have hslots := hf.slot_eq
  rw [ho, Option.map_some, hslot] at hslots
  constructor
  · intro heq
    rw [h.eq_of_node hy hx (hnode.trans heq)] at hslots
    cases slot with
    | none => cases hslots
    | some s =>
      grind
  · rintro rfl
    have hsame : (y.slot : Int) = x.slot := Option.some.inj hslots
    rw [h.eq_of_slot hy hx (Int.ofNat.inj hsame)] at hnode
    exact hnode.symm

theorem exists_placeholder (hs : slot = some s) : ∃ x ∈ places, x.piece = .placeholder s := by
  subst hs
  obtain ⟨o, ho, hslot⟩ := Option.map_eq_some_iff.mp (hf.slot_eq.trans rfl)
  obtain ⟨x, hx, hown, -, hslot'⟩ := hf.placeholder o ho
  have hsame : (x.slot : Int) = s := hslot'.symm.trans hslot
  obtain ⟨k, hpiece⟩ := Piece.exists_slot hown
  exact ⟨x, hx, by rw [hpiece, ← h.placeholder x hx k hpiece, Int.ofNat.inj hsame]⟩

end

end Frame.Holds

/-- The view after a template node was added to the frame; a piece of the message's own is made known to
the placeholder of the frame. -/
def Frame.addedView (frame : Frame) (t : TemplateView) (node : TemplateNode) (own : Bool) : TemplateView :=
  ((t.addNode node).precede frame.nodes node).addChild (if own then frame.placeholder else none) node.index

theorem TemplateView.nodes_addChild (t : TemplateView) (o : Option OpenPlaceholder) (index : Int) (id : Nat) :
    (t.addChild o index).nodes[id]? =
      if o.map (·.node) = some id then
        t.nodes[id]?.map fun n => { n with children := n.children ++ [index] }
      else t.nodes[id]? := by
  cases o with
  | none => rfl
  | some o =>
    show (t.nodes.modify o.node _)[id]? = _
    rw [Array.getElem?_modify]
    simp

theorem TemplateView.slots_addChild (t : TemplateView) (o : Option OpenPlaceholder) (index : Int) :
    (t.addChild o index).slots = t.slots := by
  cases o <;> rfl

section Added

variable {t : TemplateView} {places : List Place} {frame : Frame} {slot : Option Nat} {node : TemplateNode}
  {new : Place}

theorem Frame.slots_addedView (hindex : node.index = new.slot) (own : Bool) (k : Nat) (hslot : new.slot < t.size) :
    (frame.addedView t node own).slots[k]? = if k = new.slot then some (.node t.nodes.size) else t.slots[k]? := by
  unfold Frame.addedView
  rw [slots_addChild, slots_precede]
  show (t.setSlot node.index (.node t.nodes.size)).slots[k]? = _
  rw [hindex]
  by_cases hk : k = new.slot
  · rw [if_pos hk, hk, slots_setSlot_self hslot]
  · rw [if_neg hk, slots_setSlot_ne (by omega)]

section

variable (hf : frame.Holds places slot) (h : Reflects t places) (hlt : ∀ x ∈ places, x.node < t.nodes.size)
include hf h hlt

theorem Frame.Holds.nodes_addedView (hx : x ∈ places) (own : Bool) : (frame.addedView t node own).nodes[x.node]? =
      (if slot = x.frame then t.nodes[x.node]?.map node.followedBy else t.nodes[x.node]?).map fun n =>
        if slot = some x.slot ∧ own = true then { n with children := n.children ++ [node.index] } else n := by
  have hpush : (t.addNode node).nodes[x.node]? = t.nodes[x.node]? := by
    show (t.nodes.push node)[x.node]? = _
    rw [Array.getElem?_push_lt (hlt x hx), Array.getElem?_eq_getElem (hlt x hx)]
  have hopen : (if own then frame.placeholder else none).map (·.node) = some x.node ↔
      slot = some x.slot ∧ own = true := by
    cases own with
    | false => simp
    | true =>
      cases ho : frame.placeholder with
      | none =>
        have hslot := hf.slot_eq
        rw [ho] at hslot
        cases slot with
        | none => simp
        | some s => cases hslot
      | some o => simpa using hf.node_eq_iff h hx ho
  unfold Frame.addedView
  rw [nodes_addChild, nodes_precede node frame.nodes _ _ (hf.nodup h), hpush]
  simp only [hopen, hf.mem_nodes h hx]
  by_cases hchild : slot = some x.slot ∧ own = true <;> simp [hchild]

theorem Frame.Holds.template_new (hframe : new.frame = slot) (hnode : new.node = t.nodes.size)
    (hfree : ∀ x ∈ places, x.slot ≠ new.slot) (hown : new.piece.own = false)
    (hplaceholder : ∀ s, new.piece = .placeholder s → new.slot = s ∧ node = frame.placeholderNode new.slot) :
    (frame.addedView t node new.piece.own).nodes[new.node]? = some (new.template (places ++ [new]) []) := by
  have hnotin : new.node ∉ frame.nodes := by
    rw [hf.nodes_eq, mem_reverse, mem_map]
    rintro ⟨x, hx, heq⟩
    have := hlt x (mem_filter.mp hx).1
    omega
  have hempty : ∀ x ∈ places, x.frame ≠ some new.slot := by
    intro x hx heq
    obtain ⟨y, hy, hpiece⟩ := h.framed x hx _ heq
    exact hfree y hy (h.placeholder y hy _ hpiece)
  have hinside : Place.inside (places ++ [new]) new.slot = [] := by
    rw [Place.inside_concat, hown, if_neg (fun hand => Bool.false_ne_true hand.2), append_nil]
    unfold Place.inside
    rw [filter_eq_nil_iff.mpr, map_nil]
    intro x hx
    simp [hempty x hx]
  obtain ⟨s, hs⟩ := Piece.exists_slot hown
  unfold Frame.addedView
  rw [hown, nodes_addChild, if_neg (by simp), nodes_precede node frame.nodes _ _ (hf.nodup h), if_neg hnotin]
  show (t.nodes.push node)[new.node]? = _
  rw [hnode, Array.getElem?_push_size, (hplaceholder s hs).2]
  unfold Place.template Frame.placeholderNode TemplateNode.fresh
  rw [hinside, hf.slot_eq, hframe]
  rfl

end

theorem nodup_map_concat {f : Place → Nat} (h : (places.map f).Nodup) (hnew : ∀ x ∈ places, f x ≠ f new) :
    ((places ++ [new]).map f).Nodup := by
  rw [map_append, map_singleton, ← concat_eq_append]
  refine h.concat fun hmem => ?_
  obtain ⟨x, hx, heq⟩ := mem_map.mp hmem
  exact hnew x hx heq

theorem Reflects.exists_framed (h : Reflects t places) (hf : frame.Holds places slot) (hframe : new.frame = slot) :
    ∀ x ∈ places ++ [new], ∀ s, x.frame = some s → ∃ y ∈ places, y.piece = .placeholder s :=
  forall_mem_append.mpr
    ⟨h.framed, forall_mem_singleton.mpr fun _ hs => hf.exists_placeholder h (hframe.symm.trans hs)⟩

theorem Reflects.add (h : Reflects t places) (hf : frame.Holds places slot) (node : TemplateNode) (new : Place)
    (hlt : ∀ x ∈ places, x.node < t.nodes.size) (hframe : new.frame = slot) (hnode : new.node = t.nodes.size)
    (hindex : node.index = new.slot) (htype : node.type.fromMessage = new.piece.own) (hslot : new.slot < t.size)
    (hfree : ∀ x ∈ places, x.slot ≠ new.slot)
    (hplaceholder : ∀ s, new.piece = .placeholder s → new.slot = s ∧ node = frame.placeholderNode new.slot) :
    Reflects (frame.addedView t node new.piece.own) (places ++ [new]) where
  slots x hx := by
    rw [Frame.slots_addedView hindex _ _ hslot]
    rcases mem_append.mp hx with hx | hx
    · rw [if_neg (hfree x hx), h.slots x hx]
    · grind
  slots_nodup := nodup_map_concat h.slots_nodup hfree
  nodes_nodup := nodup_map_concat h.nodes_nodup fun x hx => hnode ▸ Nat.ne_of_lt (hlt x hx)
  placeholder := forall_mem_append.mpr ⟨h.placeholder, forall_mem_singleton.mpr fun s hs => (hplaceholder s hs).1⟩
  framed x hx s hs := by
    obtain ⟨y, hy, hpiece⟩ := h.exists_framed hf hframe x hx s hs
    exact ⟨y, mem_append_left _ hy, hpiece⟩
  template before x after heq hown := by
    rcases eq_nil_or_concat after with rfl | ⟨after, last, rfl⟩
    · -- The new piece is a placeholder; nothing is inside it yet.
      obtain ⟨rfl, hsingle⟩ := append_inj' heq rfl
      cases hsingle
      exact hf.template_new h hlt hframe hnode hfree hown hplaceholder
    · rw [concat_eq_append, ← cons_append, ← append_assoc] at heq
      obtain ⟨rfl, hsingle⟩ := append_inj' heq rfl
      cases hsingle
      have hx : x ∈ before ++ x :: after := mem_append_right _ mem_cons_self
      rw [hf.nodes_addedView h hlt hx, h.template before x after rfl hown, concat_eq_append,
        Place.template_concat, Place.template_followed hindex htype, hframe, hindex]
      grind

theorem Frame.Holds.grown (hf : frame.Holds places slot) (t : TemplateView) (new : Place)
    (hframe : new.frame = slot) (hnode : new.node = t.nodes.size) : (frame.grown t).Holds (places ++ [new]) slot where
  slot_eq := hf.slot_eq
  nodes_eq := by
    show t.nodes.size :: frame.nodes = _
    rw [hf.nodes_eq, filter_append]
    simp [hframe, hnode]
  placeholder o ho := by
    obtain ⟨x, hx, h⟩ := hf.placeholder o ho
    exact ⟨x, mem_append_left _ hx, h⟩

theorem Frame.Holds.extend (hf : frame.Holds places slot) {more : List Place}
    (hmore : ∀ x ∈ more, x.frame ≠ slot) : frame.Holds (places ++ more) slot where
  slot_eq := hf.slot_eq
  nodes_eq := by
    have hnone : more.filter (·.frame == slot) = [] := by
      simp_all [filter_eq_nil_iff]
    rw [hf.nodes_eq, filter_append, hnone, append_nil]
  placeholder o ho := by
    obtain ⟨x, hx, h⟩ := hf.placeholder o ho
    exact ⟨x, mem_append_left _ hx, h⟩

end Added

/-! ### Compiling -/

/-- What the pass has compiled so far are the places. -/
structure Drawn (site : Site) (p : Pass) (places : List Place) : Prop where
  reflects : Reflects p.view places
  create_eq : p.create = places.filterMap (·.op? site)
  bounded : p.view.Bounded
  start_le : p.view.bindingStart ≤ p.view.size
  index_lt : site.index < p.view.size
  /-- The message's own pieces are in new slots. -/
  own_le : ∀ x ∈ places, x.piece.own = true → p.view.bindingStart ≤ x.slot
  other : ∀ x ∈ places, (x.slot : Int) ≠ site.index

namespace Drawn

variable {site : Site} {p p' : Pass} {places : List Place} {frame : Frame} {slot : Option Nat}

section

variable (h : Drawn site p places)
include h

theorem node_lt (hx : x ∈ places) : x.node < p.view.nodes.size :=
  h.bounded x.slot x.node (h.reflects.slots x hx)

theorem grows (hgrows : p.view.Grows touched n p'.view)
    (htouched : ∀ x ∈ places, ¬touched x.slot) (hn : ∀ x ∈ places, x.piece.own = false → x.node < n)
    (hcreate : p'.create = p.create) : Drawn site p' places where
  reflects := h.reflects.grows hgrows htouched hn
  create_eq := hcreate.trans h.create_eq
  bounded := hgrows.bounded h.bounded
  start_le := hgrows.bindingStart ▸ Nat.le_trans h.start_le hgrows.size_le
  index_lt := Int.lt_of_lt_of_le h.index_lt (Int.ofNat_le.mpr hgrows.size_le)
  own_le := hgrows.bindingStart ▸ h.own_le
  other := h.other

theorem add (hgrows : p.view.Grows touched n p'.view) {new : Place} (hreflects : Reflects p'.view (places ++ [new]))
    (hcreate : p'.create = p.create ++ (new.op? site).toList)
    (hown : new.piece.own = true → p.view.bindingStart ≤ new.slot) (hother : (new.slot : Int) ≠ site.index) :
    Drawn site p' (places ++ [new]) where
  reflects := hreflects
  create_eq := by
    rw [hcreate, h.create_eq, filterMap_append]
    cases hop : new.op? site <;> simp [hop]
  bounded := hgrows.bounded h.bounded
  start_le := hgrows.bindingStart ▸ Nat.le_trans h.start_le hgrows.size_le
  index_lt := Int.lt_of_lt_of_le h.index_lt (Int.ofNat_le.mpr hgrows.size_le)
  own_le := hgrows.bindingStart ▸ forall_mem_append.mpr ⟨h.own_le, forall_mem_singleton.mpr hown⟩
  other := forall_mem_append.mpr ⟨h.other, forall_mem_singleton.mpr hother⟩

theorem create (hf : frame.Holds places slot) (piece : Piece) {type : NodeType}
    {value : String} (htype : type.fromMessage = true) (hown : piece.own = true)
    (hop : Place.op? site ⟨slot, piece, p.view.size, p.view.nodes.size⟩ =
      some ⟨p.view.size, text, type == .icu, slot.isNone⟩) :
    Drawn site (frame.createdPass p type text value) (places ++ [⟨slot, piece, p.view.size, p.view.nodes.size⟩]) := by
  have halloc : Reflects (p.view.alloc 1) places :=
    h.reflects.grows (grows_alloc untouched p.view.nodes.size p.view 1) (fun _ _ h => h) fun x hx _ => h.node_lt hx
  have hadd : Reflects (frame.addedView (p.view.alloc 1) (.fresh p.view.size type value none) piece.own)
      (places ++ [⟨slot, piece, p.view.size, p.view.nodes.size⟩]) := by
    refine halloc.add hf _ ⟨slot, piece, p.view.size, p.view.nodes.size⟩ (fun x hx => h.node_lt hx) rfl rfl rfl
      (htype.trans hown.symm) ?_ ?_ ?_
    · rw [size_alloc]
      exact Nat.lt_succ_self _
    · exact fun x hx => Nat.ne_of_lt (h.reflects.slot_lt hx)
    · rintro s rfl
      cases hown
  rw [hown] at hadd
  have hnone : frame.placeholder.isNone = slot.isNone := by
    have := congrArg Option.isNone hf.slot_eq
    simpa using this
  refine h.add (frame.grows_createdPass p type text value) hadd ?_ (fun _ => h.start_le) ?_
  · show p.create ++ [⟨p.view.size, text, type == .icu, frame.placeholder.isNone⟩] = _
    rw [hop, hnone]
    rfl
  · exact Ne.symm (Int.ne_of_lt h.index_lt)

end

end Drawn

def Draws (site : Site) (frame frame' : Frame) (slot : Option Nat) (p p' : Pass) (pieces : List Piece) : Prop :=
  ∀ places, Drawn site p places → frame.Holds places slot →
    ∃ more, Drawn site p' (places ++ more) ∧ frame'.Holds (places ++ more) slot ∧
      more.map Place.entry = pieces.map (slot, ·)

section Draws

variable {cfg : Config} {site : Site} {frame frame₁ frame' : Frame} {slot : Option Nat} {p p₁ p' : Pass}

theorem Draws.nil : Draws site frame frame slot p p [] := fun places h hf =>
  ⟨[], by rwa [append_nil], by rwa [append_nil], rfl⟩

theorem Draws.append {pieces pieces' : List Piece} (h : Draws site frame frame₁ slot p p₁ pieces)
    (h' : Draws site frame₁ frame' slot p₁ p' pieces') : Draws site frame frame' slot p p' (pieces ++ pieces') := by
  intro places hp hf
  obtain ⟨more, hp₁, hf₁, hmore⟩ := h places hp hf
  obtain ⟨more', hp', hf', hmore'⟩ := h' _ hp₁ hf₁
  refine ⟨more ++ more', ?_, ?_, ?_⟩
  · rwa [← append_assoc]
  · rwa [← append_assoc]
  · rw [map_append, map_append, hmore, hmore']

theorem draws_compileText (h : compileText frame text p = .ok frame' p') (slot : Option Nat) :
    Draws site frame frame' slot p p' [.text text] := by
  intro places hp hf
  obtain ⟨-, -, value, hview, hcreate⟩ := compileText_eq_ok h
  rw [compileText_frame h]
  have hdrawn : Drawn site (frame.createdPass p .text (initialText text) value) _ :=
    hp.create hf (.text text) rfl rfl rfl
  refine ⟨[⟨slot, .text text, p.view.size, p.view.nodes.size⟩], ?_, hf.grown p.view _ rfl rfl, rfl⟩
  have hsame : (frame.createdPass p .text (initialText text) value).view.Grows untouched
      (frame.createdPass p .text (initialText text) value).view.nodes.size p'.view := by
    rw [hview]
    exact Grows.refl _ _ _
  exact hdrawn.grows hsame (fun _ _ h => h) (fun x hx _ => hdrawn.node_lt hx) hcreate

theorem draws_compileIcu {e : Icu} (h : compileIcu cfg e site.parent p.view.size
      (frame.createdPass p .icu (rootLabel site e.main) (rootLabel site e.main)) = .ok () p') (slot : Option Nat) :
    Draws site frame (frame.grown p.view) slot p p' [.icu e.main] := by
  intro places hp hf
  have hdrawn : Drawn site (frame.createdPass p .icu (rootLabel site e.main) (rootLabel site e.main)) _ :=
    hp.create hf (.icu e.main) rfl rfl rfl
  have hvacant := frame.vacant_createdView p.view .icu (rootLabel site e.main)
  have hgrows := grows_compileIcu cfg e p.view.nodes.size site.parent p.view.size
    (frame.createdPass p .icu (rootLabel site e.main) (rootLabel site e.main)) _ hvacant (Nat.le_refl _) ?_
  · rw [after_of_ok h] at hgrows
    have hcreate := (follows_compileIcu cfg e site.parent p.view.size _ _ p' hvacant h).create_eq
    refine ⟨[⟨slot, .icu e.main, p.view.size, p.view.nodes.size⟩], ?_, hf.grown p.view _ rfl rfl, rfl⟩
    refine hdrawn.grows hgrows (fun _ _ h => h) (fun x hx hown => ?_) hcreate
    rcases mem_append.mp hx with hx | hx
    · exact hp.node_lt hx
    · rw [mem_singleton.mp hx] at hown
      cases hown
  · exact (frame.grows_createdPass p .icu (rootLabel site e.main) (rootLabel site e.main)).nodes_le

theorem Fills.draws (slot : Option Nat) {segments : List Segment} (h : Fills cfg site frame segments p frame' p') :
    Draws site frame frame' slot p p' (segments.filterMap Segment.piece?) := by
  induction h with
  | nil => exact .nil
  | skip hempty _ ih =>
    rw [filterMap_cons, Segment.piece?, if_pos hempty]
    exact ih
  | text hne htext _ ih =>
    rw [filterMap_cons, Segment.piece?, if_neg hne]
    exact (draws_compileText htext slot).append ih
  | icu hicu _ ih => exact (draws_compileIcu hicu slot).append ih

theorem draws_compileRun {text : List Char} (h : compileRun cfg site frame text p = .ok frame' p')
    (slot : Option Nat) : Draws site frame frame' slot p p' (pieces text) := by
  obtain ⟨segments, hsplit, hfills⟩ := exists_fills h
  unfold pieces
  rw [hsplit]
  intro places hp hf
  have hlogged : Drawn site { p with log := p.log ++ (Message.split text).log } places :=
    hp.grows (Grows.refl untouched p.view.nodes.size _) (fun _ _ h => h) (fun x hx _ => hp.node_lt hx) rfl
  exact hfills.draws slot places hlogged hf

end Draws

/-- The frames inside which a text stands, innermost first, are those of the open placeholders. -/
def Stack (places : List Place) : (frames : List Frame) → (opened : List Nat) → Prop
  | [], _ => False
  | frame :: outer, [] => frame.Holds places none ∧ outer = []
  | frame :: outer, slot :: opened => frame.Holds places (some slot) ∧ Stack places outer opened

section Stack

variable {places more : List Place} {frame frame' : Frame} {outer : List Frame} {opened : List Nat}

theorem Stack.holds (h : Stack places (frame :: outer) opened) : frame.Holds places opened.head? := by
  cases opened with
  | nil => exact h.1
  | cons slot opened => exact h.1

theorem Stack.extend {slot : Nat} (hmore : ∀ x ∈ more, x.frame = some slot) :
    ∀ {frames : List Frame} {opened : List Nat}, Stack places frames opened → slot ∉ opened →
      Stack (places ++ more) frames opened
  | [], _, h, _ => h.elim
  | frame :: outer, [], h, _ => ⟨h.1.extend fun x hx => by simp [hmore x hx], h.2⟩
  | frame :: outer, k :: opened, h, hslot => by
    rw [mem_cons, not_or] at hslot
    refine ⟨h.1.extend fun x hx heq => ?_, Stack.extend hmore h.2 hslot.2⟩
    rw [hmore x hx] at heq
    exact hslot.1 (Option.some.inj heq)

theorem Stack.exists_placeholder (hr : Reflects t places) :
    ∀ {frames : List Frame} {opened : List Nat}, Stack places frames opened →
      ∀ s ∈ opened, ∃ x ∈ places, x.piece = .placeholder s
  | [], _, h, _, _ => h.elim
  | _ :: _, [], _, _, hs => by cases hs
  | _ :: _, _ :: _, h, s, hs => by
    rcases mem_cons.mp hs with rfl | hs
    · exact h.1.exists_placeholder hr rfl
    · exact Stack.exists_placeholder hr h.2 s hs

theorem Stack.update (h : Stack places (frame :: outer) opened) (hnodup : opened.Nodup)
    (hmore : ∀ x ∈ more, x.frame = opened.head?) (hf : frame'.Holds (places ++ more) opened.head?) :
    Stack (places ++ more) (frame' :: outer) opened := by
  cases opened with
  | nil => exact ⟨hf, h.2⟩
  | cons slot opened => exact ⟨hf, h.2.extend hmore (nodup_cons.mp hnodup).1⟩

end Stack

theorem Drawn.opened {slot : Option Nat}
    (h : Drawn site p places) (hf : frame.Holds places slot) (hs : s < p.view.bindingStart)
    (hother : (s : Int) ≠ site.index) (hfree : ∀ x ∈ places, x.piece ≠ .placeholder s) :
    Drawn site { p with view := frame.openedView p.view s }
        (places ++ [⟨slot, .placeholder s, s, p.view.nodes.size⟩]) ∧
      (Frame.inside p.view s).Holds (places ++ [⟨slot, .placeholder s, s, p.view.nodes.size⟩]) (some s) := by
  have hne : ∀ x ∈ places, x.slot ≠ s := by
    intro x hx heq
    by_cases hown : x.piece.own = true
    · have := h.own_le x hx hown
      omega
    · obtain ⟨k, hpiece⟩ := Piece.exists_slot (Bool.not_eq_true _ ▸ hown)
      exact hfree x hx (by rw [hpiece, ← h.reflects.placeholder x hx k hpiece, heq])
  have hadd : Reflects (frame.addedView p.view (frame.placeholderNode s) false)
      (places ++ [⟨slot, .placeholder s, s, p.view.nodes.size⟩]) :=
    h.reflects.add hf _ ⟨slot, .placeholder s, s, p.view.nodes.size⟩ (fun x hx => h.node_lt hx) rfl rfl rfl rfl
      (Nat.lt_of_lt_of_le hs h.start_le) hne fun k hk => by cases hk; exact ⟨rfl, rfl⟩
  constructor
  · exact h.add (frame.grows_openedView p.view s) hadd (append_nil _).symm (fun hown => by cases hown) hother
  · have hempty : ∀ x ∈ places ++ [⟨slot, .placeholder s, s, p.view.nodes.size⟩], x.frame ≠ some s := by
      intro x hx heq
      obtain ⟨y, hy, hpiece⟩ := h.reflects.exists_framed hf rfl x hx s heq
      exact hfree y hy hpiece
    refine ⟨rfl, ?_, ?_⟩
    · rw [filter_eq_nil_iff.mpr]
      · rfl
      · intro x hx
        simp [hempty x hx]
    · intro o ho
      cases ho
      exact ⟨_, mem_append_right _ mem_cons_self, rfl, rfl, rfl⟩

theorem Stack.exists_run {text : List Char} {frame' : Frame} {outer : List Frame} {opened : List Nat}
    {p' : Pass} {places : List Place} (h : Stack places (frame :: outer) opened) (hnodup : opened.Nodup)
    (hdrawn : Drawn site p places) (hrun : compileRun cfg site frame text p = .ok frame' p') :
    ∃ more, Drawn site p' (places ++ more) ∧ Stack (places ++ more) (frame' :: outer) opened ∧
      more.map Place.entry = (pieces text).map (opened.head?, ·) := by
  obtain ⟨more, hdrawn', hf, hmore⟩ := draws_compileRun hrun opened.head? places hdrawn h.holds
  refine ⟨more, hdrawn', h.update hnodup (fun x hx => ?_) hf, hmore⟩
  have hentry : x.entry ∈ (pieces text).map (opened.head?, ·) := hmore ▸ mem_map_of_mem hx
  obtain ⟨piece, -, heq⟩ := mem_map.mp hentry
  exact (congrArg Prod.fst heq).symm

/-- **Compiling a message draws its outline**, if no placeholder is opened twice. -/
theorem Traverses.exists_drawn {last : List Char} {items : List (List Char × Placeholder)}
    {outer : List Frame} {p' : Pass} (h : Traverses cfg site last frame outer items p p') :
    ∀ (opened : List Nat) (places : List Place), Drawn site p places → Stack places (frame :: outer) opened →
      opened.Nodup → (slotsOf (places.map Place.entry ++ outlineFrom last opened items)).Nodup →
        ∃ more, Drawn site p' (places ++ more) ∧ more.map Place.entry = outlineFrom last opened items := by
  induction h with
  | done hrun =>
    intro opened places hdrawn hstack hopened _
    obtain ⟨more, hdrawn₁, -, hmore⟩ := hstack.exists_run hopened hdrawn hrun
    exact ⟨more, hdrawn₁, hmore⟩
  | close hrun hclosing _ ih =>
    intro opened places hdrawn hstack hopened hnodup
    obtain ⟨more, hdrawn₁, hstack₁, hmore⟩ := hstack.exists_run hopened hdrawn hrun
    rw [outlineFrom, ← hmore, if_pos hclosing] at hnodup ⊢
    rw [← append_assoc, ← map_append] at hnodup
    cases opened with
    | nil => cases hstack₁.2
    | cons s opened =>
      obtain ⟨more', hdrawn', hmore'⟩ := ih opened _ hdrawn₁ hstack₁.2 (nodup_cons.mp hopened).2 hnodup
      refine ⟨more ++ more', ?_, ?_⟩
      · rwa [← append_assoc]
      · rw [map_append, hmore']
        rfl
  | @enter _ _ _ _ q _ _ p₁ _ hrun hopening hdenotes _ _ ih =>
    intro opened places hdrawn hstack hopened hnodup
    obtain ⟨more, hdrawn₁, hstack₁, hmore⟩ := hstack.exists_run hopened hdrawn hrun
    rw [outlineFrom, ← hmore, if_neg hopening] at hnodup ⊢
    rw [← append_assoc, ← map_append] at hnodup
    have hapart : declaredSlot q.number ∉ slotsOf ((places ++ more).map Place.entry) := by
      rw [Message.slotsOf_append] at hnodup
      exact fun hmem => (nodup_append.mp hnodup).2.2 _ hmem _ mem_cons_self rfl
    have hfree : ∀ x ∈ places ++ more, x.piece ≠ .placeholder (declaredSlot q.number) :=
      fun x hx hpiece => hapart (Place.mem_slotsOf hx hpiece)
    obtain ⟨hdrawn₂, hinside⟩ := hdrawn₁.opened hstack₁.holds hdenotes.declared hdenotes.other hfree
    have hstack₂ := hstack₁.update hopened (fun x hx => (mem_singleton.mp hx).symm ▸ rfl)
      (hstack₁.holds.grown p₁.view ⟨opened.head?, .placeholder (declaredSlot q.number), declaredSlot q.number,
        p₁.view.nodes.size⟩ rfl rfl)
    have hnew : declaredSlot q.number ∉ opened := by
      intro hmem
      obtain ⟨x, hx, hpiece⟩ := hstack₁.exists_placeholder hdrawn₁.reflects _ hmem
      exact hfree x hx hpiece
    obtain ⟨more', hdrawn', hmore'⟩ := ih (declaredSlot q.number :: opened) _ hdrawn₂ ⟨hinside, hstack₂⟩
      (nodup_cons.mpr ⟨hnew, hopened⟩) (by rw [map_append, append_assoc]; exact hnodup)
    refine ⟨more ++ ⟨opened.head?, .placeholder (declaredSlot q.number), declaredSlot q.number,
      p₁.view.nodes.size⟩ :: more', ?_, ?_⟩
    · rw [append_assoc, append_assoc] at hdrawn'
      exact hdrawn'
    · rw [map_append, map_cons, hmore']
      rfl

theorem drawn_nil (hs : t.Sound) (hindex : t.contains site.index = true) : Drawn site ⟨t, [], [], []⟩ [] where
  reflects := {
    slots := fun _ hx => absurd hx not_mem_nil
    slots_nodup := .nil
    nodes_nodup := .nil
    placeholder := fun _ hx => absurd hx not_mem_nil
    framed := fun _ hx => absurd hx not_mem_nil
    template := fun before x after heq => by simp at heq }
  create_eq := rfl
  bounded := hs.bounded
  start_le := hs.bindingStart_le
  index_lt := by
    simp only [TemplateView.contains, Bool.and_eq_true, decide_eq_true_eq] at hindex
    show site.index < t.size
    omega
  own_le _ hx := absurd hx not_mem_nil
  other _ hx := absurd hx not_mem_nil

/-- The message is compiled: its pieces, in order, have got slots, which the template nodes of the
placeholders agree with. -/
structure Message.Outlined (site : Site) (t' : TemplateView) (block : Block)
    (outline : List (Option Nat × Piece)) (places : List Place) : Prop where
  entries : places.map Place.entry = outline
  reflects : Reflects t' places
  create_eq : block.create = places.filterMap (·.op? site)

theorem exists_outlined (hs : t.Sound) {message : String} {scope : Scope} {handle : Handle}
    (hslot : ∀ serial block, t.slot? site.index ≠ some (.block serial block))
    (h : (t.compile cfg site message scope).result = .ok handle)
    (hnodup : (slotsOf (Message.outline scope message)).Nodup) :
    ∃ places, Message.Outlined site (t.compile cfg site message scope).view handle.block
      (Message.outline scope message) places := by
  obtain ⟨part, p, hpass, hview, rfl⟩ := exists_compiling hslot h
  rw [Message.outline_eq hpass.part_eq] at hnodup ⊢
  obtain ⟨places, hdrawn, hplaces⟩ := (traverses_compileScoped hpass.run).exists_drawn [] []
    (drawn_nil hs hpass.index.2) ⟨⟨rfl, rfl, fun _ ho => by cases ho⟩, rfl⟩ .nil hnodup
  rw [nil_append] at hdrawn
  obtain ⟨hslots, hdistinct, hnodes, hplaceholder, hframed, htemplate⟩ := hdrawn.reflects
  have hnext : Reflects { p.view with serial := p.view.serial + 1 } places :=
    ⟨hslots, hdistinct, hnodes, hplaceholder, hframed, htemplate⟩
  have hset : ({ p.view with serial := p.view.serial + 1 } : TemplateView).Grows (fun k => site.index = k)
      p.view.nodes.size (compiledView p site.index) :=
    grows_setSlot (fun _ hk => hk) _ fun id hid => by cases hid
  rw [hview]
  exact ⟨places, hplaces, hnext.grows hset (fun x hx heq => hdrawn.other x hx heq.symm)
    (fun x hx _ => hdrawn.node_lt hx), hdrawn.create_eq⟩

end MessageCompiler
