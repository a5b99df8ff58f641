/-
Placeholders land where the message has them.

Starting a message creates the nodes of its own pieces. If then every placeholder gets an element, in the
order of the slots, each node ends up where the message has its piece.
-/
import MessageCompiler.Proofs.Arranged
import MessageCompiler.Proofs.Incremental

namespace MessageCompiler

open List
open Markup (Content Tree)
open Live LiveView
open Message (slotsOf Outlined)

variable {outline : List (Option Nat × Piece)} {block : Block}

variable {op : CreateOp} {s : Nat} {x : Place}

/-! ### Starting a message -/

/-- The message's own pieces among `done` have got their nodes, and nothing else has. -/
structure Begun (root : Nat) (site : Site) (places done : List Place) (v : LiveView) : Prop where
  arranged : Arranged root places v
  created : ∀ x ∈ done, ∀ op, x.op? site = some op →
    ∃ n, v.node? x.slot = some n ∧ v.tree.content? n = some op.content
  vacant : ∀ x ∈ places, x ∉ done ∨ x.piece.own = false → v.node? x.slot = none

section Begin

variable {root : Nat} {site : Site} {t : TemplateView} {places done todo : List Place} {x : Place} {v : LiveView}

theorem Place.own_of_op? (h : x.op? site = some op) :
    x.piece.own = true ∧ op.index = x.slot ∧ op.eager = x.frame.isNone := by
  unfold Place.op? at h
  split at h
  · next heq =>
    cases h
    exact ⟨by rw [heq]; rfl, rfl, rfl⟩
  · next heq =>
    cases h
    exact ⟨by rw [heq]; rfl, rfl, rfl⟩
  · cases h

theorem Place.exists_op? (site : Site) (h : x.piece.own = true) : ∃ op, x.op? site = some op := by
  unfold Place.op?
  cases hpiece : x.piece with
  | text value => exact ⟨_, rfl⟩
  | icu main => exact ⟨_, rfl⟩
  | placeholder s =>
    rw [hpiece] at h
    cases h

theorem yields_nodeFor_new (hindex : op.index = s) (hlt : s < v.slots.size) (hnone : v.node? s = none) :
    Yields (nodeFor op) v fun id v' => id = v.tree.size ∧ v' = v.addNew s op.content := by
  unfold nodeFor
  rw [hindex]
  refine Yields.andThen yields_node? ?_
  rw [hnone]
  have hset : Yields (do
      setSlot s (.node v.tree.size)
      pure v.tree.size) (v.withTree (v.tree.create op.content)) fun id v' =>
        id = v.tree.size ∧ v' = v.addNew s op.content :=
    Yields.andThen (yields_setSlot hlt) (yields_pure ⟨rfl, rfl⟩)
  unfold CreateOp.content at hset ⊢
  cases hcomment : op.comment with
  | true =>
    rw [hcomment] at hset
    exact Yields.andThen Live.yields_create hset
  | false =>
    rw [hcomment] at hset
    exact Yields.andThen Live.yields_create hset

/-- The view has a new node for the piece, which is the last child of the root if it is not inside a
placeholder. -/
structure Creates (root : Nat) (x : Place) (content : Content) (v v' : LiveView) : Prop where
  sound : v'.Sound root
  host : v'.host = v.host
  slots : v'.slots = (v.addNew x.slot content).slots
  content?_eq : ∀ k, v'.tree.content? k = (v.tree.create content).content? k
  parent?_eq : ∀ k, k ≠ v.tree.size → v'.tree.parent? k = v.tree.parent? k
  parent?_new : x.frame ≠ none → v'.tree.parent? v.tree.size = none
  children_root : v'.tree.children root = v.tree.children root ++ if x.frame = none then [v.tree.size] else []

theorem Reflects.notMem (hr : Reflects t places) (hx : places = done ++ todo) {y : Place} (hy : y ∈ todo) :
    y ∉ done := by
  intro hdone
  have hnodup := hr.slots_nodup
  grind

theorem Begun.frameNode?_some (h : Begun root site places done v) (hr : Reflects t places)
    (hframe : IsFrame places (some s)) : v.frameNode? (some s) = none := by
  obtain ⟨y, hy, hpiece⟩ := hframe s rfl
  have hvacant := h.vacant y hy (.inr (by rw [hpiece]; rfl))
  rw [hr.placeholder y hy s hpiece] at hvacant
  exact hvacant

theorem Begun.nodesIn_todo (h : Begun root site places done v) (hr : Reflects t places)
    (hx : places = done ++ x :: todo) (frame : Option Nat) : v.nodesIn todo frame = [] := by
  unfold LiveView.nodesIn
  rw [filterMap_eq_nil_iff]
  intro y hy
  have hy : y ∈ x :: todo := mem_cons_of_mem x (mem_filter.mp hy).1
  exact h.vacant y (hx ▸ mem_append_right _ hy) (.inl (hr.notMem hx hy))

section Creates

variable {content : Content} {v' : LiveView}

theorem Creates.node? (h' : Creates root x content v v') (hlt : x.slot < v.slots.size) (k : Nat) :
    v'.node? k = if k = x.slot then some v.tree.size else v.node? k := by
  have hslots : v'.node? k = (v.addNew x.slot content).node? k := by
    unfold LiveView.node?
    rw [h'.slots]
  rw [hslots]
  by_cases hk : k = x.slot
  · rw [if_pos hk, hk, node?_addNew hlt]
  · rw [if_neg hk, node?_natCast, node?_natCast, slots_addNew hlt, if_neg hk]

theorem Creates.frameNode? (h' : Creates root x content v v') (hlt : x.slot < v.slots.size) (hr : Reflects t places)
    (hmem : x ∈ places) (hown : x.piece.own = true) {frame : Option Nat} (hframe : IsFrame places frame) :
    v'.frameNode? frame = v.frameNode? frame := by
  cases frame with
  | none => exact h'.host
  | some s =>
    obtain ⟨y, hy, hpiece⟩ := hframe s rfl
    have hslot := hr.placeholder y hy s hpiece
    show v'.node? s = v.node? s
    rw [h'.node? hlt, if_neg]
    intro heq
    rw [← hr.eq_of_slot hy hmem (hslot.trans heq), hpiece] at hown
    cases hown

section

variable (h : Begun root site places done v) (hr : Reflects t places) (hx : places = done ++ x :: todo)
include h hr hx

theorem Begun.nodesIn_creates (hlt : x.slot < v.slots.size) (h' : Creates root x content v v') (frame : Option Nat) :
    v'.nodesIn places frame = v.nodesIn places frame ++ if x.frame = frame then [v.tree.size] else [] := by
  have hmem : x ∈ places := hx ▸ mem_append_right _ mem_cons_self
  have hothers : ∀ y ∈ done ++ todo, v'.node? y.slot = v.node? y.slot := by
    intro y hy
    rw [h'.node? hlt, if_neg (hr.slot_ne hx y hy)]
  have hvacant : v.node? x.slot = none := h.vacant x hmem (.inl (hr.notMem hx mem_cons_self))
  rw [hx, nodesIn_split, nodesIn_split, nodesIn_congr fun y hy _ => hothers y (mem_append_left _ hy),
    nodesIn_congr fun y hy _ => hothers y (mem_append_right _ hy), h.nodesIn_todo hr hx, h'.node? hlt, if_pos rfl, hvacant]
  by_cases hframe : x.frame = frame <;> simp [hframe]

theorem Begun.creates (hop : x.op? site = some op) (hlt : x.slot < v.slots.size)
    (h' : Creates root x op.content v v') : Begun root site places (done ++ [x]) v' := by
  obtain ⟨hown, -, -⟩ := Place.own_of_op? hop
  have hmem : x ∈ places := hx ▸ mem_append_right _ mem_cons_self
  have hframe : ∀ frame, IsFrame places frame → v'.frameNode? frame = v.frameNode? frame :=
    fun frame hframe => h'.frameNode? hlt hr hmem hown hframe
  have hothers : ∀ y ∈ places, y ≠ x → v'.node? y.slot = v.node? y.slot := by
    intro y hy hne
    rw [h'.node? hlt, if_neg fun heq => hne (hr.eq_of_slot hy hmem heq)]
  refine ⟨⟨h'.sound, h'.host.trans h.arranged.host, ?_, ?_⟩, ?_, ?_⟩
  · -- The only frame with a node is the top level.
    intro frame hisFrame q hq
    cases frame with
    | none =>
      have hroot : q = root := Option.some.inj (hq.symm.trans (h'.host.trans h.arranged.host))
      rw [hroot, h'.children_root, h.nodesIn_creates hr hx hlt h',
        h.arranged.children none hisFrame root h.arranged.host]
    | some s =>
      rw [hframe _ hisFrame, h.frameNode?_some hr hisFrame] at hq
      cases hq
  · intro y hy hyown hnone n hn
    rw [hframe _ (hr.framed y hy)] at hnone
    by_cases hyx : y = x
    · subst hyx
      rw [h'.node? hlt, if_pos rfl] at hn
      cases hn
      refine h'.parent?_new fun htop => ?_
      rw [htop] at hnone
      cases h.arranged.host.symm.trans hnone
    · rw [hothers y hy hyx] at hn
      rw [h'.parent?_eq n (Nat.ne_of_lt (node?_lt h.arranged.sound hn))]
      exact h.arranged.waiting y hy hyown hnone n hn
  · intro y hy op' hop'
    by_cases hyx : y = x
    · subst hyx
      cases hop.symm.trans hop'
      refine ⟨v.tree.size, by rw [h'.node? hlt, if_pos rfl], ?_⟩
      rw [h'.content?_eq, Tree.content?_create_size]
    · have hdone : y ∈ done := (mem_append.mp hy).resolve_right fun hy => hyx (mem_singleton.mp hy)
      obtain ⟨n, hn, hcontent⟩ := h.created y hdone op' hop'
      refine ⟨n, ?_, ?_⟩
      · rw [hothers y (hx ▸ mem_append_left _ hdone) hyx, hn]
      · rw [h'.content?_eq, Tree.content?_create_lt _ _ (node?_lt h.arranged.sound hn), hcontent]
  · intro y hy hvacant
    have hyx : y ≠ x := by
      rintro rfl
      rcases hvacant with hvacant | hvacant
      · exact hvacant (mem_append_right _ mem_cons_self)
      · rw [hown] at hvacant
        cases hvacant
    rw [hothers y hy hyx]
    exact h.vacant y hy (hvacant.imp_left fun hnot hdone => hnot (mem_append_left _ hdone))

end

end Creates

theorem yields_applyCreateOp (hs : v.Sound root) (hhost : v.host = some root)
    (hop : x.op? site = some op) (hlt : x.slot < v.slots.size) (hnone : v.node? x.slot = none) :
    Yields (applyCreateOp op) v fun _ v' => Creates root x op.content v v' := by
  obtain ⟨-, hindex, heager⟩ := Place.own_of_op? hop
  have hkeeps : v.Keeps root [x.slot] nowhere (v.addNew x.slot op.content) :=
    keeps_addNew hs hlt mem_cons_self op.content nowhere
  have hsound := hkeeps.sound
  have hfresh : (v.tree.create op.content).parent? v.tree.size = none := by
    rw [Tree.parent?_create]
    unfold Tree.parent?
    rw [Tree.cells_size]
    rfl
  have hplaced := hsound.linked.placed_append hsound.root_lt
    (show v.tree.size < (v.tree.create op.content).size by rw [Tree.size_create]; exact Nat.lt_succ_self _)
  have hsame : ∀ q, (v.tree.create op.content).children q = v.tree.children q := v.tree.children_create op.content
  rw [applyCreateOp_eq]
  refine (yields_nodeFor_new hindex hlt hnone).bind ?_
  rintro _ _ ⟨rfl, rfl⟩
  have hhost' : (v.addNew x.slot op.content).host = some root := hhost
  refine yields_appendEager hhost' ?_
  cases hframe : x.frame with
  | none =>
    rw [hframe, Option.isNone_none] at heager
    rw [if_pos heager]
    refine ⟨hsound.placed hplaced (Nat.ne_of_gt hs.root_lt), rfl, rfl, hplaced.content?_eq, fun k hk => ?_,
      fun hne => absurd hframe hne, ?_⟩
    · exact (hplaced.parent?_eq k).trans ((if_neg hk).trans (v.tree.parent?_create op.content k))
    · have herase : ((v.addNew x.slot op.content).tree.children root).erase v.tree.size = v.tree.children root :=
        (hsound.linked.erase_of_none hfresh root).trans (hsame root)
      rw [if_pos hframe, ← herase]
      exact hplaced.children_self
  | some s =>
    rw [hframe] at heager
    rw [if_neg (by rw [heager]; exact Bool.false_ne_true)]
    refine ⟨hsound, rfl, rfl, fun _ => rfl, fun k _ => v.tree.parent?_create op.content k, fun _ => hfresh, ?_⟩
    rw [hframe, if_neg (Option.some_ne_none s), append_nil]
    exact hsame root

theorem yields_applyCreate_begun {n : Nat} (hr : Reflects t places) (hlt : ∀ x ∈ places, x.slot < n) :
    ∀ (todo done : List Place) (v : LiveView), places = done ++ todo → v.slots.size = n →
      Begun root site places done v → Yields (applyCreate (todo.filterMap (·.op? site))) v fun _ v' =>
          v'.slots.size = n ∧ Begun root site places places v'
  | [], done, v, hx, hsize, h => by
    rw [append_nil] at hx
    exact yields_pure ⟨hsize, hx ▸ h⟩
  | x :: todo, done, v, hx, hsize, h => by
    have hmem : x ∈ places := hx ▸ mem_append_right _ mem_cons_self
    have hnext : places = (done ++ [x]) ++ todo := by rw [hx, append_assoc]; rfl
    cases hop : x.op? site with
    | none =>
      have hown : x.piece.own = false := by
        unfold Place.op? at hop
        split at hop
        · cases hop
        · cases hop
        · next heq => rw [heq]; rfl
      simp only [filterMap_cons, hop]
      refine yields_applyCreate_begun hr hlt todo (done ++ [x]) v hnext hsize ⟨h.arranged, fun y hy op hop' => ?_,
        fun y hy hvacant => h.vacant y hy ?_⟩
      · rcases mem_append.mp hy with hy | hy
        · exact h.created y hy op hop'
        · rw [mem_singleton.mp hy, hop] at hop'
          cases hop'
      · exact hvacant.imp_left fun hnot hdone => hnot (mem_append_left _ hdone)
    | some op =>
      have hlt' : x.slot < v.slots.size := hsize.symm ▸ hlt x hmem
      simp only [filterMap_cons, hop]
      refine yields_forM_cons (yields_applyCreateOp h.arranged.sound h.arranged.host hop hlt'
        (h.vacant x hmem (.inl (hr.notMem hx mem_cons_self)))) fun v' h' => ?_
      refine yields_applyCreate_begun hr hlt todo (done ++ [x]) v' hnext ?_ (h.creates hr hx hop hlt' h')
      rw [h'.slots]
      exact (size_set _ _ _).trans hsize

theorem begun_new (site : Site) (t' : TemplateView) (host : String) (locale : Locale) (places : List Place) :
    Begun 0 site places [] (.new t' (some host) locale) := by
  have hnode : ∀ k : Nat, (LiveView.new t' (some host) locale).node? k = none := by
    intro k
    have hslots : (LiveView.new t' (some host) locale).slots[k]? =
        if k < t'.size then some .empty else none := Array.getElem?_replicate
    rw [node?_natCast, hslots]
    by_cases hk : k < t'.size
    · rw [if_pos hk]
    · rw [if_neg hk]
  have hprepared : (LiveView.new t' (some host) locale).Prepared 0 [] t'.size locale :=
    prepared_new t' host locale (by simp)
  refine ⟨⟨hprepared.sound, rfl, fun frame _ q hq => ?_, fun x _ _ _ n hn => ?_⟩, by simp, fun x _ _ => hnode x.slot⟩
  · have hempty : (LiveView.new t' (some host) locale).nodesIn places frame = [] := by
      unfold LiveView.nodesIn
      rw [filterMap_eq_nil_iff]
      exact fun x _ => hnode x.slot
    cases frame with
    | none =>
      cases hq
      rw [hempty]
      rfl
    | some s => cases (hnode s).symm.trans hq
  · cases (hnode x.slot).symm.trans hn

end Begin

/-! ### All elements -/

/-- The message's own pieces have their nodes, and the placeholders in `done` have elements with the given
tags. -/
structure Filled (root : Nat) (site : Site) (places : List Place) (done : List (Nat × String)) (v : LiveView) :
    Prop where
  arranged : Arranged root places v
  created : ∀ x ∈ places, ∀ op, x.op? site = some op →
    ∃ n, v.node? x.slot = some n ∧ v.tree.content? n = some op.content
  pending : ∀ x ∈ places, x.piece.own = false → x.slot ∉ done.map (·.1) → v.node? x.slot = none
  attached : ∀ d ∈ done, ∃ n, v.node? d.1 = some n ∧ v.tree.content? n = some (.element .html d.2 [])

section Fill

variable {root : Nat} {site : Site} {t : TemplateView} {places : List Place} {v : LiveView}

theorem Filled.create {done : List (Nat × String)} (h : Filled root site places done v) (tag : String) :
    Filled root site places done (v.withTree (v.tree.create (.element .html tag []))) := by
  have hprepared : v.Prepared root [] v.slots.size v.locale :=
    ⟨h.arranged.sound, h.arranged.host, rfl, rfl, by simp⟩
  have hsound := (hprepared.create (.element .html tag [])).sound
  refine ⟨⟨hsound, h.arranged.host, fun frame hframe q hq => ?_, fun x hx hown hnone n hn => ?_⟩, ?_, h.pending, ?_⟩
  · exact (v.tree.children_create _ q).trans (h.arranged.children frame hframe q hq)
  · exact (v.tree.parent?_create _ n).trans (h.arranged.waiting x hx hown hnone n hn)
  · intro x hx op hop
    obtain ⟨n, hn, hcontent⟩ := h.created x hx op hop
    exact ⟨n, hn, (v.tree.content?_create_lt _ (node?_lt h.arranged.sound hn)).trans hcontent⟩
  · intro d hd
    obtain ⟨n, hn, hcontent⟩ := h.attached d hd
    exact ⟨n, hn, (v.tree.content?_create_lt _ (node?_lt h.arranged.sound hn)).trans hcontent⟩

theorem LiveView.fresh_create (hs : v.Sound root) (content : Content) :
    (v.withTree (v.tree.create content)).Fresh root v.tree.size where
  lt := by
    show v.tree.size < (v.tree.create content).size
    rw [Tree.size_create]
    exact Nat.lt_succ_self _
  ne_root := Nat.ne_of_gt hs.root_lt
  parent := by
    show (v.tree.create content).parent? v.tree.size = none
    rw [Tree.parent?_create]
    unfold Tree.parent?
    rw [Tree.cells_size]
    rfl
  children := by
    show (v.tree.create content).children v.tree.size = []
    rw [Tree.children_create]
    unfold Tree.children
    rw [Tree.cells_size]
    rfl
  unheld s hs' := Nat.lt_irrefl _ (hs.slot_lt s _ hs')

/-- Exactly the placeholders before `x` in the order of the slots have their elements. -/
def Next (places : List Place) (done : List Nat) (x : Place) : Prop :=
  ∀ y ∈ places, y.piece.own = false → (y.slot ∈ done ↔ y.slot < x.slot)

theorem yields_attachNew_filled {before after : List Place} {done : List (Nat × String)}
    (h : Filled root site places done v) (hr : Reflects t places) (hx : places = before ++ x :: after)
    (hown : x.piece.own = false) (hlt : x.slot < v.slots.size)
    (hnested : ∀ y ∈ places, y.piece.own = false → ∀ s, y.frame = some s → s < y.slot)
    (hnext : Next places (done.map (·.1)) x) (tag : String) :
    Yields (attachNew t (x.slot, tag)) v fun _ v' =>
      v'.slots.size = v.slots.size ∧ Filled root site places (done ++ [(x.slot, tag)]) v' := by
  have hmem : x ∈ places := hx ▸ mem_append_right _ mem_cons_self
  have hcreated := h.create tag
  have hfresh := fresh_create h.arranged.sound (.element .html tag [])
  have hvacant : v.node? x.slot = none :=
    h.pending x hmem hown fun hdone => Nat.lt_irrefl _ ((hnext x hmem hown).mp hdone)
  have hdue : Due places (v.withTree (v.tree.create (.element .html tag []))) x := by
    refine ⟨hvacant, fun y hy hne => ?_, hnested⟩
    show (v.node? y.slot).isSome ↔ _
    by_cases hyown : y.piece.own = true
    · obtain ⟨op, hop⟩ := Place.exists_op? site hyown
      obtain ⟨n, hn, -⟩ := h.created y hy op hop
      simp [hn, hyown]
    · rw [Bool.not_eq_true] at hyown
      rw [← hnext y hy hyown, hyown]
      constructor
      · intro hsome
        by_contra hnot
        rw [h.pending y hy hyown fun hdone => hnot (.inr hdone)] at hsome
        cases hsome
      · rintro (hfalse | hdone)
        · cases hfalse
        · obtain ⟨d, hd, hslot⟩ := mem_map.mp hdone
          obtain ⟨n, hn, -⟩ := h.attached d hd
          rw [← hslot, hn]
          rfl
  unfold attachNew
  refine Yields.andThen Live.yields_create ?_
  refine (yields_attach hcreated.arranged hr hx hown hdue hfresh hlt).bind ?_
  rintro _ v' ⟨harranged, hslots, hcontent⟩
  have hnode : ∀ k : Nat, v'.node? k = if k = x.slot then some v.tree.size else v.node? k := by
    intro k
    have hset : v'.node? k =
        ((v.withTree (v.tree.create (.element .html tag []))).set x.slot (.node v.tree.size)).node? k := by
      unfold LiveView.node?
      rw [hslots]
    exact hset.trans (node?_set (v := v.withTree _) hlt v.tree.size k)
  refine yields_pure ⟨?_, harranged, fun y hy op hop => ?_, fun y hy hyown hpending => ?_, fun d hd => ?_⟩
  · rw [hslots]
    exact size_set _ _ _
  · obtain ⟨n, hn, hc⟩ := hcreated.created y hy op hop
    refine ⟨n, ?_, (hcontent n).trans hc⟩
    rw [hnode, if_neg]
    · exact hn
    · intro heq
      have hyown := (Place.own_of_op? hop).1
      rw [hr.eq_of_slot hy hmem heq, hown] at hyown
      cases hyown
  · rw [map_append, mem_append, not_or] at hpending
    have hne : y.slot ≠ x.slot := fun heq => hpending.2 (heq ▸ mem_singleton_self _)
    rw [hnode, if_neg hne]
    exact h.pending y hy hyown hpending.1
  · rcases mem_append.mp hd with hd | hd
    · obtain ⟨n, hn, hc⟩ := hcreated.attached d hd
      refine ⟨n, ?_, (hcontent n).trans hc⟩
      rw [hnode, if_neg]
      · exact hn
      · intro heq
        have hn' : v.node? d.1 = some n := hn
        rw [heq, hvacant] at hn'
        cases hn'
    · rw [mem_singleton.mp hd]
      exact ⟨v.tree.size, by rw [hnode, if_pos rfl], (hcontent _).trans (Tree.content?_create_size _ _)⟩

section

variable (hr : Reflects t places)
include hr

theorem Reflects.exists_place (hs : s ∈ slotsOf (places.map Place.entry)) :
    ∃ x ∈ places, x.piece.own = false ∧ x.slot = s := by
  obtain ⟨e, he, hslot⟩ := mem_filterMap.mp hs
  obtain ⟨x, hx, rfl⟩ := mem_map.mp he
  cases hpiece : x.piece with
  | placeholder k =>
    rw [Place.entry, hpiece] at hslot
    cases hslot
    exact ⟨x, hx, by rw [hpiece]; rfl, hr.placeholder x hx s hpiece⟩
  | text value =>
    rw [Place.entry, hpiece] at hslot
    cases hslot
  | icu main =>
    rw [Place.entry, hpiece] at hslot
    cases hslot

theorem Reflects.slot_mem (hx : x ∈ places) (hown : x.piece.own = false) :
    x.slot ∈ slotsOf (places.map Place.entry) := by
  obtain ⟨k, hpiece⟩ := Piece.exists_slot hown
  rw [hr.placeholder x hx k hpiece]
  exact Place.mem_slotsOf hx hpiece

theorem Reflects.next {done rest : List Nat} (hsorted : (done ++ x.slot :: rest).Pairwise (· < ·))
    (hslots : ∀ s, s ∈ done ++ x.slot :: rest ↔ s ∈ slotsOf (places.map Place.entry)) : Next places done x := by
  intro y hy hyown
  obtain ⟨-, hrest, hdone⟩ := pairwise_append.mp hsorted
  constructor
  · exact fun hin => hdone _ hin _ mem_cons_self
  · intro hlt
    rcases mem_append.mp ((hslots y.slot).mpr (hr.slot_mem hy hyown)) with hin | hin
    · exact hin
    rcases mem_cons.mp hin with hsame | hin
    · omega
    · have := (pairwise_cons.mp hrest).1 _ hin
      omega

theorem yields_attachAll_filled {tags : List (Nat × String)}
    (hnested : ∀ y ∈ places, y.piece.own = false → ∀ s, y.frame = some s → s < y.slot)
    (hsorted : (tags.map (·.1)).Pairwise (· < ·))
    (hslots : ∀ s, s ∈ tags.map (·.1) ↔ s ∈ slotsOf (places.map Place.entry)) :
    ∀ (rest done : List (Nat × String)) (v : LiveView), tags = done ++ rest → v.slots.size = t.size →
      Filled root site places done v → Yields ((rest.map fun d => ((d.1 : Int), d.2)).forM (attachNew t)) v fun _ v' =>
          Filled root site places tags v'
  | [], done, v, htags, _, h => by
    rw [append_nil] at htags
    exact yields_pure (htags ▸ h)
  | (s, tag) :: rest, done, v, htags, hsize, h => by
    have hmem : s ∈ tags.map (·.1) := by
      rw [htags, map_append]
      exact mem_append_right _ mem_cons_self
    obtain ⟨x, hx, hown, rfl⟩ := hr.exists_place ((hslots s).mp hmem)
    obtain ⟨before, after, hsplit⟩ := append_of_mem hx
    have heq : tags.map (·.1) = done.map (·.1) ++ x.slot :: rest.map (·.1) := by rw [htags, map_append, map_cons]
    have hnext := hr.next (heq ▸ hsorted) (heq ▸ hslots)
    refine yields_forM_cons (yields_attachNew_filled h hr hsplit hown (hsize.symm ▸ hr.slot_lt hx) hnested hnext tag)
      fun v' hv' => ?_
    exact yields_attachAll_filled hnested hsorted hslots rest (done ++ [(x.slot, tag)]) v'
      (by rw [htags, append_assoc]; rfl) (hv'.1.trans hsize) hv'.2

end

theorem yields_start_begun (ho : Outlined site t block outline places) (host : String) (locale : Locale) :
    Yields (LiveBlock.start block) (.new t (some host) locale) fun b v =>
      b = ⟨block, .new⟩ ∧ v.slots.size = t.size ∧ Begun 0 site places places v := by
  unfold LiveBlock.start
  rw [ho.create_eq]
  refine (yields_applyCreate_begun ho.reflects (fun x hx => ho.reflects.slot_lt hx) places [] _ rfl
    Array.size_replicate (begun_new site t host locale places)).bind ?_
  exact fun _ v hv => yields_pure ⟨rfl, hv⟩

theorem yields_prepare_filled (site : Site) (ho : Outlined site t block outline places) {tags : List (Nat × String)}
    (hnested : ∀ y ∈ places, y.piece.own = false → ∀ s, y.frame = some s → s < y.slot)
    (hsorted : (tags.map (·.1)).Pairwise (· < ·))
    (hslots : ∀ s, s ∈ tags.map (·.1) ↔ s ∈ slotsOf outline) (host : String) (locale : Locale) :
    Yields (LiveBlock.prepare t block (tags.map fun d => ((d.1 : Int), d.2))) (.new t (some host) locale)
      fun b v => b = ⟨block, .new⟩ ∧ Filled 0 site places tags v := by
  refine (yields_start_begun ho host locale).bind ?_
  rintro _ v ⟨rfl, hsize', hbegun⟩
  rw [← ho.entries] at hslots
  refine (yields_attachAll_filled ho.reflects hnested hsorted hslots tags [] v rfl hsize' ⟨hbegun.arranged,
    hbegun.created, fun x hx hown _ => hbegun.vacant x hx (.inr hown), by simp⟩).bind ?_
  exact fun _ v' hv' => yields_pure ⟨rfl, hv'⟩

end Fill

/-! ### The tree follows the outline -/

/-- The content of the node for a piece; the element of a placeholder has the tag that it was given. -/
def Piece.content? (site : Site) (tags : List (Nat × String)) : Piece → Option Content
  | .text value => some (.text (initialText value))
  | .icu main => some (.comment (rootLabel site main))
  | .placeholder slot => (tags.lookup slot).map fun tag => .element .html tag []

/-- Of the nodes for the pieces of an outline those directly in a frame. -/
def Message.nodesOf (outline : List (Option Nat × Piece)) (nodes : List Nat) (frame : Option Nat) : List Nat :=
  ((outline.zip nodes).filter (·.1.1 == frame)).map (·.2)

/-- The nodes, one for each piece of the outline, stand where the pieces do. -/
structure LiveView.Follows (root : Nat) (site : Site) (create : List CreateOp) (tags : List (Nat × String))
    (outline : List (Option Nat × Piece)) (nodes : List Nat) (v : LiveView) : Prop where
  length_eq : nodes.length = outline.length
  nodup : (root :: nodes).Nodup
  content : ∀ p ∈ outline.zip nodes, v.tree.content? p.2 = p.1.2.content? site tags
  /-- The nodes of the message's own pieces are those that its instructions have created, in order. -/
  create : create.map (fun op => v.node? op.index) = ((outline.zip nodes).filter (·.1.2.own)).map fun p => some p.2
  top : v.tree.children root = Message.nodesOf outline nodes none
  inside : ∀ p ∈ outline.zip nodes, ∀ slot, p.1.2 = .placeholder slot →
    v.node? slot = some p.2 ∧ v.tree.children p.2 = Message.nodesOf outline nodes (some slot)

section Follows

variable {root : Nat} {site : Site} {t : TemplateView} {places : List Place} {tags : List (Nat × String)}
  {v : LiveView}

def LiveView.nodeOf (v : LiveView) (x : Place) : Nat := (v.node? x.slot).getD 0

theorem Filled.node? (h : Filled root site places tags v) (hr : Reflects t places)
    (hslots : ∀ s, s ∈ tags.map (·.1) ↔ s ∈ slotsOf (places.map Place.entry))
    (hx : x ∈ places) : v.node? x.slot = some (v.nodeOf x) := by
  have hsome : ∃ n, v.node? x.slot = some n := by
    by_cases hown : x.piece.own = true
    · obtain ⟨op, hop⟩ := Place.exists_op? site hown
      obtain ⟨n, hn, -⟩ := h.created x hx op hop
      exact ⟨n, hn⟩
    · rw [Bool.not_eq_true] at hown
      obtain ⟨d, hd, hslot⟩ := mem_map.mp ((hslots x.slot).mpr (hr.slot_mem hx hown))
      obtain ⟨n, hn, -⟩ := h.attached d hd
      exact ⟨n, hslot ▸ hn⟩
  obtain ⟨n, hn⟩ := hsome
  unfold LiveView.nodeOf
  rw [hn]
  rfl

theorem nodesOf_eq_nodesIn (hnode : ∀ x ∈ places, v.node? x.slot = some (v.nodeOf x)) (frame : Option Nat) :
    Message.nodesOf (places.map Place.entry) (places.map v.nodeOf) frame = v.nodesIn places frame := by
  unfold Message.nodesOf LiveView.nodesIn
  rw [zip_map']
  induction places with
  | nil => rfl
  | cons x places ih =>
    have hrest := ih fun y hy => hnode y (mem_cons_of_mem x hy)
    have hx := hnode x mem_cons_self
    have hentry : x.entry.1 = x.frame := rfl
    by_cases hframe : x.frame = frame
    · simp [hentry, hframe, hx, hrest]
    · simp [hentry, hframe, hrest]

theorem create_eq_own (hnode : ∀ x ∈ places, v.node? x.slot = some (v.nodeOf x)) :
    (places.filterMap (·.op? site)).map (fun op => v.node? op.index) =
      (((places.map Place.entry).zip (places.map v.nodeOf)).filter (·.1.2.own)).map fun p => some p.2 := by
  rw [zip_map']
  induction places with
  | nil => rfl
  | cons x places ih =>
    have hrest := ih fun y hy => hnode y (mem_cons_of_mem x hy)
    have hx := hnode x mem_cons_self
    by_cases hown : x.piece.own = true
    · obtain ⟨op, hop⟩ := Place.exists_op? site hown
      obtain ⟨-, hindex, -⟩ := Place.own_of_op? hop
      simp [hop, hindex, Place.entry, hown, hx, hrest]
    · obtain ⟨slot, hpiece⟩ := Piece.exists_slot (Bool.not_eq_true _ ▸ hown)
      have hop : x.op? site = none := by
        unfold Place.op?
        rw [hpiece]
      simp [hop, Place.entry, hown, hrest]

theorem lookup_of_mem {d : Nat × String} (hsorted : (tags.map (·.1)).Pairwise (· < ·)) (hd : d ∈ tags) :
    tags.lookup d.1 = some d.2 := by
  induction tags with
  | nil => cases hd
  | cons first tags ih =>
    obtain ⟨hfirst, hrest⟩ := pairwise_cons.mp hsorted
    rcases mem_cons.mp hd with rfl | hd
    · exact lookup_cons_self
    · have hne : (d.1 == first.1) = false := by
        have hlt : first.1 < d.1 := hfirst d.1 (mem_map_of_mem hd)
        exact beq_eq_false_iff_ne.mpr (Nat.ne_of_gt hlt)
      rw [lookup_cons, hne]
      exact ih hrest hd

theorem Filled.content? (h : Filled root site places tags v) (hr : Reflects t places)
    (hsorted : (tags.map (·.1)).Pairwise (· < ·))
    (hslots : ∀ s, s ∈ tags.map (·.1) ↔ s ∈ slotsOf (places.map Place.entry))
    (hx : x ∈ places) : v.tree.content? (v.nodeOf x) = x.piece.content? site tags := by
  have hnode := h.node? hr hslots hx
  have hcreated : ∀ op, x.op? site = some op → v.tree.content? (v.nodeOf x) = some op.content := by
    intro op hop
    obtain ⟨n, hn, hcontent⟩ := h.created x hx op hop
    cases hnode.symm.trans hn
    exact hcontent
  cases hpiece : x.piece with
  | text value => exact hcreated _ (by unfold Place.op?; rw [hpiece])
  | icu main => exact hcreated _ (by unfold Place.op?; rw [hpiece])
  | placeholder slot =>
    have hslot := hr.placeholder x hx slot hpiece
    obtain ⟨d, hd, heq⟩ := mem_map.mp ((hslots slot).mpr (Place.mem_slotsOf hx hpiece))
    obtain ⟨n, hn, hcontent⟩ := h.attached d hd
    rw [heq, ← hslot, hnode] at hn
    cases hn
    rw [hcontent, Piece.content?, ← heq, lookup_of_mem hsorted hd]
    rfl

theorem Filled.follows (h : Filled root site places tags v)
    (ho : Outlined site t block outline places) (hsorted : (tags.map (·.1)).Pairwise (· < ·))
    (hslots : ∀ s, s ∈ tags.map (·.1) ↔ s ∈ slotsOf outline) :
    v.Follows root site block.create tags outline (places.map v.nodeOf) := by
  obtain ⟨rfl, hr, hcreate⟩ := ho
  have hnode : ∀ x ∈ places, v.node? x.slot = some (v.nodeOf x) := fun x hx => h.node? hr hslots hx
  have hzip : ∀ p ∈ (places.map Place.entry).zip (places.map v.nodeOf), ∃ x ∈ places, p = (x.entry, v.nodeOf x) := by
    intro p hp
    rw [zip_map'] at hp
    obtain ⟨x, hx, rfl⟩ := mem_map.mp hp
    exact ⟨x, hx, rfl⟩
  refine ⟨by simp, nodup_cons.mpr ⟨?_, ?_⟩, fun p hp => ?_, ?_, ?_, fun p hp slot hpiece => ?_⟩
  · intro hmem
    obtain ⟨x, hx, heq⟩ := mem_map.mp hmem
    exact h.arranged.sound.slot_ne x.slot _ (slot_of_node? (hnode x hx)) heq
  · refine List.Nodup.map_on (fun x hx y hy heq => ?_) (List.Nodup.of_map _ hr.slots_nodup)
    refine hr.eq_of_slot hx hy (h.arranged.sound.slot_inj _ _ _ (slot_of_node? (hnode x hx)) ?_)
    rw [heq]
    exact slot_of_node? (hnode y hy)
  · obtain ⟨x, hx, rfl⟩ := hzip p hp
    exact h.content? hr hsorted hslots hx
  · rw [hcreate]
    exact create_eq_own hnode
  · rw [nodesOf_eq_nodesIn hnode]
    exact h.arranged.children none (fun s hs => by cases hs) root h.arranged.host
  · obtain ⟨x, hx, rfl⟩ := hzip p hp
    have hslot := hr.placeholder x hx slot hpiece
    have hx' : v.node? slot = some (v.nodeOf x) := hslot ▸ hnode x hx
    refine ⟨hx', ?_⟩
    rw [nodesOf_eq_nodesIn hnode]
    refine h.arranged.children (some slot) (fun s hs => ?_) _ hx'
    cases hs
    exact ⟨x, hx, hpiece⟩

end Follows

/-- **Placeholders land where the message has them.** Let no placeholder of an accepted message be opened
twice, and let those inside another have larger slots. After the message was started in a new view and every
placeholder got a new element, in the order of the slots, there is one node for each piece of the outline, and
the children of the host and of every element are the nodes for what the message has directly in that frame,
in the order of the message. -/
theorem children_prepared {t : TemplateView} (hs : t.Sound) {cfg : Config} {site : Site} {message : String}
    {scope : Message.Scope} {handle : Handle}
    (hslot : ∀ serial block, t.slot? site.index ≠ some (.block serial block))
    (h : (t.compile cfg site message scope).result = .ok handle)
    (honce : (Message.slotsOf (Message.outline scope message)).Nodup)
    (hnested : ∀ outer inner : Nat, (some outer, Piece.placeholder inner) ∈ Message.outline scope message →
      outer < inner)
    {tags : List (Nat × String)} (hsorted : (tags.map (·.1)).Pairwise (· < ·))
    (hslots : ∀ s, s ∈ tags.map (·.1) ↔ s ∈ Message.slotsOf (Message.outline scope message)) (host : String)
    (locale : Locale) :
    ∃ r nodes, (LiveBlock.prepare (t.compile cfg site message scope).view handle.block
        (tags.map fun d => ((d.1 : Int), d.2))).run
          ⟨.new (t.compile cfg site message scope).view (some host) locale, [], []⟩ = .ok ⟨handle.block, .new⟩ r ∧
      r.view.Follows 0 site handle.block.create tags (Message.outline scope message) nodes := by
  obtain ⟨places, ho⟩ := exists_outlined hs hslot h honce
  have hplaces : ∀ y ∈ places, y.piece.own = false → ∀ s, y.frame = some s → s < y.slot := by
    intro y hy hown s hframe
    obtain ⟨slot, hpiece⟩ := Piece.exists_slot hown
    rw [ho.reflects.placeholder y hy slot hpiece]
    refine hnested s slot ?_
    rw [← ho.entries]
    exact List.mem_map.mpr ⟨y, hy, by rw [Place.entry, hframe, hpiece]⟩
  obtain ⟨b, r, hrun, rfl, hfilled⟩ := yields_prepare_filled site ho hplaces hsorted hslots host locale
    ⟨.new (t.compile cfg site message scope).view (some host) locale, [], []⟩ rfl
  exact ⟨r, _, hrun, hfilled.follows ho hsorted hslots⟩

/-- Two placeholders in an order that is not that of their slots, with a third inside one of them, in front of
an expression. -/
def crossedMessage : String := "a�#2�b�#3�c�/#3��/#2��*1:0��/*1:0�\x7b�0�, select, other \x7bx\x7d\x7d"

theorem outline_crossedMessage : Message.outline .root crossedMessage =
    [(none, .text "a"), (none, .placeholder 24), (some 24, .text "b"), (some 24, .placeholder 25),
      (some 25, .text "c"), (none, .placeholder 23), (none, .icu 0)] := by
  decide +kernel

theorem children_prepared_crossed :
    ∃ handle r nodes, ((TemplateView.new 4 1).compile .standard ⟨-1, 22⟩ crossedMessage .root).result = .ok handle ∧
      (LiveBlock.prepare ((TemplateView.new 4 1).compile .standard ⟨-1, 22⟩ crossedMessage .root).view handle.block
          ([(23, "i"), (24, "b"), (25, "u")].map fun d => ((d.1 : Int), d.2))).run
            ⟨.new ((TemplateView.new 4 1).compile .standard ⟨-1, 22⟩ crossedMessage .root).view (some "div") .standard,
              [], []⟩ = .ok ⟨handle.block, .new⟩ r ∧
      r.view.Follows 0 ⟨-1, 22⟩ handle.block.create [(23, "i"), (24, "b"), (25, "u")]
        (Message.outline .root crossedMessage) nodes := by
  have haccepted : ((TemplateView.new 4 1).compile .standard ⟨-1, 22⟩ crossedMessage .root).result.isOk = true := by
    decide +kernel
  obtain ⟨handle, h⟩ : ∃ handle,
      ((TemplateView.new 4 1).compile .standard ⟨-1, 22⟩ crossedMessage .root).result = .ok handle := by
    cases hresult : ((TemplateView.new 4 1).compile .standard ⟨-1, 22⟩ crossedMessage .root).result with
    | ok handle => exact ⟨handle, rfl⟩
    | error e =>
      rw [hresult] at haccepted
      cases haccepted
  have honce : (Message.slotsOf (Message.outline .root crossedMessage)).Nodup := by
    rw [outline_crossedMessage]
    decide
  have hnested : ∀ outer inner : Nat, (some outer, Piece.placeholder inner) ∈ Message.outline .root crossedMessage →
      outer < inner := by
    rw [outline_crossedMessage]
    intro outer inner hmem
    simp only [List.mem_cons, Prod.mk.injEq, Option.some.injEq, Piece.placeholder.injEq, reduceCtorEq, and_false,
      false_and, false_or, or_false, List.not_mem_nil] at hmem
    omega
  have hslots : ∀ s, s ∈ [(23, "i"), (24, "b"), (25, "u")].map (·.1) ↔
      s ∈ Message.slotsOf (Message.outline .root crossedMessage) := by
    rw [outline_crossedMessage]
    intro s
    simp only [Message.slotsOf, List.map_cons, List.map_nil, List.filterMap_cons, Piece.slot?, List.filterMap_nil,
      List.mem_cons, List.not_mem_nil, or_false]
    omega
  obtain ⟨r, nodes, hrun, hfollows⟩ := children_prepared (TemplateView.Reachable.new 4 1).sound
    (fun serial block hslot => by cases hslot) h honce hnested (by decide) hslots "div" .standard
  exact ⟨handle, r, nodes, h, hrun, hfollows⟩

end MessageCompiler
