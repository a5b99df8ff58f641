/-
Attaching elements and binding values in any order.

The elements for the placeholders of a message may be attached before values are bound, afterwards, or in
between. The host shows the same in the end, unless an element is attached after values were bound although
an expression stands directly inside its placeholder or directly behind it: the content of an expression goes
in front of its anchor, once, and does not follow when elements arrive later.
-/
import MessageCompiler.Proofs.Ahead
import MessageCompiler.Proofs.Placement

namespace MessageCompiler

open List
open Markup (Content Move Tree)
open Live LiveView

/-! ### Calls -/

/-- What is done with a running message. -/
inductive Call where
  /-- The element with a number goes to the placeholder in a slot. -/
  | attach (slot element : Nat)
  | update (values : List String)

def Call.isAttach : Call → Bool
  | .attach _ _ => true
  | .update _ => false

namespace LiveBlock

def call (t : TemplateView) (elements : List Nat) (b : LiveBlock) : Call → LiveM LiveBlock
  | .attach slot element => do
    match elements[element]? with
    | some id =>
      let _ ← Live.attach t slot id
      return b
    | none => return b
  | .update values => b.update t values

def callAll (t : TemplateView) (elements : List Nat) (b : LiveBlock) (calls : List Call) : LiveM LiveBlock :=
  calls.foldlM (call t elements) b

/-- Starts a message, creates elements for its placeholders, and makes the calls. -/
def play (t : TemplateView) (block : Block) (tags : List String) (calls : List Call) : LiveM LiveBlock := do
  let b ← LiveBlock.start block
  let elements ← tags.mapM createElement
  b.callAll t elements calls

end LiveBlock

def played (t : TemplateView) (block : Block) (host : String) (locale : Locale) (tags : List String)
    (calls : List Call) : Except Fault (List Markup.Node) :=
  match (LiveBlock.play t block tags calls).run ⟨.new t (some host) locale, [], []⟩ with
  | .ok _ r => .ok (Command.hostNodes r.view)
  | .error e _ => .error e

def Call.attachedFirst (calls : List Call) : List Call :=
  calls.filter Call.isAttach ++ calls.filter fun c => !c.isAttach

/-- No expression stands directly inside the placeholder, and none directly behind it. -/
def TemplateView.Apart (t : TemplateView) (slot : Int) : Prop :=
  ∀ node, t.node? slot = some node → ∀ k, k ∈ node.children ∨ node.insertBefore = some k → t.icu? k = none

/-! ### Attaching as a patch -/

def TemplateNode.moves (node : TemplateNode) (id : Nat) (v : LiveView) : List Move :=
  ((node.around? v).map fun p => ⟨p, id, node.insertBefore.bind v.node?⟩).toList ++
    node.children.filterMap fun child => (v.node? child).map fun n => ⟨id, n, none⟩

/-- The moves by which elements take their places, one after the other. -/
def movesFor (t : TemplateView) : List (Nat × Nat) → LiveView → List Move
  | [], _ => []
  | d :: rest, v =>
    ((t.node? d.1).map (·.moves d.2 (v.set d.1 (.node d.2)))).getD [] ++ movesFor t rest (v.set d.1 (.node d.2))

def patchFor (t : TemplateView) (attached : List (Nat × Nat)) (v : LiveView) : Patch :=
  ⟨attached, movesFor t attached v⟩

section Patch

variable {t : TemplateView} {v v' : LiveView} {id : Nat}

theorem movesFor_cons {d : Nat × Nat} {node : TemplateNode} (h : t.node? d.1 = some node) (rest : List (Nat × Nat)) :
    movesFor t (d :: rest) v = node.moves d.2 (v.set d.1 (.node d.2)) ++ movesFor t rest (v.set d.1 (.node d.2)) := by
  rw [movesFor, h]
  rfl

theorem yields_adopt_moves : ∀ (children : List Int) (v : LiveView),
    Yields (children.forM (adopt id)) v fun _ w => w = v.withTree (v.tree.moveAll
      (children.filterMap fun child => (v.node? child).map fun n => ⟨id, n, none⟩))
  | [], v => yields_pure rfl
  | child :: rest, v => by
    have hnext : ∀ tree, Yields (rest.forM (adopt id)) (v.withTree tree) fun _ w => w = v.withTree (tree.moveAll
        (rest.filterMap fun child => (v.node? child).map fun n => ⟨id, n, none⟩)) := fun tree =>
      yields_adopt_moves rest (v.withTree tree)
    cases hnode : v.node? child with
    | none =>
      simp only [filterMap_cons, hnode]
      refine yields_forM_cons (P := fun _ w => w = v) ?_ fun w hw => hw ▸ hnext v.tree
      refine Yields.andThen yields_node? ?_
      rw [hnode]
      exact yields_pure rfl
    | some n =>
      simp only [filterMap_cons, hnode]
      refine yields_forM_cons (P := fun _ w => w = v.withTree (v.tree.append id n)) ?_ fun w hw => ?_
      · refine Yields.andThen yields_node? ?_
        rw [hnode]
        exact yields_change rfl
      · rw [hw]
        refine (hnext _).mono fun _ w' hw' => ?_
        rw [hw', ← Tree.insertBefore_none]
        rfl

theorem yields_attach_patched {slot : Nat} {node : TemplateNode} (hnode : t.node? slot = some node)
    (htype : node.type = .placeholder) (hlt : slot < v.slots.size) :
    Yields (attach t slot id) v fun _ w => w = v.patched (patchFor t [(slot, id)] v) := by
  have hmoves : movesFor t [(slot, id)] v = node.moves id (v.set slot (.node id)) :=
    (movesFor_cons hnode []).trans (append_nil _)
  unfold Live.attach
  rw [hnode]
  dsimp only
  rw [if_pos htype]
  refine Yields.bind (P := fun _ w => w = v.patched (patchFor t [(slot, id)] v)) ?_ fun _ w hw => yields_pure hw
  rw [attachNode_eq]
  refine Yields.andThen (yields_setSlot hlt) ?_
  refine yields_get fun r hr => ?_
  rw [hr]
  have haround : ({ node with index := (slot : Int) } : TemplateNode).around? (v.set slot (.node id)) =
      node.around? (v.set slot (.node id)) := rfl
  rw [haround]
  unfold patched patchFor
  rw [hmoves]
  unfold TemplateNode.moves
  cases node.around? (v.set slot (.node id)) with
  | none => exact yields_adopt_moves node.children _
  | some p =>
    refine Yields.andThen yields_change ?_
    exact yields_adopt_moves node.children _

theorem movesFor_withTree (attached : List (Nat × Nat)) (v : LiveView) (tree : Tree) :
    movesFor t attached (v.withTree tree) = movesFor t attached v := by
  induction attached generalizing v with
  | nil => rfl
  | cons d rest ih =>
    have hrest := ih (v.set d.1 (.node d.2))
    simp only [movesFor]
    rw [← hrest]
    rfl

theorem patched_cons (d : Nat × Nat) (rest : List (Nat × Nat)) (v : LiveView) : v.patched (patchFor t (d :: rest) v) =
      (v.patched (patchFor t [d] v)).patched (patchFor t rest (v.patched (patchFor t [d] v))) := by
  have hfirst : v.patched (patchFor t [d] v) =
      (v.set d.1 (.node d.2)).withTree (v.tree.moveAll (movesFor t [d] v)) := rfl
  have hmoves : movesFor t (d :: rest) v = movesFor t [d] v ++ movesFor t rest (v.set d.1 (.node d.2)) := by
    simp only [movesFor, append_nil]
  rw [hfirst, patched_withTree]
  unfold patched patchFor
  rw [hmoves, movesFor_withTree]
  unfold Tree.moveAll
  rw [foldl_append]
  rfl

end Patch

/-! ### Calls on the stage -/

/-- Slots outside of expressions hold old nodes, and only the slots of anchors hold anchors. -/
structure Stage.Ready (S : Stage) (v : LiveView) : Prop where
  onStage : v.OnStage S v
  host_lt : ∀ h, v.host = some h → h < S.limit
  outside : ∀ s, s ∉ S.inner → ∀ n, v.slots[s]? = some (.node n) → n < S.limit ∧ (s ∉ S.anchors → n ∉ S.calm)

/-- Elements may be attached to the placeholder in the slot, which is none of the slots that updates work
with: the slots that its template node refers to are outside of expressions. -/
structure Stage.Open (S : Stage) (t : TemplateView) (slot : Nat) (node : TemplateNode) : Prop where
  node_eq : t.node? slot = some node
  type_eq : node.type = .placeholder
  slot_notMem : slot ∉ S.anchors ∧ slot ∉ S.texts ∧ slot ∉ S.inner
  refers : ∀ i, node.parent = some i ∨ node.insertBefore = some i ∨ i ∈ node.children → ∃ k : Nat, i = k ∧ k ∉ S.inner

section Ready

variable {S : Stage} {t : TemplateView} {v w : LiveView} {slot id : Nat} {node : TemplateNode}

theorem Stage.Ready.node? (h : S.Ready v) {k n : Nat} (hk : k ∉ S.inner) (hn : v.node? k = some n) :
    n < S.limit ∧ (k ∉ S.anchors → n ∉ S.calm) :=
  h.outside k hk n (slot_of_node? hn)

theorem Stage.Ready.set (h : S.Ready v) (hslot : slot ∉ S.anchors ∧ slot ∉ S.texts ∧ slot ∉ S.inner)
    (hlt : slot < v.slots.size) (hid : id < S.limit) (hcalm : id ∉ S.calm) : S.Ready (v.set slot (.node id)) := by
  have hslots := slots_set hlt (.node id)
  obtain ⟨hanchors, -, hinner⟩ := hslot
  have hstage := h.onStage
  refine ⟨{ hstage with
    host_eq := rfl
    size_eq := rfl
    inner_lt := fun s hs => (size_set v slot _).symm ▸ hstage.inner_lt s hs
    inner := fun s hs n hn => ?_
    anchors := fun s hs => ⟨(hstage.anchors s hs).1, fun n hn => ?_⟩
    outside := fun _ _ => rfl }, h.host_lt, fun s hs n hn => ?_⟩
  · rw [hslots, if_neg (by rintro rfl; exact hinner hs)] at hn
    exact hstage.inner s hs n hn
  · rw [hslots, if_neg (by rintro rfl; exact hanchors hs)] at hn
    exact (hstage.anchors s hs).2 n hn
  · rw [hslots] at hn
    split at hn
    · cases hn
      exact ⟨hid, fun _ => hcalm⟩
    · exact h.outside s hs n hn

theorem Stage.Ready.update (h : S.Ready v) (hw : w.OnStage S v) : S.Ready w where
  onStage := hw.self
  host_lt k hk := h.host_lt k (hw.host_eq ▸ hk)
  outside s hs n hn := h.outside s hs n (hw.outside s hs ▸ hn)

theorem Stage.Ready.below_moves (h : S.Ready v) (ho : S.Open t slot node) (hid : id < S.limit) :
    ∀ m ∈ node.moves id v, m.Below S.limit := by
  intro m hm
  rcases mem_append.mp hm with hm | hm
  · obtain ⟨p, hp, rfl⟩ := Option.map_eq_some_iff.mp (Option.mem_toList.mp hm)
    refine ⟨?_, hid, fun r hr => ?_⟩
    · unfold TemplateNode.around? at hp
      cases hparent : node.parent with
      | none =>
        rw [hparent] at hp
        exact h.host_lt p hp
      | some i =>
        rw [hparent] at hp
        obtain ⟨k, rfl, hk⟩ := ho.refers i (.inl hparent)
        exact (h.node? hk hp).1
    · obtain ⟨i, hi, hr⟩ := Option.bind_eq_some_iff.mp hr
      obtain ⟨k, rfl, hk⟩ := ho.refers i (.inr (.inl hi))
      exact (h.node? hk hr).1
  · obtain ⟨i, hi, hm⟩ := mem_filterMap.mp hm
    obtain ⟨n, hn, rfl⟩ := Option.map_eq_some_iff.mp hm
    obtain ⟨k, rfl, hk⟩ := ho.refers i (.inr (.inr hi))
    exact ⟨hid, (h.node? hk hn).1, fun r hr => by cases hr⟩

theorem Stage.Ready.clear_moves (h : S.Ready v) (ho : S.Open t slot node) (hcalm : id ∉ S.calm)
    (hanchors : ∀ s ∈ S.anchors, t.icu? s ≠ none) (hapart : t.Apart slot) :
    ∀ m ∈ node.moves id v, m.Clear S.calm := by
  have hnot : ∀ {i : Int} {n : Nat}, i ∈ node.children ∨ node.insertBefore = some i → v.node? i = some n →
      n ∉ S.calm := by
    intro i n hi hn
    obtain ⟨k, rfl, hk⟩ := ho.refers i (.inr hi.symm)
    exact (h.node? hk hn).2 fun hmem => hanchors k hmem (hapart node ho.node_eq k hi)
  intro m hm
  rcases mem_append.mp hm with hm | hm
  · obtain ⟨p, hp, rfl⟩ := Option.map_eq_some_iff.mp (Option.mem_toList.mp hm)
    refine ⟨hcalm, fun r hr => ?_⟩
    obtain ⟨i, hi, hr⟩ := Option.bind_eq_some_iff.mp hr
    exact hnot (.inr hi) hr
  · obtain ⟨i, hi, hm⟩ := mem_filterMap.mp hm
    obtain ⟨n, hn, rfl⟩ := Option.map_eq_some_iff.mp hm
    exact ⟨hnot (.inl hi) hn, fun r hr => by cases hr⟩

theorem Stage.Open.moves_congr (ho : S.Open t slot node) (hhost : w.host = v.host)
    (hslots : ∀ s, s ∉ S.inner → w.slots[s]? = v.slots[s]?) : node.moves id w = node.moves id v := by
  have hnode : ∀ i, node.parent = some i ∨ node.insertBefore = some i ∨ i ∈ node.children → w.node? i = v.node? i := by
    intro i hi
    obtain ⟨k, rfl, hk⟩ := ho.refers i hi
    rw [node?_natCast, node?_natCast, hslots k hk]
  have haround : node.around? w = node.around? v := by
    unfold TemplateNode.around?
    cases hparent : node.parent with
    | none => exact hhost
    | some i => exact hnode i (.inl hparent)
  have href : node.insertBefore.bind w.node? = node.insertBefore.bind v.node? := by
    cases hbefore : node.insertBefore with
    | none => rfl
    | some i => exact hnode i (.inr (.inl hbefore))
  unfold TemplateNode.moves
  rw [haround, href]
  congr 1
  refine filterMap_congr fun i hi => ?_
  rw [hnode i (.inr (.inr hi))]

variable {attached : List (Nat × Nat)}

theorem movesFor_congr (hattached : ∀ d ∈ attached, ∃ node, S.Open t d.1 node) (hhost : w.host = v.host)
    (hsize : w.slots.size = v.slots.size) (hslots : ∀ s, s ∉ S.inner → w.slots[s]? = v.slots[s]?) :
    movesFor t attached w = movesFor t attached v := by
  induction attached generalizing v w with
  | nil => rfl
  | cons d rest ih =>
    obtain ⟨node, ho⟩ := hattached d mem_cons_self
    have hset : ∀ s, s ∉ S.inner → (w.set d.1 (.node d.2)).slots[s]? = (v.set d.1 (.node d.2)).slots[s]? := by
      intro s hs
      show (w.slots.setIfInBounds d.1 (.node d.2))[s]? = (v.slots.setIfInBounds d.1 (.node d.2))[s]?
      grind
    have hsize' : (w.set d.1 (.node d.2)).slots.size = (v.set d.1 (.node d.2)).slots.size := by
      rw [size_set, size_set, hsize]
    rw [movesFor_cons ho.node_eq, movesFor_cons ho.node_eq,
      ho.moves_congr (v := v.set d.1 (.node d.2)) (w := w.set d.1 (.node d.2)) hhost hset,
      ih (v := v.set d.1 (.node d.2)) (w := w.set d.1 (.node d.2)) (fun d' hd' => hattached d' (mem_cons_of_mem d hd'))
        hhost hsize' hset]

theorem Stage.Ready.fits (h : S.Ready v) (hanchors : ∀ s ∈ S.anchors, t.icu? s ≠ none)
    (hattached : ∀ d ∈ attached, d.1 < v.slots.size ∧ d.2 < S.limit ∧ d.2 ∉ S.calm ∧ t.Apart d.1 ∧
      ∃ node, S.Open t d.1 node) : (patchFor t attached v).Fits S := by
  have hmoves : ∀ m ∈ movesFor t attached v, m.Below S.limit ∧ m.Clear S.calm := by
    induction attached generalizing v with
    | nil => exact fun m hm => absurd hm not_mem_nil
    | cons d rest ih =>
      obtain ⟨hlt, hid, hcalm, hapart, node, ho⟩ := hattached d mem_cons_self
      have hready := h.set ho.slot_notMem hlt hid hcalm
      intro m hm
      rw [movesFor_cons ho.node_eq] at hm
      rcases mem_append.mp hm with hm | hm
      · exact ⟨hready.below_moves ho hid m hm, hready.clear_moves ho hcalm hanchors hapart m hm⟩
      · grind [mem_cons_of_mem, size_set]
  refine ⟨fun d hd => ?_, fun m hm => (hmoves m hm).1, fun m hm => (hmoves m hm).2⟩
  obtain ⟨-, -, -, -, node, ho⟩ := hattached d hd
  exact ho.slot_notMem

theorem Stage.Ready.patched (h : S.Ready v) (ho : S.Open t slot node) (hlt : slot < v.slots.size)
    (hid : id < S.limit) (hcalm : id ∉ S.calm) : S.Ready (v.patched (patchFor t [(slot, id)] v)) := by
  have hready := h.set ho.slot_notMem hlt hid hcalm
  have hmoves : movesFor t [(slot, id)] v = node.moves id (v.set slot (.node id)) :=
    (movesFor_cons ho.node_eq []).trans (append_nil _)
  have hbelow : ∀ m ∈ movesFor t [(slot, id)] v, m.Below S.limit := hmoves ▸ hready.below_moves ho hid
  have heq : v.patched (patchFor t [(slot, id)] v) =
      (v.set slot (.node id)).withTree (v.tree.moveAll (movesFor t [(slot, id)] v)) := rfl
  rw [heq]
  refine ⟨(hready.onStage.withTree (h.onStage.linked.moveAll fun m hm => (hbelow m hm).le h.onStage.limit_le)
    (Tree.size_moveAll _ _)).self, hready.host_lt, hready.outside⟩

end Ready

/-! ### Calls in any order -/

def Call.attached (elements : List Nat) (calls : List Call) : List (Nat × Nat) :=
  calls.filterMap fun
    | .attach slot element => elements[element]?.map (slot, ·)
    | .update _ => none

/-- The call attaches an element that was there before the updates to a placeholder. -/
def Call.Legal (S : Stage) (t : TemplateView) (elements : List Nat) (n : Nat) (c : Call) : Prop :=
  ∀ slot element, c = .attach slot element → slot < n ∧ (∃ node, S.Open t slot node) ∧
    ∀ id, elements[element]? = some id → id < S.limit ∧ id ∉ S.calm

/-- Elements that are attached after an update go to placeholders that stand apart. -/
def Call.Careful (t : TemplateView) (first later : Call) : Prop :=
  first.isAttach = false → ∀ slot element, later = .attach slot element → t.Apart slot

section Calls

variable {S : Stage} {t : TemplateView} {elements : List Nat} {v : LiveView} {calls : List Call} {b : LiveBlock}

theorem Call.mem_attached {d : Nat × Nat} (h : d ∈ Call.attached elements calls) :
    ∃ element, .attach d.1 element ∈ calls ∧ elements[element]? = some d.2 := by
  obtain ⟨c, hc, hd⟩ := mem_filterMap.mp h
  cases c with
  | attach slot element =>
    obtain ⟨id, hid, rfl⟩ := Option.map_eq_some_iff.mp hd
    exact ⟨element, hc, hid⟩
  | update values => cases hd

theorem Call.attached_attach (slot element : Nat) :
    Call.attached elements [.attach slot element] = (elements[element]?.map (slot, ·)).toList := by
  cases h : elements[element]? <;> simp [Call.attached, h]

theorem yields_call_attach {slot element : Nat} (hlegal : Call.Legal S t elements v.slots.size (.attach slot element)) :
    Yields (b.call t elements (.attach slot element)) v fun b' w =>
      b' = b ∧ w = v.patched (patchFor t (Call.attached elements [.attach slot element]) v) := by
  obtain ⟨hlt, ⟨node, ho⟩, -⟩ := hlegal slot element rfl
  show Yields (match elements[element]? with | some id => _ | none => _) v _
  cases hid : elements[element]? with
  | none =>
    rw [Call.attached_attach, hid]
    exact yields_pure ⟨rfl, rfl⟩
  | some id =>
    rw [Call.attached_attach, hid]
    exact (yields_attach_patched ho.node_eq ho.type_eq hlt).bind fun _ w hw => yields_pure ⟨rfl, hw⟩

theorem Call.attached_cons (c : Call) (calls : List Call) :
    Call.attached elements (c :: calls) = Call.attached elements [c] ++ Call.attached elements calls := by
  unfold Call.attached
  rw [filterMap_cons, filterMap_cons]
  split <;> rfl

theorem patched_append (l l' : List (Nat × Nat)) (v : LiveView) :
    v.patched (patchFor t (l ++ l') v) = (v.patched (patchFor t l v)).patched (patchFor t l' (v.patched (patchFor t l v))) := by
  induction l generalizing v with
  | nil => rfl
  | cons d rest ih => rw [cons_append, patched_cons, ih, ← patched_cons]

theorem Stage.Ready.attach (h : S.Ready v) {slot element : Nat}
    (hlegal : Call.Legal S t elements v.slots.size (.attach slot element)) :
    S.Ready (v.patched (patchFor t (Call.attached elements [.attach slot element]) v)) := by
  obtain ⟨hlt, ⟨node, ho⟩, hids⟩ := hlegal slot element rfl
  cases hid : elements[element]? with
  | none =>
    rw [Call.attached_attach, hid]
    exact h
  | some id =>
    rw [Call.attached_attach, hid]
    exact h.patched ho hlt (hids id hid).1 (hids id hid).2

theorem size_patched (p : Patch) (v : LiveView) : (v.patched p).slots.size = v.slots.size := size_holding p.held v

theorem yields_attachedFirst (h : S.Ready v) (hlegal : ∀ c ∈ calls, c.Legal S t elements v.slots.size) :
    Yields (b.callAll t elements (calls.filter Call.isAttach)) v fun b' w =>
      b' = b ∧ w = v.patched (patchFor t (Call.attached elements calls) v) := by
  induction calls generalizing v with
  | nil => exact yields_pure ⟨rfl, rfl⟩
  | cons c rest ih =>
    have hrest : ∀ c ∈ rest, c.Legal S t elements v.slots.size := fun c' hc' => hlegal c' (mem_cons_of_mem c hc')
    cases c with
    | update values => exact ih h hrest
    | attach slot element =>
      have hfirst := hlegal _ mem_cons_self
      rw [filter_cons_of_pos (by rfl), Call.attached_cons]
      refine yields_foldlM_cons (yields_call_attach hfirst) ?_
      rintro _ _ ⟨rfl, rfl⟩
      refine (ih (h.attach hfirst) ?_).mono ?_
      · rw [size_patched]
        exact hrest
      · rintro b' w ⟨rfl, rfl⟩
        exact ⟨rfl, (patched_append _ _ v).symm⟩

theorem agree_calls (hanchors : ∀ s ∈ S.anchors, t.icu? s ≠ none) : ∀ (calls : List Call) (b : LiveBlock)
    (v : LiveView) (r r' : Run), S.Ready v → (∀ op ∈ b.block.update, op.OnStage t S) →
      (∀ c ∈ calls, c.Legal S t elements v.slots.size) → calls.Pairwise (Call.Careful t) → r.view = v →
      r'.view = v.patched (patchFor t (Call.attached elements calls) v) →
        Agree (fun _ w w' => w' = w) (b.callAll t elements calls r)
          (b.callAll t elements (calls.filter fun c => !c.isAttach) r')
  | [], b, v, r, r', _, _, _, _, hr, hr' => .ok (hr'.trans hr.symm)
  | .attach slot element :: rest, b, v, r, r', h, hops, hlegal, hcareful, hr, hr' => by
    have hfirst := hlegal _ mem_cons_self
    obtain ⟨b', r₁, hrun, hb, hr₁⟩ := yields_call_attach (b := b) hfirst r hr
    rw [hb] at hrun
    have hcalls : b.callAll t elements (.attach slot element :: rest) r = b.callAll t elements rest r₁ := by
      unfold LiveBlock.callAll
      rw [foldlM_cons]
      show EStateM.bind _ _ r = _
      unfold EStateM.bind
      rw [hrun]
    rw [hcalls]
    rw [Call.attached_cons, patched_append] at hr'
    refine agree_calls hanchors rest b _ r₁ r' (h.attach hfirst) hops (fun c hc => ?_)
      (pairwise_cons.mp hcareful).2 hr₁ hr'
    rw [size_patched]
    exact hlegal c (mem_cons_of_mem _ hc)
  | .update values :: rest, b, v, r, r', h, hops, hlegal, hcareful, hr, hr' => by
    obtain ⟨hfirst, hcareful⟩ := pairwise_cons.mp hcareful
    have hrest : ∀ c ∈ rest, c.Legal S t elements v.slots.size := fun c hc => hlegal c (mem_cons_of_mem _ hc)
    have hattached : ∀ d ∈ Call.attached elements rest, d.1 < v.slots.size ∧ d.2 < S.limit ∧ d.2 ∉ S.calm ∧
        t.Apart d.1 ∧ ∃ node, S.Open t d.1 node := by
      intro d hd
      obtain ⟨element, hmem, hid⟩ := Call.mem_attached hd
      obtain ⟨hlt, hopen, hids⟩ := hrest _ hmem d.1 element rfl
      exact ⟨hlt, (hids d.2 hid).1, (hids d.2 hid).2, hfirst _ hmem rfl d.1 element rfl, hopen⟩
    have hfits := h.fits hanchors hattached
    have hupdate := commutes_update hfits h.onStage hops values r r' hr hr'
    unfold LiveBlock.callAll
    rw [filter_cons_of_pos (by rfl), foldlM_cons, foldlM_cons]
    refine hupdate.bind ?_
    rintro b' s s' ⟨hs', hblock, hs⟩
    refine agree_calls hanchors rest b' s.view s s' (h.update hs) (hblock ▸ hops) (hs.size_eq.symm ▸ hrest) hcareful
      rfl ?_
    rw [hs']
    unfold patchFor
    rw [movesFor_congr (fun d hd => (hattached d hd).2.2.2.2) hs.host_eq hs.size_eq hs.outside]

end Calls

/-! ### The stage of a message -/

def RootItem.isIcu : RootItem → Bool
  | .text _ _ _ => false
  | .icu _ _ _ _ => true

def stageOf (items : List RootItem) (base : LiveView) : Stage where
  limit := base.tree.size
  calm := ((items.filter RootItem.isIcu).map RootItem.slot).filterMap fun s : Nat => base.node? s
  anchors := (items.filter RootItem.isIcu).map RootItem.slot
  texts := (items.filter fun item => !item.isIcu).map RootItem.slot
  inner := items.flatMap RootItem.inner

section Streams

variable {S : Stage} {t : TemplateView}

theorem IcuPlan.Registered.onStage (icu : IcuPlan) (parent : Int) (anchor : Nat) (h : icu.Registered t parent anchor)
    (hanchor : anchor ∈ S.anchors ∨ anchor ∈ S.inner) (hsub : icu.slots ⊆ S.inner) (hnodup : icu.slots.Nodup) :
    ∀ op ∈ icu.stream anchor, op.OnStage t S := by
  intro op hop
  obtain ⟨x, hx, hupdates⟩ := icu.mem_stream parent anchor hop
  have hsublist := (icu.within_posts parent anchor x hx).sublist
  have hx' : x.anchor ∈ S.anchors ∨ x.anchor ∈ S.inner := by
    rcases mem_cons.mp ((icu.anchors_sublist parent anchor).subset (mem_map_of_mem hx)) with heq | hin
    · exact heq ▸ hanchor
    · exact .inr (hsub hin)
  exact .icu x.anchor x.icu x.parent hx' hupdates.target.1 hupdates.target.2 (h.post x hx)
    (List.Subset.trans hsublist.subset hsub) (hnodup.sublist hsublist)

end Streams

section StageOf

variable {t t' : TemplateView} {items : List RootItem} {base : LiveView} {n root : Nat} {locale : Locale}
  {block : Block} {parent : Int}

theorem onStage_of_registered (hregistered : ∀ item ∈ items, item.Registered t parent)
    (hnodup : (items.flatMap RootItem.slots).Nodup) (base : LiveView) :
    ∀ op ∈ items.flatMap RootItem.stream, op.OnStage t (stageOf items base) := by
  intro op hop
  obtain ⟨item, hitem, hop⟩ := mem_flatMap.mp hop
  have hreg := hregistered item hitem
  have hinner : item.inner ⊆ (stageOf items base).inner := fun s hs => mem_flatMap.mpr ⟨item, hitem, hs⟩
  have hnodup : item.inner.Nodup := (nodup_cons.mp ((nodup_flatMap.mp hnodup).1 item hitem)).2
  cases item with
  | text slot value eager =>
    obtain ⟨hwrites, hindex⟩ := textUpdate_writes hop
    exact .writes slot (.inl (mem_map.mpr ⟨_, mem_filter.mpr ⟨hitem, rfl⟩, rfl⟩)) hindex hwrites
  | icu slot label plan eager =>
    exact IcuPlan.Registered.onStage plan parent slot hreg.2
      (.inl (mem_map.mpr ⟨_, mem_filter.mpr ⟨hitem, rfl⟩, rfl⟩)) hinner hnodup op hop

theorem Compiled.onStage (h : Compiled t t' block parent items) (base : LiveView) :
    ∀ op ∈ block.update, op.OnStage t' (stageOf items base) := by
  rw [h.update_eq]
  exact onStage_of_registered h.registered h.increasing.nodup base

theorem Compiled.icu?_ne (h : Compiled t t' block parent items) (base : LiveView) :
    ∀ s ∈ (stageOf items base).anchors, t'.icu? s ≠ none := by
  intro s hs
  obtain ⟨item, hitem, rfl⟩ := mem_map.mp hs
  obtain ⟨hitem, hicu⟩ := mem_filter.mp hitem
  have hreg := h.registered item hitem
  cases item with
  | text slot value eager => cases hicu
  | icu slot label plan eager =>
    rw [RootItem.slot, hreg.2.icu?_eq]
    exact Option.some_ne_none _

theorem LiveView.Prepared.ready (h : base.Prepared root items n locale)
    (hnodup : (items.flatMap RootItem.slots).Nodup) : (stageOf items base).Ready base := by
  have hempty : ∀ s ∈ (stageOf items base).inner, base.slots[s]? = some .empty := by
    intro s hs
    obtain ⟨item, hitem, hs⟩ := mem_flatMap.mp hs
    exact h.inner item hitem s hs
  refine ⟨{
    linked := h.sound.linked
    limit_le := Nat.le_refl _
    host_eq := rfl
    size_eq := rfl
    inner_lt := fun s hs => (Array.getElem?_eq_some_iff.mp (hempty s hs)).1
    inner := fun s hs m hm => ?_
    anchors := fun s hs => ⟨fun hmem => ?_, fun m hm => ⟨?_, h.sound.slot_lt s m hm⟩⟩
    outside := fun _ _ => rfl }, fun k hk => ?_, fun s hs m hm => ⟨h.sound.slot_lt s m hm, fun hanchor hcalm => ?_⟩⟩
  · rw [hempty s hs] at hm
    cases hm
  · obtain ⟨item, hitem, rfl⟩ := mem_map.mp hs
    obtain ⟨other, hother, hmem⟩ := mem_flatMap.mp hmem
    exact slot_notMem_inner hnodup (mem_filter.mp hitem).1 other hother hmem
  · exact mem_filterMap.mpr ⟨s, hs, node?_of_slot hm⟩
  · cases h.host.symm.trans hk
    exact h.sound.root_lt
  · obtain ⟨s', hs', hm'⟩ := mem_filterMap.mp hcalm
    exact hanchor (h.sound.slot_inj s s' m hm (slot_of_node? hm') ▸ hs')

theorem yields_createElements : ∀ (tags : List String) (v : LiveView), v.Prepared root items n locale →
    Yields (tags.mapM createElement) v fun ids w => w.Prepared root items n locale ∧ w.slots = v.slots ∧
      v.tree.size ≤ w.tree.size ∧ ∀ id ∈ ids, v.tree.size ≤ id ∧ id < w.tree.size
  | [], v, h => yields_pure ⟨h, rfl, Nat.le_refl _, by simp⟩
  | tag :: tags, v, h => by
    rw [mapM_cons]
    refine Yields.andThen (a := v.tree.size) Live.yields_create ?_
    refine (yields_createElements tags _ (h.create (.element .html tag []))).bind ?_
    rintro ids w ⟨hw, hslots, hle, hids⟩
    have hsize : (v.withTree (v.tree.create (.element .html tag []))).tree.size = v.tree.size + 1 :=
      v.tree.size_create _
    rw [hsize] at hle hids
    refine yields_pure ⟨hw, hslots, by omega, fun id hid => ?_⟩
    rcases mem_cons.mp hid with rfl | hid
    · omega
    · have := hids id hid
      omega

end StageOf

/-! ### Placeholders of a message -/

section Placeholders

variable {t t' : TemplateView} {site : Site} {items : List RootItem} {block : Block} {parent : Int}
  {outline : List (Option Nat × Piece)} {places : List Place}

section

variable (ho : Message.Outlined site t' block outline places) (hc : Compiled t t' block parent items)
include ho hc

theorem Message.Outlined.exists_item {x : Place} (hx : x ∈ places) (hown : x.piece.own = true) :
    ∃ item ∈ items, item.slot = x.slot := by
  obtain ⟨op, hop⟩ := Place.exists_op? site hown
  obtain ⟨-, hindex, -⟩ := Place.own_of_op? hop
  have hmem : op ∈ block.create := ho.create_eq ▸ mem_filterMap.mpr ⟨x, hx, hop⟩
  rw [hc.create_eq] at hmem
  obtain ⟨item, hitem, rfl⟩ := mem_map.mp hmem
  exact ⟨item, hitem, Int.ofNat_inj.mp (item.index_create.symm.trans hindex)⟩

theorem Message.Outlined.notMem_slots {before after : List Place} {x : Place}
    (hx : places = before ++ x :: after) (hown : x.piece.own = false) : ∀ item ∈ items, x.slot ∉ item.slots := by
  have htype : t'.type? x.slot = some .placeholder := by
    unfold TemplateView.type?
    rw [ho.reflects.node? hx hown]
    rfl
  intro item hitem hmem
  have hreg := hc.registered item hitem
  rcases mem_cons.mp hmem with heq | hmem
  · cases item with
    | text slot value eager =>
      have hslot : x.slot = slot := heq
      rw [hslot, show t'.type? slot = some .text from hreg] at htype
      cases htype
    | icu slot label plan eager =>
      have hslot : x.slot = slot := heq
      rw [hslot, hreg.1] at htype
      cases htype
  · exact hreg.type_ne x.slot hmem htype

theorem Message.Outlined.notMem_inner (base : LiveView) {x : Place} (hx : x ∈ places) :
    x.slot ∉ (stageOf items base).inner := by
  intro hmem
  obtain ⟨item, hitem, hmem⟩ := mem_flatMap.mp hmem
  by_cases hown : x.piece.own = true
  · obtain ⟨other, hother, heq⟩ := ho.exists_item hc hx hown
    exact slot_notMem_inner hc.increasing.nodup hother item hitem (heq ▸ hmem)
  · obtain ⟨before, after, hsplit⟩ := append_of_mem hx
    exact ho.notMem_slots hc hsplit (Bool.not_eq_true _ ▸ hown) item hitem (mem_cons_of_mem _ hmem)

theorem Message.Outlined.exists_open (base : LiveView) {slot : Nat} (hslot : slot ∈ Message.slotsOf outline) :
    slot < t'.size ∧ ∃ node, (stageOf items base).Open t' slot node := by
  rw [← ho.entries] at hslot
  obtain ⟨e, he, hpiece⟩ := mem_filterMap.mp hslot
  obtain ⟨x, hx, rfl⟩ := mem_map.mp he
  have hpiece : x.piece = .placeholder slot := by
    rw [Place.entry] at hpiece
    cases hkind : x.piece <;> rw [hkind] at hpiece <;> cases hpiece
    rfl
  have hown : x.piece.own = false := by
    rw [hpiece]
    rfl
  have hxslot := ho.reflects.placeholder x hx slot hpiece
  obtain ⟨before, after, hsplit⟩ := append_of_mem hx
  have houtside : ∀ p, x.slot ∉ (items.filter p).map RootItem.slot := by
    intro p hmem
    obtain ⟨item, hitem, heq⟩ := mem_map.mp hmem
    exact ho.notMem_slots hc hsplit hown item (mem_filter.mp hitem).1 (heq ▸ mem_cons_self)
  rw [← hxslot]
  refine ⟨ho.reflects.slot_lt hx, x.template places after, ho.reflects.node? hsplit hown, rfl,
    ⟨houtside _, houtside _, ho.notMem_inner hc base hx⟩, ?_⟩
  · -- The template node refers to the placeholder around it and to pieces of the message.
    rintro i (hi | hi | hi)
    · obtain ⟨s, hs, rfl⟩ := Option.map_eq_some_iff.mp hi
      obtain ⟨y, hy, hypiece⟩ := ho.reflects.framed x hx s hs
      exact ⟨s, rfl, ho.reflects.placeholder y hy s hypiece ▸ ho.notMem_inner hc base hy⟩
    · obtain ⟨y, hy, rfl⟩ := Option.map_eq_some_iff.mp hi
      have hmem : y ∈ places :=
        hsplit ▸ mem_append_right _ (mem_cons_of_mem x (mem_of_find?_eq_some hy))
      exact ⟨y.slot, rfl, ho.notMem_inner hc base hmem⟩
    · obtain ⟨s, hs, rfl⟩ := mem_map.mp hi
      obtain ⟨y, hy, rfl⟩ := mem_map.mp hs
      exact ⟨y.slot, rfl, ho.notMem_inner hc base (mem_filter.mp hy).1⟩

end

end Placeholders

section Played

variable {t t' : TemplateView} {items : List RootItem} {block : Block} {parent : Int}

theorem Compiled.exists_run (hc : Compiled t t' block parent items) (host : String) (locale : Locale)
    (tags : List String) :
    ∃ (elements : List Nat) (r : Run), r.view.Prepared 0 items t'.size locale ∧
      (∀ id ∈ elements, id < r.view.tree.size ∧ ∀ s : Nat, r.view.slots[s]? ≠ some (.node id)) ∧
      ∀ calls, LiveBlock.play t' block tags calls ⟨.new t' (some host) locale, [], []⟩ =
        LiveBlock.callAll t' elements ⟨block, .new⟩ calls r := by
  have hlt : ∀ item ∈ items, ∀ s ∈ item.slots, s < t'.size := fun item hitem s hs =>
    (hc.increasing.2.2 s (mem_flatMap.mpr ⟨item, hitem, hs⟩)).2
  have hstart : Yields (LiveBlock.start block) (.new t' (some host) locale) fun b v =>
      b = ⟨block, .new⟩ ∧ v.Prepared 0 items t'.size locale :=
    yields_start_new hc.create_eq hc.increasing.nodup hlt host
  obtain ⟨b, r₁, hrun₁, rfl, hv₁⟩ := hstart ⟨.new t' (some host) locale, [], []⟩ rfl
  obtain ⟨elements, r, hrun, hv, hslots, -, hids⟩ := yields_createElements tags r₁.view hv₁ r₁ rfl
  refine ⟨elements, r, hv, fun id hid => ⟨(hids id hid).2, fun s hs => ?_⟩, fun calls => ?_⟩
  · exact Nat.not_lt_of_le (hids id hid).1 (hv₁.sound.slot_lt s id (hslots ▸ hs))
  · unfold LiveBlock.play
    show EStateM.bind _ _ _ = _
    unfold EStateM.bind
    rw [hrun₁]
    show EStateM.bind _ _ _ = _
    unfold EStateM.bind
    rw [hrun]

theorem agree_attachedFirst {S : Stage} {t : TemplateView} {elements : List Nat} {r : Run} {calls : List Call}
    {b : LiveBlock} (hanchors : ∀ s ∈ S.anchors, t.icu? s ≠ none) (h : S.Ready r.view)
    (hops : ∀ op ∈ b.block.update, op.OnStage t S) (hlegal : ∀ c ∈ calls, c.Legal S t elements r.view.slots.size)
    (hcareful : calls.Pairwise (Call.Careful t)) :
    Agree (fun _ w w' => w' = w) (b.callAll t elements calls r)
      (b.callAll t elements (Call.attachedFirst calls) r) := by
  obtain ⟨b', r', hrun, hb, hr'⟩ := yields_attachedFirst (b := b) h hlegal r rfl
  rw [hb] at hrun
  have hfirst : b.callAll t elements (Call.attachedFirst calls) r =
      b.callAll t elements (calls.filter fun c => !c.isAttach) r' := by
    unfold LiveBlock.callAll at hrun ⊢
    unfold Call.attachedFirst
    rw [foldlM_append]
    show EStateM.bind _ _ _ = _
    unfold EStateM.bind
    rw [hrun]
  rw [hfirst]
  exact agree_calls hanchors calls b r.view r r' h hops hlegal hcareful rfl hr'

end Played

/-- **Attaching and updating commute.** Let no placeholder of an accepted message be opened twice, and let a
new view make any calls that attach elements to its placeholders and bind values, in any order. If elements
that are attached after values were bound go to placeholders that have no expression directly inside or
directly behind them, the host shows the same as when all elements are attached first. -/
theorem played_eq_attachedFirst {t : TemplateView} (hs : t.Sound) {cfg : Config} {site : Site} {message : String}
    {scope : Message.Scope} {handle : Handle}
    (hslot : ∀ serial block, t.slot? site.index ≠ some (.block serial block))
    (h : (t.compile cfg site message scope).result = .ok handle)
    (honce : (Message.slotsOf (Message.outline scope message)).Nodup) (tags : List String) (calls : List Call)
    (hcalls : ∀ slot element, .attach slot element ∈ calls → slot ∈ Message.slotsOf (Message.outline scope message))
    (hcareful : calls.Pairwise (Call.Careful (t.compile cfg site message scope).view)) (host : String)
    (locale : Locale) :
    played (t.compile cfg site message scope).view handle.block host locale tags calls =
      played (t.compile cfg site message scope).view handle.block host locale tags (Call.attachedFirst calls) := by
  obtain ⟨places, ho⟩ := exists_outlined hs hslot h honce
  obtain ⟨items, hc⟩ := compiled_compile hs hslot h
  generalize (t.compile cfg site message scope).view = t' at hc ho hcareful ⊢
  obtain ⟨elements, r, hprepared, helements, hplay⟩ := hc.exists_run host locale tags
  have hlegal : ∀ c ∈ calls, c.Legal (stageOf items r.view) t' elements r.view.slots.size := by
    rintro c hmem slot element rfl
    obtain ⟨hlt, hopen⟩ := ho.exists_open hc r.view (hcalls slot element hmem)
    refine ⟨hprepared.size_eq.symm ▸ hlt, hopen, fun id hid => ?_⟩
    obtain ⟨hidlt, hunheld⟩ := helements id (List.mem_of_getElem? hid)
    refine ⟨hidlt, fun hcalm => ?_⟩
    obtain ⟨s, -, hs⟩ := List.mem_filterMap.mp hcalm
    exact hunheld s (slot_of_node? hs)
  have hagree := agree_attachedFirst (b := ⟨handle.block, .new⟩) (hc.icu?_ne r.view)
    (hprepared.ready hc.increasing.nodup) (hc.onStage r.view) hlegal hcareful
  unfold played EStateM.run
  rw [hplay, hplay]
  generalize LiveBlock.callAll t' elements ⟨handle.block, .new⟩ calls r = o at hagree ⊢
  generalize LiveBlock.callAll t' elements ⟨handle.block, .new⟩ (Call.attachedFirst calls) r = o' at hagree ⊢
  cases hagree with
  | ok hsame => exact congrArg (fun v => Except.ok (Command.hostNodes v)) hsame.symm
  | error => rfl

instance (t : TemplateView) (slot : Int) : Decidable (t.Apart slot) :=
  decidable_of_iff (∀ node ∈ t.node? slot, ∀ k ∈ node.children ++ node.insertBefore.toList, t.icu? k = none) (by
    simp only [TemplateView.Apart, Option.mem_def, List.mem_append, Option.mem_toList])

/-- Two placeholders, one of them behind an expression, the other one in front of a text. -/
def looseMessage : String :=
  "\uFFFD#1\uFFFDx\uFFFD/#1\uFFFDy\x7b\uFFFD0\uFFFD, select, a \x7bm\x7d other \x7bn\x7d\x7d\uFFFD#2\uFFFDz\uFFFD/#2\uFFFD"

theorem outline_looseMessage : Message.outline .root looseMessage =
    [(none, .placeholder 23), (some 23, .text "x"), (none, .text "y"), (none, .icu 0), (none, .placeholder 24),
      (some 24, .text "z")] := by
  decide +kernel

def looseCalls : List Call := [.update ["a"], .attach 23 0, .update ["b"], .attach 24 1, .update ["a"]]

/-- The elements arrive between updates that leave a case and enter it again. -/
theorem played_eq_attachedFirst_loose :
    ∃ handle, ((TemplateView.new 4 1).compile .standard ⟨-1, 22⟩ looseMessage .root).result = .ok handle ∧
      played ((TemplateView.new 4 1).compile .standard ⟨-1, 22⟩ looseMessage .root).view handle.block "div" .standard
          ["b", "i"] looseCalls =
        played ((TemplateView.new 4 1).compile .standard ⟨-1, 22⟩ looseMessage .root).view handle.block "div" .standard
          ["b", "i"] (Call.attachedFirst looseCalls) := by
  have haccepted : ((TemplateView.new 4 1).compile .standard ⟨-1, 22⟩ looseMessage .root).result.isOk = true := by
    decide +kernel
  have hapart : ((TemplateView.new 4 1).compile .standard ⟨-1, 22⟩ looseMessage .root).view.Apart 23 ∧
      ((TemplateView.new 4 1).compile .standard ⟨-1, 22⟩ looseMessage .root).view.Apart 24 := by
    decide +kernel
  obtain ⟨handle, h⟩ : ∃ handle,
      ((TemplateView.new 4 1).compile .standard ⟨-1, 22⟩ looseMessage .root).result = .ok handle := by
    cases hresult : ((TemplateView.new 4 1).compile .standard ⟨-1, 22⟩ looseMessage .root).result with
    | ok handle => exact ⟨handle, rfl⟩
    | error e =>
      rw [hresult] at haccepted
      cases haccepted
  have honce : (Message.slotsOf (Message.outline .root looseMessage)).Nodup := by
    rw [outline_looseMessage]
    decide
  have hcalls : ∀ slot element, .attach slot element ∈ looseCalls →
      slot ∈ Message.slotsOf (Message.outline .root looseMessage) := by
    rw [outline_looseMessage]
    intro slot element hmem
    simp only [looseCalls, List.mem_cons, Call.attach.injEq, reduceCtorEq, List.not_mem_nil, false_or, or_false] at hmem
    rcases hmem with ⟨rfl, -⟩ | ⟨rfl, -⟩ <;> decide
  have hcareful : looseCalls.Pairwise
      (Call.Careful ((TemplateView.new 4 1).compile .standard ⟨-1, 22⟩ looseMessage .root).view) := by
    refine List.Pairwise.imp_of_mem (R := fun _ _ => True) ?_ (List.pairwise_of_forall fun _ _ => trivial)
    rintro c d - hd - - slot element rfl
    simp only [looseCalls, List.mem_cons, Call.attach.injEq, reduceCtorEq, List.not_mem_nil, false_or, or_false] at hd
    rcases hd with ⟨rfl, -⟩ | ⟨rfl, -⟩
    · exact hapart.1
    · exact hapart.2
  exact ⟨handle, h, played_eq_attachedFirst (TemplateView.Reachable.new 4 1).sound
    (fun serial block hslot => by cases hslot) h honce ["b", "i"] looseCalls hcalls hcareful "div" .standard⟩

def enclosedMessage : String := "�#1�\x7b�0�, select, other \x7by\x7d\x7d�/#1�"

def followingMessage : String := "�#1�x�/#1�\x7b�0�, select, other \x7by\x7d\x7d"

def printedAfter (message : String) (calls : List Call) : Option String :=
  match ((TemplateView.new 4 1).compile .standard ⟨-1, 22⟩ message .root).result with
  | .ok handle =>
    match played ((TemplateView.new 4 1).compile .standard ⟨-1, 22⟩ message .root).view handle.block "div" .standard
      ["span"] calls with
    | .ok nodes => some (Command.printNodes nodes).out
    | .error _ => none
  | .error _ => none

theorem exists_played_ne {message : String} {calls calls' : List Call}
    (hne : printedAfter message calls ≠ printedAfter message calls') : ∃ handle,
      ((TemplateView.new 4 1).compile .standard ⟨-1, 22⟩ message .root).result = .ok handle ∧
        played ((TemplateView.new 4 1).compile .standard ⟨-1, 22⟩ message .root).view handle.block "div" .standard
            ["span"] calls ≠
          played ((TemplateView.new 4 1).compile .standard ⟨-1, 22⟩ message .root).view handle.block "div" .standard
            ["span"] calls' := by
  cases hok : ((TemplateView.new 4 1).compile .standard ⟨-1, 22⟩ message .root).result with
  | error e => exact absurd (by simp only [printedAfter, hok]) hne
  | ok handle =>
    refine ⟨handle, rfl, fun heq => hne ?_⟩
    simp only [printedAfter, hok, heq]

/-- Inside the placeholder, the content of the expression gets lost if the element comes late; behind it, the
element goes to the wrong side of the content. -/
theorem played_ne_attachedFirst :
    (∃ handle, ((TemplateView.new 4 1).compile .standard ⟨-1, 22⟩ enclosedMessage .root).result = .ok handle ∧
      played ((TemplateView.new 4 1).compile .standard ⟨-1, 22⟩ enclosedMessage .root).view handle.block "div" .standard
          ["span"] [.update ["a"], .attach 23 0] ≠
        played ((TemplateView.new 4 1).compile .standard ⟨-1, 22⟩ enclosedMessage .root).view handle.block "div"
          .standard ["span"] (Call.attachedFirst [.update ["a"], .attach 23 0])) ∧
    ∃ handle, ((TemplateView.new 4 1).compile .standard ⟨-1, 22⟩ followingMessage .root).result = .ok handle ∧
      played ((TemplateView.new 4 1).compile .standard ⟨-1, 22⟩ followingMessage .root).view handle.block "div" .standard
          ["span"] [.update ["a"], .attach 23 0] ≠
        played ((TemplateView.new 4 1).compile .standard ⟨-1, 22⟩ followingMessage .root).view handle.block "div"
          .standard ["span"] (Call.attachedFirst [.update ["a"], .attach 23 0]) :=
  ⟨exists_played_ne (by decide +kernel), exists_played_ne (by decide +kernel)⟩

end MessageCompiler
