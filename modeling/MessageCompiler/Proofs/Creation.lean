/-
Creating what is shown.

The content of a case is created node by node. The outermost nodes go in front of the anchor of the
expression, the others behind the children of the element around them.
-/
import MessageCompiler.Proofs.Removal

namespace MessageCompiler

open List
open Markup (Content Tree)
open Live LiveView Scene

variable {id slot : Nat} {parent : Int} {S : List Nat} {ops : List IcuCreateOp} {I : LiveView → Prop} {Q : Nat → Scene}

/-- New nodes of the slots `S` go between `pre` and `post` among the children of `p`: in front of the
anchor, or last in the element whose slot is `parent`. -/
structure Spot (root anchor : Nat) (parent : Int) (p : Nat) (S : List Nat) (ref : Option (Int × Option Nat))
    (pre post : List Nat) (v : LiveView) : Prop where
  region : v.Region root S p
  parent_ne : ∀ s ∈ S, (s : Int) ≠ parent
  ref_ne : ∀ s ∈ S, ∀ r, ref = some r → (s : Int) ≠ r.1
  children : v.tree.children p = pre ++ post
  place : (v.tree.parent? anchor = some p ∧ ¬v.Holds S anchor ∧ (ref = none ∨ ref = some (parent, some p)) ∧
      ∃ post', post = anchor :: post') ∨
    v.node? parent = some p ∧ (∃ r, ref = some r ∧ parent ≠ r.1) ∧ post = []

section Spot

variable {root anchor p : Nat} {parent : Int} {S S₁ S' : List Nat} {ref ref' : Option (Int × Option Nat)}
  {pre pre' post : List Nat} {v v' : LiveView}

theorem node?_congr {i : Int} (h : ∀ s : Nat, (s : Int) = i → v'.slots[s]? = v.slots[s]?) : v'.node? i = v.node? i := by
  unfold LiveView.node?
  split
  · rfl
  · rw [h i.toNat (by omega)]

section

variable (h : Spot root anchor parent p S ref pre post v)
include h

theorem Spot.keeps (hk : v.Keeps root S₁ (· = p) v')
    (hS₁ : ∀ s ∈ S₁, s ∈ S) (hS' : S'.Sublist S) (hchildren : v'.tree.children p = pre' ++ post)
    (href : ref' = ref ∨ ref' = some (ref.getD (parent, some p))) : Spot root anchor parent p S' ref' pre' post v' := by
  have hs := h.region.sound
  have hfree : ¬v.Holds S₁ p := fun hheld => h.region.free (hheld.mono hS₁)
  refine {
    region := (h.region.mono hS').keeps hk hfree
    parent_ne := fun s hmem => h.parent_ne s (hS'.subset hmem)
    ref_ne := fun s hmem r hr => ?_
    children := hchildren
    place := ?_ }
  · rcases href with rfl | rfl
    · exact h.ref_ne s (hS'.subset hmem) r hr
    · cases hr
      cases hr : ref with
      | none => exact h.parent_ne s (hS'.subset hmem)
      | some r => exact h.ref_ne s (hS'.subset hmem) r hr
  · rcases h.place with ⟨hanchor, hheld, hnone, hpost⟩ | ⟨hnode, ⟨r, rfl, hr⟩, hpost⟩
    · refine .inl ⟨?_, ?_, ?_, hpost⟩
      · rw [hk.parent anchor (h.region.below.child hanchor) fun hmem => hheld (hmem.mono hS₁), hanchor]
      · rintro ⟨s, hmem, hslot⟩
        exact hheld ⟨s, hS'.subset hmem, hk.held s anchor (Tree.lt_of_parent? hanchor) hslot⟩
      · rcases href with rfl | rfl
        · exact hnone
        · rcases hnone with rfl | rfl <;> exact .inr rfl
    · refine .inr ⟨?_, ⟨r, ?_, hr⟩, hpost⟩
      · rw [node?_congr fun s hs => hk.slots s fun hmem => h.parent_ne s (hS₁ s hmem) hs, hnode]
      · rcases href with rfl | rfl <;> rfl

theorem Spot.mono (hS : S'.Sublist S) : Spot root anchor parent p S' ref pre post v :=
  h.keeps (.refl h.region.sound [] _) (fun _ hs => absurd hs not_mem_nil) hS h.children (.inl rfl)

theorem Spot.lt : p < v.tree.size :=
  h.region.sound.below_lt h.region.below

theorem yields_append {t : TemplateView} {content : Content} (hS : slot ∈ S) (hslot : v.slots[slot]? = some (.node id))
    (hcell : v.tree.cells[id]? = some ⟨content, none, []⟩) :
    Yields (caseOp t anchor ref (.append slot parent)) v fun ref' v' =>
      ref' = some (ref.getD (parent, some p)) ∧ v.Keeps root [slot] (· = p) v' ∧ v'.slots = v.slots ∧
        v'.tree.cells[id]? = some ⟨content, some p, []⟩ ∧ v'.tree.children p = pre ++ id :: post := by
  have hs := h.region.sound
  have hid : id < v.tree.size := hs.slot_lt slot id hslot
  have hnone : v.tree.parent? id = none := Tree.parent?_of_cell hcell
  have hleaf : ∀ k, v.tree.parent? k ≠ some id := fun k hk => by
    have hmem := (hs.linked.child id k).mpr hk
    rw [Tree.children_of_cell hcell] at hmem
    cases hmem
  have herase : (v.tree.children p).erase id = pre ++ post := by
    rw [← h.children]
    refine erase_of_not_mem fun hmem => ?_
    cases hnone.symm.trans ((hs.linked.child p id).mp hmem)
  -- Wherever the node goes, this is what follows.
  have hgoal : ∀ tree : Tree, Tree.Placed v.tree tree p id pre post → v.Keeps root [slot] (· = p) (v.withTree tree) ∧
        tree.cells[id]? = some ⟨content, some p, []⟩ ∧ tree.children p = pre ++ id :: post := by
    intro tree hplaced
    refine ⟨keeps_placed hs hplaced ⟨slot, mem_cons_self, hslot⟩ hnone hleaf (.inl rfl), ?_, hplaced.children_self⟩
    have hcontent : tree.content? id = some content := by
      rw [hplaced.content?_eq]
      exact Tree.content?_of_cell hcell
    have hne : id ≠ p := by
      rintro rfl
      exact h.region.free ⟨slot, hS, hslot⟩
    rw [Tree.cells_of_content? hcontent, hplaced.parent?_eq, if_pos rfl, hplaced.children_ne id hne,
      Tree.children_of_cell hcell]
    rfl
  refine yields_caseOp_append (node?_of_slot hslot) ?_
  rcases h.place with ⟨hanchor, -, href, post', rfl⟩ | ⟨hnode, ⟨r, rfl, hr⟩, rfl⟩
  · have hgetD : ref.getD (parent, some p) = (parent, some p) := by
      rcases href with rfl | rfl <;> rfl
    have hne : anchor ≠ id := by
      rintro rfl
      cases hnone.symm.trans hanchor
    obtain ⟨hkeeps, hcell', hchildren⟩ := hgoal _ (hs.linked.placed_insertBefore hid hanchor hne herase)
    rw [hanchor, hgetD]
    unfold placeIn
    rw [if_pos rfl]
    exact ⟨rfl, hkeeps, rfl, hcell', hchildren⟩
  · have hplaced := hs.linked.placed_append (p := p) h.lt hid
    rw [herase, append_nil] at hplaced
    obtain ⟨hkeeps, hcell', hchildren⟩ := hgoal _ hplaced
    unfold placeIn
    rw [Option.getD_some, if_neg hr, hnode]
    exact ⟨rfl, hkeeps, rfl, hcell', hchildren⟩

end

end Spot

section Create

variable {root : Nat} {t : TemplateView} {anchor : Nat}

theorem cell_addNew (v : LiveView) (slot : Nat) (content : Content) :
    (v.addNew slot content).tree.cells[v.tree.size]? = some ⟨content, none, []⟩ := by
  show (v.tree.create content).cells[v.tree.size]? = _
  rw [Tree.cells_create, if_pos rfl]

section Content

variable {tree : Tree} {id : Nat} {c : Content} {p : Option Nat} {kids : List Nat}

theorem modifyContent_of_cell (h : tree.cells[id]? = some ⟨c, p, kids⟩) (f : Content → Content) :
    modifyContent id f tree = tree.setContent id (f c) := by
  unfold modifyContent
  rw [Tree.content?_of_cell h]

theorem cell_setContent (h : tree.cells[id]? = some ⟨c, p, kids⟩) (content : Content) :
    (tree.setContent id content).cells[id]? = some ⟨content, p, kids⟩ := by
  rw [Tree.cells_setContent, if_pos rfl, h]
  rfl

end Content

theorem yields_setAttributes {ref : Option (Int × Option Nat)} {p : Option Nat} :
    ∀ {fixed : List (String × String)} {v : LiveView} {c : Content}, v.Sound root →
      v.slots[slot]? = some (.node id) → v.tree.cells[id]? = some ⟨c, p, []⟩ →
        Yields ((fixed.map fun a => .setAttribute slot a.1 a.2).foldlM (caseOp t anchor) ref) v fun ref' v' =>
          ref' = ref ∧ v.Keeps root [slot] nowhere v' ∧ v'.slots = v.slots ∧ v'.tree.cells[id]? =
              some ⟨fixed.foldl (fun c a => withAttribute a.1 a.2 c) c, p, []⟩
  | [], v, c, hs, hslot, hcell => yields_pure ⟨rfl, .refl hs _ _, rfl, hcell⟩
  | a :: fixed, v, c, hs, hslot, hcell => by
    have hkeeps : v.Keeps root [slot] nowhere (v.withTree (v.tree.setContent id (withAttribute a.1 a.2 c))) :=
      keeps_setContent hs ⟨slot, mem_cons_self, hslot⟩ _ _
    rw [map_cons]
    refine yields_foldlM_cons (yields_caseOp_setAttribute (Q := fun ref' v' => ref' = ref ∧
      v' = v.withTree (v.tree.setContent id (withAttribute a.1 a.2 c))) ⟨rfl, ?_⟩) ?_
    · rw [node?_of_slot hslot]
      exact congrArg v.withTree (modifyContent_of_cell hcell _)
    · rintro _ _ ⟨rfl, rfl⟩
      refine (yields_setAttributes hkeeps.sound hslot (cell_setContent hcell _)).mono fun _ v' ⟨href, h, hslots, hcell⟩ => ?_
      exact ⟨href, hkeeps.trans hs h, hslots, hcell⟩

theorem yields_new {p : Nat} {S₁ : List Nat} {ref : Option (Int × Option Nat)}
    {pre post : List Nat} {v v₁ : LiveView} (h : Spot root anchor parent p S ref pre post v)
    {op : IcuCreateOp} {Q : Option (Int × Option Nat) → LiveView → Prop}
    (hop : ∀ {P : _ → LiveView → Prop}, P ref v₁ → Yields (caseOp t anchor ref op) v P)
    (hk : v.Keeps root S₁ nowhere v₁) (hS₁ : ∀ s ∈ S₁, s ∈ S)
    (hchildren : v₁.tree.children p = v.tree.children p) {content : Content} (hS : slot ∈ S₁)
    (hslot : v₁.slots[slot]? = some (.node id)) (hcell : v₁.tree.cells[id]? = some ⟨content, none, []⟩)
    (hnext : ∀ v₂ : LiveView, v.Keeps root S₁ (· = p) v₂ → v₂.slots = v₁.slots →
      v₂.tree.cells[id]? = some ⟨content, some p, []⟩ → v₂.tree.children p = pre ++ ([id] ++ post) →
        Yields (ops.foldlM (caseOp t anchor) (some (ref.getD (parent, some p)))) v₂ Q) :
    Yields ((op :: .append slot parent :: ops).foldlM (caseOp t anchor) ref) v Q := by
  rw [foldlM_cons]
  refine Yields.andThen hop ?_
  have hk' : v.Keeps root S₁ (· = p) v₁ := hk.quiet (List.Subset.refl _)
  have hspot : Spot root anchor parent p S ref pre post v₁ :=
    h.keeps hk' hS₁ (.refl S) (hchildren.trans h.children) (.inl rfl)
  refine yields_foldlM_cons (yields_append hspot (hS₁ slot hS) hslot hcell) ?_
  rintro _ v₂ ⟨rfl, h₂, hslots, hcell₂, hchildren₂⟩
  refine hnext v₂ (hk'.trans h.region.sound (h₂.weaken ?_ fun _ _ h => .inl h)) hslots hcell₂ hchildren₂
  intro s hs
  rw [mem_singleton.mp hs]
  exact hS

/-- The instructions put nodes for which `Q` holds at any spot for their slots. -/
def Builds (root : Nat) (t : TemplateView) (anchor : Nat) (parent : Int) (S : List Nat) (I : LiveView → Prop)
    (ops : List IcuCreateOp) (Q : Nat → Scene) : Prop :=
  ∀ (ref : Option (Int × Option Nat)) (v : LiveView) (p : Nat) (pre post : List Nat),
    Spot root anchor parent p S ref pre post v → I v → Yields (ops.foldlM (caseOp t anchor) ref) v fun ref' v' =>
      v.Keeps root S (· = p) v' ∧ (ref' = ref ∨ ref' = some (ref.getD (parent, some p))) ∧
        ∃ tops, Q p v' tops ∧ v'.tree.children p = pre ++ (tops ++ post)

theorem Builds.imp {I' : LiveView → Prop} {Q' : Nat → Scene}
    (h : Builds root t anchor parent S I ops Q) (hI : ∀ v, I' v → I v) (hQ : ∀ p v tops, Q p v tops → Q' p v tops) :
    Builds root t anchor parent S I' ops Q' :=
  fun ref v p pre post hspot hv => (h ref v p pre post hspot (hI v hv)).mono
    fun _ v' ⟨hk, href, tops, hshown, hchildren⟩ => ⟨hk, href, tops, hQ p v' tops hshown, hchildren⟩

theorem Builds.seq {A B : List Nat} {I' : LiveView → Prop} {ops' : List IcuCreateOp}
    {Q' : Nat → Scene} (hx : Builds root t anchor parent A I ops Q) (hy : Builds root t anchor parent B I' ops' Q')
    (hframe : ∀ {v v' : LiveView}, I' v → Carries root B v v' → I' v') (hQ : ∀ p, Framed root p A (Q p)) :
    Builds root t anchor parent (A ++ B) (fun v => I v ∧ I' v) (ops ++ ops') fun p => (Q p).beside (Q' p) := by
  intro ref v p pre post hspot hv
  have hregion := hspot.region
  refine yields_foldlM_append (hx ref v p pre post (hspot.mono (sublist_append_left A B)) hv.1) ?_
  rintro ref₁ v₁ ⟨h₁, href₁, front, hfront, hchildren₁⟩
  have hspot₁ : Spot root anchor parent p B ref₁ (pre ++ front) post v₁ :=
    hspot.keeps h₁ (fun _ => mem_append_left B) (sublist_append_right A B) (by rw [hchildren₁, append_assoc]) href₁
  refine (hy ref₁ v₁ p _ post hspot₁ (hframe hv.2 (hregion.carries_right h₁))).mono ?_
  rintro ref₂ v₂ ⟨h₂, href₂, back, hback, hchildren₂⟩
  have hregion₁ := hregion.keeps h₁ hregion.left.free
  refine ⟨?_, ?_, front ++ back, ⟨front, back, rfl, ?_, hback⟩, ?_⟩
  · exact (h₁.widen (subset_append_left A B)).trans hregion.sound (h₂.widen (subset_append_right A B))
  · grind
  · exact hQ p _ _ _ hregion₁.below hfront (hregion₁.carries_left h₂)
  · grind

theorem builds_nil :
    Builds root t anchor parent S I [] fun _ => gone I :=
  fun _ _ _ _ _ hspot hv => yields_pure ⟨.refl hspot.region.sound _ _, .inl rfl, [], ⟨rfl, hv⟩, hspot.children⟩

theorem builds_text (parent : Int) (slot : Nat) (value : String) :
    Builds root t anchor parent [slot] (fun v => v.Loose root slot)
      [.text slot (initialText value), .append slot parent]
      fun p => node p slot (textContent none slot value) fun _ => bare := by
  intro ref v p pre post hspot _
  have hs := hspot.region.sound
  have hlt := hspot.region.lt slot mem_cons_self
  have hslot := slot_of_node? (node?_addNew hlt (.text (initialText value)))
  refine yields_new hspot (yields_caseOp_text hlt) (keeps_addNew hs hlt mem_cons_self _ _) (fun _ h => h)
    (v.tree.children_create _ p) mem_cons_self hslot (cell_addNew v slot _) fun v₂ h₂ hslots₂ hcell₂ hchildren₂ => ?_
  exact yields_pure ⟨h₂, .inr rfl, [v.tree.size],
    ⟨_, [], rfl, (congrArg (·[slot]?) hslots₂).trans hslot, hcell₂, rfl⟩, hchildren₂⟩

theorem builds_element (tag : String) (fixed : List (String × String)) (bound : List BoundAttr)
    (hcontent : Builds root t anchor slot S I ops Q) (hframe : ∀ {v v' : LiveView}, I v → Carries root S v v' → I v') :
    Builds root t anchor parent (slot :: S) I
      (.element slot tag :: .append slot parent :: (fixed.map (fun a => .setAttribute slot a.1 a.2) ++ ops))
      fun p => node p slot (elementContent none slot tag fixed bound) Q := by
  intro ref v p pre post hspot hv
  have hs := hspot.region.sound
  have hlt := hspot.region.lt slot mem_cons_self
  have hnotin := (nodup_cons.mp hspot.region.nodup).1
  have hsingle : ∀ s ∈ [slot], s ∈ slot :: S := fun s h => mem_singleton.mp h ▸ mem_cons_self
  have hne : v.tree.size ≠ p := Nat.ne_of_gt hspot.lt
  have hslot := slot_of_node? (node?_addNew hlt (.element .html tag []))
  refine yields_new hspot (yields_caseOp_element hlt) (keeps_addNew hs hlt mem_cons_self _ _) hsingle
    (v.tree.children_create _ p) mem_cons_self hslot (cell_addNew v slot _) fun v₂ h₂ hslots₂ hcell₂ hchildren₂ => ?_
  have hslot₂ : v₂.slots[slot]? = some (.node v.tree.size) := by rw [hslots₂, hslot]
  refine yields_foldlM_append (yields_setAttributes h₂.sound hslot₂ hcell₂) ?_
  rintro _ v₃ ⟨rfl, h₃, hslots₃, hcell₃⟩
  have hslot₃ : v₃.slots[slot]? = some (.node v.tree.size) := by rw [hslots₃, hslot₂]
  have hparent₃ := Tree.parent?_of_cell hcell₃
  have hslotFree : ¬v.Holds [slot] p := fun h => hspot.region.free (h.mono hsingle)
  have h₁₃ : v.Keeps root [slot] (· = p) v₃ := h₂.trans hs (h₃.quiet (List.Subset.refl _))
  have hregion₂ := hspot.region.keeps h₂ hslotFree
  have hregion₃ := hspot.region.keeps h₁₃ hslotFree
  have hchildren₃ : v₃.tree.children p = pre ++ ([v.tree.size] ++ post) := by
    rw [h₃.children p hregion₂.below (fun h => hregion₂.free (h.mono hsingle)) id, hchildren₂]
  -- The content goes into the element, which is not the parent of the expression.
  have href : ∀ s ∈ slot :: S, (s : Int) ≠ (ref.getD (parent, some p)).1 := by
    intro s hmem
    cases href : ref with
    | none => exact hspot.parent_ne s hmem
    | some r => exact hspot.ref_ne s hmem r href
  have hspotContent : Spot root anchor slot v.tree.size S (some (ref.getD (parent, some p))) [] [] v₃ := {
    region := hregion₃.inner hslot₃ hparent₃
    parent_ne := fun s hmem heq => hnotin (Int.natCast_inj.mp heq ▸ hmem)
    ref_ne := fun s hmem r hr => by
      cases hr
      exact href s (mem_cons_of_mem slot hmem)
    children := Tree.children_of_cell hcell₃
    place := .inr ⟨node?_of_slot hslot₃, ⟨_, rfl, href slot mem_cons_self⟩, rfl⟩ }
  refine (hcontent _ v₃ _ [] [] hspotContent (hframe hv (hspot.region.carries_right (A := [slot]) h₁₃))).mono ?_
  rintro ref₄ v₄ ⟨h₄, href₄, kids, hinside, hkids⟩
  have hid₃ : v₃.Below root v.tree.size := hspotContent.region.below
  refine ⟨?_, .inr (href₄.elim id id), [v.tree.size], ⟨_, kids, rfl, ?_, ?_, hinside⟩, ?_⟩
  · exact (h₁₃.widen hsingle).trans hs (h₄.weaken (fun s h => mem_cons_of_mem slot h)
      fun _ _ h => .inr (h ▸ holds_cons.mpr (.inl hslot₃)))
  · exact (h₄.slots slot hnotin).trans hslot₃
  · have hcontent₄ := h₄.content _ hid₃ hspotContent.region.free
    rw [Tree.content?_of_cell hcell₃] at hcontent₄
    rw [Tree.cells_of_content? hcontent₄, h₄.parent _ hid₃ hspotContent.region.free, hparent₃, hkids, nil_append,
      append_nil]
    rfl
  · rw [h₄.children p hregion₃.below (fun h => hregion₃.free (holds_cons.mpr (.inr h))) (Ne.symm hne), hchildren₃]

theorem builds_anchor (label : String) {icu : IcuPlan} (hreg : icu.Registered t parent slot) :
    Builds root t anchor parent (slot :: icu.slots) (icu.Idle root)
      [.anchor slot label, .append slot parent] fun p => icu.anchored root none p slot label := by
  obtain ⟨kind, main, current, cases⟩ := icu
  intro ref v p pre post hspot hidle
  have hs := hspot.region.sound
  have hlt := hspot.region.lt slot mem_cons_self
  have hcurrent := hspot.region.lt current (mem_cons_of_mem slot mem_cons_self)
  have hslotNe : slot ≠ current := fun h => (nodup_cons.mp hspot.region.nodup).1 (h ▸ mem_cons_self)
  have hinside : v.Region root ([slot, current] ++ cases.slots) p := hspot.region
  have hadd : v.Keeps root [slot, current] nowhere (v.addNew slot (.comment label)) :=
    keeps_addNew hs hlt mem_cons_self _ _
  have hcurrent₁ : current < (v.addNew slot (.comment label)).slots.size := by
    rw [hadd.size]
    exact hcurrent
  have hnew : v.Keeps root [slot, current] nowhere ((v.addNew slot (.comment label)).set current .empty) :=
    hadd.trans hs (keeps_set hadd.sound hcurrent₁ (by simp) (by simp) _)
  have hslots₁ := slots_set hcurrent₁ (.empty)
  have hslot₁ : ((v.addNew slot (.comment label)).set current .empty).slots[slot]? = some (.node v.tree.size) := by
    rw [hslots₁, if_neg hslotNe]
    exact slot_of_node? (node?_addNew hlt _)
  refine yields_new hspot (yields_caseOp_anchor hlt hreg.1 rfl hcurrent) hnew (fun _ => mem_append_left cases.slots)
    (v.tree.children_create _ p) mem_cons_self hslot₁ (cell_addNew v slot _) fun v₂ h₂ hslots₂ hcell₂ hchildren₂ => ?_
  refine yields_pure ⟨h₂.widen (subset_append_left _ cases.slots), .inr rfl, [v.tree.size],
    ⟨[], _, rfl, ⟨?_, rfl, hidle.2.frame (hinside.carries_right h₂)⟩, _, [], rfl, ?_, hcell₂, rfl⟩, hchildren₂⟩
  · rw [hslots₂, hslots₁, if_pos rfl]
  · rw [hslots₂, hslot₁]

theorem builds_create : ∀ (plan : Plan) (parent : Int), plan.Registered t parent →
    Builds root t anchor parent plan.slots (plan.Idle root) (plan.create parent) (plan.scene root none none)
  | .nil, _, _ => builds_nil.imp (fun _ h => h) fun _ _ _ h => h.1
  | .text slot value rest, parent, hreg => by
    have hrest := builds_create rest parent hreg.2
    refine ((builds_text parent slot value).seq hrest Plan.Idle.frame fun p => ?_).imp (fun _ h => h) fun p v tops h => ?_
    · exact .node (fun id => framed_bare root id []) _
    · rw [scene_text]
      exact h
  | .element slot tag fixed bound content rest, parent, hreg => by
    have hcontent := builds_create content slot hreg.2.1
    have hrest := builds_create rest parent hreg.2.2
    have hall := (builds_element tag fixed bound hcontent Plan.Idle.frame).seq hrest Plan.Idle.frame
      fun p => .node (fun id => content.framed) _
    rw [cons_append, cons_append, cons_append, append_assoc] at hall
    refine hall.imp (fun _ h => ⟨h.2.1, h.2.2⟩) fun p v tops h => ?_
    rw [scene_element]
    exact h
  | .icu slot label icu rest, parent, hreg => by
    have hrest := builds_create rest parent hreg.2.2
    refine ((builds_anchor label hreg.2.1).seq hrest Plan.Idle.frame fun p => icu.framed_anchored slot label).imp
      (fun _ h => ⟨h.2.1, h.2.2⟩) fun p v tops h => ?_
    rw [scene_icu]
    exact h

end Create

end MessageCompiler
