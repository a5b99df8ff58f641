/-
Compiling only adds to a view.

Whatever a step of compiling does, and whether it succeeds or fails, slots and template nodes that were
there before stay as they were. The exceptions are the nodes that the pass itself has created and the
declared slots that placeholders take.

* **`grows_compileIcu`** — an expression changes nothing but the node of its anchor.
-/
import MessageCompiler.Proofs.Growth

namespace MessageCompiler

open List
open Steps TemplateView
open Markup (Node Attr)

variable {α : Type} {touched : Nat → Prop} {id index : Nat} {t : TemplateView} {i : Int} {nested : List NestedIcu}
  {frame : Frame}

variable {n : Nat} {p : Pass}
variable {x : PassM α} {β : Type} {P : α → Prop} {f : α → PassM β}

theorem grows_bind (hx : p.view.Grows touched n (after x p).view)
    (hf : ∀ a p₁, x p = .ok a p₁ → p.view.Grows touched n p₁.view → p₁.view.Grows touched n (after (f a) p₁).view) :
    p.view.Grows touched n (after (x >>= f) p).view := by
  refine along_bind (R := fun p p' : Pass => p.view.Grows touched n p'.view) Grows.trans hx ?_
  intro a p₁ h
  refine hf a p₁ h ?_
  rw [after_of_ok h] at hx
  exact hx

theorem grows_allocSlot {f : Int → PassM α} (h : ∀ p₁ : Pass, p₁.view = p.view.alloc 1 →
      p₁.view.Grows (fun k => k = p.view.size) n (after (f p.view.size) p₁).view) :
    p.view.Grows untouched n (after (Pass.allocSlot >>= f) p).view := by
  have hrest := h { p with view := p.view.alloc 1 } rfl
  refine (grows_alloc untouched n p.view 1).trans' hrest ?_
  intro i hi htouched
  rcases htouched with hfalse | heq
  · exact hfalse
  · omega

/-! ### Attributes, texts and comments -/

variable (cfg : Config)

theorem view_compileAttribute (tag : String) (index : Int) (a : Attr) (p : Pass) :
    (after (compileAttribute cfg tag index a) p).view = p.view := by
  unfold compileAttribute
  dsimp only
  split
  · rfl
  · split <;> rfl

theorem view_compileAttributes (tag : String) (index : Int) (attrs : List Attr) :
    ∀ p : Pass, (after (compileAttributes cfg tag index attrs) p).view = p.view := by
  induction attrs with
  | nil => intro p; rfl
  | cons a rest ih =>
    intro p
    unfold compileAttributes
    refine along_bind (R := fun p p' : Pass => p'.view = p.view) (fun h₁ h₂ => h₂.trans h₁)
      (view_compileAttribute cfg tag index a p) fun code p₁ _ => ?_
    exact along_bind (R := fun p p' : Pass => p'.view = p.view) (fun h₁ h₂ => h₂.trans h₁) (ih p₁) fun _ _ _ => rfl

theorem grows_passAddNode {type : NodeType} {value : String} {parent : Option Int} (hn : n ≤ p.view.nodes.size) :
    p.view.Grows (fun k => k = index) n (after (Pass.addNode (.fresh index type value parent)) p).view :=
  grows_addNode (fun k hk => by
    have hk' : (index : Int) = k := hk
    omega) hn

def TemplateView.Vacant (t : TemplateView) (i : Int) (id : Nat) : Prop :=
  t.nodeId? i = some id ∧ ∃ node, t.nodes[id]? = some node ∧ node.icu = none

/-- A nested expression, given the node of its anchor, changes that node only. -/
def NestedIcu.IsGrowing (f : NestedIcu) : Prop :=
  ∀ (n : Nat) (parent anchor : Int) (p : Pass) (id : Nat), p.view.Vacant anchor id → n ≤ id →
    n ≤ p.view.nodes.size → p.view.Grows untouched n (after (f parent anchor) p).view

theorem vacant_addNode (t : TemplateView) (hindex : index < t.size) (type : NodeType)
    (value : String) (parent : Option Int) :
    (t.addNode (.fresh index type value parent)).Vacant index t.nodes.size := by
  refine ⟨nodeId?_addNode t _ rfl hindex, .fresh index type value parent, ?_, rfl⟩
  exact Array.getElem?_push_size

theorem TemplateView.Vacant.grows {t' : TemplateView} (h : t.Vacant i id)
    (hn : id < n) (hgrow : t.Grows untouched n t') : t'.Vacant i id := by
  obtain ⟨hid, node, hnode, hnone⟩ := h
  refine ⟨hgrow.nodeId? hid, node, ?_, hnone⟩
  rw [hgrow.nodes id hn, hnode]

theorem grows_compileComment (hnested : ∀ f ∈ nested, f.IsGrowing)
    (parent : Int) (data : String) (hindex : index < p.view.size)
    (hn : n ≤ p.view.nodes.size) :
    p.view.Grows (fun k => k = index) n (after (compileComment nested parent index data) p).view := by
  unfold compileComment
  split
  · exact Grows.refl _ _ _
  · next digits _ =>
    split
    · exact Grows.refl _ _ _
    · next number f hfound =>
      obtain ⟨m, -, hm⟩ := Option.bind_eq_some_iff.mp hfound
      obtain ⟨g, hg, hpair⟩ := Option.map_eq_some_iff.mp hm
      cases hpair
      have hgrow := hnested f (mem_of_getElem? hg)
      refine grows_bind (grows_passAddNode hn) ?_
      intro _ p₁ hp₁ hstep
      cases hp₁
      -- The node that was just added is the one of the anchor.
      have hvacant := vacant_addNode p.view hindex .icu ("nested ICU " ++ Text.showInt number) none
      refine grows_bind ?_ fun _ _ _ _ => Grows.refl _ _ _
      have h := hgrow n parent index _ _ hvacant hn (Nat.le_trans hn hstep.nodes_le)
      exact h.weaken (fun _ _ hfalse => hfalse.elim) (Nat.le_refl n)

/-! ### Nodes of a case -/

mutual

theorem grows_walkNode (cfg : Config) (hnested : ∀ f ∈ nested, f.IsGrowing) (n : Nat) (parent : Int) :
    ∀ (node : Node) (p : Pass), n ≤ p.view.nodes.size →
      p.view.Grows untouched n (after (walkNode cfg nested parent node) p).view
  | .text value, p, hn => by
    unfold walkNode
    refine grows_allocSlot fun p₁ hp₁ => ?_
    exact grows_passAddNode (by rw [hp₁]; exact hn)
  | .comment data, p, hn => by
    unfold walkNode
    refine grows_allocSlot fun p₁ hp₁ => ?_
    refine grows_compileComment hnested parent data ?_ (by rw [hp₁]; exact hn)
    rw [hp₁, size_alloc]
    omega
  | .element _ name attrs children, p, hn => by
    unfold walkNode
    refine grows_allocSlot fun p₁ hp₁ => ?_
    have hn₁ : n ≤ p₁.view.nodes.size := by rw [hp₁]; exact hn
    dsimp only
    split
    · exact Grows.refl _ _ _
    · refine grows_bind (grows_passAddNode hn₁) ?_
      intro _ p₂ _ h₂
      have hn₂ := Nat.le_trans hn₁ h₂.nodes_le
      refine grows_bind ?_ ?_
      · rw [view_compileAttributes]
        exact Grows.refl _ _ _
      · intro attributes p₃ _ h₃
        have hn₃ := Nat.le_trans hn₂ h₃.nodes_le
        refine grows_bind ?_ fun _ _ _ _ => Grows.refl _ _ _
        exact (grows_walkNodes cfg hnested n p.view.size children p₃ hn₃).weaken
          (fun _ _ hfalse => hfalse.elim) (Nat.le_refl n)

theorem grows_walkNodes (cfg : Config) (hnested : ∀ f ∈ nested, f.IsGrowing) (n : Nat) (parent : Int) :
    ∀ (nodes : List Node) (p : Pass), n ≤ p.view.nodes.size →
      p.view.Grows untouched n (after (walkNodes cfg nested parent nodes) p).view
  | [], p, _ => by
    unfold walkNodes
    exact Grows.refl _ _ _
  | node :: rest, p, hn => by
    unfold walkNodes
    refine grows_bind (grows_walkNode cfg hnested n parent node p hn) ?_
    intro code p₁ _ h₁
    refine grows_bind ?_ fun _ _ _ _ => Grows.refl _ _ _
    exact grows_walkNodes cfg hnested n parent rest p₁ (Nat.le_trans hn h₁.nodes_le)

end

theorem grows_compileCase (hnested : ∀ f ∈ nested, f.IsGrowing) (parent : Int) (label markup : String)
    (hn : n ≤ p.view.nodes.size) :
    p.view.Grows untouched n (after (compileCase cfg parent label markup nested) p).view := by
  unfold compileCase
  split
  · exact Grows.refl _ _ _
  · exact grows_bind (grows_walkNodes cfg hnested n parent _ p hn) fun _ _ _ _ => Grows.refl _ _ _

/-! ### Expressions -/

mutual

theorem grows_compileIcu (cfg : Config) : ∀ (e : Icu), NestedIcu.IsGrowing (compileIcu cfg e)
  | .mk kind main cases => by
    intro n parent anchor p id hvacant hnid hn
    unfold compileIcu
    refine grows_bind (grows_alloc _ n p.view 1) ?_
    intro current p₁ hp₁ h₁
    refine grows_bind (Grows.refl _ _ _) ?_
    intro _ p₂ hp₂ _
    have hview : p₂.view = p₁.view := by
      cases hp₂
      rfl
    have h₂ : p.view.Grows untouched n p₂.view := by
      rw [hview]
      exact h₁
    have hvacant₂ : p₂.view.Vacant anchor id := by
      refine ⟨h₂.nodeId? hvacant.1, ?_⟩
      rw [hview]
      cases hp₁
      exact hvacant.2
    refine grows_bind (grows_compileCases cfg cases n parent p₂ (Nat.le_trans hn h₂.nodes_le)) ?_
    intro compiled p₃ hp₃ h₃
    refine grows_bind ?_ ?_
    · -- The cases have only added nodes.
      have hcases := grows_compileCases cfg cases p₂.view.nodes.size parent p₂ (Nat.le_refl _)
      rw [after_of_ok hp₃] at hcases
      have hlt : id < p₂.view.nodes.size := by
        obtain ⟨-, node, hnode, -⟩ := hvacant₂
        exact (Array.getElem?_eq_some_iff.mp hnode).choose
      obtain ⟨hid₃, node, hnode, hnone⟩ := hvacant₂.grows hlt hcases
      refine grows_setIcu hid₃ hnid ?_ _ _
      rw [hnode]
      exact hnone
    · intro _ p₄ _ _
      dsimp only
      split <;> exact Grows.refl _ _ _

theorem grows_compileCases (cfg : Config) : ∀ (cases : List Case) (n : Nat) (parent : Int) (p : Pass),
    n ≤ p.view.nodes.size → p.view.Grows untouched n (after (compileCases cfg parent cases) p).view
  | [], n, parent, p, _ => by
    unfold compileCases
    exact Grows.refl _ _ _
  | .mk label body :: rest, n, parent, p, hn => by
    unfold compileCases
    refine grows_bind (grows_compileCase cfg (grows_nestedIcus cfg body) parent label _ hn) ?_
    intro compiled p₁ _ h₁
    refine grows_bind ?_ fun _ _ _ _ => Grows.refl _ _ _
    exact grows_compileCases cfg rest n parent p₁ (Nat.le_trans hn h₁.nodes_le)

theorem grows_nestedIcus (cfg : Config) : ∀ (body : List Segment), ∀ f ∈ nestedIcus cfg body, f.IsGrowing
  | [] => by
    simp [nestedIcus]
  | .text _ :: rest => by
    unfold nestedIcus
    exact grows_nestedIcus cfg rest
  | .icu e :: rest => by
    intro f hf
    unfold nestedIcus at hf
    rcases mem_cons.mp hf with rfl | hrest
    · exact grows_compileIcu cfg e
    · exact grows_nestedIcus cfg rest f hrest

end

/-! ### Frames -/

/-- Every template node that the frame knows was created after the first `n`. -/
structure Frame.Above (n : Nat) (frame : Frame) : Prop where
  nodes : ∀ id ∈ frame.nodes, n ≤ id
  placeholder : ∀ o, frame.placeholder = some o → n ≤ o.node

def TemplateNode.followedBy (node earlier : TemplateNode) : TemplateNode :=
  if !earlier.type.fromMessage && earlier.insertBefore.isNone &&
      (node.type.fromMessage || earlier.index > node.index) then
    { earlier with insertBefore := some node.index }
  else earlier

theorem TemplateNode.followedBy_keeps (node earlier : TemplateNode) :
    (node.followedBy earlier).icu = earlier.icu ∧ (node.followedBy earlier).type = earlier.type := by
  unfold followedBy
  split <;> exact ⟨rfl, rfl⟩

theorem TemplateView.precede_cons (t : TemplateView) (id : Nat) (rest : List Nat) (node : TemplateNode) :
    t.precede (id :: rest) node = (t.modifyNode id node.followedBy).precede rest node := rfl

theorem grows_precede (touched : Nat → Prop) (node : TemplateNode) :
    ∀ (nodes : List Nat) (t : TemplateView), (∀ id ∈ nodes, n ≤ id) → t.Grows touched n (t.precede nodes node) := by
  intro nodes
  induction nodes with
  | nil => intro t _; exact Grows.refl _ _ _
  | cons id rest ih =>
    intro t h
    rw [precede_cons]
    exact (grows_modifyNode touched (h id mem_cons_self) node.followedBy_keeps).trans
      (ih _ fun id' hid' => h id' (mem_cons_of_mem _ hid'))

theorem TemplateView.size_precede (node : TemplateNode) :
    ∀ (nodes : List Nat) (t : TemplateView), (t.precede nodes node).size = t.size := by
  intro nodes
  induction nodes with
  | nil => intro t; rfl
  | cons id rest ih => intro t; exact ih _

def TemplateView.addChild (t : TemplateView) (o : Option OpenPlaceholder) (index : Int) :
    TemplateView :=
  match o with
  | some o => t.modifyNode o.node fun n => { n with children := n.children ++ [index] }
  | none => t

def Frame.createdView (frame : Frame) (t : TemplateView) (type : NodeType) (value : String) :
    TemplateView :=
  let node := TemplateNode.fresh t.size type value none
  (((t.alloc 1).addNode node).precede frame.nodes node).addChild frame.placeholder t.size

def Frame.grown (frame : Frame) (t : TemplateView) : Frame :=
  { frame with nodes := t.nodes.size :: frame.nodes }

theorem Frame.create_eq (frame : Frame) (type : NodeType) (text value : String) (p : Pass) :
    frame.create type text value p = .ok (frame.grown p.view, p.view.size)
        { p with
          view := frame.createdView p.view type value
          create := p.create ++ [⟨p.view.size, text, type == .icu, frame.placeholder.isNone⟩] } := by
  unfold Frame.createdView Frame.grown
  cases frame with
  | mk placeholder nodes => cases placeholder <;> rfl

theorem Frame.above_grown (h : frame.Above n) (hn : n ≤ t.nodes.size) : (frame.grown t).Above n where
  nodes id hid := by
    rcases mem_cons.mp hid with rfl | hid
    · exact hn
    · exact h.nodes id hid
  placeholder := h.placeholder

theorem grows_addChild (touched : Nat → Prop) {o : Option OpenPlaceholder}
    (h : ∀ o', o = some o' → n ≤ o'.node) (t : TemplateView) (index : Int) :
    t.Grows touched n (t.addChild o index) := by
  cases o with
  | none => exact Grows.refl _ _ _
  | some o => exact grows_modifyNode touched (h o rfl) fun _ => ⟨rfl, rfl⟩

theorem grows_createdView (h : frame.Above n) (hn : n ≤ t.nodes.size) (type : NodeType) (value : String) :
    t.Grows untouched n (frame.createdView t type value) := by
  unfold Frame.createdView
  have hadd : (t.alloc 1).Grows (fun k => k = t.size) n ((t.alloc 1).addNode (.fresh t.size type value none)) :=
    grows_addNode (fun k hk => by
      have hk' : (t.size : Int) = k := hk
      omega) hn
  have hnew : t.Grows untouched n ((t.alloc 1).addNode (.fresh t.size type value none)) :=
    (grows_alloc untouched n t 1).trans' hadd fun i hi htouched => by
      rcases htouched with hfalse | heq
      · exact hfalse
      · omega
  exact (hnew.trans (grows_precede _ _ _ _ h.nodes)).trans (grows_addChild _ h.placeholder _ _)

theorem TemplateView.Vacant.modifyNode (h : t.Vacant i id)
    (other : Nat) {f : TemplateNode → TemplateNode} (hf : ∀ node, (f node).icu = node.icu) :
    (t.modifyNode other f).Vacant i id := by
  obtain ⟨hid, node, hnode, hnone⟩ := h
  refine ⟨hid, if other = id then f node else node, ?_, ?_⟩
  · show (t.nodes.modify other f)[id]? = _
    rw [Array.getElem?_modify, hnode]
    split <;> rfl
  · split
    · rw [hf, hnone]
    · exact hnone

theorem TemplateView.Vacant.precede (node : TemplateNode) :
    ∀ (nodes : List Nat) (t : TemplateView), t.Vacant i id → (t.precede nodes node).Vacant i id := by
  intro nodes
  induction nodes with
  | nil => intro t h; exact h
  | cons other rest ih =>
    intro t h
    rw [precede_cons]
    exact ih _ (h.modifyNode other fun earlier => (node.followedBy_keeps earlier).1)

theorem Frame.vacant_createdView (frame : Frame) (t : TemplateView) (type : NodeType)
    (value : String) : (frame.createdView t type value).Vacant t.size t.nodes.size := by
  unfold Frame.createdView
  have hnew : t.size < (t.alloc 1).size := by simp
  have hadd := vacant_addNode (t.alloc 1) hnew type value none
  have hprecede := Vacant.precede (.fresh t.size type value none) frame.nodes _ hadd
  cases frame.placeholder with
  | none => exact hprecede
  | some o => exact hprecede.modifyNode o.node fun _ => rfl

/-! ### Messages -/

/-- The step lets the view grow, and if it succeeds, the result satisfies `P`. -/
def Grown {α : Type} (touched : Nat → Prop) (n : Nat) (P : α → Prop) (x : PassM α) (p : Pass) :
    Prop :=
  p.view.Grows touched n (after x p).view ∧ ∀ a p', x p = .ok a p' → P a

theorem Grown.bind {Q : β → Prop} (hx : Grown touched n P x p) (hn : n ≤ p.view.nodes.size)
    (hf : ∀ a p₁, P a → x p = .ok a p₁ → n ≤ p₁.view.nodes.size → p₁.view.bindingStart = p.view.bindingStart →
      Grown touched n Q (f a) p₁) : Grown touched n Q (x >>= f) p := by
  have hnext : ∀ a p₁, x p = .ok a p₁ → Grown touched n Q (f a) p₁ := by
    intro a p₁ h
    have hgrow := hx.1
    rw [after_of_ok h] at hgrow
    exact hf a p₁ (hx.2 a p₁ h) h (Nat.le_trans hn hgrow.nodes_le) hgrow.bindingStart
  refine ⟨grows_bind hx.1 fun a p₁ h _ => (hnext a p₁ h).1, ?_⟩
  intro b p' hok
  obtain ⟨a, p₁, h, hrest⟩ := bind_eq_ok.mp hok
  exact (hnext a p₁ h).2 b p' hrest

theorem Grown.pure {a : α} (h : P a) : Grown touched n P (pure a) p := by
  refine ⟨Grows.refl _ _ _, ?_⟩
  intro b p' hok
  obtain ⟨rfl, -⟩ := pure_eq_ok.mp hok
  exact h

theorem Grown.throw {e : Cause} :
    Grown touched n P (throw e : PassM α) p :=
  ⟨Grows.refl _ _ _, fun _ _ hok => absurd hok throw_ne_ok⟩

theorem Grown.weaken {more : Nat → Prop} (h : Grown touched n P x p) (ht : ∀ i, touched i → more i) : Grown more n P x p :=
  ⟨h.1.weaken (fun i _ => ht i) (Nat.le_refl n), h.2⟩

theorem grown_create (h : frame.Above n) (type : NodeType) (text value : String) (hn : n ≤ p.view.nodes.size) :
    Grown untouched n (fun r => r.1.Above n) (frame.create type text value) p := by
  constructor
  · rw [after_of_ok (Frame.create_eq ..)]
    exact grows_createdView h hn type value
  · intro r p' hok
    rw [Frame.create_eq] at hok
    cases hok
    exact Frame.above_grown h hn

theorem grown_compileText (h : frame.Above n) (text : String) (hn : n ≤ p.view.nodes.size) :
    Grown untouched n (Frame.Above n) (compileText frame text) p := by
  unfold compileText
  split
  · refine (grown_create h .text _ _ hn).bind hn fun r p₁ hr _ hn₁ _ => ?_
    refine Grown.bind (P := fun _ => True) ⟨Grows.refl _ _ _, fun _ _ _ => trivial⟩ hn₁ ?_
    intro _ _ _ _ _ _
    exact Grown.pure hr
  · refine (grown_create h .text _ _ hn).bind hn fun r p₁ hr _ _ _ => ?_
    exact Grown.pure hr

theorem grown_compileSegments (site : Site) :
    ∀ (segments : List Segment) (frame : Frame) (p : Pass), frame.Above n → n ≤ p.view.nodes.size →
      Grown untouched n (Frame.Above n) (compileSegments cfg site frame segments) p := by
  intro segments
  induction segments with
  | nil =>
    intro frame p h _
    exact Grown.pure h
  | cons segment rest ih =>
    intro frame p h hn
    cases segment with
    | text s =>
      unfold compileSegments
      dsimp only
      split
      · grind
      · exact (grown_compileText h s hn).bind hn fun frame' p₁ h' _ hn₁ _ => ih frame' p₁ h' hn₁
    | icu e =>
      unfold compileSegments
      refine (grown_create h .icu _ _ hn).bind hn ?_
      rintro ⟨frame', anchor⟩ p₁ h' hcreate hn₁ _
      rw [Frame.create_eq] at hcreate
      cases hcreate
      -- The anchor is the node that the frame has just created.
      have hgrow := grows_compileIcu cfg e n site.parent p.view.size _ _
        (Frame.vacant_createdView frame p.view .icu _) hn hn₁
      refine Grown.bind (P := fun _ => True) ⟨hgrow, fun _ _ _ => trivial⟩ hn₁ ?_
      grind

theorem grown_compileRun (site : Site) (h : frame.Above n) (text : List Char) (hn : n ≤ p.view.nodes.size) :
    Grown untouched n (Frame.Above n) (compileRun cfg site frame text) p := by
  unfold compileRun
  refine Grown.bind (P := fun _ => True) ?_ hn ?_
  · refine ⟨?_, fun _ _ _ => trivial⟩
    unfold Pass.parsed
    refine grows_bind (Grows.refl _ _ _) fun _ p₁ _ _ => ?_
    split <;> exact Grows.refl _ _ _
  · intro segments p₁ _ _ hn₁ _
    exact grown_compileSegments cfg site segments frame p₁ h hn₁

def TemplateView.declares (t : TemplateView) (i : Nat) : Prop := i < max header t.bindingStart

theorem grown_placeholderSlot (site : Site) (q : Message.Placeholder) (touched : Nat → Prop)
    (hn : n ≤ p.view.nodes.size) :
    Grown touched n (fun slot : Int => ∀ k : Nat, slot = k → p.view.declares k) (placeholderSlot site q) p := by
  unfold placeholderSlot
  refine Grown.bind (P := fun p' => p' = p) ⟨Grows.refl _ _ _, ?_⟩ hn ?_
  · intro p' _ hok
    cases hok
    rfl
  · intro p' p₁ hp' _ hn₁ _
    subst hp'
    dsimp only
    split
    · exact Grown.throw
    · next number _ =>
      split
      · exact Grown.throw.bind (P := fun _ => True) hn₁ fun _ _ _ h => absurd h throw_ne_ok
      · next hlt =>
        split
        · exact Grown.throw.bind (P := fun _ => True) hn₁ fun _ _ _ h => absurd h throw_ne_ok
        · refine Grown.pure fun k hk => ?_
          unfold declares
          omega

def Frame.placeholderNode (frame : Frame) (slot : Int) : TemplateNode :=
  .fresh slot .placeholder "" (frame.placeholder.map (·.slot))

def Frame.openedView (frame : Frame) (t : TemplateView) (slot : Int) : TemplateView :=
  (t.addNode (frame.placeholderNode slot)).precede frame.nodes (frame.placeholderNode slot)

def Frame.inside (t : TemplateView) (slot : Int) : Frame := ⟨some ⟨t.nodes.size, slot⟩, []⟩

theorem openPlaceholder_eq (frame : Frame) (q : Message.Placeholder) (slot : Int) (p : Pass) :
    openPlaceholder frame q slot p =
      if p.view.isFree slot then
        .ok (frame.grown p.view, .inside p.view slot) { p with view := frame.openedView p.view slot }
      else .error (.invalidPlaceholder (.slotInUse (String.ofList q.name) slot)) p := by
  cases hfree : p.view.isFree slot with
  | true =>
    show (if !p.view.isFree slot then _ else _ : PassM (Frame × Frame)) p = _
    rw [hfree]
    rfl
  | false =>
    show (if !p.view.isFree slot then _ else _ : PassM (Frame × Frame)) p = _
    rw [hfree]
    rfl

theorem grows_openedView (h : frame.Above n) (hn : n ≤ t.nodes.size) (slot : Int) :
    t.Grows (fun k => slot = k) n (frame.openedView t slot) := by
  have hadd : t.Grows (fun k => slot = k) n (t.addNode (frame.placeholderNode slot)) :=
    grows_addNode (fun _ h => h) hn
  exact hadd.trans (grows_precede _ _ _ _ h.nodes)

theorem grown_openPlaceholder (h : frame.Above n) (q : Message.Placeholder)
    {slot : Int} (hslot : ∀ k : Nat, slot = k → touched k)
    (hn : n ≤ p.view.nodes.size) :
    Grown touched n (fun r => r.1.Above n ∧ r.2.Above n) (openPlaceholder frame q slot) p := by
  have heq := openPlaceholder_eq frame q slot p
  split at heq
  · refine ⟨?_, fun r p' hok => ?_⟩
    · rw [after_of_ok heq]
      exact (grows_openedView h hn slot).weaken (fun k _ hk => hslot k hk) (Nat.le_refl n)
    · cases heq.symm.trans hok
      refine ⟨Frame.above_grown h hn, fun _ hid => absurd hid not_mem_nil, fun o ho => ?_⟩
      cases ho
      exact hn
  · refine ⟨?_, fun r p' hok => by cases heq.symm.trans hok⟩
    rw [after_of_error heq]
    exact Grows.refl _ _ _

theorem grown_compileItems (site : Site) (last : List Char) :
    ∀ (items : List (List Char × Message.Placeholder)) (frame : Frame) (outer : List Frame) (p : Pass),
      frame.Above n → (∀ f ∈ outer, f.Above n) → n ≤ p.view.nodes.size → p.view.bindingStart = t.bindingStart →
        Grown t.declares n (fun _ => True) (compileItems cfg site last frame outer items) p := by
  intro items
  induction items with
  | nil =>
    intro frame outer p h _ hn _
    unfold compileItems
    refine ((grown_compileRun cfg site h last hn).weaken fun _ hfalse => hfalse.elim).bind hn ?_
    intro frame' p₁ _ _ _ _
    split
    · exact Grown.throw
    · exact Grown.pure trivial
  | cons item rest ih =>
    intro frame outer p h houter hn hstart
    obtain ⟨text, q⟩ := item
    unfold compileItems
    refine ((grown_compileRun cfg site h text hn).weaken fun _ hfalse => hfalse.elim).bind hn ?_
    intro frame₁ p₁ h₁ _ hn₁ hstart₁
    refine (grown_placeholderSlot site q t.declares hn₁).bind hn₁ ?_
    intro slot p₂ hslot _ hn₂ hstart₂
    split
    · split
      · next enclosing outer' =>
        split
        · refine ih enclosing outer' p₂ (houter _ mem_cons_self) (fun f hf => houter f (mem_cons_of_mem _ hf)) hn₂ ?_
          rw [hstart₂, hstart₁, hstart]
        · exact Grown.throw
      · exact Grown.throw
    · have htouched : ∀ k : Nat, slot = k → t.declares k := by
        intro k hk
        have hdeclared := hslot k hk
        unfold declares at hdeclared ⊢
        rw [← hstart, ← hstart₁]
        exact hdeclared
      refine (grown_openPlaceholder h₁ q htouched hn₂).bind hn₂ ?_
      rintro ⟨frame₃, inside⟩ p₃ ⟨h₃, hinside⟩ _ hn₃ hstart₃
      refine ih inside (frame₃ :: outer) p₃ hinside ?_ hn₃ ?_
      · intro f hf
        rcases mem_cons.mp hf with rfl | hf
        · exact h₃
        · exact houter f hf
      · rw [hstart₃, hstart₂, hstart₁, hstart]

/-- Whether a message is accepted or refused, the slots that change are declared ones or new, and the
template nodes that change are new. -/
theorem grows_compileScoped (site : Site) (message : List Char) (p : Pass) :
    p.view.Grows p.view.declares p.view.nodes.size (after (compileScoped cfg site message) p).view :=
  (grown_compileItems cfg site _ _ .top [] p ⟨fun _ h => absurd h not_mem_nil, fun _ h => by cases h⟩
    (fun _ h => absurd h not_mem_nil) (Nat.le_refl _) rfl).1

end MessageCompiler
