/-
When the tree of a view stays a forest.

A view of a template may run any of the messages that were compiled into it, get elements for any of the placeholders
in any order, and bind values at any time. All of this keeps the nodes a forest, unless some message opens a placeholder
directly inside itself, and no message opens it elsewhere after that. The element of such a placeholder is in its slot
before the slot of the placeholder around it is looked up, so it is put into itself.
-/
import MessageCompiler.Proofs.Enclosure
import MessageCompiler.Proofs.Fitting
import MessageCompiler.Proofs.Incremental
import MessageCompiler.Proofs.Planting
import MessageCompiler.Proofs.Tandem

namespace MessageCompiler

open List
open Markup (Tree Content)
open Steps Live LiveView

variable {t : TemplateView} {k : Nat} {node : TemplateNode}

/-! ### Views with messages -/

namespace TemplateView

/-- The view comes from a new one by compiling messages and attributes, by putting nodes other than placeholders into
its slots, and by adding slots. The messages that were compiled on the way are `blocks`, and `outline` is what is in
them, one after the other. -/
inductive Built : (blocks : List Block) → (outline : List (Option Nat × Piece)) → TemplateView → Prop where
  | new (decls vars : Int) : Built [] [] (new decls vars)
  | compile {blocks : List Block} {outline : List (Option Nat × Piece)} {t : TemplateView} (h : Built blocks outline t)
      (cfg : Config) (site : Site) (message : String) (scope : Message.Scope) {handle : Handle}
      (hslot : ∀ serial block, t.slot? site.index ≠ some (.block serial block))
      (hok : (t.compile cfg site message scope).result = .ok handle) :
      Built (blocks ++ [handle.block]) (outline ++ Message.outline scope message)
        (t.compile cfg site message scope).view
  | refuse {blocks : List Block} {outline : List (Option Nat × Piece)} {t : TemplateView} (h : Built blocks outline t)
      (cfg : Config) (site : Site) (message : String) (scope : Message.Scope) {e : CompileError}
      (herror : (t.compile cfg site message scope).result = .error e) :
      Built blocks outline (t.compile cfg site message scope).view
  | compileAttributes {blocks : List Block} {outline : List (Option Nat × Piece)} {t : TemplateView}
      (h : Built blocks outline t) (cfg : Config) (index element : Int) (values : List String) :
      Built blocks outline (t.compileAttributes cfg index element values).view
  | addNode {blocks : List Block} {outline : List (Option Nat × Piece)} {t : TemplateView} (h : Built blocks outline t)
      (index : Int) (type : NodeType) (value : String) (parent : Option Int) (hindex : t.contains index = true)
      (htype : type ≠ .placeholder) : Built blocks outline (t.addNode (.fresh index type value parent))
  | alloc {blocks : List Block} {outline : List (Option Nat × Piece)} {t : TemplateView} (h : Built blocks outline t)
      (count : Nat) : Built blocks outline (t.alloc count)

theorem Built.reachable {blocks : List Block} {outline : List (Option Nat × Piece)}
    (h : t.Built blocks outline) : t.Reachable := by
  induction h with
  | new decls vars => exact .new decls vars
  | compile _ cfg site message scope _ _ ih => exact ih.compile cfg site message scope
  | refuse _ cfg site message scope _ ih => exact ih.compile cfg site message scope
  | compileAttributes _ cfg index element values ih => exact ih.compileAttributes cfg index element values
  | addNode _ index type value parent hindex _ ih => exact ih.addNode index type value parent hindex
  | alloc _ count ih => exact ih.alloc count

def createdBy (blocks : List Block) : List Int := blocks.flatMap fun block => block.create.map (·.index)

/-- What holds of a view with messages: a placeholder is that of its last opening, the messages have created their own
nodes in slots that were added for them, and every case creates the nodes of a plan in other slots. -/
structure Furnished (blocks : List Block) (outline : List (Option Nat × Piece)) (t : TemplateView) : Prop where
  sketched : t.Sketched (createdBy blocks) outline
  added : ∀ k : Nat, (k : Int) ∈ createdBy blocks → t.bindingStart ≤ k ∧ k < t.size
  cases : ∀ (k : Nat) (icu : CompiledIcu), t.icu? k = some icu → ∀ c ∈ icu.cases, ∃ (plan : Plan) (parent : Int),
    c.create = plan.create parent ∧ plan.slots.Nodup ∧ ∀ s ∈ plan.slots, (s : Int) ∉ createdBy blocks ∧ s < t.size

variable {blocks : List Block} {outline : List (Option Nat × Piece)} {t t' : TemplateView}

theorem exists_of_icu? {i : Int} {icu : CompiledIcu} (h : t.icu? i = some icu) : ∃ k : Nat, i = k := by
  cases hslot : t.slot? i with
  | none =>
    rw [icu?, hslot] at h
    cases h
  | some s =>
    obtain ⟨k, rfl, -⟩ := slot?_eq_some.mp hslot
    exact ⟨k, rfl⟩

theorem Furnished.step (h : t.Furnished blocks outline) (hrecalls : t.Recalls [] [] t') (hsize : t.size ≤ t'.size)
    (hicus : ∀ (k : Nat) (icu : CompiledIcu), t'.icu? k = some icu → t.icu? k = some icu) :
    t'.Furnished blocks outline where
  sketched := by
    have hsketched := h.sketched.recalled hrecalls
    rwa [map_nil, append_nil, append_nil] at hsketched
  added k hk := ⟨hrecalls.bindingStart ▸ (h.added k hk).1, Nat.lt_of_lt_of_le (h.added k hk).2 hsize⟩
  cases k icu hicu c hc := by
    obtain ⟨plan, parent, hcreate, hnodup, hslots⟩ := h.cases k icu (hicus k icu hicu) c hc
    grind

theorem furnished_new (decls vars : Int) : (new decls vars).Furnished [] [] := by
  refine ⟨fun k id node hslot => ?_, fun k hk => absurd hk not_mem_nil, fun k icu hicu => ?_⟩
  · cases eq_empty_of_slots_new hslot
  · rcases icu?_eq_some.mp hicu with ⟨id, node, hslot, -⟩ | hslot
    · cases eq_empty_of_slots_new hslot
    · cases eq_empty_of_slots_new hslot

end TemplateView

/-- A case of a message creates the nodes of a plan, in slots that were added for the message and are not those of the
nodes that it creates outside of cases. -/
theorem Compiled.exists_plan {t' : TemplateView} {block : Block} {parent : Int} {items : List RootItem}
    (h : Compiled t t' block parent items) {post : Post} (hpost : post ∈ items.flatMap (·.posts parent))
    {c : CompiledCase} (hc : c ∈ post.compiled.cases) :
    ∃ (plan : Plan) (own : Int), c.create = plan.create own ∧ plan.slots.Nodup ∧
      ∀ s ∈ plan.slots, (t.size ≤ s ∧ s < t'.size) ∧ s ∉ items.map RootItem.slot := by
  have hnodup := h.increasing.nodup
  obtain ⟨item, hitem, hpost⟩ := mem_flatMap.mp hpost
  cases item with
  | text slot value eager => cases hpost
  | icu slot label icu eager =>
    have hwithin := icu.within_posts parent slot post hpost
    obtain ⟨own, anchor, ⟨kind, main, current, cases⟩⟩ := post
    obtain ⟨label', content, rfl, hsub, -⟩ := CasePlans.exists_of_mem (t := t') hc
    have hinner : content.slots.Sublist icu.slots := (hsub.cons current).trans hwithin.sublist
    have hslots : (slot :: icu.slots).Sublist (items.flatMap RootItem.slots) :=
      sublist_flatMap_of_mem RootItem.slots hitem
    refine ⟨content, own, rfl, ((hinner.cons slot).trans hslots).nodup hnodup, fun s hs => ⟨?_, fun hmem => ?_⟩⟩
    · exact h.increasing.2.2 s (hslots.subset (mem_cons_of_mem _ (hinner.subset hs)))
    · obtain ⟨other, hother, rfl⟩ := mem_map.mp hmem
      exact slot_notMem_inner hnodup hother _ hitem (hinner.subset hs)

namespace TemplateView

variable {blocks : List Block} {outline : List (Option Nat × Piece)} {t t' : TemplateView}

theorem Furnished.compile (h : t.Furnished blocks outline) (ht : t.Reachable) {cfg : Config} {site : Site}
    {message : String} {scope : Message.Scope} {handle : Handle}
    (hslot : ∀ serial block, t.slot? site.index ≠ some (.block serial block))
    (hok : (t.compile cfg site message scope).result = .ok handle) :
    (t.compile cfg site message scope).view.Furnished (blocks ++ [handle.block])
      (outline ++ Message.outline scope message) := by
  obtain ⟨items, hcompiled⟩ := compiled_compile ht.sound hslot hok
  have hsketched := sketched_compile ht.sound hslot hok h.sketched
  have hstart := (retains_compile ht.sound cfg site message scope (fun _ (h : False) => h.elim) fun _ h => h.elim).2.2
  have hsize : t.size ≤ (t.compile cfg site message scope).view.size := hcompiled.increasing.1
  generalize (t.compile cfg site message scope).view = t' at hcompiled hsketched hstart hsize ⊢
  have hcreated : createdBy (blocks ++ [handle.block]) =
      createdBy blocks ++ (items.map RootItem.slot).map fun s : Nat => (s : Int) := by
    rw [← hcompiled.map_index_create, createdBy, flatMap_append, flatMap_singleton]
    rfl
  have hroot : ∀ k : Nat, (k : Int) ∈ (items.map RootItem.slot).map (fun s : Nat => (s : Int)) ↔
      k ∈ items.map RootItem.slot := by
    intro k
    rw [mem_map]
    exact ⟨fun ⟨s, hs, heq⟩ => Int.ofNat_inj.mp heq ▸ hs, fun hk => ⟨k, hk, rfl⟩⟩
  have hnew : ∀ k ∈ items.map RootItem.slot, t.size ≤ k ∧ k < t'.size := fun k hk =>
    hcompiled.increasing.2.2 k ((map_slot_sublist items).subset hk)
  refine ⟨?_, fun k hk => ?_, fun k icu hicu c hc => ?_⟩
  · rwa [hcreated, ← hcompiled.map_index_create]
  · rw [hcreated, mem_append, hroot] at hk
    rcases hk with hk | hk
    · exact ⟨hstart ▸ (h.added k hk).1, Nat.lt_of_lt_of_le (h.added k hk).2 hsize⟩
    · exact ⟨hstart ▸ Nat.le_trans ht.sound.bindingStart_le (hnew k hk).1, (hnew k hk).2⟩
  · simp only [hcreated, mem_append, hroot, not_or]
    rcases (hcompiled.surveyed 0 (Nat.zero_le _)).found ht.indexed k icu (Nat.zero_le _) hicu with hold | hanchor
    · obtain ⟨plan, parent, hcreate, hnodup, hslots⟩ := h.cases k icu hold c hc
      refine ⟨plan, parent, hcreate, hnodup, fun s hs => ⟨⟨(hslots s hs).1, fun hmem => ?_⟩,
        Nat.lt_of_lt_of_le (hslots s hs).2 hsize⟩⟩
      exact Nat.not_lt.mpr (hnew s hmem).1 (hslots s hs).2
    · obtain ⟨post, hpost, rfl⟩ := mem_map.mp hanchor
      obtain rfl := Option.some.inj ((hcompiled.icu?_post hpost).symm.trans hicu)
      obtain ⟨plan, own, hcreate, hnodup, hslots⟩ := hcompiled.exists_plan hpost hc
      refine ⟨plan, own, hcreate, hnodup, fun s hs => ⟨⟨fun hmem => ?_, (hslots s hs).2⟩, (hslots s hs).1.2⟩⟩
      exact Nat.not_lt.mpr (hslots s hs).1.1 (h.added s hmem).2

theorem Built.furnished (h : t.Built blocks outline) : t.Furnished blocks outline := by
  induction h with
  | new decls vars => exact furnished_new decls vars
  | compile h cfg site message scope hslot hok ih => exact ih.compile h.reachable hslot hok
  | refuse h cfg site message scope herror ih =>
    have hunchanged := unchanged_compile herror
    have hsound := h.reachable.sound
    exact ih.step (Unchanged.recalls _ hsound.bounded hunchanged)
      (Nat.le_of_eq (congrArg Array.size hunchanged.slots).symm)
      fun k icu hicu => (hunchanged.icu?_eq hsound k).symm.trans hicu
  | @compileAttributes blocks outline t h cfg index element values ih =>
    rcases compileAttributes_view t cfg index element values with hview | ⟨ops, -, hview⟩
    · rwa [hview]
    · rw [hview]
      have hsurveyed := surveyed_setSlot 0 t index (s := .attributes ops) (by simp) (by simp)
      exact ih.step (t.recalls_setSlot index (by simp)) (Nat.le_of_eq (size_setSlot t index _).symm) fun k icu hicu =>
          (hsurveyed.found h.reachable.indexed k icu (Nat.zero_le _) hicu).resolve_right not_mem_nil
  | @addNode blocks outline t h index type value parent hindex htype ih =>
    have hsurveyed : t.Surveyed 0 [] (t.addNode (.fresh index type value parent)) := surveyed_addNode 0 t rfl
    exact ih.step (t.recalls_addNode htype) (Nat.le_of_eq (size_setSlot t index _).symm) fun k icu hicu =>
        (hsurveyed.found h.reachable.indexed k icu (Nat.zero_le _) hicu).resolve_right not_mem_nil
  | @alloc blocks outline t h count ih =>
    have hsurveyed := surveyed_alloc 0 t count
    exact ih.step (t.recalls_alloc count) (by rw [size_alloc]; exact Nat.le_add_right _ _) fun k icu hicu =>
      (hsurveyed.found h.reachable.indexed k icu (Nat.zero_le _) hicu).resolve_right not_mem_nil

end TemplateView

/-! ### What messages leave room for -/

namespace TemplateView.Furnished

variable {blocks : List Block} {outline : List (Option Nat × Piece)} {t : TemplateView}

section

variable (h : t.Furnished blocks outline)
include h

theorem notMem_createdBy (hk : k < t.bindingStart) : (k : Int) ∉ createdBy blocks :=
  fun hmem => Nat.not_lt.mpr (h.added k hmem).1 hk

theorem enclosed (hnode : t.node? k = some node) (htype : node.type = .placeholder) :
    ∃ frame, Message.LastOpened outline frame k ∧ node.Enclosed (createdBy blocks) t.bindingStart frame k := by
  obtain ⟨id, hid, hstored⟩ := Option.bind_eq_some_iff.mp hnode
  obtain ⟨k', heq, hslot⟩ := slot?_eq_some.mp (nodeId?_eq_some.mp hid)
  obtain rfl := Int.ofNat_inj.mp heq
  exact h.sketched k id node hslot hstored htype

theorem sown : t.Sown fun k => (k : Int) ∈ createdBy blocks := by
  intro i icu hicu c hc
  obtain ⟨k, rfl⟩ := exists_of_icu? hicu
  obtain ⟨plan, parent, hcreate, hnodup, hslots⟩ := h.cases k icu hicu c hc
  exact ⟨plan, parent, hcreate, hnodup, fun s hs => (hslots s hs).1⟩

theorem roomy
    (hlast : ∀ s : Nat, Message.LastOpened outline (some s) s → t.type? s ≠ some .placeholder)
    (hnode : t.node? k = some node) (htype : node.type = .placeholder) :
    node.Roomy (fun k => (k : Int) ∈ createdBy blocks) k := by
  obtain ⟨frame, hopen, henclosed⟩ := h.enclosed hnode htype
  have hframe : ∀ j : Nat, node.parent = some (j : Int) → frame = some j := by
    intro j hj
    rw [henclosed.parent_eq] at hj
    obtain ⟨f, hf, heq⟩ := Option.map_eq_some_iff.mp hj
    rw [hf, Int.ofNat_inj.mp heq]
  refine ⟨h.notMem_createdBy henclosed.declared, fun hself => ?_,
    fun j hj => h.notMem_createdBy (henclosed.around j (hframe j hj)), fun j hj => henclosed.children j hj⟩
  refine hlast k (hframe k hself ▸ hopen) ?_
  rw [type?, hnode, Option.map_some, htype]

end

end TemplateView.Furnished

/-! ### What is done with a view -/

/-- What is done with a view: one of the compiled messages is started, a new node is attached to the placeholder in a
slot, or values are bound in one of the messages that were started. -/
inductive Act where
  | start (which : Nat)
  | attach (slot : Int) (content : Content)
  | update (which : Nat) (values : List String)

/-- A node that was not there before, and is nowhere yet. It comes from outside, so it is not recorded. -/
def Live.provide (content : Content) : LiveM Nat := do
  let id := (← get).view.tree.size
  modify fun r => { r with view := r.view.withTree (r.view.tree.create content) }
  return id

/-- Does it, given the running messages; a message that is not there is left out. -/
def Act.perform (t : TemplateView) (blocks : List Block) (running : List LiveBlock) : Act → LiveM (List LiveBlock)
  | .start which =>
    match blocks[which]? with
    | some block => do return running ++ [← LiveBlock.start block]
    | none => return running
  | .attach slot content => do
    let id ← provide content
    let _ ← Live.attach t slot id
    return running
  | .update which values =>
    match running[which]? with
    | some b => do return running.set which (← b.update t values)
    | none => return running

/-- The tree of a new view after the acts in turn, or up to the one that fails. -/
def treeAfter (t : TemplateView) (blocks : List Block) (host : Option String) (locale : Locale) (acts : List Act) :
    Tree :=
  (after (acts.foldlM (Act.perform t blocks) []) ⟨.new t host locale, [], []⟩).view.tree

theorem yields_provide {v : LiveView} {content : Content} {Q : Nat → LiveView → Prop}
    (h : Q v.tree.size (v.withTree (v.tree.create content))) : Yields (provide content) v Q := by
  rintro r rfl
  exact ⟨_, _, rfl, h⟩

section Acts

variable {leaf : Nat → Prop} {t : TemplateView} {blocks : List Block}

theorem upholds_attach (hnodes : ∀ (k : Nat) (node : TemplateNode), t.node? k = some node →
      node.type = .placeholder → node.Roomy leaf k) (slot : Int) (content : Content) :
    Upholds (Planted leaf) (provide content >>= attach t slot) := by
  intro v h
  refine Leads.bind (P := fun id v' => v.tree.size = id ∧ v.withTree (v.tree.create content) = v')
    (yields_provide ⟨rfl, rfl⟩).leads ?_
  rintro _ _ ⟨rfl, rfl⟩
  have h' := h.create content
  unfold Live.attach
  cases hnode : t.node? slot with
  | none => exact upholds_pure _ _ h'
  | some node =>
    dsimp only
    split
    · next htype =>
      obtain ⟨id, hid, -⟩ := Option.bind_eq_some_iff.mp hnode
      obtain ⟨k, rfl, -⟩ := TemplateView.slot?_eq_some.mp (TemplateView.nodeId?_eq_some.mp hid)
      refine (leads_attachNode h' (hnodes k node hnode htype) ?_ ?_ ?_ ?_).bind fun _ v' hv' => upholds_pure _ v' hv'
      · exact Nat.lt_of_lt_of_eq (Nat.lt_succ_self _) (v.tree.size_create content).symm
      · exact fun hhost => Nat.lt_irrefl _ (h.host_lt _ hhost)
      · exact fun s hs => Nat.lt_irrefl _ (h.slot_lt s _ hs)
      · exact (v.tree.children_create content _).trans (Planted.children_size v)
    · exact upholds_pure _ _ h'

theorem upholds_perform (ht : t.Sown leaf)
    (hblocks : ∀ block ∈ blocks, ∀ op ∈ block.create, ∀ k : Nat, op.index = k → leaf k)
    (hnodes : ∀ (k : Nat) (node : TemplateNode), t.node? k = some node → node.type = .placeholder → node.Roomy leaf k)
    (act : Act) (running : List LiveBlock) : Upholds (Planted leaf) (act.perform t blocks running) := by
  cases act with
  | start which =>
    unfold Act.perform
    dsimp only
    split
    · next block hblock =>
      exact (upholds_start (hblocks block (mem_of_getElem? hblock))).bind fun _ => upholds_pure _
    · exact upholds_pure _
  | attach slot content =>
    have heq : Act.perform t blocks running (.attach slot content) =
        (provide content >>= attach t slot) >>= fun _ => pure running := by
      rw [bind_assoc]
      rfl
    rw [heq]
    exact (upholds_attach hnodes slot content).bind fun _ => upholds_pure _
  | update which values =>
    unfold Act.perform
    dsimp only
    split
    · next b _ => exact (upholds_update ht b values).bind fun _ => upholds_pure _
    · exact upholds_pure _

end Acts

theorem yields_adopt_none {v : LiveView} {id : Nat} : ∀ children : List Int, (∀ c ∈ children, v.node? c = none) →
    Yields (children.forM (adopt id)) v fun _ v' => v = v'
  | [], _ => yields_pure rfl
  | c :: rest, h => by
    refine yields_forM_cons (P := fun _ v' => v = v') ?_ ?_
    · refine Yields.andThen yields_node? ?_
      rw [h c mem_cons_self]
      exact yields_pure rfl
    · rintro _ rfl
      exact yields_adopt_none rest fun c' hc' => h c' (mem_cons_of_mem _ hc')

/-- A placeholder that is directly inside itself: the first node that is attached to it becomes its own parent. -/
theorem yields_perform_self {blocks : List Block} {running : List LiveBlock} (hk : k < t.size)
    (hnode : t.node? k = some node) (htype : node.type = .placeholder) (hparent : node.parent = some (k : Int))
    (hchildren : (k : Int) ∉ node.children) (locale : Locale) (content : Content) :
    Yields (Act.perform t blocks running (.attach k content)) (.new t none locale) fun _ v' =>
      v'.tree.parent? 0 = some 0 := by
  let v : LiveView := (LiveView.new t none locale).withTree (Tree.empty.create content)
  have hlt : k < v.slots.size := Nat.lt_of_lt_of_eq hk Array.size_replicate.symm
  have hlinked : v.tree.Linked := Tree.linked_empty.create content
  have hslot : (v.set k (.node 0)).node? k = some 0 := by
    refine node?_of_slot ?_
    rw [slots_set hlt, if_pos rfl]
  obtain ⟨pre, post, hplaced⟩ := hlinked.exists_placed (p := 0) (c := 0) (Nat.zero_lt_one) (Nat.zero_lt_one)
    (node.insertBefore.bind (v.set k (.node 0)).node?)
  -- No other slot holds anything, so nothing is moved into the node.
  have hnone : ∀ (tree : Tree), ∀ c ∈ node.children, ((v.set k (.node 0)).withTree tree).node? c = none := by
    intro tree c hc
    refine Option.eq_none_iff_forall_ne_some.mpr fun n hn => ?_
    obtain ⟨j, rfl, hj⟩ := node?_eq_some.mp hn
    have hset : (v.set k (.node 0)).slots[j]? = some (.node n) := hj
    rw [slots_set hlt] at hset
    split at hset
    · next heq => exact hchildren (heq ▸ hc)
    · have hempty : (Array.replicate t.size LiveSlot.empty)[j]? = some (.node n) := hset
      rw [Array.getElem?_replicate] at hempty
      split at hempty <;> cases hempty
  refine Yields.bind (P := fun id v' => 0 = id ∧ v = v') (yields_provide ⟨rfl, rfl⟩) ?_
  rintro _ _ ⟨rfl, rfl⟩
  refine Yields.bind (P := fun _ v' => v'.tree.parent? 0 = some 0) ?_ fun _ _ h => yields_pure h
  unfold Live.attach
  rw [hnode]
  dsimp only
  rw [if_pos htype, attachNode_eq]
  refine Yields.bind (P := fun _ v' => v'.tree.parent? 0 = some 0) ?_ fun _ _ h => yields_pure h
  refine Yields.andThen (yields_setSlot hlt) (yields_get fun r hr => ?_)
  have haround : TemplateNode.around? { node with index := k } r.view = some 0 := by
    unfold TemplateNode.around?
    rw [hr, hparent]
    exact hslot
  rw [haround, hr]
  refine Yields.andThen yields_change ?_
  refine (yields_adopt_none node.children (hnone _)).mono ?_
  rintro _ _ rfl
  exact (hplaced.parent?_eq 0).trans (if_pos rfl)

/-- **When the tree of a view stays a forest.** Whatever is done with a view of the template, parents and children
agree, no node has two parents, and none is its own ancestor, if and only if there is no placeholder whose last opening
is directly inside itself. -/
theorem forest_treeAfter_iff {t : TemplateView} {blocks : List Block} {outline : List (Option Nat × Piece)}
    (h : t.Built blocks outline) :
    (∀ (host : Option String) (locale : Locale) (acts : List Act), (treeAfter t blocks host locale acts).Forest) ↔
      ∀ s : Nat, Message.LastOpened outline (some s) s → t.type? s ≠ some .placeholder := by
  have hfurnished := h.furnished
  constructor
  · intro hforest s hlast htype
    obtain ⟨node, hnode, htype⟩ := Option.map_eq_some_iff.mp htype
    obtain ⟨frame, hlast', henclosed⟩ := hfurnished.enclosed hnode htype
    obtain rfl := hlast'.unique hlast
    -- One node is enough, also without a host and without any message running.
    have hself : Yields ([Act.attach s (.comment "")].foldlM (Act.perform t blocks) [])
        (.new t none .standard) fun _ v' => v'.tree.parent? 0 = some 0 := by
      refine yields_foldlM_cons (yields_perform_self
        (Nat.lt_of_lt_of_le henclosed.declared h.reachable.sound.bindingStart_le) hnode htype henclosed.parent_eq
        ?_ .standard _) fun _ _ hv => yields_pure hv
      exact fun hmem => hfurnished.notMem_createdBy henclosed.declared (henclosed.children _ hmem)
    obtain ⟨running, r, hrun, hparent⟩ := hself ⟨.new t none .standard, [], []⟩ rfl
    have htree := hforest none .standard [.attach s (.comment "")]
    unfold treeAfter at htree
    rw [after_of_ok hrun] at htree
    exact htree.acyclic 0 (.parent hparent)
  · intro hlast host locale acts
    have hblocks : ∀ block ∈ blocks, ∀ op ∈ block.create, ∀ k : Nat, op.index = k →
        (k : Int) ∈ TemplateView.createdBy blocks := fun block hblock op hop k hk =>
      List.mem_flatMap.mpr ⟨block, hblock, hk ▸ List.mem_map_of_mem hop⟩
    have hperform := upholds_perform hfurnished.sown hblocks fun _ _ => hfurnished.roomy hlast
    exact (((liveLaw_upholds _).foldlM hperform acts []).after (planted_new _ t host locale)).forest

/-- A placeholder that is opened inside itself, and behind an expression once more, inside another one. -/
def reopenedMessage : String :=
  "\uFFFD#1\uFFFD\uFFFD#1\uFFFDa\uFFFD/#1\uFFFD\uFFFD/#1\uFFFD\x7b\uFFFD0\uFFFD, select, other \x7bx\x7d\x7d" ++
    "\uFFFD#2\uFFFD\uFFFD#1\uFFFDb\uFFFD/#1\uFFFD\uFFFD/#2\uFFFD"

theorem forest_treeAfter_iff_reopened :
    let o := (TemplateView.new 4 1).compile .standard ⟨-1, 22⟩ reopenedMessage .root
    ∃ handle, o.result = .ok handle ∧ ∀ (host : Option String) (locale : Locale) (acts : List Act),
      (treeAfter o.view [handle.block] host locale acts).Forest := by
  intro o
  obtain ⟨handle, hok, -⟩ := exists_ok_of_check (r := o.result) (fun _ => true) (by decide +kernel)
  have houtline : [] ++ Message.outline .root reopenedMessage =
      [(none, .placeholder 23), (some 23, .placeholder 23), (some 23, .text "a"), (none, .icu 0),
        (none, .placeholder 24)] ++ (some 24, .placeholder 23) :: [(some 23, .text "b")] := by decide +kernel
  refine ⟨handle, hok, (forest_treeAfter_iff (.compile (.new 4 1) .standard ⟨-1, 22⟩ reopenedMessage .root
    (fun _ _ h => by cases h) hok)).mpr fun s hlast => ?_⟩
  -- The only placeholder inside itself is that of slot 23, and its last opening is in slot 24.
  have hs : s = 23 := by
    obtain ⟨front, back, heq, -⟩ := hlast
    have hmem : (some s, .placeholder s) ∈ front ++ (some s, .placeholder s) :: back :=
      List.mem_append_right front List.mem_cons_self
    rw [← heq, houtline] at hmem
    have hslot : s = 23 ∨ s = 24 ∧ s = 23 := by simpa using hmem
    exact hslot.elim id And.right
  subst hs
  exact absurd (hlast.unique ⟨_, _, houtline, by decide⟩) (by decide)

/-- A placeholder directly inside itself: the element that is attached to it is put into itself. -/
theorem not_forest_treeAfter :
    let o := (TemplateView.new 4 1).compile .standard ⟨-1, 22⟩
      "\uFFFD#1\uFFFD\uFFFD#1\uFFFD\uFFFD/#1\uFFFD\uFFFD/#1\uFFFD" .root
    ∃ handle, o.result = .ok handle ∧ ¬(treeAfter o.view [handle.block] (some "div") .standard
      [.start 0, .attach 23 (.element .html "span" [])]).Forest := by
  intro o
  obtain ⟨handle, hok, hcheck⟩ := exists_ok_of_check (r := o.result)
    (fun handle : Handle => decide ((treeAfter o.view [handle.block] (some "div") .standard
      [.start 0, .attach 23 (.element .html "span" [])]).parent? 1 = some 1)) (by decide +kernel)
  exact ⟨handle, hok, fun hforest => hforest.acyclic 1 (.parent (of_decide_eq_true hcheck))⟩

end MessageCompiler
