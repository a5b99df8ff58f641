/-
Messages that share a view.

Every message has slots of its own, writes to texts of its own, and puts new nodes in front of anchors of its own. So
in a view that several messages share, each of them does what it would do if it were alone there; only the numbers of
the new nodes differ, as they are given out in turn.

* **`Beside.set`**, **`Beside.addNew`**, **`Beside.modifyContent`**, **`Beside.insertBefore`**,
  **`Beside.detach`** — the changes that a message makes keep this.
-/
import Mathlib.Logic.Function.Basic
import MessageCompiler.Command.Render
import MessageCompiler.Proofs.Ahead
import MessageCompiler.Proofs.Woven

namespace MessageCompiler

open List
open Markup (Content Tree)
open Markup.Tree (weave putFront lt_of_parent? size_create content?_create_lt cells_size
  size_modifyContent size_insertBefore content?_insertBefore size_detach content?_detach cells_ext)
open LiveView

def LiveView.New (base v : LiveView) (k : Nat) : Prop := base.tree.size ≤ k ∧ k < v.tree.size

/-- The message is alone in `w`, and has company in `v`. It has done the same in both: a node `k` of the one is the
node `name k` of the other. -/
structure Mirrors (S : Stage) (base : LiveView) (name : Nat → Nat) (own front : Nat → List Nat) (w v : LiveView) :
    Prop where
  onStage : w.OnStage S base
  grown : base.Grown own w
  slots : ∀ s ∈ S.inner, v.slots[s]? = w.slots[s]?.map (LiveSlot.rename name)
  old : ∀ k < base.tree.size, name k = k
  new : ∀ k, base.New w k → base.New v (name k)
  inj : ∀ k k', base.New w k → base.New w k' → name k = name k' → k = k'
  content : ∀ k, base.New w k → v.tree.content? (name k) = w.tree.content? k
  parent : ∀ k, base.New w k → v.tree.parent? (name k) = (w.tree.parent? k).map name
  children : ∀ k, base.New w k → v.tree.children (name k) = (w.tree.children k).map name
  texts : ∀ k, base.Holds S.texts k → v.tree.content? k = w.tree.content? k
  calm : ∀ x ∈ S.calm, front x = (own x).map name

/-- From `v` to `v'` only what belongs to the message has changed. -/
structure OnlyOwn (S : Stage) (base : LiveView) (name : Nat → Nat) (front front' : Nat → List Nat)
    (w v v' : LiveView) : Prop where
  slots : ∀ s, s ∉ S.inner → v'.slots[s]? = v.slots[s]?
  le : v.tree.size ≤ v'.tree.size
  cells : ∀ k, base.New v k → (∀ m, base.New w m → name m ≠ k) → v'.tree.cells[k]? = v.tree.cells[k]?
  content : ∀ k < base.tree.size, ¬base.Holds S.texts k → v'.tree.content? k = v.tree.content? k
  front : ∀ x < base.tree.size, x ∉ S.calm → front' x = front x

/-! ### One message -/

section Mirrors

variable {c p : Nat} {ref : Option Nat}

variable {S : Stage} {base v w : LiveView} {name : Nat → Nat} {own front : Nat → List Nat}

/-- A new node that is nowhere yet goes in front of an anchor of the message, or of another new node; or it becomes the
last one inside a new node. -/
structure Stage.Landing (S : Stage) (base w : LiveView) (p c : Nat) (ref : Option Nat) : Prop where
  new : base.New w c
  free : w.tree.parent? c = none
  before : ∀ r, ref = some r → w.tree.parent? r = some p ∧ (r ∈ S.calm ∨ base.tree.size ≤ r)
  last : ref = none → base.New w p

theorem Stage.Landing.lt (hw : w.tree.Linked) (h : S.Landing base w p c ref) : p < w.tree.size := by
  cases ref with
  | none => exact (h.last rfl).2
  | some r => exact hw.parent_lt (h.before r rfl).1

theorem Stage.Landing.ref_lt (h : S.Landing base w p c ref) {r : Nat}
    (hr : ref = some r) : r < w.tree.size := lt_of_parent? (h.before r hr).1

namespace Mirrors

variable (h : Mirrors S base name own front w v)

include h

theorem name_inj {k k' : Nat} (hk : k < w.tree.size) (hk' : k' < w.tree.size) (heq : name k = name k') : k = k' := by
  by_cases hold : k < base.tree.size
  · by_cases hold' : k' < base.tree.size
    · rwa [h.old k hold, h.old k' hold'] at heq
    · have := (h.new k' ⟨Nat.le_of_not_lt hold', hk'⟩).1
      rw [← heq, h.old k hold] at this
      omega
  · by_cases hold' : k' < base.tree.size
    · have := (h.new k ⟨Nat.le_of_not_lt hold, hk⟩).1
      rw [heq, h.old k' hold'] at this
      omega
    · exact h.inj k k' ⟨Nat.le_of_not_lt hold, hk⟩ ⟨Nat.le_of_not_lt hold', hk'⟩ heq

theorem name_lt (hv : base.Grown front v) {k : Nat} (hk : k < w.tree.size) : name k < v.tree.size := by
  by_cases hold : k < base.tree.size
  · rw [h.old k hold]
    exact Nat.lt_of_lt_of_le hold hv.le
  · exact (h.new k ⟨Nat.le_of_not_lt hold, hk⟩).2

theorem parent?_eq (hbase : base.tree.Linked) (hv : base.Grown front v) {k : Nat} (hk : k < w.tree.size) :
    v.tree.parent? (name k) = (w.tree.parent? k).map name := by
  by_cases hold : k < base.tree.size
  · rw [h.old k hold, hv.parent k hold, h.grown.parent k hold]
    cases hp : base.tree.parent? k with
    | none => rfl
    | some p => rw [Option.map_some, h.old p (hbase.parent_lt hp)]
  · exact h.parent k ⟨Nat.le_of_not_lt hold, hk⟩

theorem new_of_mem_children (hbase : base.tree.Linked) {p k : Nat} (hp : base.New w p) (hk : k ∈ w.tree.children p) :
    base.New w k := by
  have hparent := (h.grown.linked.child p k).mp hk
  refine ⟨Nat.le_of_not_lt fun hold => ?_, lt_of_parent? hparent⟩
  rw [h.grown.parent k hold] at hparent
  exact Nat.not_lt.mpr hp.1 (hbase.parent_lt hparent)

theorem ne_name {k p : Nat} (hk : base.New v k) (hother : ∀ m, base.New w m → name m ≠ k) (hp : p < w.tree.size) :
    k ≠ name p := by
  rintro rfl
  by_cases hold : p < base.tree.size
  · rw [h.old p hold] at hk
    exact Nat.not_lt.mpr hk.1 hold
  · exact hother p ⟨Nat.le_of_not_lt hold, hp⟩ rfl

theorem parent?_landing (hland : S.Landing base w p c ref) : v.tree.parent? (name c) = none := by
  rw [h.parent c hland.new, hland.free]
  rfl

theorem node?_inner {s : Nat} (hs : s ∈ S.inner) : v.node? s = (w.node? s).map name := by
  rw [node?_natCast, node?_natCast, h.slots s hs]
  cases w.slots[s]? with
  | none => rfl
  | some x => cases x <;> rfl

theorem frame {v' : LiveView} {front' : Nat → List Nat} (hslots : ∀ s ∈ S.inner, v'.slots[s]? = v.slots[s]?)
    (hle : v.tree.size ≤ v'.tree.size) (hcells : ∀ k, base.New w k → v'.tree.cells[name k]? = v.tree.cells[name k]?)
    (htexts : ∀ k, base.Holds S.texts k → v'.tree.content? k = v.tree.content? k)
    (hfront : ∀ x ∈ S.calm, front' x = front x) : Mirrors S base name own front' w v' := { h with
  slots s hs := (hslots s hs).trans (h.slots s hs)
  new k hk := ⟨(h.new k hk).1, Nat.lt_of_lt_of_le (h.new k hk).2 hle⟩
  content k hk := by
    rw [← h.content k hk]
    unfold Tree.content?
    rw [hcells k hk]
  parent k hk := by
    rw [← h.parent k hk]
    unfold Tree.parent?
    rw [hcells k hk]
  children k hk := by
    rw [← h.children k hk]
    unfold Tree.children
    rw [hcells k hk]
  texts k hk := (htexts k hk).trans (h.texts k hk)
  calm x hx := (hfront x hx).trans (h.calm x hx) }

/-! ### The changes of a message to its image -/

theorem set {s : Nat} (hs : s ∈ S.inner) (hlt : s < v.slots.size) {x : LiveSlot} (hx : ∀ n, x ≠ .node n) :
    Mirrors S base name own front (w.set s x) (v.set s x) := { h with
  onStage := h.onStage.set hs hx
  grown := h.grown.set s x
  slots k hk := by
    rw [slots_set hlt, slots_set (h.onStage.inner_lt s hs)]
    split
    · cases x with
      | node n => exact absurd rfl (hx n)
      | empty => rfl
      | chosen case fresh => rfl
    · exact h.slots k hk }

theorem addNew (hv : base.Grown front v) {s : Nat} (hs : s ∈ S.inner) (hlt : s < v.slots.size)
    (htexts : ∀ k, base.Holds S.texts k → k < base.tree.size) (hname : name w.tree.size = v.tree.size)
    (content : Content) : Mirrors S base name own front (w.addNew s content) (v.addNew s content) := by
  have hsizeW : (w.tree.create content).size = w.tree.size + 1 := size_create _ _
  have hsizeV : (v.tree.create content).size = v.tree.size + 1 := size_create _ _
  have hcases : ∀ k, base.New (w.addNew s content) k → base.New w k ∨ k = w.tree.size := by
    rintro k ⟨hle, hk⟩
    have hk : k < (w.tree.create content).size := hk
    rw [hsizeW] at hk
    exact (Nat.lt_succ_iff_lt_or_eq.mp hk).imp (fun hlt => ⟨hle, hlt⟩) id
  have hbelow : ∀ k, base.New w k → name k < v.tree.size := fun k hk => (h.new k hk).2
  -- what concerns the older of the new nodes was known before; the last one has neither parent nor children
  exact { h with
    onStage := h.onStage.addNew hs content
    grown := h.grown.addNew s content
    slots := fun k hk => by
      rw [slots_addNew hlt, slots_addNew (h.onStage.inner_lt s hs)]
      split
      · rw [← hname]
        rfl
      · exact h.slots k hk
    new := fun k hk => by
      refine And.imp_right (fun hlt => ?_) (show base.tree.size ≤ name k ∧ name k < v.tree.size + 1 from ?_)
      · show name k < (v.tree.create content).size
        rwa [hsizeV]
      · rcases hcases k hk with hk | rfl
        · exact ⟨(h.new k hk).1, Nat.lt_succ_of_lt (hbelow k hk)⟩
        · rw [hname]
          exact ⟨hv.le, Nat.lt_succ_self _⟩
    inj := fun k k' hk hk' heq => by
      rcases hcases k hk with hk | rfl
      · rcases hcases k' hk' with hk' | rfl
        · exact h.inj k k' hk hk' heq
        · have := hbelow k hk
          omega
      · rcases hcases k' hk' with hk' | rfl
        · have := hbelow k' hk'
          omega
        · rfl
    content := fun k hk => by
      show (v.tree.create content).content? (name k) = (w.tree.create content).content? k
      rcases hcases k hk with hk | rfl
      · rw [content?_create_lt _ _ (hbelow k hk), content?_create_lt _ _ hk.2]
        exact h.content k hk
      · rw [hname, Tree.content?_create_size, Tree.content?_create_size]
    parent := fun k hk => by
      show (v.tree.create content).parent? (name k) = ((w.tree.create content).parent? k).map name
      rw [Tree.parent?_create, Tree.parent?_create]
      rcases hcases k hk with hk | rfl
      · exact h.parent k hk
      · rw [hname]
        unfold Tree.parent?
        rw [cells_size, cells_size]
        rfl
    children := fun k hk => by
      show (v.tree.create content).children (name k) = ((w.tree.create content).children k).map name
      rw [Tree.children_create, Tree.children_create]
      rcases hcases k hk with hk | rfl
      · exact h.children k hk
      · rw [hname]
        unfold Tree.children
        rw [cells_size, cells_size]
        rfl
    texts := fun k hk => by
      have hold := htexts k hk
      show (v.tree.create content).content? k = (w.tree.create content).content? k
      rw [content?_create_lt _ _ (Nat.lt_of_lt_of_le hold hv.le),
        content?_create_lt _ _ (Nat.lt_of_lt_of_le hold h.grown.le)]
      exact h.texts k hk }

theorem withTree {tw tv : Tree} {own' front' : Nat → List Nat} (hgrown : base.Grown own' (w.withTree tw))
    (hsize : tw.size = w.tree.size) (hsize' : tv.size = v.tree.size)
    (hcontent : ∀ k, base.New w k → tv.content? (name k) = tw.content? k)
    (hparent : ∀ k, base.New w k → tv.parent? (name k) = (tw.parent? k).map name)
    (hchildren : ∀ k, base.New w k → tv.children (name k) = (tw.children k).map name)
    (htexts : ∀ k, base.Holds S.texts k → tv.content? k = tw.content? k)
    (hcalm : ∀ x ∈ S.calm, front' x = (own' x).map name) :
    Mirrors S base name own' front' (w.withTree tw) (v.withTree tv) := by
  have hnew : ∀ k, base.New (w.withTree tw) k → base.New w k := fun k hk => ⟨hk.1, Nat.lt_of_lt_of_eq hk.2 hsize⟩
  exact { h with
    onStage := h.onStage.withTree hgrown.linked hsize
    grown := hgrown
    new := fun k hk => ⟨(h.new k (hnew k hk)).1, Nat.lt_of_lt_of_eq (h.new k (hnew k hk)).2 hsize'.symm⟩
    inj := fun k k' hk hk' => h.inj k k' (hnew k hk) (hnew k' hk')
    content := fun k hk => hcontent k (hnew k hk)
    parent := fun k hk => hparent k (hnew k hk)
    children := fun k hk => hchildren k (hnew k hk)
    texts := htexts
    calm := hcalm }

theorem modifyContent {id : Nat} (hid : id < w.tree.size) (htexts : ∀ k, base.Holds S.texts k → k < base.tree.size)
    (g : Content → Content) : Mirrors S base name own front
      (w.withTree (Live.modifyContent id g w.tree)) (v.withTree (Live.modifyContent (name id) g v.tree)) := by
  have hcontent : ∀ k < w.tree.size, v.tree.content? (name k) = w.tree.content? k →
      (Live.modifyContent (name id) g v.tree).content? (name k) = (Live.modifyContent id g w.tree).content? k := by
    intro k hk heq
    rw [Tree.content?_modifyContent, Tree.content?_modifyContent, heq]
    exact if_congr ⟨h.name_inj hk hid, congrArg name⟩ rfl rfl
  refine h.withTree (h.grown.modifyContent id g) (size_modifyContent id g w.tree)
    (size_modifyContent (name id) g v.tree) (fun k hk => hcontent k hk.2 (h.content k hk)) (fun k hk => ?_)
    (fun k hk => ?_) (fun k hk => ?_) h.calm
  · rw [Tree.parent?_modifyContent, Tree.parent?_modifyContent]
    exact h.parent k hk
  · rw [Tree.children_modifyContent, Tree.children_modifyContent]
    exact h.children k hk
  · have hold := htexts k hk
    have heq := hcontent k (Nat.lt_of_lt_of_le hold h.grown.le)
    rw [h.old k hold] at heq
    exact heq (h.texts k hk)

theorem insertBefore (hbase : base.tree.Linked) (hv : base.Grown front v) (hcalm : ∀ x ∈ S.calm, x < base.tree.size)
    {p c : Nat} {ref : Option Nat} (hland : S.Landing base w p c ref) :
    Mirrors S base name (putFront c ref own) (putFront (name c) (ref.map name) front)
      (w.withTree (w.tree.insertBefore p c ref))
      (v.withTree (v.tree.insertBefore (name p) (name c) (ref.map name))) := by
  have hp := hland.lt h.grown.linked
  have hc := hland.new
  have hp' := h.name_lt hv hp
  have hc' := h.name_lt hv hc.2
  have hgrown := h.grown.insertBefore hp hc.1 hc.2 hland.free (fun r hr => (hland.before r hr).1)
    fun hr => (hland.last hr).1
  refine h.withTree hgrown (size_insertBefore _ _ _ _) (size_insertBefore _ _ _ _) (fun k hk => ?_)
    (fun k hk => ?_) (fun k hk => ?_) (fun k hk => ?_) fun x hx => ?_
  · rw [content?_insertBefore, content?_insertBefore]
    exact h.content k hk
  · rw [hv.linked.parent?_insertBefore hp' hc', h.grown.linked.parent?_insertBefore hp hc.2, h.parent k hk,
      apply_ite (Option.map name)]
    exact if_congr ⟨h.inj k c hk hc, congrArg name⟩ rfl rfl
  · -- the node comes from nowhere, so that no list loses it
    have hinj : ∀ r, ref = some r → ∀ x ∈ w.tree.children k, name x = name r → x = r := fun r hr x hx =>
      h.name_inj (h.new_of_mem_children hbase hk hx).2 (hland.ref_lt hr)
    rw [hv.linked.children_insertBefore hp' hc', h.grown.linked.children_insertBefore hp hc.2,
      hv.linked.erase_of_none (h.parent?_landing hland), h.grown.linked.erase_of_none hland.free, h.children k hk,
      apply_ite (List.map name), Tree.map_insertAt hinj]
    exact if_congr ⟨h.name_inj hk.2 hp, congrArg name⟩ rfl rfl
  · rw [content?_insertBefore, content?_insertBefore]
    exact h.texts k hk
  · have hold := hcalm x hx
    refine Tree.map_putFront (h.calm x hx) (fun r hr => ⟨fun heq => ?_, fun heq => ?_⟩) fun r hr y hy =>
      h.name_inj (h.grown.new x y hy).2 (hland.ref_lt hr)
    · rw [← h.old x hold] at heq
      exact h.name_inj (Nat.lt_of_lt_of_le hold h.grown.le) (hland.ref_lt hr) heq
    · rw [← heq, h.old x hold]

theorem detach (hbase : base.tree.Linked) (hv : base.Grown front v) {c : Nat} (hc : base.New w c) :
    Mirrors S base name (fun x => (own x).erase c) (fun x => (front x).erase (name c))
      (w.withTree (w.tree.detach c)) (v.withTree (v.tree.detach (name c))) := by
  refine h.withTree (h.grown.detach hbase hc.1) (size_detach _ _) (size_detach _ _) (fun k hk => ?_)
    (fun k hk => ?_) (fun k hk => ?_) (fun k hk => ?_) fun x hx => ?_
  · rw [content?_detach, content?_detach]
    exact h.content k hk
  · rw [Tree.parent?_detach, Tree.parent?_detach, h.parent k hk, apply_ite (Option.map name)]
    exact if_congr ⟨h.inj k c hk hc, congrArg name⟩ rfl rfl
  · rw [hv.linked.children_detach, h.grown.linked.children_detach, h.children k hk]
    exact (Tree.map_erase_of_inj fun x hx => h.inj x c (h.new_of_mem_children hbase hk hx) hc).symm
  · rw [content?_detach, content?_detach]
    exact h.texts k hk
  · rw [h.calm x hx]
    exact (Tree.map_erase_of_inj fun y hy => h.inj y c (h.grown.new x y hy) hc).symm

end Mirrors

/-! ### What others see of it -/

theorem OnlyOwn.of_slots {v' : LiveView} (hslots : ∀ s, s ∉ S.inner → v'.slots[s]? = v.slots[s]?)
    (htree : v'.tree = v.tree) : OnlyOwn S base name front front w v v' where
  slots := hslots
  le := Nat.le_of_eq (congrArg Tree.size htree).symm
  cells k _ _ := by rw [htree]
  content k _ _ := by rw [htree]
  front _ _ _ := rfl

theorem onlyOwn_set {s : Nat} (hs : s ∈ S.inner) (x : LiveSlot) : OnlyOwn S base name front front w v (v.set s x) := by
  refine .of_slots (fun k hk => ?_) rfl
  exact Array.getElem?_setIfInBounds_ne fun heq : s = k => hk (heq ▸ hs)

theorem onlyOwn_addNew (hv : base.Grown front v) {s : Nat} (hs : s ∈ S.inner) (content : Content) :
    OnlyOwn S base name front front w v (v.addNew s content) where
  slots k hk := Array.getElem?_setIfInBounds_ne fun heq : s = k => hk (heq ▸ hs)
  le := by
    show _ ≤ (v.tree.create content).size
    rw [size_create]
    exact Nat.le_succ _
  cells k hk _ := by
    show (v.tree.create content).cells[k]? = _
    rw [Tree.cells_create, if_neg (Nat.ne_of_lt hk.2)]
  content k hk _ := v.tree.content?_create_lt content (Nat.lt_of_lt_of_le hk hv.le)
  front _ _ _ := rfl

section

variable (h : Mirrors S base name own front w v)
include h

theorem Mirrors.onlyOwn_modifyContent {id : Nat}
    (hid : base.New w id ∨ id < base.tree.size ∧ base.Holds S.texts id) (g : Content → Content) :
    OnlyOwn S base name front front w v (v.withTree (Live.modifyContent (name id) g v.tree)) where
  slots _ _ := rfl
  le := Nat.le_of_eq (size_modifyContent (name id) g v.tree).symm
  cells k hk hother := by
    have hlt : id < w.tree.size := hid.elim (·.2) fun hid => Nat.lt_of_lt_of_le hid.1 h.grown.le
    refine cells_ext ?_ (Tree.parent?_modifyContent _ _ _ _) (Tree.children_modifyContent _ _ _ _)
    exact (Tree.content?_modifyContent _ _ _ _).trans (if_neg (h.ne_name hk hother hlt))
  content k hk htext := by
    refine (Tree.content?_modifyContent _ _ _ _).trans (if_neg ?_)
    rintro rfl
    rcases hid with hid | ⟨hold, hheld⟩
    · exact Nat.not_lt.mpr (h.new id hid).1 hk
    · rw [h.old id hold] at htext
      exact htext hheld
  front _ _ _ := rfl

theorem Mirrors.onlyOwn_insertBefore (hv : base.Grown front v) (hcalm : ∀ x ∈ S.calm, x < base.tree.size)
    (hfront : ∀ x < base.tree.size, x ∉ S.calm → ∀ k, base.New w k → name k ∉ front x)
    (hland : S.Landing base w p c ref) : OnlyOwn S base name front (putFront (name c) (ref.map name) front) w v
      (v.withTree (v.tree.insertBefore (name p) (name c) (ref.map name))) := by
  have hp := hland.lt h.grown.linked
  have hp' := h.name_lt hv hp
  have hc' := h.name_lt hv hland.new.2
  refine ⟨fun _ _ => rfl, Nat.le_of_eq (size_insertBefore _ _ _ _).symm, fun k hk hother => ?_,
    fun k _ _ => content?_insertBefore _ _ _ _ _, fun x hx hnot => ?_⟩
  · refine cells_ext (content?_insertBefore _ _ _ _ _) ?_ ?_
    · exact (hv.linked.parent?_insertBefore hp' hc' _ _).trans (if_neg fun heq => hother c hland.new heq.symm)
    · refine (hv.linked.children_insertBefore hp' hc' _ _).trans ?_
      rw [if_neg (h.ne_name hk hother hp), hv.linked.erase_of_none (h.parent?_landing hland)]
  · -- a node that is put in front of something is put in front of something of the message
    refine Tree.putFront_of_notMem (fun hr => ?_) fun r' hr => ?_
    · obtain ⟨r, href, rfl⟩ := Option.map_eq_some_iff.mp hr
      rcases (hland.before r href).2 with hmem | hle
      · rw [h.old r (hcalm r hmem)] at hnot
        exact hnot hmem
      · exact Nat.not_lt.mpr (h.new r ⟨hle, hland.ref_lt href⟩).1 hx
    · obtain ⟨r, href, rfl⟩ := Option.map_eq_some_iff.mp hr
      rcases (hland.before r href).2 with hmem | hle
      · rw [h.old r (hcalm r hmem)]
        exact fun hin => Nat.not_lt.mpr (hv.new x r hin).1 (hcalm r hmem)
      · exact hfront x hx hnot r ⟨hle, hland.ref_lt href⟩

theorem Mirrors.onlyOwn_detach (hv : base.Grown front v)
    (hfront : ∀ x < base.tree.size, x ∉ S.calm → ∀ k, base.New w k → name k ∉ front x) (hc : base.New w c) :
    OnlyOwn S base name front (fun x => (front x).erase (name c)) w v (v.withTree (v.tree.detach (name c))) where
  slots _ _ := rfl
  le := Nat.le_of_eq (size_detach _ _).symm
  cells k hk hother := by
    have hne : k ≠ name c := fun heq => hother c hc heq.symm
    refine cells_ext (content?_detach _ _ _) ((Tree.parent?_detach _ _ _).trans (if_neg hne)) ?_
    refine (hv.linked.children_detach _ _).trans (erase_of_not_mem fun hmem => ?_)
    -- the parent of the node belongs to the message, or is old
    have hparent := (hv.linked.child k (name c)).mp hmem
    rw [h.parent c hc] at hparent
    obtain ⟨p, hp, hname⟩ := Option.map_eq_some_iff.mp hparent
    exact h.ne_name hk hother (h.grown.linked.parent_lt hp) hname.symm
  content k _ _ := content?_detach _ _ _
  front x hx hnot := erase_of_not_mem (hfront x hx hnot c hc)

end

end Mirrors

/-! ### Several messages -/

section Shared

variable {ι : Type} {S : ι → Stage} {base v : LiveView} {name : ι → Nat → Nat} {own : ι → Nat → List Nat}
  {front : Nat → List Nat} {ws : ι → LiveView}

/-- The messages have slots, texts and anchors of their own. -/
structure Separate (S : ι → Stage) (base : LiveView) : Prop where
  linked : base.tree.Linked
  limit : ∀ i, (S i).limit = base.tree.size
  slot_lt : ∀ s n : Nat, base.slots[s]? = some (.node n) → n < base.tree.size
  calm_lt : ∀ i, ∀ x ∈ (S i).calm, x < base.tree.size
  outside : ∀ i j s, s ∈ (S i).anchors ∨ s ∈ (S i).texts → s ∉ (S j).inner
  inner : ∀ i j, i ≠ j → ∀ s ∈ (S i).inner, s ∉ (S j).inner
  texts : ∀ i j, i ≠ j → ∀ k, base.Holds (S i).texts k → ¬base.Holds (S j).texts k
  calm : ∀ i j, i ≠ j → ∀ x ∈ (S i).calm, x ∉ (S j).calm

theorem Separate.texts_lt (hS : Separate S base) (i : ι) : ∀ k, base.Holds (S i).texts k → k < base.tree.size := by
  rintro k ⟨s, -, hslot⟩
  exact hS.slot_lt s k hslot

variable {k : Nat}

theorem Separate.owns_iff (hS : Separate S base) (i : ι) {w : LiveView} : (S i).Owns w k ↔ base.New w k := by
  unfold Stage.Owns
  rw [hS.limit i]
  rfl

/-- The view is what the messages have made of `base`, where the message `i` alone would have made `ws i`. -/
structure Shared (S : ι → Stage) (base : LiveView) (name : ι → Nat → Nat) (own : ι → Nat → List Nat)
    (front : Nat → List Nat) (ws : ι → LiveView) (v : LiveView) : Prop where
  grown : base.Grown front v
  mirrors : ∀ i, Mirrors (S i) base (name i) (own i) front (ws i) v
  apart : ∀ i j, i ≠ j → ∀ k k', base.New (ws i) k → base.New (ws j) k' → name i k ≠ name j k'
  outside : ∀ s, (∀ i, s ∉ (S i).inner) → v.slots[s]? = base.slots[s]?
  content : ∀ k < base.tree.size, (∀ i, ¬base.Holds (S i).texts k) → v.tree.content? k = base.tree.content? k
  front_nil : ∀ x < base.tree.size, (∀ i, x ∉ (S i).calm) → front x = []

theorem Shared.refl (hS : Separate S base) (hstage : ∀ i, base.OnStage (S i) base) :
    Shared S base (fun _ => id) (fun _ _ => []) (fun _ => []) (fun _ => base) base := by
  have hnone : ∀ k, ¬base.New base k := fun k hk => Nat.not_lt_of_le hk.1 hk.2
  exact {
    grown := .refl hS.linked
    mirrors := fun i => {
      onStage := hstage i
      grown := .refl hS.linked
      slots := fun s _ => by rw [LiveSlot.rename_id, Option.map_id, id]
      old := fun _ _ => rfl
      new := fun k hk => hk
      inj := fun _ _ _ _ heq => heq
      content := fun k hk => absurd hk (hnone k)
      parent := fun k hk => absurd hk (hnone k)
      children := fun k hk => absurd hk (hnone k)
      texts := fun _ _ => rfl
      calm := fun _ _ => rfl }
    apart := fun _ _ _ k _ hk => absurd hk (hnone k)
    outside := fun _ _ => rfl
    content := fun _ _ _ => rfl
    front_nil := fun _ _ _ => rfl }

theorem Shared.name_notMem (h : Shared S base name own front ws v) (i : ι) {x : Nat} (hx : x < base.tree.size)
    (hnot : x ∉ (S i).calm) (hk : base.New (ws i) k) : name i k ∉ front x := by
  intro hmem
  by_cases hother : ∃ j, x ∈ (S j).calm
  · obtain ⟨j, hj⟩ := hother
    rw [(h.mirrors j).calm x hj] at hmem
    obtain ⟨k', hk', heq⟩ := mem_map.mp hmem
    have hne : i ≠ j := by
      rintro rfl
      exact hnot hj
    exact h.apart i j hne k k' hk ((h.mirrors j).grown.new x k' hk') heq.symm
  · rw [h.front_nil x hx fun j hj => hother ⟨j, hj⟩] at hmem
    cases hmem

/-- **One message at work.** What belongs to the others stays as it is. -/
theorem Shared.step [DecidableEq ι] (hS : Separate S base) (h : Shared S base name own front ws v) (i : ι)
    {v' w' : LiveView} {own' front' : Nat → List Nat} (hgrown : base.Grown front' v')
    (hmirrors : Mirrors (S i) base (name i) own' front' w' v')
    (honly : OnlyOwn (S i) base (name i) front front' (ws i) v v')
    (hnew : ∀ k, base.New w' k → base.New (ws i) k ∨ v.tree.size ≤ name i k) :
    Shared S base name (Function.update own i own') front' (Function.update ws i w') v' := by
  have hself : Function.update ws i w' i = w' := Function.update_self ..
  have hother : ∀ j, j ≠ i → Function.update ws i w' j = ws j := fun j hj => Function.update_of_ne hj ..
  -- numbers of the message at work and of another one
  have hapart : ∀ j, j ≠ i → ∀ k k', base.New w' k → base.New (ws j) k' → name i k ≠ name j k' := by
    intro j hj k k' hk hk' heq
    rcases hnew k hk with hk | hle
    · exact h.apart i j (Ne.symm hj) k k' hk hk' heq
    · have := ((h.mirrors j).new k' hk').2
      omega
  refine ⟨hgrown, fun j => ?_, fun j j' hne k k' hk hk' => ?_, fun s hs => ?_, fun k hk htext => ?_,
    fun x hx hnot => ?_⟩
  · by_cases hj : j = i
    · subst hj
      rw [hself, Function.update_self]
      exact hmirrors
    · rw [hother j hj, Function.update_of_ne hj]
      refine (h.mirrors j).frame (fun s hs => honly.slots s (hS.inner j i hj s hs)) honly.le (fun k hk => ?_)
        (fun k hk => ?_) fun x hx => honly.front x (hS.calm_lt j x hx) (hS.calm j i hj x hx)
      · exact honly.cells _ ((h.mirrors j).new k hk) fun m hm => h.apart i j (Ne.symm hj) m k hm hk
      · exact honly.content k (hS.texts_lt j k hk) (hS.texts j i hj k hk)
  · by_cases hj : j = i
    · subst hj
      rw [hself] at hk
      rw [hother j' (Ne.symm hne)] at hk'
      exact hapart j' (Ne.symm hne) k k' hk hk'
    · rw [hother j hj] at hk
      by_cases hj' : j' = i
      · subst hj'
        rw [hself] at hk'
        exact Ne.symm (hapart j hj k' k hk' hk)
      · rw [hother j' hj'] at hk'
        exact h.apart j j' hne k k' hk hk'
  · exact (honly.slots s (hs i)).trans (h.outside s hs)
  · exact (honly.content k hk (htext i)).trans (h.content k hk htext)
  · exact (honly.front x hx (hnot i)).trans (h.front_nil x hx hnot)

theorem Mirrors.congr {S : Stage} {name name' : Nat → Nat} {own front : Nat → List Nat} {w : LiveView}
    (h : Mirrors S base name own front w v) (hname : ∀ k < w.tree.size, name' k = name k) :
    Mirrors S base name' own front w v := { h with
  slots s hs := by
    rw [h.slots s hs]
    cases hslot : w.slots[s]? with
    | none => rfl
    | some x =>
      cases x with
      | node n => rw [Option.map_some, Option.map_some, LiveSlot.rename, LiveSlot.rename,
          hname n (h.onStage.inner s hs n hslot).2]
      | empty => rfl
      | chosen case fresh => rfl
  old k hk := (hname k (Nat.lt_of_lt_of_le hk h.grown.le)).trans (h.old k hk)
  new k hk := hname k hk.2 ▸ h.new k hk
  inj k k' hk hk' heq := by
    rw [hname k hk.2, hname k' hk'.2] at heq
    exact h.inj k k' hk hk' heq
  content k hk := hname k hk.2 ▸ h.content k hk
  parent k hk := by
    rw [hname k hk.2, h.parent k hk]
    cases hp : w.tree.parent? k with
    | none => rfl
    | some p => rw [Option.map_some, Option.map_some, hname p (h.grown.linked.parent_lt hp)]
  children k hk := by
    rw [hname k hk.2, h.children k hk]
    exact map_congr_left fun c hc => (hname c (lt_of_parent? ((h.grown.linked.child k c).mp hc))).symm
  calm x hx := by
    rw [h.calm x hx]
    exact map_congr_left fun k hk => (hname k (h.grown.new x k hk).2).symm }

/-! ### While a message is at work -/

variable [DecidableEq ι]

/-- The message `i` is at work, and alone it would have come to `w`. A node that it creates gets the next number in
both views. -/
structure Beside (S : ι → Stage) (base : LiveView) (name : ι → Nat → Nat) (ws : ι → LiveView) (i : ι)
    (v w : LiveView) : Prop where
  shared : ∃ own front, Shared S base name own front (Function.update ws i w) v
  fresh : ∀ k, name i (w.tree.size + k) = v.tree.size + k

theorem Shared.exists_beside (h : Shared S base name own front ws v) (i : ι) :
    ∃ name', Beside S base name' ws i v (ws i) := by
  -- the nodes that are yet to come are numbered in both views from their ends on
  let next : Nat → Nat := fun k => if k < (ws i).tree.size then name i k else v.tree.size + (k - (ws i).tree.size)
  have hnext : ∀ j, ∀ k < (ws j).tree.size, Function.update name i next j k = name j k := by
    intro j k hk
    by_cases hj : j = i
    · subst hj
      rw [Function.update_self]
      exact if_pos hk
    · rw [Function.update_of_ne hj]
  refine ⟨Function.update name i next, ⟨own, front, ?_⟩, fun k => ?_⟩
  · rw [Function.update_eq_self]
    refine ⟨h.grown, fun j => (h.mirrors j).congr (hnext j), fun j j' hne k k' hk hk' => ?_, h.outside, h.content,
      h.front_nil⟩
    rw [hnext j k hk.2, hnext j' k' hk'.2]
    exact h.apart j j' hne k k' hk hk'
  · rw [Function.update_self]
    show (if (ws i).tree.size + k < (ws i).tree.size then _ else _) = _
    rw [if_neg (by omega)]
    omega

variable {i : ι} {w : LiveView}

theorem Beside.exists_mirrors (hS : Separate S base) (h : Beside S base name ws i v w) :
    ∃ own front, base.Grown front v ∧ Mirrors (S i) base (name i) own front w v ∧
      (∀ x < base.tree.size, x ∉ (S i).calm → ∀ k, base.New w k → name i k ∉ front x) ∧
      ∀ (v' w' : LiveView) (own' front' : Nat → List Nat), base.Grown front' v' →
        Mirrors (S i) base (name i) own' front' w' v' → OnlyOwn (S i) base (name i) front front' w v v' →
        ∀ n, w'.tree.size = w.tree.size + n → v'.tree.size = v.tree.size + n → Beside S base name ws i v' w' := by
  obtain ⟨own, front, hshared⟩ := h.shared
  have hself : Function.update ws i w i = w := Function.update_self ..
  refine ⟨own i, front, hshared.grown, hself ▸ hshared.mirrors i, fun x hx hnot k hk => ?_, ?_⟩
  · exact hshared.name_notMem i hx hnot (hself.symm ▸ hk)
  · intro v' w' own' front' hgrown hmirrors honly n hw hv
    have hnew : ∀ k, base.New w' k → base.New w k ∨ v.tree.size ≤ name i k := by
      intro k hk
      by_cases hlt : k < w.tree.size
      · exact .inl ⟨hk.1, hlt⟩
      · obtain ⟨m, rfl⟩ := Nat.exists_eq_add_of_le (Nat.le_of_not_lt hlt)
        exact .inr (h.fresh m ▸ Nat.le_add_right _ m)
    have hstep := hshared.step hS i hgrown hmirrors (hself.symm ▸ honly) (hself.symm ▸ hnew)
    rw [Function.update_idem] at hstep
    refine ⟨⟨_, _, hstep⟩, fun k => ?_⟩
    rw [hw, hv, Nat.add_assoc, Nat.add_assoc]
    exact h.fresh (n + k)

namespace Beside

variable (hS : Separate S base) (h : Beside S base name ws i v w)

include hS h

variable {s : Nat}

theorem node?_eq (hs : s ∈ (S i).anchors ∨ s ∈ (S i).texts ∨ s ∈ (S i).inner) :
    v.node? s = (w.node? s).map (name i) := by
  obtain ⟨own, front, hshared⟩ := h.shared
  obtain ⟨_, _, -, hm, -, -⟩ := h.exists_mirrors hS
  by_cases hinner : s ∈ (S i).inner
  · exact hm.node?_inner hinner
  · have hout := hS.outside i (s := s)
    have hs : s ∈ (S i).anchors ∨ s ∈ (S i).texts := hs.imp_right fun hs => hs.resolve_right hinner
    rw [node?_natCast, node?_natCast, hshared.outside s fun j => hout j hs, hm.onStage.outside s hinner]
    cases hslot : base.slots[s]? with
    | none => rfl
    | some x =>
      cases x with
      | node n => rw [Option.map_some, hm.old n (hS.slot_lt s n hslot)]
      | empty => rfl
      | chosen case fresh => rfl

theorem slots_eq (hs : s ∈ (S i).inner) : v.slots[s]? = w.slots[s]?.map (LiveSlot.rename (name i)) := by
  obtain ⟨_, _, -, hm, -, -⟩ := h.exists_mirrors hS
  exact hm.slots s hs

theorem inner_lt (hs : s ∈ (S i).inner) : s < v.slots.size ∧ s < w.slots.size := by
  obtain ⟨_, _, hv, hm, -, -⟩ := h.exists_mirrors hS
  have hlt := hm.onStage.inner_lt s hs
  refine ⟨?_, hlt⟩
  rw [hv.size, ← hm.grown.size]
  exact hlt

theorem locale_eq : v.locale = w.locale := by
  obtain ⟨_, _, hv, hm, -, -⟩ := h.exists_mirrors hS
  exact hv.locale.trans hm.grown.locale.symm

theorem parent?_eq (hk : k < w.tree.size) : v.tree.parent? (name i k) = (w.tree.parent? k).map (name i) := by
  obtain ⟨_, _, hv, hm, -, -⟩ := h.exists_mirrors hS
  exact hm.parent?_eq hS.linked hv hk

theorem new_of_node? {n : Nat} (hs : s ∈ (S i).inner) (hn : w.node? s = some n) : base.New w n := by
  obtain ⟨_, _, -, hm, -, -⟩ := h.exists_mirrors hS
  have := hm.onStage.inner s hs n (slot_of_node? hn)
  rwa [hS.limit i] at this

theorem new_or_holds {n : Nat} (hs : s ∈ (S i).texts ∨ s ∈ (S i).inner) (hn : w.node? s = some n) :
    base.New w n ∨ base.Holds (S i).texts n := by
  by_cases hinner : s ∈ (S i).inner
  · exact .inl (h.new_of_node? hS hinner hn)
  · obtain ⟨_, _, -, hm, -, -⟩ := h.exists_mirrors hS
    refine .inr ⟨s, hs.resolve_right hinner, ?_⟩
    rw [← hm.onStage.outside s hinner]
    exact slot_of_node? hn

theorem set (hs : s ∈ (S i).inner) {x : LiveSlot} (hx : ∀ n, x ≠ .node n) :
    Beside S base name ws i (v.set s x) (w.set s x) := by
  obtain ⟨_, _, hv, hm, -, hnext⟩ := h.exists_mirrors hS
  exact hnext _ _ _ _ (hv.set s x) (hm.set hs (h.inner_lt hS hs).1 hx) (onlyOwn_set hs x) 0 rfl rfl

theorem addNew (hs : s ∈ (S i).inner) (content : Content) :
    Beside S base name ws i (v.addNew s content) (w.addNew s content) := by
  obtain ⟨_, _, hv, hm, -, hnext⟩ := h.exists_mirrors hS
  exact hnext _ _ _ _ (hv.addNew s content) (hm.addNew hv hs (h.inner_lt hS hs).1 (hS.texts_lt i) (h.fresh 0) content)
    (onlyOwn_addNew hv hs content) 1 (size_create _ _) (size_create _ _)

theorem modifyContent {id : Nat} (hid : base.New w id ∨ base.Holds (S i).texts id) (g : Content → Content) :
    Beside S base name ws i (v.withTree (Live.modifyContent (name i id) g v.tree))
      (w.withTree (Live.modifyContent id g w.tree)) := by
  obtain ⟨_, _, hv, hm, -, hnext⟩ := h.exists_mirrors hS
  have hlt : id < w.tree.size := hid.elim (·.2) fun hid => Nat.lt_of_lt_of_le (hS.texts_lt i id hid) hm.grown.le
  exact hnext _ _ _ _ (hv.modifyContent _ g) (hm.modifyContent hlt (hS.texts_lt i) g)
    (hm.onlyOwn_modifyContent (hid.imp_right fun hid => ⟨hS.texts_lt i id hid, hid⟩) g) 0
    (size_modifyContent _ _ _) (size_modifyContent _ _ _)

theorem insertBefore {p c : Nat} {ref : Option Nat} (hland : (S i).Landing base w p c ref) :
    Beside S base name ws i (v.withTree (v.tree.insertBefore (name i p) (name i c) (ref.map (name i))))
      (w.withTree (w.tree.insertBefore p c ref)) := by
  obtain ⟨_, _, hv, hm, hfront, hnext⟩ := h.exists_mirrors hS
  have hp := hland.lt hm.grown.linked
  have hc := hm.new c hland.new
  have href : ∀ r', ref.map (name i) = some r' → v.tree.parent? r' = some (name i p) := by
    intro r' hr'
    obtain ⟨r, hr, rfl⟩ := Option.map_eq_some_iff.mp hr'
    rw [hm.parent?_eq hS.linked hv (hland.ref_lt hr), (hland.before r hr).1]
    rfl
  have hlast : ref.map (name i) = none → base.tree.size ≤ name i p := fun hr =>
    (hm.new p (hland.last (Option.map_eq_none_iff.mp hr))).1
  exact hnext _ _ _ _ (hv.insertBefore (hm.name_lt hv hp) hc.1 hc.2 (hm.parent?_landing hland) href hlast)
    (hm.insertBefore hS.linked hv (hS.calm_lt i) hland) (hm.onlyOwn_insertBefore hv (hS.calm_lt i) hfront hland) 0
    (size_insertBefore _ _ _ _) (size_insertBefore _ _ _ _)

theorem detach {c : Nat} (hc : base.New w c) : Beside S base name ws i (v.withTree (v.tree.detach (name i c)))
    (w.withTree (w.tree.detach c)) := by
  obtain ⟨_, _, hv, hm, hfront, hnext⟩ := h.exists_mirrors hS
  exact hnext _ _ _ _ (hv.detach hS.linked (hm.new c hc).1) (hm.detach hS.linked hv hc)
    (hm.onlyOwn_detach hv hfront hc) 0 (size_detach _ _) (size_detach _ _)

end Beside

theorem Separate.follows (hS : Separate S base) (name : ι → Nat → Nat) (ws : ι → LiveView) (i : ι) :
    Follows (S i) (name i) fun w v => Beside S base name ws i v w where
  linked h := by
    obtain ⟨_, _, -, hm, -, -⟩ := h.exists_mirrors hS
    exact hm.grown.linked
  locale_eq h := h.locale_eq hS
  node?_eq h _ hs := h.node?_eq hS hs
  slots_eq h _ hs := h.slots_eq hS hs
  inner_lt h _ hs := (h.inner_lt hS hs).symm
  owns h _ _ hs hn := (hS.owns_iff i).mpr (h.new_of_node? hS hs hn)
  front h _ _ hs ha := by
    obtain ⟨_, _, -, hm, -, -⟩ := h.exists_mirrors hS
    exact hm.onStage.front hs ha
  parent?_eq h _ _ ha := h.parent?_eq hS ha
  set h _ _ hs hx := h.set hS hs hx
  addNew h _ hs content := h.addNew hS hs content
  write h _ _ hs hn g := h.modifyContent hS (h.new_or_holds hS hs hn) g
  insertBefore := by
    intro w v h p c a hc hfree ha hp
    have hland : (S i).Landing base w p c (some a) := by
      refine ⟨(hS.owns_iff i).mp hc, hfree, fun r hr => ?_, fun hr => (by cases hr)⟩
      cases hr
      exact ⟨hp, ha.symm.imp_right fun hle => hS.limit i ▸ hle⟩
    exact h.insertBefore hS hland
  append := by
    intro w v h p c hp hc hfree
    have hland : (S i).Landing base w p c none :=
      ⟨(hS.owns_iff i).mp hc, hfree, fun r hr => (by cases hr), fun _ => (hS.owns_iff i).mp hp⟩
    have hmoved := h.insertBefore hS hland
    rwa [Option.map_none, Tree.insertBefore_none, Tree.insertBefore_none] at hmoved
  detach h _ hc := h.detach hS ((hS.owns_iff i).mp hc)

end Shared

/-! ### What the view shows -/

section Shown

variable {ι : Type} {S : ι → Stage} {base v v' : LiveView} {name name' : ι → Nat → Nat}
  {own own' : ι → Nat → List Nat} {front front' : Nat → List Nat} {ws : ι → LiveView}

theorem Shared.toNode_new (hS : Separate S base) (h : Shared S base name own front ws v) (i : ι) (n : Nat) :
    ∀ k, base.New (ws i) k → v.tree.toNode n (name i k) = (ws i).tree.toNode n k := by
  have hm := h.mirrors i
  induction n with
  | zero => exact fun _ _ => rfl
  | succ n ih =>
    intro k hk
    have hchildren : (v.tree.children (name i k)).map (v.tree.toNode n) =
        ((ws i).tree.children k).map ((ws i).tree.toNode n) := by
      rw [hm.children k hk, map_map]
      exact map_congr_left fun c hc => ih c (hm.new_of_mem_children hS.linked hk hc)
    unfold Tree.toNode
    rw [hm.content k hk, hchildren]

theorem Shared.content_eq (h : Shared S base name own front ws v) (h' : Shared S base name' own' front' ws v')
    {k : Nat} (hk : k < base.tree.size) : v.tree.content? k = v'.tree.content? k := by
  by_cases htext : ∃ i, base.Holds (S i).texts k
  · obtain ⟨i, hi⟩ := htext
    rw [(h.mirrors i).texts k hi, (h'.mirrors i).texts k hi]
  · have hnone : ∀ i, ¬base.Holds (S i).texts k := fun i hi => htext ⟨i, hi⟩
    rw [h.content k hk hnone, h'.content k hk hnone]

theorem Shared.front_eq (hS : Separate S base) (h : Shared S base name own front ws v)
    (h' : Shared S base name' own' front' ws v') (n : Nat) {p x : Nat} (hp : p < base.tree.size)
    (hx : x ∈ base.tree.children p) : (front x).map (v.tree.toNode n) = (front' x).map (v'.tree.toNode n) := by
  have hold : ∀ y ∈ base.tree.children p, y < base.tree.size := fun y hy =>
    lt_of_parent? ((hS.linked.child p y).mp hy)
  by_cases hcalm : ∃ i, x ∈ (S i).calm
  · obtain ⟨i, hi⟩ := hcalm
    have hm := h.mirrors i
    have hm' := h'.mirrors i
    have hsame : own i x = own' i x := by
      refine Tree.eq_of_weave (hS.linked.nodup p) hold (fun y k hk => (hm.grown.new y k hk).1) ?_ x hx
      rw [← hm.grown.children p hp, ← hm'.grown.children p hp]
    rw [hm.calm x hi, hm'.calm x hi, hsame, map_map, map_map]
    refine map_congr_left fun k hk => ?_
    have hnew := hm'.grown.new x k hk
    exact (h.toNode_new hS i n k hnew).trans (h'.toNode_new hS i n k hnew).symm
  · have hnone : ∀ i, x ∉ (S i).calm := fun i hi => hcalm ⟨i, hi⟩
    rw [h.front_nil x (hold x hx) hnone, h'.front_nil x (hold x hx) hnone]
    rfl

/-- **What is shared shows the same.** Two views that are made up of the same work show the same below the host,
whatever the numbers of their nodes. -/
theorem Shared.hostNodes_eq (hS : Separate S base) (hhost : ∀ host, base.host = some host →
      host < base.tree.size ∧ base.tree.parent? host = none)
    (h : Shared S base name own front ws v) (h' : Shared S base name' own' front' ws v') :
    Command.hostNodes v = Command.hostNodes v' := by
  unfold Command.hostNodes
  rw [h.grown.host, h'.grown.host]
  cases hroot : base.host with
  | none => rfl
  | some root =>
    obtain ⟨hlt, hparent⟩ := hhost root hroot
    have hold : ∀ k, k < base.tree.size → ∀ c ∈ base.tree.children k, c < base.tree.size := fun k _ c hc =>
      lt_of_parent? ((hS.linked.child k c).mp hc)
    exact h.grown.linked.map_node_eq (N := (· < base.tree.size)) h'.grown.linked ((h.grown.parent root hlt).trans hparent)
      ((h'.grown.parent root hlt).trans hparent) hlt hold h.grown.children h'.grown.children (fun _ => h.content_eq h')
      fun n _ hk _ hc => h.front_eq hS h' n hk hc

end Shown

end MessageCompiler
