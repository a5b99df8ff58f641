/-
Trees whose links agree.

A node is among the children of exactly the node that it has as its parent. Whatever puts a node
somewhere, or takes it away, keeps this.

* **`Linked`** — parents and children agree.
* **`Placed`**, **`Linked.placed`** — a node was put into the list of children of another.
-/
import MessageCompiler.Markup.Tree

namespace MessageCompiler.Markup.Tree

variable {c k p root : Nat} {cell : Cell} {post pre : List Nat}

/-- Children have their parent as parent, and nothing is a child twice. -/
structure Linked (t : Tree) : Prop where
  child : ∀ p c, c ∈ t.children p ↔ t.parent? c = some p
  nodup : ∀ p, (t.children p).Nodup

variable {t t' : Tree}

theorem linked_empty : Tree.empty.Linked where
  child p c := by simp [Tree.empty, children, parent?]
  nodup p := by simp [Tree.empty, children]

theorem lt_of_parent? (h : t.parent? c = some p) : c < t.size := by
  by_cases hc : c < t.size
  · exact hc
  · have hnone : t.cells[c]? = none := Array.getElem?_eq_none (Nat.le_of_not_lt hc)
    unfold parent? at h
    rw [hnone] at h
    cases h

theorem lt_of_mem_children (h : c ∈ t.children p) : p < t.size := by
  by_cases hp : p < t.size
  · exact hp
  · have hnone : t.cells[p]? = none := Array.getElem?_eq_none (Nat.le_of_not_lt hp)
    unfold children at h
    rw [hnone] at h
    cases h

theorem Linked.parent_lt (h : t.Linked) (hp : t.parent? c = some p) : p < t.size :=
  lt_of_mem_children ((h.child p c).mpr hp)

theorem content?_eq_none (h : t.size ≤ k) : t.content? k = none := by
  unfold content?
  rw [Array.getElem?_eq_none h]
  rfl

theorem cells_ext (hcontent : t'.content? k = t.content? k)
    (hparent : t'.parent? k = t.parent? k) (hchildren : t'.children k = t.children k) :
    t'.cells[k]? = t.cells[k]? := by
  unfold content? at hcontent
  unfold parent? at hparent
  unfold children at hchildren
  cases h : t.cells[k]? with
  | none =>
    rw [h] at hcontent
    exact Option.map_eq_none_iff.mp hcontent
  | some cell =>
    rw [h] at hcontent hparent hchildren
    obtain ⟨cell', hcell', hc⟩ := Option.map_eq_some_iff.mp hcontent
    rw [hcell'] at hparent hchildren ⊢
    obtain ⟨content, parent, children⟩ := cell
    obtain ⟨content', parent', children'⟩ := cell'
    cases hc
    have hp : parent' = parent := hparent
    have hs : children' = children := hchildren
    rw [hp, hs]

theorem content?_of_cell (h : t.cells[k]? = some cell) : t.content? k = some cell.content := by
  unfold content?
  rw [h]
  rfl

theorem parent?_of_cell (h : t.cells[k]? = some cell) : t.parent? k = cell.parent := by
  unfold parent?
  rw [h]
  rfl

theorem children_of_cell (h : t.cells[k]? = some cell) : t.children k = cell.children := by
  unfold children
  rw [h]
  rfl

theorem cells_of_content? {content : Content} (h : t.content? k = some content) :
    t.cells[k]? = some ⟨content, t.parent? k, t.children k⟩ := by
  obtain ⟨cell, hcell, rfl⟩ := Option.map_eq_some_iff.mp h
  rw [parent?_of_cell hcell, children_of_cell hcell]
  exact hcell

theorem cells_size (t : Tree) : t.cells[t.size]? = none := Array.getElem?_eq_none (Nat.le_refl _)

/-! ### What the operations do to cells -/

theorem cells_create (t : Tree) (content : Content) (k : Nat) :
    (t.create content).cells[k]? = if k = t.size then some ⟨content, none, []⟩ else t.cells[k]? := by
  show (t.cells.push _)[k]? = _
  rw [Array.getElem?_push]
  rfl

theorem cells_setContent (t : Tree) (id : Nat) (content : Content) (k : Nat) :
    (t.setContent id content).cells[k]? =
      if id = k then t.cells[k]?.map (fun c => { c with content }) else t.cells[k]? :=
  Array.getElem?_modify

theorem cells_setParent (t : Tree) (id : Nat) (parent : Option Nat) (k : Nat) :
    (t.setParent id parent).cells[k]? =
      if id = k then t.cells[k]?.map (fun c => { c with parent }) else t.cells[k]? :=
  Array.getElem?_modify

theorem cells_setChildren (t : Tree) (id : Nat) (children : List Nat) (k : Nat) :
    (t.setChildren id children).cells[k]? =
      if id = k then t.cells[k]?.map (fun c => { c with children }) else t.cells[k]? :=
  Array.getElem?_modify

@[simp] theorem size_create (t : Tree) (content : Content) : (t.create content).size = t.size + 1 := by
  simp [create, size]

section

variable (t : Tree) (id : Nat)

@[simp] theorem size_setContent (content : Content) : (t.setContent id content).size = t.size := by
  simp [setContent, size]

variable (parent : Option Nat)

@[simp] theorem size_setParent : (t.setParent id parent).size = t.size := by
  simp [setParent, size]

variable (children : List Nat)

@[simp] theorem size_setChildren : (t.setChildren id children).size = t.size := by
  simp [setChildren, size]

@[simp] theorem content?_setParent (k : Nat) : (t.setParent id parent).content? k = t.content? k := by
  unfold content?
  rw [cells_setParent]
  split
  · rw [Option.map_map]
    rfl
  · rfl

@[simp] theorem content?_setChildren (k : Nat) : (t.setChildren id children).content? k = t.content? k := by
  unfold content?
  rw [cells_setChildren]
  split
  · rw [Option.map_map]
    rfl
  · rfl

@[simp] theorem parent?_setChildren (k : Nat) : (t.setChildren id children).parent? k = t.parent? k := by
  unfold parent?
  rw [cells_setChildren]
  split
  · cases t.cells[k]? <;> rfl
  · rfl

@[simp] theorem children_setParent (k : Nat) : (t.setParent id parent).children k = t.children k := by
  unfold children
  rw [cells_setParent]
  split
  · rw [Option.map_map]
    rfl
  · rfl

theorem parent?_setParent (k : Nat) (hid : id < t.size) :
    (t.setParent id parent).parent? k = if k = id then parent else t.parent? k := by
  unfold parent?
  rw [cells_setParent]
  by_cases hk : k = id
  · subst hk
    rw [if_pos rfl, if_pos rfl]
    have hcell : t.cells[k]? = some (t.cells[k]) := Array.getElem?_eq_getElem hid
    rw [hcell]
    rfl
  · rw [if_neg (fun h => hk h.symm), if_neg hk]

theorem children_setChildren (k : Nat) (hid : id < t.size) :
    (t.setChildren id children).children k = if k = id then children else t.children k := by
  unfold Tree.children
  rw [cells_setChildren]
  by_cases hk : k = id
  · subst hk
    rw [if_pos rfl, if_pos rfl]
    have hcell : t.cells[k]? = some (t.cells[k]) := Array.getElem?_eq_getElem hid
    rw [hcell]
    rfl
  · rw [if_neg (fun h => hk h.symm), if_neg hk]

end

/-! ### New nodes -/

section

variable (t : Tree) (content : Content)

theorem parent?_create (k : Nat) : (t.create content).parent? k = t.parent? k := by
  unfold parent?
  rw [cells_create]
  split
  · next hk =>
    rw [hk, cells_size]
    rfl
  · rfl

theorem children_create (k : Nat) : (t.create content).children k = t.children k := by
  unfold children
  rw [cells_create]
  split
  · next hk =>
    rw [hk, cells_size]
    rfl
  · rfl

theorem content?_create_lt (hk : k < t.size) : (t.create content).content? k = t.content? k := by
  unfold content?
  rw [cells_create, if_neg (Nat.ne_of_lt hk)]

theorem content?_create_size : (t.create content).content? t.size = some content := by
  unfold content?
  rw [cells_create, if_pos rfl]
  rfl

end

theorem Linked.create (h : t.Linked) (content : Content) : (t.create content).Linked where
  child p c := by
    rw [children_create, parent?_create]
    exact h.child p c
  nodup p := by
    rw [children_create]
    exact h.nodup p

/-! ### Content -/

@[simp] theorem parent?_setContent (t : Tree) (id : Nat) (content : Content) (k : Nat) :
    (t.setContent id content).parent? k = t.parent? k := by
  unfold parent?
  rw [cells_setContent]
  split
  · cases t.cells[k]? <;> rfl
  · rfl

@[simp] theorem children_setContent (t : Tree) (id : Nat) (content : Content) (k : Nat) :
    (t.setContent id content).children k = t.children k := by
  unfold children
  rw [cells_setContent]
  split
  · rw [Option.map_map]
    rfl
  · rfl

theorem Linked.setContent (h : t.Linked) (id : Nat) (content : Content) : (t.setContent id content).Linked where
  child p c := by
    rw [children_setContent, parent?_setContent]
    exact h.child p c
  nodup p := by
    rw [children_setContent]
    exact h.nodup p

/-! ### Taking a node away -/

@[simp] theorem size_detach (t : Tree) (c : Nat) : (t.detach c).size = t.size := by
  unfold detach
  split <;> simp

@[simp] theorem content?_detach (t : Tree) (c k : Nat) : (t.detach c).content? k = t.content? k := by
  unfold detach
  split <;> simp

theorem parent?_detach (t : Tree) (c k : Nat) : (t.detach c).parent? k = if k = c then none else t.parent? k := by
  unfold detach
  split
  · next p hp =>
    rw [parent?_setParent _ _ _ _ (by rw [size_setChildren]; exact lt_of_parent? hp), parent?_setChildren]
  · next hp =>
    split
    · next hk => rw [hk, hp]
    · rfl

theorem Linked.children_detach (h : t.Linked) (c p : Nat) : (t.detach c).children p = (t.children p).erase c := by
  unfold detach
  split
  · next q hq =>
    rw [children_setParent, children_setChildren _ _ _ _ (h.parent_lt hq)]
    split
    · next hpq => rw [hpq]
    · next hpq =>
      rw [List.erase_of_not_mem]
      intro hmem
      have hparent := (h.child p c).mp hmem
      rw [hq] at hparent
      exact hpq (Option.some.inj hparent).symm
  · next hnone =>
    rw [List.erase_of_not_mem]
    intro hmem
    rw [(h.child p c).mp hmem] at hnone
    cases hnone

theorem Linked.erase_of_none (h : t.Linked) (hnone : t.parent? c = none) (q : Nat) :
    (t.children q).erase c = t.children q := by
  refine List.erase_of_not_mem fun hmem => ?_
  rw [(h.child q c).mp hmem] at hnone
  cases hnone

theorem Linked.detach (h : t.Linked) (c : Nat) : (t.detach c).Linked where
  child p k := by
    rw [h.children_detach, parent?_detach, (h.nodup p).mem_erase_iff]
    split
    · next hk => simp [hk]
    · next hk =>
      rw [h.child p k]
      exact ⟨fun hmem => hmem.2, fun hparent => ⟨hk, hparent⟩⟩
  nodup p := by
    rw [h.children_detach]
    exact (h.nodup p).erase c

/-! ### Putting a node somewhere -/

/-- `t'` is `t` with the node `c` between `pre` and `post` among the children of `p`, and nowhere else. -/
structure Placed (t t' : Tree) (p c : Nat) (pre post : List Nat) : Prop where
  size_eq : t'.size = t.size
  content?_eq : ∀ k, t'.content? k = t.content? k
  parent?_eq : ∀ k, t'.parent? k = if k = c then some p else t.parent? k
  split : (t.children p).erase c = pre ++ post
  children_self : t'.children p = pre ++ c :: post
  children_ne : ∀ q, q ≠ p → t'.children q = (t.children q).erase c

theorem Linked.placed (h : t.Linked) (hp : Placed t t' p c pre post) : t'.Linked := by
  have herase : ∀ q k, k ∈ (t.children q).erase c ↔ k ≠ c ∧ t.parent? k = some q := by
    intro q k
    rw [(h.nodup q).mem_erase_iff, h.child q k]
  have hsplit : ∀ k, k ∈ pre ++ post ↔ k ≠ c ∧ t.parent? k = some p := by
    intro k
    rw [← hp.split, herase]
  constructor
  · intro q k
    rw [hp.parent?_eq]
    by_cases hq : q = p
    · subst hq
      rw [hp.children_self, List.mem_append, List.mem_cons]
      have := hsplit k
      rw [List.mem_append] at this
      split
      · next hk => simp [hk]
      · next hk => grind
    · rw [hp.children_ne q hq, herase]
      split
      · next hk => simp [hk, Ne.symm hq]
      · next hk => simp [hk]
  · intro q
    by_cases hq : q = p
    · subst hq
      rw [hp.children_self]
      have hnodup : (pre ++ post).Nodup := by
        rw [← hp.split]
        exact (h.nodup q).erase c
      have hnew : c ∉ pre ++ post := fun hmem => ((hsplit c).mp hmem).1 rfl
      exact List.perm_middle.nodup_iff.mpr (List.nodup_cons.mpr ⟨hnew, hnodup⟩)
    · rw [hp.children_ne q hq]
      exact (h.nodup q).erase c

theorem Linked.placed_append (h : t.Linked) (hp : p < t.size) (hc : c < t.size) :
    Placed t (t.append p c) p c ((t.children p).erase c) [] where
  size_eq := by simp [append]
  content?_eq k := by simp [append]
  parent?_eq k := by
    unfold append
    dsimp only
    rw [parent?_setParent _ _ _ _ (by simpa using hc), parent?_setChildren, parent?_detach]
    split <;> rfl
  split := (List.append_nil _).symm
  children_self := by
    unfold append
    dsimp only
    rw [children_setParent, children_setChildren _ _ _ _ (by simpa using hp), if_pos rfl, h.children_detach]
  children_ne q hq := by
    unfold append
    dsimp only
    rw [children_setParent, children_setChildren _ _ _ _ (by simpa using hp), if_neg hq, h.children_detach]

theorem insertIn_append {new ref : Nat} (h : ref ∉ pre) :
    insertIn new ref (pre ++ ref :: post) = pre ++ new :: ref :: post := by
  induction pre with
  | nil => simp [insertIn]
  | cons a rest ih =>
    have hne : a ≠ ref := fun heq => h (heq ▸ List.mem_cons_self)
    rw [List.cons_append, insertIn, if_neg hne, ih fun hmem => h (List.mem_cons_of_mem _ hmem)]
    rfl

theorem Linked.placed_insertBefore (h : t.Linked) {r : Nat} (hc : c < t.size)
    (hr : t.parent? r = some p) (hne : r ≠ c) (hsplit : (t.children p).erase c = pre ++ r :: post) :
    Placed t (t.insertBefore p c (some r)) p c pre (r :: post) := by
  have hp : p < t.size := h.parent_lt hr
  have hr' : (t.detach c).parent? r = some p := by rw [parent?_detach, if_neg hne, hr]
  have hnotin : r ∉ pre := by
    intro hmem
    have hnodup : (pre ++ r :: post).Nodup := by
      rw [← hsplit]
      exact (h.nodup p).erase c
    exact (List.nodup_append.mp hnodup).2.2 r hmem r List.mem_cons_self rfl
  have heq : t.insertBefore p c (some r) =
      ((t.detach c).setChildren p (pre ++ c :: r :: post)).setParent c (some p) := by
    unfold insertBefore
    dsimp only
    rw [if_pos hr', h.children_detach, hsplit, insertIn_append hnotin]
  rw [heq]
  exact {
    size_eq := by simp
    content?_eq := fun k => by simp
    parent?_eq := fun k => by
      rw [parent?_setParent _ _ _ _ (by simpa using hc), parent?_setChildren, parent?_detach]
      split <;> rfl
    split := hsplit
    children_self := by
      rw [children_setParent, children_setChildren _ _ _ _ (by simpa using hp), if_pos rfl]
    children_ne := fun q hq => by
      rw [children_setParent, children_setChildren _ _ _ _ (by simpa using hp), if_neg hq, h.children_detach] }

theorem detach_of_none (h : t.parent? c = none) : t.detach c = t := by
  unfold detach
  rw [h]

theorem append_detach (t : Tree) (p c : Nat) : (t.detach c).append p c = t.append p c := by
  have hnone : (t.detach c).parent? c = none := by rw [parent?_detach, if_pos rfl]
  unfold append
  rw [detach_of_none hnone]

theorem Linked.exists_placed (h : t.Linked) (hp : p < t.size) (hc : c < t.size)
    (ref : Option Nat) : ∃ pre post, Placed t (t.insertBefore p c ref) p c pre post := by
  have happend : Placed t ((t.detach c).append p c) p c ((t.children p).erase c) [] := by
    rw [append_detach]
    exact h.placed_append hp hc
  cases ref with
  | none => exact ⟨_, _, happend⟩
  | some r =>
    by_cases hr : (t.detach c).parent? r = some p
    · have hne : r ≠ c := by
        rintro rfl
        rw [parent?_detach, if_pos rfl] at hr
        cases hr
      rw [parent?_detach, if_neg hne] at hr
      have hmem : r ∈ (t.children p).erase c :=
        (h.nodup p).mem_erase_iff.mpr ⟨hne, (h.child p r).mpr hr⟩
      obtain ⟨pre, post, hsplit⟩ := List.append_of_mem hmem
      exact ⟨pre, r :: post, h.placed_insertBefore hc hr hne hsplit⟩
    · have heq : t.insertBefore p c (some r) = (t.detach c).append p c := by
        unfold insertBefore
        exact if_neg hr
      rw [heq]
      exact ⟨_, _, happend⟩

end MessageCompiler.Markup.Tree
