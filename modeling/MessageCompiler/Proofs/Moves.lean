/-
Moves of different nodes commute.

Two nodes that go to different places may go there in either order. If both go into the same node, they
must not go in front of each other, nor in front of the same child.

* **`Linked.children_insertBefore`** — where a node goes, as a function of the lists of children.
-/
import MessageCompiler.Proofs.Rooted

namespace MessageCompiler.Markup

open List

namespace Tree

variable {t t' : Tree}

theorem ext_of_links (hcontent : ∀ k, t'.content? k = t.content? k) (hparent : ∀ k, t'.parent? k = t.parent? k)
    (hchildren : ∀ k, t'.children k = t.children k) : t' = t := by
  have hcells : t'.cells = t.cells :=
    Array.ext_getElem? fun k => cells_ext (hcontent k) (hparent k) (hchildren k)
  cases t
  cases t'
  cases hcells
  rfl

/-! ### Lists of children -/

def insertAt (new : Nat) : Option Nat → List Nat → List Nat
  | some ref, l => insertIn new ref l
  | none, l => l ++ [new]

theorem insertIn_of_notMem {new ref : Nat} {l : List Nat} (h : ref ∉ l) : insertIn new ref l = l ++ [new] := by
  induction l with
  | nil => rfl
  | cons a rest ih =>
    have hne : a ≠ ref := fun heq => h (heq ▸ mem_cons_self)
    simp_all [insertIn]

theorem erase_insertAt {c n : Nat} {ref : Option Nat} (hne : n ≠ c) (href : ref ≠ some n) (l : List Nat) :
    (insertAt c ref l).erase n = insertAt c ref (l.erase n) := by
  cases ref with
  | none =>
    show (l ++ [c]).erase n = l.erase n ++ [c]
    by_cases hmem : n ∈ l
    · exact erase_append_left _ hmem
    · rw [erase_append_right _ hmem, erase_of_not_mem hmem, erase_of_not_mem]
      simpa using hne
  | some r =>
    have hr : r ≠ n := fun heq => href (congrArg some heq)
    show (insertIn c r l).erase n = insertIn c r (l.erase n)
    induction l with
    | nil => simp [insertIn, Ne.symm hne]
    | cons a rest ih =>
      by_cases har : a = r
      · subst har
        simp [insertIn, Ne.symm hne, hr]
      · by_cases han : a = n
        · subst han
          simp [insertIn, har]
        · simp [insertIn, har, han, ih]

theorem insertAt_comm {c n a : Nat} {ref : Option Nat} (hac : ref ≠ some c) (har : ref ≠ some a) (han : a ≠ n)
    {l : List Nat} (hmem : a ∈ l) :
    insertAt n ref (insertIn c a l) = insertIn c a (insertAt n ref l) := by
  induction l with
  | nil => cases hmem
  | cons x rest ih =>
    by_cases hxa : x = a
    · subst hxa
      cases ref with
      | none => simp [insertAt, insertIn]
      | some r =>
        have hrc : c ≠ r := fun heq => hac (heq ▸ rfl)
        have hrx : x ≠ r := fun heq => har (heq ▸ rfl)
        simp [insertAt, insertIn, hrc, hrx]
    · have hrest := ih ((mem_cons.mp hmem).resolve_left (Ne.symm hxa))
      cases ref with
      | none =>
        simp only [insertAt, insertIn, hxa, if_false, cons_append] at hrest ⊢
        rw [hrest]
      | some r =>
        simp only [insertAt] at hrest ⊢
        by_cases hxr : x = r
        · subst hxr
          simp [insertIn, hxa, Ne.symm han]
        · simp [insertIn, hxa, hxr, hrest]

/-! ### One move -/

theorem insertBefore_none (t : Tree) (p c : Nat) : t.insertBefore p c none = t.append p c :=
  append_detach t p c

section Insert

variable {p c : Nat}

theorem Linked.children_insertBefore (h : t.Linked) (hp : p < t.size) (hc : c < t.size) (ref : Option Nat)
    (q : Nat) : (t.insertBefore p c ref).children q =
      if q = p then insertAt c ref ((t.children q).erase c) else (t.children q).erase c := by
  have happend : ∀ q, (t.append p c).children q =
      if q = p then (t.children q).erase c ++ [c] else (t.children q).erase c := by
    have hplaced := h.placed_append hp hc
    intro q
    by_cases hq : q = p
    · rw [if_pos hq, hq, hplaced.children_self]
    · rw [if_neg hq, hplaced.children_ne q hq]
  cases ref with
  | none =>
    rw [insertBefore_none]
    exact happend q
  | some r =>
    by_cases hr : r ∈ (t.children p).erase c
    · obtain ⟨hne, hmem⟩ := (h.nodup p).mem_erase_iff.mp hr
      obtain ⟨pre, post, hsplit⟩ := append_of_mem hr
      have hplaced := h.placed_insertBefore hc ((h.child p r).mp hmem) hne hsplit
      by_cases hq : q = p
      · subst hq
        have hnodup : (pre ++ r :: post).Nodup := hsplit ▸ (h.nodup q).erase c
        have hpre : r ∉ pre := fun hpre => (nodup_append.mp hnodup).2.2 r hpre r mem_cons_self rfl
        rw [if_pos rfl, hplaced.children_self, hsplit]
        exact (insertIn_append hpre).symm
      · rw [if_neg hq, hplaced.children_ne q hq]
    · -- Without the child to go in front of, the node becomes the last one.
      have hnot : ¬(t.detach c).parent? r = some p := by
        intro hparent
        rw [parent?_detach] at hparent
        split at hparent
        · cases hparent
        · next hne => exact hr ((h.nodup p).mem_erase_iff.mpr ⟨hne, (h.child p r).mpr hparent⟩)
      have heq : t.insertBefore p c (some r) = t.append p c := by
        simp_all [append_detach, insertBefore]
      rw [heq, happend]
      by_cases hq : q = p
      · rw [if_pos hq, if_pos hq, hq]
        exact (insertIn_of_notMem hr).symm
      · rw [if_neg hq, if_neg hq]

theorem Linked.parent?_insertBefore (h : t.Linked) (hp : p < t.size) (hc : c < t.size) (ref : Option Nat)
    (k : Nat) : (t.insertBefore p c ref).parent? k = if k = c then some p else t.parent? k := by
  obtain ⟨pre, post, hplaced⟩ := h.exists_placed hp hc ref
  exact hplaced.parent?_eq k

@[simp] theorem content?_insertBefore (t : Tree) (p c : Nat) (ref : Option Nat) (k : Nat) :
    (t.insertBefore p c ref).content? k = t.content? k := by
  unfold insertBefore append
  cases ref with
  | none => simp
  | some r =>
    dsimp only
    split <;> simp

@[simp] theorem size_insertBefore (t : Tree) (p c : Nat) (ref : Option Nat) :
    (t.insertBefore p c ref).size = t.size := by
  unfold insertBefore append
  cases ref with
  | none => simp
  | some r =>
    dsimp only
    split <;> simp

theorem Linked.insertBefore (h : t.Linked) (hp : p < t.size) (hc : c < t.size) (ref : Option Nat) :
    (t.insertBefore p c ref).Linked := by
  obtain ⟨pre, post, hplaced⟩ := h.exists_placed hp hc ref
  exact h.placed hplaced

end Insert

/-! ### Two moves -/

section Two

variable {p n q c : Nat} {ref ref' : Option Nat}

section

variable (h : t.Linked) (hp : p < t.size) (hn : n < t.size)
include h hp hn

/-- The two nodes go into different nodes, or `c` goes in front of a child that the other one leaves alone. -/
theorem Linked.insertBefore_comm (hq : q < t.size)
    (hc : c < t.size) (hne : n ≠ c) (href : ref ≠ some c) (hlast : ref' = none → q ≠ p)
    (hfront : ∀ a, ref' = some a → t.parent? a = some q ∧ a ≠ n ∧ a ≠ c ∧ ref ≠ some a) :
    (t.insertBefore q c ref').insertBefore p n ref = (t.insertBefore p n ref).insertBefore q c ref' := by
  have hlinked := h.insertBefore hp hn ref
  have hlinked' := h.insertBefore hq hc ref'
  have href' : ref' ≠ some n := fun heq => (hfront n heq).2.1 rfl
  refine ext_of_links (fun k => by simp) (fun k => ?_) fun k => ?_
  · rw [hlinked'.parent?_insertBefore (by simpa using hp) (by simpa using hn), h.parent?_insertBefore hq hc,
      hlinked.parent?_insertBefore (by simpa using hq) (by simpa using hc), h.parent?_insertBefore hp hn]
    by_cases hkn : k = n
    · simp [hkn, hne]
    · simp [hkn]
  · rw [hlinked'.children_insertBefore (by simpa using hp) (by simpa using hn), h.children_insertBefore hq hc,
      hlinked.children_insertBefore (by simpa using hq) (by simpa using hc), h.children_insertBefore hp hn]
    by_cases hkp : k = p
    · by_cases hkq : k = q
      · -- Both go into the same node.
        simp only [hkp, hkq ▸ hkp, if_true]
        rw [erase_insertAt hne href', erase_insertAt (Ne.symm hne) href, erase_comm]
        cases hr : ref' with
        | none => exact absurd (hkq.symm.trans hkp) (hlast hr)
        | some a =>
          obtain ⟨hparent, han, hac, hra⟩ := hfront a hr
          rw [← hkq, hkp] at hparent
          refine insertAt_comm href hra han ?_
          rw [((h.nodup p).erase n).mem_erase_iff, (h.nodup p).mem_erase_iff, h.child]
          exact ⟨hac, han, hparent⟩
      · simp only [hkq, if_false]
        rw [if_pos hkp, if_pos hkp, erase_insertAt (Ne.symm hne) href, erase_comm]
    · simp only [hkp, if_false]
      by_cases hkq : k = q
      · rw [if_pos hkq, if_pos hkq, erase_insertAt hne href', erase_comm]
      · rw [if_neg hkq, if_neg hkq, erase_comm]

theorem Linked.insertBefore_detach (hne : n ≠ c)
    (href : ref ≠ some c) : (t.detach c).insertBefore p n ref = (t.insertBefore p n ref).detach c := by
  have hlinked := h.insertBefore hp hn ref
  refine ext_of_links (fun k => by simp) (fun k => ?_) fun k => ?_
  · rw [(h.detach c).parent?_insertBefore (by simpa using hp) (by simpa using hn), parent?_detach, parent?_detach,
      h.parent?_insertBefore hp hn]
    grind
  · rw [(h.detach c).children_insertBefore (by simpa using hp) (by simpa using hn), h.children_detach,
      hlinked.children_detach, h.children_insertBefore hp hn]
    by_cases hkp : k = p
    · rw [if_pos hkp, if_pos hkp, erase_insertAt (Ne.symm hne) href, erase_comm]
    · grind

theorem Linked.insertBefore_create (content : Content) :
    (t.create content).insertBefore p n ref = (t.insertBefore p n ref).create content := by
  refine ext_of_links (fun k => ?_) (fun k => ?_) fun k => ?_
  · have hk : k = t.size ∨ k ≠ t.size := by omega
    rw [content?_insertBefore]
    unfold content?
    rw [cells_create, cells_create, size_insertBefore]
    rcases hk with hk | hk
    · rw [if_pos hk, if_pos hk]
    · rw [if_neg hk, if_neg hk]
      exact (content?_insertBefore t p n ref k).symm
  · rw [(h.create content).parent?_insertBefore (by simpa using Nat.lt_succ_of_lt hp)
      (by simpa using Nat.lt_succ_of_lt hn), parent?_create, parent?_create, h.parent?_insertBefore hp hn]
  · rw [(h.create content).children_insertBefore (by simpa using Nat.lt_succ_of_lt hp)
      (by simpa using Nat.lt_succ_of_lt hn), children_create, children_create, h.children_insertBefore hp hn]

theorem Linked.insertBefore_setContent (id : Nat) (content : Content) :
    (t.setContent id content).insertBefore p n ref = (t.insertBefore p n ref).setContent id content := by
  have hlinked := h.setContent id content
  refine ext_of_links (fun k => ?_) (fun k => ?_) fun k => ?_
  · have hsame := content?_insertBefore t p n ref k
    rw [content?_insertBefore]
    unfold content? at hsame ⊢
    rw [cells_setContent, cells_setContent]
    split
    · rw [Option.map_map, Option.map_map]
      cases hcell : t.cells[k]? <;> cases hcell' : (t.insertBefore p n ref).cells[k]? <;>
        simp_all
    · exact hsame.symm
  · rw [hlinked.parent?_insertBefore (by simpa using hp) (by simpa using hn), parent?_setContent,
      parent?_setContent, h.parent?_insertBefore hp hn]
  · rw [hlinked.children_insertBefore (by simpa using hp) (by simpa using hn), children_setContent,
      children_setContent, h.children_insertBefore hp hn]

end

end Two

end Tree

/-! ### Many moves -/

/-- The node goes in front of `ref`, or last, among the children of `parent`. -/
structure Move where
  parent : Nat
  node : Nat
  ref : Option Nat

/-- The move concerns nodes below a limit only. -/
structure Move.Below (limit : Nat) (m : Move) : Prop where
  parent_lt : m.parent < limit
  node_lt : m.node < limit
  ref_lt : ∀ r, m.ref = some r → r < limit

theorem Move.Below.le {limit n : Nat} {m : Move} (h : m.Below limit) (hle : limit ≤ n) : m.Below n :=
  ⟨Nat.lt_of_lt_of_le h.parent_lt hle, Nat.lt_of_lt_of_le h.node_lt hle,
    fun r hr => Nat.lt_of_lt_of_le (h.ref_lt r hr) hle⟩

/-- The move leaves the given nodes where they are, and puts nothing in front of them. -/
structure Move.Clear (calm : List Nat) (m : Move) : Prop where
  node : m.node ∉ calm
  ref : ∀ r, m.ref = some r → r ∉ calm

namespace Tree

variable {t : Tree}

def move (t : Tree) (m : Move) : Tree := t.insertBefore m.parent m.node m.ref

def moveAll (t : Tree) (moves : List Move) : Tree := moves.foldl move t

section Moves

variable {limit a c q : Nat} {calm : List Nat} {moves : List Move}

@[simp] theorem size_move (t : Tree) (m : Move) : (t.move m).size = t.size :=
  size_insertBefore t m.parent m.node m.ref

@[simp] theorem size_moveAll (t : Tree) (moves : List Move) : (t.moveAll moves).size = t.size := by
  induction moves generalizing t with
  | nil => rfl
  | cons m rest ih => exact (ih (t.move m)).trans (size_move t m)

@[simp] theorem content?_moveAll (t : Tree) (moves : List Move) (k : Nat) :
    (t.moveAll moves).content? k = t.content? k := by
  induction moves generalizing t with
  | nil => rfl
  | cons m rest ih => exact (ih (t.move m)).trans (content?_insertBefore t m.parent m.node m.ref k)

theorem Linked.move (h : t.Linked) {m : Move} (hm : m.Below t.size) : (t.move m).Linked :=
  h.insertBefore hm.parent_lt hm.node_lt m.ref

theorem Linked.moveAll (h : t.Linked) (hmoves : ∀ m ∈ moves, m.Below t.size) : (t.moveAll moves).Linked := by
  induction moves generalizing t with
  | nil => exact h
  | cons m rest ih =>
    refine ih (h.move (hmoves m mem_cons_self)) fun m' hm' => ?_
    rw [size_move]
    exact hmoves m' (mem_cons_of_mem m hm')

theorem Linked.moveAll_comm (f : Tree → Tree) (P : Tree → Prop)
    (hstep : ∀ t, ∀ m ∈ moves, t.Linked → m.Below t.size → P t → P (t.move m) ∧ (f t).move m = f (t.move m))
    (h : t.Linked) (hmoves : ∀ m ∈ moves, m.Below t.size) (hP : P t) :
    (f t).moveAll moves = f (t.moveAll moves) := by
  induction moves generalizing t with
  | nil => rfl
  | cons m rest ih =>
    have hm := hmoves m mem_cons_self
    obtain ⟨hnext, hcomm⟩ := hstep t m mem_cons_self h hm hP
    show ((f t).move m).moveAll rest = f ((t.move m).moveAll rest)
    rw [hcomm]
    refine ih (fun t m' hm' => hstep t m' (mem_cons_of_mem m hm')) (h.move hm) (fun m' hm' => ?_) hnext
    rw [size_move]
    exact hmoves m' (mem_cons_of_mem m hm')

theorem Linked.parent?_moveAll (h : t.Linked) (hmoves : ∀ m ∈ moves, m.Below t.size)
    (ha : ∀ m ∈ moves, a ≠ m.node) : (t.moveAll moves).parent? a = t.parent? a := by
  induction moves generalizing t with
  | nil => rfl
  | cons m rest ih =>
    have hm := hmoves m mem_cons_self
    have hfirst : (t.move m).parent? a = t.parent? a := by
      rw [Tree.move, h.parent?_insertBefore hm.parent_lt hm.node_lt, if_neg (ha m mem_cons_self)]
    rw [← hfirst]
    refine ih (h.move hm) (fun m' hm' => ?_) fun m' hm' => ha m' (mem_cons_of_mem m hm')
    rw [size_move]
    exact hmoves m' (mem_cons_of_mem m hm')

theorem ne_node_of_clear (hmoves : ∀ m ∈ moves, m.Below limit) (hclear : ∀ m ∈ moves, m.Clear calm)
    (ha : limit ≤ a ∨ a ∈ calm) : ∀ m ∈ moves, a ≠ m.node ∧ m.ref ≠ some a := by
  intro m hm
  have hbelow := hmoves m hm
  rcases ha with ha | ha
  · exact ⟨Nat.ne_of_gt (Nat.lt_of_lt_of_le hbelow.node_lt ha), fun href => Nat.not_lt_of_le ha (hbelow.ref_lt a href)⟩
  · refine ⟨?_, fun href => (hclear m hm).ref a href ha⟩
    rintro rfl
    exact (hclear m hm).node ha

section Below

variable (h : t.Linked) (hlimit : limit ≤ t.size) (hmoves : ∀ m ∈ moves, m.Below limit)

include h hlimit hmoves

theorem Linked.moveAll_insertBefore (hclear : ∀ m ∈ moves, m.Clear calm) (hc : limit ≤ c) (hlt : c < t.size)
    (ha : limit ≤ a ∨ a ∈ calm) (hne : a ≠ c) (hparent : t.parent? a = some q) :
    (t.insertBefore q c (some a)).moveAll moves = (t.moveAll moves).insertBefore q c (some a) := by
  refine h.moveAll_comm (f := fun t => t.insertBefore q c (some a))
    (P := fun t => t.parent? a = some q ∧ c < t.size) (fun t m hm ht hbelow hP => ?_)
    (fun m hm => (hmoves m hm).le hlimit) ⟨hparent, hlt⟩
  obtain ⟨hparent, hlt⟩ := hP
  obtain ⟨han, har⟩ := ne_node_of_clear hmoves hclear ha m hm
  obtain ⟨hcn, hcr⟩ := ne_node_of_clear hmoves hclear (.inl hc) m hm
  refine ⟨⟨?_, by rwa [size_move]⟩, ?_⟩
  · rw [Tree.move, ht.parent?_insertBefore hbelow.parent_lt hbelow.node_lt, if_neg han]
    exact hparent
  · refine ht.insertBefore_comm hbelow.parent_lt hbelow.node_lt (ht.parent_lt hparent) hlt (Ne.symm hcn) hcr
      (fun hnone => ?_) ?_
    · cases hnone
    · rintro _ ⟨⟩
      exact ⟨hparent, han, hne, har⟩

theorem Linked.moveAll_append (hc : limit ≤ c) (hlt : c < t.size) (hq : limit ≤ q) (hqlt : q < t.size) :
    (t.append q c).moveAll moves = (t.moveAll moves).append q c := by
  refine h.moveAll_comm (f := fun t => t.append q c) (P := fun t => q < t.size ∧ c < t.size)
    (fun t m hm ht hbelow hP => ?_) (fun m hm => (hmoves m hm).le hlimit) ⟨hqlt, hlt⟩
  refine ⟨by rwa [size_move], ?_⟩
  simp only [← insertBefore_none]
  refine ht.insertBefore_comm hbelow.parent_lt hbelow.node_lt hP.1 hP.2 ?_ (fun href => ?_) (fun _ => ?_) ?_
  · exact Nat.ne_of_lt (Nat.lt_of_lt_of_le (hmoves m hm).node_lt hc)
  · exact Nat.not_lt_of_le hc ((hmoves m hm).ref_lt c href)
  · exact Nat.ne_of_gt (Nat.lt_of_lt_of_le (hmoves m hm).parent_lt hq)
  · intro a hnone
    cases hnone

theorem Linked.moveAll_detach (hc : limit ≤ c) : (t.detach c).moveAll moves = (t.moveAll moves).detach c := by
  refine h.moveAll_comm (f := fun t => t.detach c) (P := fun _ => True)
    (fun t m hm ht hbelow _ => ⟨trivial, ?_⟩) (fun m hm => (hmoves m hm).le hlimit) trivial
  refine ht.insertBefore_detach hbelow.parent_lt hbelow.node_lt ?_ fun href => ?_
  · exact Nat.ne_of_lt (Nat.lt_of_lt_of_le (hmoves m hm).node_lt hc)
  · exact Nat.not_lt_of_le hc ((hmoves m hm).ref_lt c href)

theorem Linked.moveAll_create (content : Content) :
    (t.create content).moveAll moves = (t.moveAll moves).create content :=
  h.moveAll_comm (f := fun t => t.create content) (P := fun _ => True)
    (fun _ _ _ ht hbelow _ => ⟨trivial, ht.insertBefore_create hbelow.parent_lt hbelow.node_lt content⟩)
    (fun m hm => (hmoves m hm).le hlimit) trivial

theorem Linked.moveAll_setContent (id : Nat) (content : Content) :
    (t.setContent id content).moveAll moves = (t.moveAll moves).setContent id content :=
  h.moveAll_comm (f := fun t => t.setContent id content) (P := fun _ => True)
    (fun _ _ _ ht hbelow _ => ⟨trivial, ht.insertBefore_setContent hbelow.parent_lt hbelow.node_lt id content⟩)
    (fun m hm => (hmoves m hm).le hlimit) trivial

end Below

end Moves

end Tree

end MessageCompiler.Markup
