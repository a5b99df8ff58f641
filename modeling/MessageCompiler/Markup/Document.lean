/-
Trees with a root that stays.

The node 0 of a document is its root, which is never put anywhere. Parents and children agree, and the comments are
among those of a list, so that none of them is there twice.
-/
import MessageCompiler.Markup.Linked

namespace MessageCompiler.Markup

def Content.comment? : Content → Option String
  | .comment s => some s
  | _ => none

namespace Tree

variable {t t' : Tree}

def comment? (t : Tree) (id : Nat) : Option String := (t.content? id).bind Content.comment?

def comments (t : Tree) : List String := ((List.range t.size).reverse.map t.comment?).filterMap id

theorem comments_congr (hsize : t'.size = t.size) (h : ∀ k, t'.comment? k = t.comment? k) :
    t'.comments = t.comments := by
  unfold comments
  rw [hsize, List.map_congr_left fun k _ => h k]

theorem comment?_congr (h : ∀ k, t'.content? k = t.content? k) (k : Nat) : t'.comment? k = t.comment? k :=
  congrArg (Option.bind · Content.comment?) (h k)

theorem comments_create (t : Tree) (content : Content) :
    (t.create content).comments = content.comment?.toList ++ t.comments := by
  have hnew : (t.create content).comment? t.size = content.comment? := by
    unfold comment?
    rw [content?_create_size]
    rfl
  have hold : (List.range t.size).reverse.map (t.create content).comment? =
      (List.range t.size).reverse.map t.comment? := by
    refine List.map_congr_left fun k hk => congrArg (Option.bind · Content.comment?) ?_
    exact content?_create_lt _ _ (List.mem_range.mp (List.mem_reverse.mp hk))
  unfold comments
  rw [size_create, List.range_succ, List.reverse_append, List.reverse_singleton, List.singleton_append,
    List.map_cons, hnew, hold]
  cases content.comment? <;> rfl

theorem comment?_setContent {id : Nat} {content : Content} (h : t.comment? id = content.comment?) (k : Nat) :
    (t.setContent id content).comment? k = t.comment? k := by
  by_cases hk : id = k
  · subst hk
    rw [h]
    unfold comment? content? at *
    rw [cells_setContent, if_pos rfl]
    cases hcell : t.cells[id]? with
    | none =>
      rw [hcell] at h
      exact h
    | some cell => rfl
  · unfold comment? content?
    rw [cells_setContent, if_neg hk]

end Tree

/-- A tree below the node 0 whose comments are among the given ones. -/
structure Document (comments : List String) extends Tree where
  linked : toTree.Linked
  parent?_root : toTree.parent? 0 = none
  size_pos : 0 < toTree.size
  comments_sublist : toTree.comments.Sublist comments

namespace Document

variable {cs cs' : List String}

def new : Document [] where
  toTree := Tree.empty.create (.element .html "html" [])
  linked := Tree.linked_empty.create _
  parent?_root := rfl
  size_pos := Nat.one_pos
  comments_sublist := .slnil

def relax (h : cs.Sublist cs') (d : Document cs) : Document cs' :=
  { d with comments_sublist := d.comments_sublist.trans h }

def create (d : Document cs) (content : Content) : Document (content.comment?.toList ++ cs) where
  toTree := d.toTree.create content
  linked := d.linked.create content
  parent?_root := by
    rw [Tree.parent?_create]
    exact d.parent?_root
  size_pos := by
    rw [Tree.size_create]
    exact Nat.succ_pos _
  comments_sublist := by
    rw [Tree.comments_create]
    exact (List.Sublist.refl _).append d.comments_sublist

/-- Changes what a node is; a comment stays, and nothing becomes one. -/
def setContent (d : Document cs) (id : Nat) (content : Content) : Document cs :=
  if h : d.toTree.comment? id = content.comment? then
    { toTree := d.toTree.setContent id content
      linked := d.linked.setContent id content
      parent?_root := by
        rw [Tree.parent?_setContent]
        exact d.parent?_root
      size_pos := by
        rw [Tree.size_setContent]
        exact d.size_pos
      comments_sublist := by
        rw [Tree.comments_congr (Tree.size_setContent _ _ _) (Tree.comment?_setContent h)]
        exact d.comments_sublist }
  else d

def detach (d : Document cs) (c : Nat) : Document cs where
  toTree := d.toTree.detach c
  linked := d.linked.detach c
  parent?_root := by
    rw [Tree.parent?_detach, d.parent?_root, ite_self]
  size_pos := by
    rw [Tree.size_detach]
    exact d.size_pos
  comments_sublist := by
    rw [Tree.comments_congr (Tree.size_detach _ _) (Tree.comment?_congr (Tree.content?_detach _ _))]
    exact d.comments_sublist

/-- The document with a node other than the root in its new place. -/
def move (d : Document cs) {t : Tree} {p c : Nat} (hc : c ≠ 0) (h : ∃ pre post, d.toTree.Placed t p c pre post) :
    Document cs where
  toTree := t
  linked := by
    obtain ⟨pre, post, h⟩ := h
    exact d.linked.placed h
  parent?_root := by
    obtain ⟨pre, post, h⟩ := h
    rw [h.parent?_eq, if_neg hc.symm, d.parent?_root]
  size_pos := by
    obtain ⟨pre, post, h⟩ := h
    rw [h.size_eq]
    exact d.size_pos
  comments_sublist := by
    obtain ⟨pre, post, h⟩ := h
    rw [Tree.comments_congr h.size_eq (Tree.comment?_congr h.content?_eq)]
    exact d.comments_sublist

/-- Makes a node the last child of another; the root stays. -/
def append (d : Document cs) (parent child : Nat) : Document cs :=
  if h : (parent < d.size ∧ child < d.size) ∧ child ≠ 0 then
    d.move h.2 ⟨_, _, d.linked.placed_append h.1.1 h.1.2⟩
  else d

/-- Puts a node in front of a child of `parent`, or last if there is no such child; the root stays. -/
def insertBefore (d : Document cs) (parent child : Nat) (ref : Option Nat) : Document cs :=
  if h : (parent < d.size ∧ child < d.size) ∧ child ≠ 0 then d.move h.2 (d.linked.exists_placed h.1.1 h.1.2 ref)
  else d

end Document

end MessageCompiler.Markup
