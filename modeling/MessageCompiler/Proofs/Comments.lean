/-
The comments of a piece of markup.

Elements may be moved and doubled when a tree is built from markup that is not well nested. Comments may be lost, but no
comment is in the tree twice.
-/
import Mathlib.Data.List.Nodup
import MessageCompiler.Markup.Fragment
import MessageCompiler.Proofs.Rooted

namespace MessageCompiler.Markup

open List

/-! ### Nodes below a node -/

namespace Tree

variable {t : Tree} {a c x : Nat} {rest : List Nat}

/-- The numbers of a node and of all nodes below it, down to a depth. -/
def shown (t : Tree) : (depth : Nat) → Nat → List Nat
  | 0, _ => []
  | depth + 1, id =>
    id ::
      match t.content? id with
      | some (.element _ _ _) => (t.children id).flatMap (t.shown depth)
      | _ => []

theorem mem_shown_succ {depth : Nat} (hx : x ∈ t.shown (depth + 1) a) :
    x = a ∨ ∃ c ∈ t.children a, x ∈ t.shown depth c := by
  rw [shown] at hx
  rcases mem_cons.mp hx with rfl | hx
  · exact .inl rfl
  · split at hx
    · exact .inr (mem_flatMap.mp hx)
    · cases hx

theorem Trail.unique : ∀ {a : Nat} {rest rest' : List Nat}, t.Trail (a :: rest) → t.Trail (a :: rest') → rest = rest'
  | _, [], [], _, _ => rfl
  | _, [], _ :: _, hnone, hsome => by cases hnone.symm.trans hsome.1
  | _, _ :: _, [], hsome, hnone => by cases hnone.symm.trans hsome.1
  | _, b :: rest, b' :: rest', ⟨hb, h⟩, ⟨hb', h'⟩ => by
    cases hb.symm.trans hb'
    rw [h.unique h']

namespace Linked

theorem exists_trail (h : t.Linked) : ∀ {depth a : Nat} {rest : List Nat}, t.Trail (a :: rest) → x ∈ t.shown depth a →
    ∃ up, t.Trail (x :: up) ∧ a :: rest <:+ x :: up
  | 0, _, _, _, hx => by cases hx
  | depth + 1, a, rest, htrail, hx => by
    rcases mem_shown_succ hx with rfl | ⟨c, hc, hx⟩
    · exact ⟨rest, htrail, suffix_rfl⟩
    · obtain ⟨up, hup, hsuffix⟩ := h.exists_trail (htrail.cons ((h.child a c).mp hc)) hx
      exact ⟨up, hup, (suffix_cons c _).trans hsuffix⟩

theorem disjoint_shown (h : t.Linked) {depth c' : Nat} (htrail : t.Trail (a :: rest)) (hc : c ∈ t.children a)
    (hc' : c' ∈ t.children a) (hne : c ≠ c') : List.Disjoint (t.shown depth c) (t.shown depth c') := by
  intro x hx hx'
  obtain ⟨up, hup, hsuffix⟩ := h.exists_trail (htrail.cons ((h.child a c).mp hc)) hx
  obtain ⟨up', hup', hsuffix'⟩ := h.exists_trail (htrail.cons ((h.child a c').mp hc')) hx'
  rw [hup.unique hup'] at hsuffix
  have hsame := (suffix_of_suffix_length_le hsuffix hsuffix' (Nat.le_refl _)).eq_of_length rfl
  exact hne (List.cons.inj hsame).1

theorem nodup_flatMap_shown (h : t.Linked) {depth : Nat} (htrail : t.Trail (a :: rest))
    (hnodup : ∀ c ∈ t.children a, (t.shown depth c).Nodup) : ((t.children a).flatMap (t.shown depth)).Nodup := by
  refine nodup_flatMap.mpr ⟨hnodup, ?_⟩
  exact List.Pairwise.imp_of_mem (fun hc hc' hne => h.disjoint_shown htrail hc hc' hne) (h.nodup a)

theorem nodup_shown (h : t.Linked) : ∀ {depth a : Nat} {rest : List Nat}, t.Trail (a :: rest) → (t.shown depth a).Nodup
  | 0, _, _, _ => nodup_nil
  | depth + 1, a, rest, htrail => by
    rw [shown]
    split
    · refine nodup_cons.mpr ⟨fun hmem => ?_, h.nodup_flatMap_shown htrail fun c hc =>
        h.nodup_shown (htrail.cons ((h.child a c).mp hc))⟩
      -- a trail that comes back to the node would be longer than itself
      obtain ⟨c, hc, hmem⟩ := mem_flatMap.mp hmem
      obtain ⟨up, hup, hsuffix⟩ := h.exists_trail (htrail.cons ((h.child a c).mp hc)) hmem
      have hlength := hsuffix.length_le
      rw [hup.unique htrail, length_cons, length_cons] at hlength
      omega
    · exact nodup_singleton a

theorem lt_of_mem_shown (h : t.Linked) : ∀ {depth a : Nat}, a < t.size → x ∈ t.shown depth a → x < t.size
  | 0, _, _, hx => by cases hx
  | depth + 1, a, ha, hx => by
    rcases mem_shown_succ hx with rfl | ⟨c, hc, hx⟩
    · exact ha
    · exact h.lt_of_mem_shown (lt_of_parent? ((h.child a c).mp hc)) hx

end Linked

end Tree

/-! ### Comments among nodes -/

def commentsIn : List Node → List String
  | [] => []
  | .text _ :: rest => commentsIn rest
  | .comment s :: rest => s :: commentsIn rest
  | .element _ _ _ children :: rest => commentsIn children ++ commentsIn rest

theorem commentsIn_toNode (t : Tree) : ∀ (depth : Nat) (ids : List Nat),
    commentsIn (ids.map (t.toNode depth)) = (ids.flatMap (t.shown depth)).filterMap t.comment?
  | _, [] => by simp [commentsIn]
  | 0, id :: rest => by
    rw [map_cons, Tree.toNode, commentsIn, commentsIn_toNode t 0 rest]
    rfl
  | depth + 1, id :: rest => by
    have hrest := commentsIn_toNode t (depth + 1) rest
    rw [map_cons, flatMap_cons, filterMap_append, ← hrest, Tree.toNode, Tree.shown]
    cases hcontent : t.content? id with
    | none => simp [commentsIn, Tree.comment?, hcontent]
    | some content =>
      cases content with
      | text s => simp [commentsIn, Tree.comment?, hcontent, Content.comment?]
      | comment s => simp [commentsIn, Tree.comment?, hcontent, Content.comment?]
      | element ns tag attrs =>
        simp [commentsIn, Tree.comment?, hcontent, Content.comment?, commentsIn_toNode t depth]

theorem Document.subperm_commentsIn {cs : List String} (d : Document cs) :
    (commentsIn ((d.children 0).map d.node)).Subperm cs := by
  have htrail : d.Trail [0] := d.parent?_root
  have hnodup : ((d.children 0).flatMap (d.shown d.size)).Nodup :=
    d.linked.nodup_flatMap_shown htrail fun c hc => d.linked.nodup_shown (htrail.cons ((d.linked.child 0 c).mp hc))
  have hsubset : (d.children 0).flatMap (d.shown d.size) ⊆ (List.range d.size).reverse := by
    intro x hx
    obtain ⟨c, hc, hx⟩ := mem_flatMap.mp hx
    exact mem_reverse.mpr (mem_range.mpr
      (d.linked.lt_of_mem_shown (Tree.lt_of_parent? ((d.linked.child 0 c).mp hc)) hx))
  obtain ⟨ids, hperm, hsub⟩ := subperm_of_subset hnodup hsubset
  have hcomments : ids.filterMap d.comment? |>.Sublist d.comments := by
    unfold Tree.comments
    rw [filterMap_map]
    exact hsub.filterMap _
  have hnodes : (d.children 0).map d.node = (d.children 0).map (d.toNode d.size) := rfl
  rw [hnodes, commentsIn_toNode]
  exact ⟨_, hperm.filterMap _, hcomments.trans d.comments_sublist⟩

def commentsRead (markup : String) : List String := (build (markup.length + 1) none markup.toList .new).1

theorem subperm_commentsIn (markup : String) : (commentsIn (parseFragment markup)).Subperm (commentsRead markup) :=
  (build (markup.length + 1) none markup.toList .new).2.tree.subperm_commentsIn

end MessageCompiler.Markup
