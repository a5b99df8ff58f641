/-
Nodes below a root.

* **`Rooted`** — a chain of parents leads from the node to the root.
* **`map_toNode_stable`** — below a root without parent, no path is longer than the number of nodes.
-/
import Mathlib.Data.List.Perm.Subperm
import MessageCompiler.Markup.Linked

namespace MessageCompiler.Markup.Tree

open List

variable {c p root : Nat} {t t' : Tree}

/-! ### Roots -/

/-- A chain of parents leads from the node to the root. -/
inductive Rooted (t : Tree) (root : Nat) : Nat → Prop where
  | root : Rooted t root root
  | child {c p : Nat} (hparent : t.parent? c = some p) (h : Rooted t root p) : Rooted t root c

theorem Rooted.parent (h : t.Rooted root c) (hroot : t.parent? root = none)
    (hparent : t.parent? c = some p) : t.Rooted root p := by
  cases h with
  | root =>
    rw [hroot] at hparent
    cases hparent
  | child hparent' h =>
    rw [hparent'] at hparent
    cases hparent
    exact h

theorem Rooted.lt (h : t.Rooted root c) (hroot : root < t.size) : c < t.size := by
  cases h with
  | root => exact hroot
  | child hparent _ => exact lt_of_parent? hparent

theorem Rooted.of_parents (h : t.Rooted root c)
    (hsame : ∀ k, t.Rooted root k → t'.parent? k = t.parent? k) : t'.Rooted root c := by
  induction h with
  | root => exact .root
  | child hparent hp ih => exact .child ((hsame _ (.child hparent hp)).trans hparent) ih

/-! ### Depth -/

def Trail (t : Tree) : List Nat → Prop
  | [] => True
  | [a] => t.parent? a = none
  | a :: b :: rest => t.parent? a = some b ∧ t.Trail (b :: rest)

theorem Trail.parent?_mem : ∀ {a : Nat} {rest : List Nat}, t.Trail (a :: rest) →
    ∀ x ∈ a :: rest, t.parent? x = none ∨ ∃ y ∈ rest, t.parent? x = some y
  | a, [], h, x, hx => by
    rw [mem_singleton.mp hx]
    exact .inl h
  | a, b :: rest, ⟨hparent, h⟩, x, hx => by
    rcases mem_cons.mp hx with rfl | hx
    · grind
    · rcases h.parent?_mem x hx with hnone | ⟨y, hy, hsome⟩
      · exact .inl hnone
      · grind

theorem Trail.cons {a : Nat} {rest : List Nat} (h : t.Trail (a :: rest)) (hc : t.parent? c = some a) :
    t.Trail (c :: a :: rest) := ⟨hc, h⟩

theorem Trail.notMem {a : Nat} {rest : List Nat} (h : t.Trail (a :: rest)) (hnodup : (a :: rest).Nodup)
    (hc : t.parent? c = some a) : c ∉ a :: rest := by
  intro hmem
  rcases h.parent?_mem c hmem with hnone | ⟨y, hy, hsome⟩
  · rw [hnone] at hc
    cases hc
  · rw [hsome] at hc
    cases hc
    exact (nodup_cons.mp hnodup).1 hy

theorem length_le_of_nodup {l : List Nat} {n : Nat} (hnodup : l.Nodup) (hlt : ∀ x ∈ l, x < n) : l.length ≤ n := by
  have hsub : l ⊆ List.range n := fun x hx => mem_range.mpr (hlt x hx)
  have hle := (subperm_of_subset hnodup hsub).length_le
  rwa [length_range] at hle

theorem Linked.toNode_trail (h : t.Linked) : ∀ (n m a : Nat) (rest : List Nat), t.Trail (a :: rest) →
    (a :: rest).Nodup → (∀ x ∈ a :: rest, x < t.size) → t.size ≤ n + rest.length →
    t.size ≤ m + rest.length → t.toNode n a = t.toNode m a
  | 0, _, a, rest, _, hnodup, hlt, hn, _ => by
    have hle := length_le_of_nodup hnodup hlt
    rw [length_cons] at hle
    omega
  | n + 1, 0, a, rest, _, hnodup, hlt, _, hm => by
    have hle := length_le_of_nodup hnodup hlt
    rw [length_cons] at hle
    omega
  | n + 1, m + 1, a, rest, htrail, hnodup, hlt, hn, hm => by
    have hchildren : (t.children a).map (t.toNode n) = (t.children a).map (t.toNode m) := by
      refine map_congr_left fun c hc => ?_
      have hparent := (h.child a c).mp hc
      have hnew := htrail.notMem hnodup hparent
      refine h.toNode_trail n m c (a :: rest) (htrail.cons hparent) (nodup_cons.mpr ⟨hnew, hnodup⟩) ?_ ?_ ?_
      · intro x hx
        rcases mem_cons.mp hx with rfl | hx
        · exact lt_of_parent? hparent
        · exact hlt x hx
      · rw [length_cons]
        omega
      · rw [length_cons]
        omega
    unfold toNode
    rw [hchildren]

theorem Linked.map_toNode_stable (h : t.Linked) (hroot : t.parent? root = none) {n : Nat}
    (hn : t.size ≤ n) : (t.children root).map (t.toNode n) = (t.children root).map t.node := by
  refine map_congr_left fun c hc => ?_
  have hparent := (h.child root c).mp hc
  have hne : c ≠ root := by
    rintro rfl
    rw [hroot] at hparent
    cases hparent
  refine h.toNode_trail n t.size c [root] ⟨hparent, hroot⟩ (by simpa using hne) ?_
    (Nat.le_succ_of_le hn) (Nat.le_succ _)
  intro x hx
  rcases mem_cons.mp hx with rfl | hx
  · exact lt_of_parent? hparent
  · rw [mem_singleton.mp hx]
    exact h.parent_lt hparent

/-- Two trees show the same below a root if they agree on a set of nodes, whose children have other nodes in front of
them that show the same in both trees. -/
theorem Linked.map_node_eq {N : Nat → Prop} {kids front front' : Nat → List Nat} (h : t.Linked) (h' : t'.Linked)
    (hroot : t.parent? root = none) (hroot' : t'.parent? root = none) (hN : N root)
    (hkids : ∀ k, N k → ∀ c ∈ kids k, N c)
    (hchildren : ∀ k, N k → t.children k = (kids k).flatMap fun c => front c ++ [c])
    (hchildren' : ∀ k, N k → t'.children k = (kids k).flatMap fun c => front' c ++ [c])
    (hcontent : ∀ k, N k → t.content? k = t'.content? k)
    (hfront : ∀ n k, N k → ∀ c ∈ kids k, (front c).map (t.toNode n) = (front' c).map (t'.toNode n)) :
    (t.children root).map t.node = (t'.children root).map t'.node := by
  have hmap : ∀ n, (∀ k, N k → t.toNode n k = t'.toNode n k) → ∀ k, N k →
      (t.children k).map (t.toNode n) = (t'.children k).map (t'.toNode n) := by
    intro n hnodes k hk
    rw [hchildren k hk, hchildren' k hk, map_flatMap, map_flatMap]
    refine flatMap_congr fun c hc => ?_
    rw [map_append, map_append, hfront n k hk c hc, map_singleton, map_singleton, hnodes c (hkids k hk c hc)]
  have hnodes : ∀ n k, N k → t.toNode n k = t'.toNode n k := by
    intro n
    induction n with
    | zero => exact fun _ _ => rfl
    | succ n ih =>
      intro k hk
      unfold toNode
      rw [hcontent k hk, hmap n ih k hk]
  let n := max t.size t'.size
  calc (t.children root).map t.node = (t.children root).map (t.toNode n) :=
        (h.map_toNode_stable hroot (Nat.le_max_left _ _)).symm
    _ = (t'.children root).map (t'.toNode n) := hmap n (hnodes n) root hN
    _ = (t'.children root).map t'.node := h'.map_toNode_stable hroot' (Nat.le_max_right _ _)

end MessageCompiler.Markup.Tree
