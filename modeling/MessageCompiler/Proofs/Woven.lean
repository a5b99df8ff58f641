/-
New nodes in front of old ones.

Since some moment, nodes have been put in front of nodes that were there before, or inside each other, and taken
away again. The old nodes keep their parents and their order; what has come in between is told by the list of new
nodes in front of each old one.

* **`weave_putFront`**, **`weave_erase`** — putting a node in front of another, and taking one away.
-/
import Mathlib.Data.List.Basic
import MessageCompiler.Proofs.LiveFrame
import MessageCompiler.Proofs.Moves

namespace MessageCompiler

open List

namespace Markup.Tree

variable {l : List Nat} {k x : Nat} {f : Nat → Nat} {ref : Option Nat}

/-! ### Lists of children -/

def weave (front : Nat → List Nat) (l : List Nat) : List Nat := l.flatMap fun c => front c ++ [c]

/-- What is in front of each node once `c` has been put in front of a node, be it an old one or one of those in front
of an old one. -/
def putFront (c : Nat) : Option Nat → (Nat → List Nat) → Nat → List Nat
  | none, front, x => front x
  | some r, front, x => if x = r then front x ++ [c] else if r ∈ front x then insertIn c r (front x) else front x

variable {front front' : Nat → List Nat} {c r : Nat}

theorem putFront_some (x : Nat) : putFront c (some r) front x =
    if x = r then front x ++ [c] else if r ∈ front x then insertIn c r (front x) else front x := rfl

theorem weave_cons (front : Nat → List Nat) (x : Nat) (l : List Nat) :
    weave front (x :: l) = front x ++ x :: weave front l := by
  rw [weave, flatMap_cons, append_assoc]
  rfl

theorem mem_weave : k ∈ weave front l ↔ ∃ x ∈ l, k ∈ front x ∨ k = x := by
  simp only [weave, mem_flatMap, mem_append, mem_singleton]

theorem insertIn_append_right (h : r ∉ l) (l' : List Nat) : insertIn c r (l ++ l') = l ++ insertIn c r l' := by
  induction l with
  | nil => rfl
  | cons a rest ih =>
    have hne : a ≠ r := fun heq => h (heq ▸ mem_cons_self)
    simp_all [cons_append, insertIn]

theorem insertIn_append_left (h : r ∈ l) (l' : List Nat) : insertIn c r (l ++ l') = insertIn c r l ++ l' := by
  induction l with
  | nil => cases h
  | cons a rest ih =>
    rw [cons_append, insertIn, insertIn]
    split
    · rfl
    · next hne =>
      rw [ih ((mem_cons.mp h).resolve_left fun heq => hne heq.symm)]
      rfl

theorem mem_insertIn : k ∈ insertIn c r l ↔ k = c ∨ k ∈ l := by
  induction l with
  | nil => simp [insertIn]
  | cons a rest ih =>
    rw [insertIn]
    split
    · exact mem_cons
    · rw [mem_cons, ih, mem_cons]
      exact or_left_comm

theorem map_insertIn (h : ∀ x ∈ l, f x = f r → x = r) : (insertIn c r l).map f = insertIn (f c) (f r) (l.map f) := by
  induction l with
  | nil => rfl
  | cons a rest ih =>
    have hrest := ih fun x hx => h x (mem_cons_of_mem a hx)
    rw [map_cons, insertIn, insertIn]
    by_cases heq : a = r
    · rw [if_pos heq, if_pos (congrArg f heq)]
      rfl
    · rw [if_neg heq, if_neg fun hf => heq (h a mem_cons_self hf), map_cons, hrest]

theorem map_erase_of_inj (h : ∀ x ∈ l, f x = f c → x = c) : (l.erase c).map f = (l.map f).erase (f c) := by
  induction l with
  | nil => rfl
  | cons a rest ih =>
    have hrest := ih fun x hx => h x (mem_cons_of_mem a hx)
    rw [map_cons]
    by_cases heq : a = c
    · rw [heq, erase_cons_head, erase_cons_head]
    · rw [erase_cons_tail (by simpa using heq), map_cons, hrest, erase_cons_tail]
      simpa using fun hf => heq (h a mem_cons_self hf)

theorem mem_putFront (h : k ∈ putFront c ref front x) : k = c ∨ k ∈ front x := by
  cases ref with
  | none => exact .inr h
  | some r =>
    rw [putFront_some] at h
    split at h
    · rcases mem_append.mp h with h | h
      · exact .inr h
      · exact .inl (mem_singleton.mp h)
    · split at h
      · exact mem_insertIn.mp h
      · exact .inr h

theorem putFront_of_notMem (hx : ref ≠ some x) (h : ∀ r, ref = some r → r ∉ front x) :
    putFront c ref front x = front x := by
  cases ref with
  | none => rfl
  | some r => rw [putFront_some, if_neg fun heq => hx (congrArg some heq.symm), if_neg (h r rfl)]

theorem map_putFront (hfront : front' x = (front x).map f)
    (hx : ∀ r, ref = some r → (x = f r ↔ x = r)) (hinj : ∀ r, ref = some r → ∀ y ∈ front x, f y = f r → y = r) :
    putFront (f c) (ref.map f) front' x = (putFront c ref front x).map f := by
  cases ref with
  | none => exact hfront
  | some r =>
    have hmem : f r ∈ (front x).map f ↔ r ∈ front x := by
      refine ⟨fun h => ?_, mem_map_of_mem⟩
      obtain ⟨y, hy, heq⟩ := mem_map.mp h
      exact hinj r rfl y hy heq ▸ hy
    rw [Option.map_some, putFront_some, putFront_some, hfront]
    by_cases heq : x = r
    · rw [if_pos ((hx r rfl).mpr heq), if_pos heq, map_append]
      rfl
    · rw [if_neg fun hf => heq ((hx r rfl).mp hf), if_neg heq]
      by_cases hr : r ∈ front x
      · rw [if_pos (hmem.mpr hr), if_pos hr, map_insertIn (hinj r rfl)]
      · rw [if_neg fun hf => hr (hmem.mp hf), if_neg hr]

theorem map_insertAt (h : ∀ r, ref = some r → ∀ x ∈ l, f x = f r → x = r) :
    (insertAt c ref l).map f = insertAt (f c) (ref.map f) (l.map f) := by
  cases ref with
  | none => exact map_append
  | some r => exact map_insertIn (h r rfl)

theorem weave_putFront (h : (weave front l).Nodup) : weave (putFront c (some r) front) l =
    if r ∈ weave front l then insertIn c r (weave front l) else weave front l := by
  induction l with
  | nil => rfl
  | cons x l ih =>
    rw [weave_cons] at h
    obtain ⟨-, hrest, hapart⟩ := nodup_append.mp h
    obtain ⟨hx, hrest⟩ := nodup_cons.mp hrest
    rw [weave_cons, weave_cons, ih hrest, putFront_some]
    -- `r` is `x` itself, or among those in front of it, or further behind
    by_cases hxr : x = r
    · have hfront : r ∉ front x := fun hmem => hapart r hmem x mem_cons_self hxr.symm
      subst hxr
      rw [if_pos rfl, if_neg hx, if_pos (mem_append_right _ mem_cons_self), insertIn_append hfront, append_assoc]
      rfl
    · rw [if_neg hxr]
      by_cases hfront : r ∈ front x
      · have hnot : r ∉ weave front l := fun hmem => hapart r hfront r (mem_cons_of_mem x hmem) rfl
        rw [if_pos hfront, if_neg hnot, if_pos (mem_append_left _ hfront), insertIn_append_left hfront]
      · rw [if_neg hfront]
        by_cases hmem : r ∈ weave front l
        · rw [if_pos hmem, if_pos (mem_append_right _ (mem_cons_of_mem x hmem)), insertIn_append_right hfront,
            insertIn, if_neg hxr]
        · have hnot : r ∉ front x ++ x :: weave front l := by
            simp [hfront, hmem, Ne.symm hxr]
          rw [if_neg hmem, if_neg hnot]

theorem weave_erase (h : (weave front l).Nodup) (hc : c ∉ l) :
    weave (fun x => (front x).erase c) l = (weave front l).erase c := by
  induction l with
  | nil => rfl
  | cons x l ih =>
    rw [weave_cons] at h
    obtain ⟨-, hrest, hapart⟩ := nodup_append.mp h
    have hne : x ≠ c := fun heq => hc (heq ▸ mem_cons_self)
    rw [weave_cons, weave_cons, ih (nodup_cons.mp hrest).2 fun hmem => hc (mem_cons_of_mem x hmem)]
    by_cases hfront : c ∈ front x
    · have hnot : c ∉ weave front l := fun hmem => hapart c hfront c (mem_cons_of_mem x hmem) rfl
      rw [erase_append_left _ hfront, erase_of_not_mem hnot]
    · rw [erase_append_right _ hfront, erase_of_not_mem hfront, erase_cons_tail (by simpa using hne)]

theorem eq_of_weave {n : Nat} (hnodup : l.Nodup) (hl : ∀ x ∈ l, x < n)
    (hfront : ∀ x, ∀ k ∈ front x, n ≤ k) (h : weave front l = weave front' l) : ∀ x ∈ l, front x = front' x := by
  induction l with
  | nil => exact fun x hx => absurd hx not_mem_nil
  | cons x l ih =>
    obtain ⟨hx, hnodup⟩ := nodup_cons.mp hnodup
    have hlt := hl x mem_cons_self
    have hold : ∀ y, x ∉ front y := fun y hmem => Nat.not_lt.mpr (hfront y x hmem) hlt
    have hrest : x ∉ weave front l := by
      rw [mem_weave]
      rintro ⟨y, hy, hmem | rfl⟩
      · exact hold y hmem
      · exact hx hy
    rw [weave_cons, weave_cons] at h
    -- both lists are cut at `x`, which is in neither of the first parts
    obtain ⟨hfirst, -, htail⟩ := (append_cons_inj_of_notMem (hold x) hrest).mp h
    exact forall_mem_cons.mpr ⟨hfirst, ih hnodup (fun y hy => hl y (mem_cons_of_mem x hy)) htail⟩

end Markup.Tree

/-! ### Views that have grown -/

open Markup (Content Tree)
open Markup.Tree (weave putFront)

namespace LiveView

/-- Since `base`, new nodes have come in front of the old ones. -/
structure Grown (base : LiveView) (front : Nat → List Nat) (v : LiveView) : Prop where
  linked : v.tree.Linked
  le : base.tree.size ≤ v.tree.size
  host : v.host = base.host
  locale : v.locale = base.locale
  size : v.slots.size = base.slots.size
  parent : ∀ k < base.tree.size, v.tree.parent? k = base.tree.parent? k
  children : ∀ k < base.tree.size, v.tree.children k = weave front (base.tree.children k)
  new : ∀ x, ∀ k ∈ front x, base.tree.size ≤ k ∧ k < v.tree.size

namespace Grown

variable {base v : LiveView} {front : Nat → List Nat}

theorem refl (h : base.tree.Linked) : base.Grown (fun _ => []) base where
  linked := h
  le := Nat.le_refl _
  host := rfl
  locale := rfl
  size := rfl
  parent _ _ := rfl
  children k _ := by simp [weave]
  new _ _ hk := absurd hk not_mem_nil

section

variable (h : base.Grown front v)
include h

theorem set (s : Nat) (x : LiveSlot) : base.Grown front (v.set s x) :=
  ⟨h.linked, h.le, h.host, h.locale, (size_set v s x).trans h.size, h.parent, h.children, h.new⟩

theorem create (content : Content) : base.Grown front (v.withTree (v.tree.create content)) := { h with
  linked := h.linked.create content
  le := by
    show _ ≤ (v.tree.create content).size
    rw [Tree.size_create]
    exact Nat.le_succ_of_le h.le
  parent k hk := (v.tree.parent?_create content k).trans (h.parent k hk)
  children k hk := (v.tree.children_create content k).trans (h.children k hk)
  new x k hk := by
    show _ ∧ k < (v.tree.create content).size
    rw [Tree.size_create]
    exact ⟨(h.new x k hk).1, Nat.lt_succ_of_lt (h.new x k hk).2⟩ }

theorem addNew (s : Nat) (content : Content) : base.Grown front (v.addNew s content) :=
  (h.create content).set s _

theorem modifyContent (id : Nat) (g : Content → Content) :
    base.Grown front (v.withTree (Live.modifyContent id g v.tree)) := { h with
  linked := h.linked.modifyContent id g
  le := Nat.le_trans h.le (Nat.le_of_eq (Tree.size_modifyContent id g v.tree).symm)
  parent k hk := (Tree.parent?_modifyContent id g v.tree k).trans (h.parent k hk)
  children k hk := (Tree.children_modifyContent id g v.tree k).trans (h.children k hk)
  new x k hk := ⟨(h.new x k hk).1, Nat.lt_of_lt_of_eq (h.new x k hk).2 (Tree.size_modifyContent id g v.tree).symm⟩ }

/-- The nodes that are behind a new one, or in front of which it may be put, go where it does; if it is put last, it
is put into a new node. -/
theorem insertBefore {p c : Nat} (hp : p < v.tree.size)
    (hc : base.tree.size ≤ c) (hlt : c < v.tree.size) (hfree : v.tree.parent? c = none)
    (href : ∀ r, ref = some r → v.tree.parent? r = some p) (hlast : ref = none → base.tree.size ≤ p) :
    base.Grown (putFront c ref front) (v.withTree (v.tree.insertBefore p c ref)) := { h with
  linked := h.linked.insertBefore hp hlt ref
  le := Nat.le_trans h.le (Nat.le_of_eq (Tree.size_insertBefore _ _ _ _).symm)
  parent k hk := by
    show (v.tree.insertBefore p c ref).parent? k = _
    rw [h.linked.parent?_insertBefore hp hlt, if_neg (by omega)]
    exact h.parent k hk
  children k hk := by
    show (v.tree.insertBefore p c ref).children k = _
    rw [h.linked.children_insertBefore hp hlt, h.linked.erase_of_none hfree, h.children k hk]
    cases ref with
    | none =>
      rw [if_neg (by have := hlast rfl; omega)]
      rfl
    | some r =>
      have hnodup := h.linked.nodup k
      rw [h.children k hk] at hnodup
      have hmem : r ∈ weave front (base.tree.children k) ↔ k = p := by
        rw [← h.children k hk, h.linked.child, href r rfl, Option.some_inj]
        exact eq_comm
      rw [Tree.weave_putFront hnodup]
      exact (if_congr hmem rfl rfl).symm
  new x k hk := by
    show _ ∧ k < (v.tree.insertBefore p c ref).size
    rw [Tree.size_insertBefore]
    rcases Tree.mem_putFront hk with rfl | hk
    · exact ⟨hc, hlt⟩
    · exact h.new x k hk }

theorem detach (hbase : base.tree.Linked) {c : Nat} (hc : base.tree.size ≤ c) :
    base.Grown (fun x => (front x).erase c) (v.withTree (v.tree.detach c)) := { h with
  linked := h.linked.detach c
  le := Nat.le_trans h.le (Nat.le_of_eq (Tree.size_detach _ _).symm)
  parent k hk := by
    show (v.tree.detach c).parent? k = _
    rw [Tree.parent?_detach, if_neg (by omega)]
    exact h.parent k hk
  children k hk := by
    have hnodup := h.linked.nodup k
    rw [h.children k hk] at hnodup
    show (v.tree.detach c).children k = _
    rw [h.linked.children_detach, h.children k hk, Tree.weave_erase hnodup]
    intro hmem
    have := Tree.lt_of_parent? ((hbase.child k c).mp hmem)
    omega
  new x k hk := by
    show _ ∧ k < (v.tree.detach c).size
    rw [Tree.size_detach]
    exact h.new x k (mem_of_mem_erase hk) }

end

end Grown

end LiveView

end MessageCompiler
