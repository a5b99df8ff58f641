/-
What instructions write into a node.

An instruction for a text or an attribute writes its text to one place of a node, under a key. If the
last instruction for a place runs whenever an earlier one does, it makes no difference whether all
instructions run or only those that wait for one of the changes.

* **`yields_write`** — the view after such an instruction.
-/
import MessageCompiler.Proofs.Bindings
import MessageCompiler.Proofs.Yields

namespace MessageCompiler

open List
open Markup (Content Attr)
open Live (withText withAttr withAttribute)

variable {name : Option String} {changes : Mask}

/-! ### Writing to a place -/

def write : (name : Option String) → (value : String) → Content → Content
  | none, value, c => withText value c
  | some name, value, c => withAttribute name value c

/-- The place is there already: writing to it does not add an attribute. -/
def HasPlace : (name : Option String) → Content → Prop
  | some name, .element _ _ attrs => ∃ a ∈ attrs, a.key = name
  | _, _ => True

theorem withAttr_overwrite (name v u : String) :
    ∀ attrs : List Attr, withAttr name v (withAttr name u attrs) = withAttr name v attrs
  | [] => by simp [withAttr]
  | a :: rest => by
    by_cases h : a.key = name
    · simp [withAttr, h]
    · simp [withAttr, h, withAttr_overwrite name v u rest]

theorem withAttr_comm {name other : String} (hne : name ≠ other) (v u : String) :
    ∀ attrs : List Attr, (∃ a ∈ attrs, a.key = name) →
      withAttr name v (withAttr other u attrs) = withAttr other u (withAttr name v attrs)
  | [], h => by simp at h
  | a :: rest, h => by
    by_cases hname : a.key = name
    · have hother : a.key ≠ other := fun heq => hne (hname.symm.trans heq)
      simp [withAttr, hname, hne]
    · have hrest : ∃ b ∈ rest, b.key = name := by
        obtain ⟨b, hb, hkey⟩ := h
        rcases mem_cons.mp hb with rfl | hb
        · exact absurd hkey hname
        · exact ⟨b, hb, hkey⟩
      by_cases hother : a.key = other
      · simp [withAttr, hother, Ne.symm hne]
      · simp [withAttr, hname, hother, withAttr_comm hne v u rest hrest]

theorem mem_withAttr (name value : String) : ∀ attrs : List Attr, ∃ a ∈ withAttr name value attrs, a.key = name
  | [] => ⟨_, mem_cons_self, rfl⟩
  | a :: rest => by
    by_cases h : a.key = name
    · simp_all [withAttr]
    · obtain ⟨b, hb, hkey⟩ := mem_withAttr name value rest
      exact ⟨b, by simp [withAttr, h, hb], hkey⟩

theorem mem_withAttr_of_mem {name : String} (other value : String) :
    ∀ attrs : List Attr, (∃ a ∈ attrs, a.key = name) → ∃ a ∈ withAttr other value attrs, a.key = name
  | [], h => by simp at h
  | a :: rest, ⟨b, hb, hkey⟩ => by
    by_cases h : a.key = other
    · rcases mem_cons.mp hb with rfl | hb
      · exact ⟨{ b with value }, by simp [withAttr, h], hkey⟩
      · exact ⟨b, by simp [withAttr, h, hb], hkey⟩
    · rcases mem_cons.mp hb with rfl | hb
      · exact ⟨b, by simp [withAttr, h], hkey⟩
      · obtain ⟨d, hd, hdkey⟩ := mem_withAttr_of_mem other value rest ⟨b, hb, hkey⟩
        exact ⟨d, by simp [withAttr, h, hd], hdkey⟩

theorem write_overwrite (name : Option String) (v u : String) (c : Content) :
    write name v (write name u c) = write name v c := by
  cases name with
  | none => cases c <;> rfl
  | some name =>
    cases c with
    | text s => rfl
    | comment s => rfl
    | element ns tag attrs =>
      show Content.element ns tag (withAttr name v (withAttr name u attrs)) = _
      rw [withAttr_overwrite]
      rfl

variable {c : Content} {op : UpdateOp}

theorem write_comm {other : Option String} (hne : name ≠ other) (v u : String) (h : HasPlace name c) :
    write name v (write other u c) = write other u (write name v c) := by
  cases name with
  | none =>
    cases other with
    | none => exact absurd rfl hne
    | some other => cases c <;> rfl
  | some name =>
    cases other with
    | none => cases c <;> rfl
    | some other =>
      cases c with
      | text s => rfl
      | comment s => rfl
      | element ns tag attrs =>
        have hnames : name ≠ other := fun heq => hne (congrArg some heq)
        show Content.element ns tag (withAttr name v (withAttr other u attrs)) = _
        rw [withAttr_comm hnames v u attrs h]
        rfl

theorem hasPlace_write (name : Option String) (value : String) (c : Content) : HasPlace name (write name value c) := by
  cases name with
  | none => trivial
  | some name =>
    cases c with
    | text s => trivial
    | comment s => trivial
    | element ns tag attrs => exact mem_withAttr name value attrs

theorem HasPlace.write (h : HasPlace name c) (other : Option String) (value : String) :
    HasPlace name (write other value c) := by
  cases name with
  | none => trivial
  | some name =>
    cases c with
    | text s => cases other <;> trivial
    | comment s => cases other <;> trivial
    | element ns tag attrs =>
      cases other with
      | none => exact h
      | some other => exact mem_withAttr_of_mem other value attrs h

/-! ### Instructions -/

namespace UpdateOp

def place? (op : UpdateOp) : Option (Option String) :=
  match op.target with
  | .text => some none
  | .attribute name _ _ => some (some name)
  | _ => none

def value (values : List String) (op : UpdateOp) : String :=
  match op.target with
  | .attribute _ (some s) _ => s.run (joined values op.parts)
  | _ => joined values op.parts

def commit (values : List String) (op : UpdateOp) (c : Content) : Content :=
  match op.place? with
  | some name => write name (op.value values) c
  | none => c

def samePlace (a b : UpdateOp) : Bool :=
  a.index == b.index && a.place?.isSome && a.place? == b.place?

/-- The instruction writes to a node, and waits for all its bindings. -/
structure Writes (op : UpdateOp) : Prop where
  place : op.place?.isSome = true
  nonneg : PartsNonneg op.parts
  mask_eq : op.mask = bindingMask op.parts
  mask_ne : op.mask ≠ 0#32

theorem Writes.value_eq {op : UpdateOp} (h : op.Writes) {old new : List String}
    (hcovers : Covers changes old new) (hmeets : op.mask.meets changes = false) :
    op.value old = op.value new := by
  rw [h.mask_eq] at hmeets
  unfold value
  rw [joined_eq_of_bits hcovers h.nonneg (meets_bindingMask hmeets)]

end UpdateOp

def committed (values : List String) (ops : List UpdateOp) (c : Content) : Content :=
  ops.foldl (fun c op => op.commit values c) c

/-- Whenever an instruction runs, the last one that writes to the same place runs too. -/
def steady : List UpdateOp → Bool
  | [] => true
  | op :: rest =>
    (match (rest.filter op.samePlace).getLast? with
      | some last => op.mask &&& ~~~last.mask == 0#32
      | none => true) && steady rest

/-- What a node shows of its instructions: nothing until their first run. -/
def shown (values : Option (List String)) (ops : List UpdateOp) (c : Content) : Content :=
  match values with
  | some values => committed values ops c
  | none => c

section Committed

variable {values : List String} {ops : List UpdateOp} {name : Option String}
variable {op : UpdateOp} {c : Content}

theorem commit_eq_write (h : op.place? = some name) (values : List String) (c : Content) :
    op.commit values c = write name (op.value values) c := by
  unfold UpdateOp.commit
  rw [h]

theorem HasPlace.commit (h : HasPlace name c) (values : List String) (op : UpdateOp) :
    HasPlace name (op.commit values c) := by
  unfold UpdateOp.commit
  split
  · exact h.write _ _
  · exact h

theorem HasPlace.committed {c : Content} (h : HasPlace name c) (values : List String) :
    ∀ ops : List UpdateOp, HasPlace name (committed values ops c)
  | [] => h
  | op :: rest => HasPlace.committed (h.commit values op) values rest

theorem commit_write (h : HasPlace name c) (hother : op.place? ≠ some name) (value : String) :
    op.commit values (write name value c) = write name value (op.commit values c) := by
  unfold UpdateOp.commit
  split
  · next other hplace =>
    have hne : name ≠ other := fun heq => hother (heq ▸ hplace)
    exact (write_comm hne _ _ h).symm
  · rfl

theorem write_committed (value : String) (h : HasPlace name c) (hother : ∀ op ∈ ops, op.place? ≠ some name) :
    write name value (committed values ops c) = committed values ops (write name value c) := by
  induction ops generalizing c with
  | nil => rfl
  | cons op rest ih =>
    show write name value (committed values rest (op.commit values c)) =
      committed values rest (op.commit values (write name value c))
    rw [commit_write h (hother op mem_cons_self)]
    exact ih (h.commit values op) fun q hq => hother q (mem_cons_of_mem op hq)

theorem committed_write (value : String) (h : HasPlace name c) (hagain : ∃ op ∈ ops, op.place? = some name) :
    committed values ops (write name value c) = committed values ops c := by
  induction ops generalizing c with
  | nil => simp at hagain
  | cons op rest ih =>
    show committed values rest (op.commit values (write name value c)) = committed values rest (op.commit values c)
    by_cases hop : op.place? = some name
    · rw [commit_eq_write hop, commit_eq_write hop, write_overwrite]
    · have hrest : ∃ q ∈ rest, q.place? = some name := by
        obtain ⟨q, hq, hplace⟩ := hagain
        rcases mem_cons.mp hq with rfl | hq
        · exact absurd hplace hop
        · exact ⟨q, hq, hplace⟩
      rw [commit_write h hop]
      exact ih (h.commit values op) hrest

end Committed

/-! ### Running only some of the instructions -/

theorem steady_cons {rest : List UpdateOp} (h : steady (op :: rest) = true) :
    (∀ last, (rest.filter op.samePlace).getLast? = some last → op.mask &&& ~~~last.mask = 0#32) ∧
      steady rest = true := by
  rw [steady, Bool.and_eq_true] at h
  refine ⟨fun last hlast => ?_, h.2⟩
  have hmask := h.1
  rw [hlast] at hmask
  exact of_decide_eq_true hmask

theorem UpdateOp.samePlace_iff {a b : UpdateOp} (ha : a.place? = some name)
    (hindex : a.index = b.index) : a.samePlace b = true ↔ b.place? = some name := by
  unfold samePlace
  grind

/-- From the content that all instructions made of the old values, those that meet the changes make what
all of them make of the new values. -/
theorem committed_filter {old new : List String} (hcovers : Covers changes old new)
    {index : Int} : ∀ {ops : List UpdateOp}, (∀ op ∈ ops, op.Writes ∧ op.index = index) →
      steady ops = true → ∀ c : Content,
        committed new (ops.filter fun op => op.mask.meets changes) (committed old ops c) = committed new ops c
  | [], _, _, _ => rfl
  | op :: rest, hops, hsteady, c => by
    obtain ⟨hwrites, hindex⟩ := hops op mem_cons_self
    have hrest : ∀ q ∈ rest, q.Writes ∧ q.index = index := fun q hq => hops q (mem_cons_of_mem op hq)
    obtain ⟨hlast, hsteady⟩ := steady_cons hsteady
    obtain ⟨name, hname⟩ := Option.isSome_iff_exists.mp hwrites.place
    have ih := committed_filter hcovers hrest hsteady
    have hsame : ∀ q ∈ rest, op.samePlace q = true ↔ q.place? = some name := fun q hq =>
      UpdateOp.samePlace_iff hname (hindex.trans (hrest q hq).2.symm)
    show committed new ((op :: rest).filter fun op => op.mask.meets changes)
        (committed old rest (op.commit old c)) = committed new rest (op.commit new c)
    cases hmeets : op.mask.meets changes with
    | false =>
      rw [filter_cons, hmeets, if_neg Bool.false_ne_true, ih]
      unfold UpdateOp.commit
      rw [hwrites.value_eq hcovers hmeets]
    | true =>
      rw [filter_cons, hmeets, if_pos rfl]
      show committed new (rest.filter fun op => op.mask.meets changes)
        (op.commit new (committed old rest (op.commit old c))) = _
      rw [commit_eq_write hname, commit_eq_write hname, commit_eq_write hname]
      have hplace : HasPlace name (write name (op.value old) c) := hasPlace_write _ _ _
      cases hfound : (rest.filter op.samePlace).getLast? with
      | none =>
        -- Nothing else writes there: the new value may as well be written first.
        have hother : ∀ q ∈ rest, q.place? ≠ some name := by
          intro q hq hplace
          grind
        rw [write_committed _ hplace hother, write_overwrite, ih]
      | some last =>
        -- The last instruction for the place runs as well, so that neither value matters.
        obtain ⟨hmem, hlastSame⟩ := mem_filter.mp (mem_of_getLast? hfound)
        have hlastPlace := (hsame last hmem).mp hlastSame
        have hruns : last ∈ rest.filter fun op => op.mask.meets changes :=
          mem_filter.mpr ⟨hmem, Mask.meets_of_subset (hlast last hfound) hmeets⟩
        rw [committed_write _ (hplace.committed old rest) ⟨last, hruns, hlastPlace⟩, ih,
          ← committed_write (op.value new) hplace ⟨last, hmem, hlastPlace⟩, write_overwrite]

/-! ### The view after an instruction -/

/-- The view with the instruction carried out, if there is a node in its slot. -/
def LiveView.commitAt (v : LiveView) (values : List String) (op : UpdateOp) : LiveView :=
  match v.node? op.index with
  | some id => v.withTree (Live.modifyContent id (op.commit values) v.tree)
  | none => v

open Live

theorem UpdateOp.Writes.target (h : op.Writes) :
    op.target = .text ∨ ∃ name sanitizer shown, op.target = .attribute name sanitizer shown := by
  have hplace := h.place
  unfold place? at hplace
  split at hplace
  · exact .inl ‹_›
  · exact .inr ⟨_, _, _, ‹_›⟩
  · cases hplace

theorem composed_eq (values : List String) {parts : List Part} (h : PartsNonneg parts) :
    composed values parts = pure (joined values parts) := by
  unfold composed
  rw [compose_eq values h]

theorem yields_write {t : TemplateView} {depth : Nat} {run : List UpdateOp → Mask → LiveM Unit}
    {values : List String} (hop : op.Writes) {v : LiveView} {Q : Unit → LiveView → Prop}
    (h : Q () (if op.mask.meets changes = true then v.commitAt values op else v)) :
    Yields (applyUpdate t depth run values changes op) v Q := by
  unfold applyUpdate
  split at h
  · next hmeets =>
    rw [if_pos hmeets]
    unfold applyChanged
    rw [composed_eq values hop.nonneg, pure_bind]
    unfold LiveView.commitAt UpdateOp.commit UpdateOp.value UpdateOp.place? at h
    rcases hop.target with htarget | ⟨name, sanitizer, shown, htarget⟩
    · rw [htarget] at h ⊢
      refine Yields.andThen yields_node? ?_
      cases hnode : v.node? op.index with
      | none =>
        rw [hnode] at h
        exact yields_pure h
      | some id =>
        rw [hnode] at h
        exact yields_change h
    · rw [htarget] at h ⊢
      refine Yields.andThen yields_node? ?_
      cases hnode : v.node? op.index with
      | none =>
        rw [hnode] at h
        exact yields_pure h
      | some id =>
        rw [hnode] at h
        cases sanitizer with
        | none => exact yields_change h
        | some s => exact Yields.andThen yields_report (yields_change h)
  · next hmeets =>
    rw [if_neg hmeets]
    unfold applyPending
    rcases hop.target with htarget | ⟨name, sanitizer, shown, htarget⟩
    · rw [htarget]
      exact yields_pure h
    · rw [htarget]
      exact yields_pure h

end MessageCompiler
