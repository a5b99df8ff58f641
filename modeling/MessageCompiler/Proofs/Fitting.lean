/-
The codes of appended nodes.

An instruction of a case that appends a node is one code in a flat stream, with 16 bits for the slot of the node. Slots
are given out in order and never checked against these bits, so the code says where the node is as long as the view
has no more slots than they can count.

* **`Plan.appendsIn_create`** — a case appends a node to one with a smaller slot.
* **`RootItem.within_posts`** — the expressions of a message have slots of it.
-/
import MessageCompiler.Proofs.Balanced
import MessageCompiler.Proofs.Codes
import MessageCompiler.Proofs.PlainPlan

namespace MessageCompiler

open List

/-! ### Appended nodes -/

/-- The instruction, if it appends a node, appends one with a slot in the list, to the node `own` or one behind it. -/
def IcuCreateOp.AppendsIn (own : Int) (slots : List Nat) : IcuCreateOp → Prop
  | .append child parent => own ≤ parent ∧ parent < child ∧ ∃ s ∈ slots, child = s
  | _ => True

theorem IcuCreateOp.AppendsIn.mono {op : IcuCreateOp} {own own' : Int} {slots slots' : List Nat}
    (h : op.AppendsIn own slots) (hown : own' ≤ own) (hslots : slots ⊆ slots') : op.AppendsIn own' slots' := by
  cases op with
  | append child parent =>
    obtain ⟨hle, hlt, s, hs, heq⟩ := h
    exact ⟨Int.le_trans hown hle, hlt, s, hslots hs, heq⟩
  | _ => trivial

theorem IcuCreateOp.appendsIn_made {own : Int} {slot : Nat} {slots : List Nat} {made : IcuCreateOp} {ops : List IcuCreateOp}
    (hmade : made.AppendsIn own (slot :: slots)) (hslot : own < slot) (h : ∀ op ∈ ops, op.AppendsIn own (slot :: slots)) :
    ∀ op ∈ made :: .append slot own :: ops, op.AppendsIn own (slot :: slots) :=
  forall_mem_cons.mpr ⟨hmade, forall_mem_cons.mpr ⟨⟨Int.le_refl own, hslot, slot, mem_cons_self, rfl⟩, h⟩⟩

theorem Plan.appendsIn_create : ∀ (plan : Plan) (own : Int), plan.slots.Pairwise (· < ·) →
    (∀ s ∈ plan.slots, own < s) → ∀ op ∈ plan.create own, op.AppendsIn own plan.slots
  | .nil, _, _, _ => forall_mem_nil _
  | .text slot _ rest, own, hslots, habove => by
    obtain ⟨hslot, habove⟩ := forall_mem_cons.mp habove
    refine IcuCreateOp.appendsIn_made trivial hslot fun op hop => ?_
    exact (rest.appendsIn_create own (pairwise_cons.mp hslots).2 habove op hop).mono (Int.le_refl own)
      (subset_cons_self _ _)
  | .element slot _ fixed _ content rest, own, hslots, habove => by
    obtain ⟨hinside, hslots⟩ := pairwise_cons.mp hslots
    obtain ⟨hcontent, hrest, -⟩ := pairwise_append.mp hslots
    obtain ⟨hslot, habove⟩ := forall_mem_cons.mp habove
    refine IcuCreateOp.appendsIn_made trivial hslot
      (forall_mem_append.mpr ⟨forall_mem_map.mpr fun _ _ => trivial, forall_mem_append.mpr ⟨?_, ?_⟩⟩)
    · intro op hop
      refine (content.appendsIn_create slot hcontent (fun s hs => ?_) op hop).mono (Int.le_of_lt hslot) fun s hs => ?_
      · grind
      · grind
    · intro op hop
      exact (rest.appendsIn_create own hrest (forall_mem_append.mp habove).2 op hop).mono (Int.le_refl own)
        fun s hs => mem_cons_of_mem _ (mem_append_right _ hs)
  | .icu slot _ _ rest, own, hslots, habove => by
    obtain ⟨-, hrest, -⟩ := pairwise_append.mp (pairwise_cons.mp hslots).2
    obtain ⟨hslot, habove⟩ := forall_mem_cons.mp habove
    refine IcuCreateOp.appendsIn_made trivial hslot fun op hop => ?_
    exact (rest.appendsIn_create own hrest (forall_mem_append.mp habove).2 op hop).mono (Int.le_refl own)
      fun s hs => mem_cons_of_mem _ (mem_append_right _ hs)

theorem CasePlans.appendsIn_compiled : ∀ (cases : CasePlans) (own : Int), cases.slots.Pairwise (· < ·) →
    (∀ s ∈ cases.slots, own < s) → ∀ c ∈ cases.compiled own, ∀ op ∈ c.create, op.AppendsIn own cases.slots
  | .nil, _, _, _ => forall_mem_nil _
  | .cons _ content rest, own, hslots, habove => by
    obtain ⟨hcontent, hrest, -⟩ := pairwise_append.mp hslots
    obtain ⟨habove, hbehind⟩ := forall_mem_append.mp habove
    refine forall_mem_cons.mpr ⟨fun op hop => ?_, fun c hc op hop => ?_⟩
    · exact (content.appendsIn_create own hcontent habove op hop).mono (Int.le_refl own) (subset_append_left _ _)
    · exact (rest.appendsIn_compiled own hrest hbehind c hc op hop).mono (Int.le_refl own) (subset_append_right _ _)

/-! ### Codes -/

section Compiled

variable {t t' : TemplateView} {block : Block} {parent : Int} {items : List RootItem} {es : List Icu}

theorem RootItem.within_posts {post : Post} (hpost : post ∈ items.flatMap (·.posts parent)) :
    post.Within parent (items.flatMap RootItem.slots) := by
  obtain ⟨item, hitem, hpost⟩ := mem_flatMap.mp hpost
  cases item with
  | text slot value eager => cases hpost
  | icu slot label plan eager =>
    have hsub : (slot :: plan.slots).Sublist (items.flatMap RootItem.slots) :=
      sublist_flatMap_of_mem RootItem.slots hitem
    exact (plan.within_posts parent slot post hpost).mono ((sublist_cons_self _ _).trans hsub)

/-- What a case of the message appends has a new slot, and goes into a node with a smaller slot, or into none. -/
theorem Compiled.bounds_append {cfg : Config} (h : Compiled t t' block parent items) (hlow : -1 ≤ parent)
    (hhigh : parent < t.size)
    (hplanned : List.Forall₂ (Icu.Planned cfg) es (items.filterMap RootItem.expression?)) {post : Post}
    (hpost : post ∈ items.flatMap (·.posts parent)) {c : CompiledCase} (hc : c ∈ post.compiled.cases)
    {child into : Int} (hop : .append child into ∈ c.create) :
    (t.size ≤ child ∧ child < t'.size) ∧ -1 ≤ into ∧ into < child := by
  have hapart := h.apart hhigh (permitted_planned hplanned) post hpost
  have hwithin := RootItem.within_posts hpost
  obtain ⟨own, anchor, ⟨kind, main, current, cases⟩⟩ := post
  have hown : -1 ≤ own := by
    rcases hwithin.parent_eq with (heq : own = parent) | ⟨s, -, (heq : own = s)⟩ <;> omega
  obtain ⟨hle, hlt, s, hs, rfl⟩ := cases.appendsIn_compiled own (pairwise_cons.mp hapart.increasing).2
    (fun s hs => hapart.above s (mem_cons_of_mem _ hs)) c hc _ hop
  have hbounds := h.increasing.2.2 s (hwithin.sublist.subset (mem_cons_of_mem _ hs))
  grind

end Compiled

/-- **What fits a code.** The node that a case appends has one of the slots that the view has got for the message, and
the code says this slot and that of its parent if and only if it is one of the first 65536. -/
theorem packed_compile {t : TemplateView} (ht : t.Reachable) {cfg : Config} {site : Site} {message : String}
    {scope : Message.Scope} {handle : Handle} (hparent : site.parent = -1 ∨ t.contains site.parent = true)
    (hok : (t.compile cfg site message scope).result = .ok handle) :
    ∀ x ∈ t.registered (t.compile cfg site message scope).view, ∀ c ∈ x.2.cases, ∀ child parent : Int,
      .append child parent ∈ c.create → (t.size ≤ child ∧ child < (t.compile cfg site message scope).view.size) ∧
          (packedRef (packIcuCreate 0 parent child) = child ∧ packedParent (packIcuCreate 0 parent child) = parent ↔
            child < 65536) := by
  intro x hx c hc child parent hop
  rcases exists_compiles ht hok with hcompiles | ⟨-, hview, -⟩
  · obtain ⟨items, hcompiled, hplanned⟩ := exists_compiled ht.sound hcompiles.vacant hok
    obtain ⟨post, hpost, rfl⟩ := List.mem_map.mp ((hcompiled.mem_registered ht.indexed).mp hx)
    have hbounds : -1 ≤ site.parent ∧ site.parent < t.size := by
      rw [TemplateView.contains, Bool.and_eq_true, decide_eq_true_eq, decide_eq_true_eq] at hparent
      omega
    obtain ⟨hnew, hlow, hlt⟩ := hcompiled.bounds_append hbounds.1 hbounds.2 hplanned hpost hc hop
    exact ⟨hnew, packed_iff hlow hlt⟩
  · -- a slot with a message registers nothing again
    rw [hview] at hx
    obtain ⟨hmem, hnew⟩ := List.mem_filter.mp hx
    exact absurd hmem (of_decide_eq_true hnew)

def oneTextMessage : String := "\x7b\uFFFD0\uFFFD, select, other \x7bx\x7d\x7d"

theorem packed_compile_few :
    let o := (TemplateView.new 4 1).compile .standard ⟨25, 22⟩ oneTextMessage .root
    ((TemplateView.new 4 1).registered o.view).map (fun x => x.2.cases.map (·.create)) =
        [[[.text 29 "x", .append 29 25]]] ∧
      packedRef (packIcuCreate 0 25 29) = 29 ∧ packedParent (packIcuCreate 0 25 29) = 25 := by
  intro o
  have hcreate : ((TemplateView.new 4 1).registered o.view).map (fun x => x.2.cases.map (·.create)) =
      [[[.text 29 "x", .append 29 25]]] := by
    decide +kernel
  refine ⟨hcreate, ?_⟩
  obtain ⟨x, hx, hcases⟩ := List.mem_map.mp (hcreate ▸ List.mem_cons_self)
  obtain ⟨c, hc, hop⟩ := List.mem_map.mp (hcases ▸ List.mem_cons_self)
  cases hok : o.result with
  | error e =>
    have hfine : o.result.isOk = true := by decide +kernel
    rw [hok] at hfine
    cases hfine
  | ok handle =>
    refine (packed_compile (.new 4 1) (.inr (by decide)) hok x hx c hc 29 25 ?_).2.mpr (by decide)
    rw [hop]
    exact List.mem_cons_of_mem _ List.mem_cons_self

theorem planIcu_oneText (n : Nat) : (planIcu .standard (.mk .select 0 [.mk "other" [.text "x"]]) n).1 =
    .mk .select 0 n (.cons "other" (.text (n + 1) "x" .nil) .nil) := by
  have htexts : ∀ s, Segment.text s ∈ [Segment.text "x"] → ∀ c ∈ s.toList, Markup.isPlain c = true := by
    intro s hs
    cases mem_singleton.mp hs
    exact all_eq_true.mp (by decide)
  have hnodes : Config.standard.nodesOf (caseMarkup 0 [.text "x"]) = [.text "x"] := by
    unfold Config.nodesOf
    rw [readsPlain_standard [.text "x"] ⟨nofun, trivial⟩ htexts]
    rfl
  rw [planIcu, planCases, hnodes, planNodes, planNodes, planCases]

variable {t : TemplateView}

theorem ne_block_of_empty {i : Int} (h : t.slot? i = some .empty) (serial : Nat) (block : Block) :
    t.slot? i ≠ some (.block serial block) := fun hblock => by
  cases h.symm.trans hblock

theorem exists_handle_oneText (ht : t.Reachable) (hslot : t.slot? 22 = some .empty) :
    ∃ handle, (t.compile .standard ⟨-1, 22⟩ oneTextMessage .root).result = .ok handle := by
  have hcontains : t.contains 22 = true := by
    obtain ⟨k, hk, hget⟩ := TemplateView.slot?_eq_some.mp hslot
    obtain ⟨hlt, -⟩ := Array.getElem?_eq_some_iff.mp hget
    have hlt : 22 < t.slots.size := by omega
    exact decide_eq_true hlt
  have hpart : Message.partFor .root oneTextMessage.toList = .ok oneTextMessage.toList := by decide +kernel
  have hitems : (Message.splitPlaceholders (releaseSpaces oneTextMessage.toList)).items = [] := by decide +kernel
  have hreadable : Message.Readable (Message.splitPlaceholders (releaseSpaces oneTextMessage.toList)).last := by
    refine ⟨[.text "", .icu (.mk .select 0 [.mk "other" [.text "x"]]), .text ""], ?_⟩
    rfl
  refine TemplateView.exists_handle ht.sound (fun _ => ⟨_, rfl⟩) (by decide) hcontains (ne_block_of_empty hslot) hpart
    ⟨?_, ?_⟩ ⟨?_, hreadable⟩
  · rw [hitems]
    exact .nil
  · simp [hitems]
  · simp [hitems]

theorem exists_append_oneText (ht : t.Reachable) (hslot : t.slot? 22 = some .empty) :
    ∃ x ∈ t.registered (t.compile .standard ⟨-1, 22⟩ oneTextMessage .root).view, ∃ c ∈ x.2.cases, ∃ child : Int,
      .append child (-1) ∈ c.create ∧ t.size ≤ child := by
  obtain ⟨handle, hok⟩ := exists_handle_oneText ht hslot
  have hexpressions : Message.expressions .root oneTextMessage = [.mk .select 0 [.mk "other" [.text "x"]]] := by rfl
  obtain ⟨items, hcompiled, hplanned⟩ := exists_compiled ht.sound (ne_block_of_empty hslot) hok
  rw [hexpressions] at hplanned
  obtain ⟨⟨anchor, plan⟩, rest, ⟨n, hplan⟩, -, hfirst⟩ := forall₂_cons_left_iff.mp hplanned
  obtain ⟨item, hitem, hget⟩ := mem_filterMap.mp (hfirst ▸ mem_cons_self)
  have hplan : plan = .mk .select 0 n (.cons "other" (.text (n + 1) "x" .nil) .nil) := hplan.trans (planIcu_oneText n)
  cases item with
  | text slot value eager => cases hget
  | icu slot label inner eager =>
    cases hget
    have hpost : ⟨-1, anchor, plan⟩ ∈ items.flatMap (·.posts (-1)) := by
      refine mem_flatMap.mpr ⟨_, hitem, ?_⟩
      rw [hplan]
      exact mem_cons_self
    have hop : IcuCreateOp.append (n + 1 : Nat) (-1) ∈ (Plan.text (n + 1) "x" .nil).create (-1) :=
      mem_cons_of_mem _ mem_cons_self
    have hcase : ⟨"other", (Plan.text (n + 1) "x" .nil).create (-1), (Plan.text (n + 1) "x" .nil).remove,
        (Plan.text (n + 1) "x" .nil).update⟩ ∈ (Post.mk (-1) anchor plan).compiled.cases := by
      rw [hplan]
      exact mem_cons_self
    have hbounds := hcompiled.bounds_append (by decide) (by dsimp only; omega) hplanned hpost hcase hop
    refine ⟨(anchor, (Post.mk (-1) anchor plan).compiled), ?_, _, hcase, _, hop, hbounds.1.1⟩
    exact (hcompiled.mem_registered ht.indexed).mpr (mem_map.mpr ⟨_, hpost, rfl⟩)

/-- **A node that does not fit.** With 65536 declared slots, the text of a case is appended by a code that says another
slot. -/
theorem packed_compile_ne :
    let o := (TemplateView.new 65536 0).compile .standard ⟨-1, 22⟩ oneTextMessage .root
    (∃ handle, o.result = .ok handle) ∧
      ∃ x ∈ (TemplateView.new 65536 0).registered o.view, ∃ c ∈ x.2.cases, ∃ child parent,
        .append child parent ∈ c.create ∧ packedRef (packIcuCreate 0 parent child) ≠ child := by
  have hslot : (TemplateView.new 65536 0).slot? 22 = some .empty := by
    show (Array.replicate 65558 Slot.empty)[22]? = _
    rw [Array.getElem?_replicate, if_pos (by decide)]
  have hsize : (TemplateView.new 65536 0).size = 65558 := Array.size_replicate
  obtain ⟨x, hx, c, hc, child, hop, hle⟩ := exists_append_oneText (.new 65536 0) hslot
  refine ⟨exists_handle_oneText (.new 65536 0) hslot, x, hx, c, hc, child, -1, hop, fun heq => ?_⟩
  rw [packedRef_eq] at heq
  rw [hsize] at hle
  omega

end MessageCompiler
