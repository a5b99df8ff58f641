/-
Rendering a message shows what it means.

A message without placeholders has all its root items directly inside the host, one behind the other. When
values are bound, the texts inside the host are the meaning of its segments for these values, whatever was
bound before.
-/
import MessageCompiler.Proofs.Incremental
import MessageCompiler.Proofs.PlainPlan
import MessageCompiler.Proofs.Unmarked

namespace MessageCompiler

open List
open Markup (Content Tree isPlain innerText)
open Live LiveView

/-! ### Segments without elements -/

theorem isPlain_releaseSpaces {s : List Char} (h : ∀ c ∈ s, isPlain c = true) :
    ∀ c ∈ releaseSpaces s, isPlain c = true := by
  intro c hc
  obtain ⟨d, hd, rfl⟩ := mem_map.mp hc
  split
  · rfl
  · exact h d hd

section Segments

variable {cfg : Config} {site : Site} {t : TemplateView} {m : Nat}

theorem steadyAt_planSegments (hcfg : cfg.ReadsPlain) (hm : m ≤ 2 ^ 63) {eager : Bool} {parent : Int}
    (segments : List Segment) (n : Nat) (h : Segment.Every (0 ≤ ·) (PlainBody m) segments) :
    ∀ item ∈ (planSegments cfg site eager segments n).1, item.slots.Nodup → item.Registered t parent →
      ∀ s ∈ item.slots, t.type? s = some .icu → SteadyAt t s := by
  intro item hitem hnodup hregistered
  obtain ⟨_, he, ⟨slot, text, rfl, rfl⟩ | ⟨slot, label, e, n, rfl, rfl⟩⟩ := mem_planSegments hitem
  · intro s hs htype
    rw [mem_singleton.mp hs] at htype
    cases htype.symm.trans hregistered
  · obtain ⟨hanchor, hinner⟩ := steadyAt_planIcu hcfg hm e n parent slot (h.of_mem he) (nodup_cons.mp hnodup).2
      hregistered.2
    exact forall_mem_cons.mpr ⟨fun _ => hanchor, hinner⟩

theorem eager_planSegments (segments : List Segment) (n : Nat) :
    ∀ item ∈ (planSegments cfg site true segments n).1, item.create.eager = true := by
  intro item hitem
  obtain ⟨_, -, ⟨slot, text, -, rfl⟩ | ⟨slot, label, e, n, -, rfl⟩⟩ := mem_planSegments hitem
  · rfl
  · rfl

end Segments

/-! ### The view before any value is bound -/

/-- The children of the root are the nodes of the items, as they were created. -/
def LiveView.Lined (root : Nat) (items : List RootItem) (v : LiveView) : Prop :=
  List.Forall₂ (fun item id => v.slots[item.slot]? = some (.node id) ∧ v.tree.parent? id = some root ∧
    v.tree.content? id = some item.content) items (v.tree.children root)

/-- The view with a new node in a slot that is the last child of the root. -/
def LiveView.addLast (root slot : Nat) (content : Content) (v : LiveView) : LiveView :=
  (v.addNew slot content).withTree ((v.tree.create content).append root v.tree.size)

section Lined

variable {root n : Nat} {items done : List RootItem} {item : RootItem} {locale : Locale} {v : LiveView}

theorem LiveView.slots_addLast {slot : Nat} (hlt : slot < v.slots.size) (content : Content) (k : Nat) :
    (v.addLast root slot content).slots[k]? = if k = slot then some (.node v.tree.size) else v.slots[k]? :=
  slots_addNew hlt content k

theorem LiveView.Prepared.addLast (h : v.Prepared root items n locale) {slot : Nat} (hlt : slot < n)
    (hinner : ∀ item ∈ items, slot ∉ item.inner) (content : Content) :
    (v.addLast root slot content).Prepared root items n locale := by
  have hnew := h.addNew hlt hinner content
  have hid : (v.addNew slot content).slots[slot]? = some (.node v.tree.size) := by
    rw [slots_addNew (h.size_eq.symm ▸ hlt), if_pos rfl]
  exact hnew.placed (hnew.sound.linked.placed_append hnew.sound.root_lt (hnew.sound.slot_lt _ _ hid))
    (hnew.sound.slot_ne _ _ hid)

theorem LiveView.Lined.addLast (h : v.Lined root done) (hs : v.Sound root) (hlt : item.slot < v.slots.size)
    (hempty : v.slots[item.slot]? = some .empty) :
    (v.addLast root item.slot item.content).Lined root (done ++ [item]) := by
  have hsize : (v.tree.create item.content).size = v.tree.size + 1 := Tree.size_create _ _
  have hroot := hs.root_lt
  have hplaced := (hs.linked.create item.content).placed_append (p := root) (c := v.tree.size) (by omega) (by omega)
  have hchildren : (v.addLast root item.slot item.content).tree.children root =
      v.tree.children root ++ [v.tree.size] := Tree.children_append_create hs.linked hroot item.content
  unfold LiveView.Lined
  rw [hchildren]
  refine rel_append (h.imp ?_) (.cons ⟨?_, ?_, ?_⟩ .nil)
  · rintro other id ⟨hslot, hparent, hcontent⟩
    have hid : id < v.tree.size := hs.slot_lt _ id hslot
    have hne : other.slot ≠ item.slot := by
      intro heq
      rw [heq, hempty] at hslot
      cases hslot
    refine ⟨?_, ?_, ?_⟩
    · rw [slots_addLast hlt, if_neg hne, hslot]
    · exact (hplaced.parent?_eq id).trans ((if_neg (Nat.ne_of_lt hid)).trans
        ((v.tree.parent?_create item.content id).trans hparent))
    · exact (hplaced.content?_eq id).trans ((Tree.content?_create_lt _ _ hid).trans hcontent)
  · rw [slots_addLast hlt, if_pos rfl]
  · exact (hplaced.parent?_eq _).trans (if_pos rfl)
  · exact (hplaced.content?_eq _).trans (Tree.content?_create_size _ _)

theorem yields_createItem_eager (hhost : v.host = some root) (heager : item.create.eager = true)
    (hlt : item.slot < v.slots.size) (hempty : v.slots[item.slot]? = some .empty) :
    Yields (applyCreateOp item.create) v fun _ v' => v' = v.addLast root item.slot item.content := by
  rw [applyCreateOp_eq]
  refine (yields_nodeFor (Q := fun id v' => id = v.tree.size ∧ v' = v.addNew item.slot item.content) hlt ?_ ?_).bind ?_
  · intro id hid
    cases hempty.symm.trans (slot_of_node? hid)
  · exact fun _ => ⟨rfl, rfl⟩
  · rintro _ _ ⟨rfl, rfl⟩
    have hhost' : (v.addNew item.slot item.content).host = some root := hhost
    refine yields_appendEager hhost' ?_
    rw [if_pos heager]
    rfl

theorem yields_applyCreate_lined (hnodup : (items.flatMap RootItem.slots).Nodup)
    (hlt : ∀ item ∈ items, item.slot < n) (heager : ∀ item ∈ items, item.create.eager = true) :
    ∀ (todo done : List RootItem) (v : LiveView), items = done ++ todo → v.Prepared root items n locale →
      v.Lined root done → (∀ item ∈ todo, v.slots[item.slot]? = some .empty) →
        Yields (applyCreate (todo.map RootItem.create)) v fun _ v' =>
          v'.Prepared root items n locale ∧ v'.Lined root items
  | [], done, v, hitems, h, hlined, _ => by
    rw [append_nil] at hitems
    exact yields_pure ⟨h, hitems ▸ hlined⟩
  | item :: todo, done, v, hitems, h, hlined, hempty => by
    have hitem : item ∈ items := hitems ▸ mem_append_right _ mem_cons_self
    have hlt' : item.slot < v.slots.size := h.size_eq.symm ▸ hlt item hitem
    obtain ⟨hfirst, hrest⟩ := forall_mem_cons.mp hempty
    refine yields_forM_cons (yields_createItem_eager h.host (heager item hitem) hlt' hfirst) ?_
    rintro _ rfl
    refine yields_applyCreate_lined hnodup hlt heager todo (done ++ [item]) _ ?_
      (h.addLast (hlt item hitem) (slot_notMem_inner hnodup hitem) _) (hlined.addLast h.sound hlt' hfirst) ?_
    · rw [hitems, append_assoc]
      rfl
    · intro other hother
      have hne : other.slot ≠ item.slot := by
        have hslots := (map_slot_sublist items).nodup hnodup
        rw [hitems, map_append, map_cons] at hslots
        have hnotin := (nodup_cons.mp (nodup_append.mp hslots).2.1).1
        intro heq
        exact hnotin (heq ▸ mem_map_of_mem hother)
      rw [slots_addLast hlt', if_neg hne, hrest other hother]

theorem yields_prepare_lined {t : TemplateView} {block : Block} {parent : Int}
    (h : Installed t block parent items) (heager : ∀ item ∈ items, item.create.eager = true) (host : String) :
    Yields (LiveBlock.prepare t block []) (.new t (some host) locale) fun b v =>
      b = ⟨block, .ofShown none⟩ ∧ v.Prepared 0 items t.size locale ∧ v.Lined 0 items := by
  have hlt : ∀ item ∈ items, item.slot < t.size := fun item hitem => h.lt item hitem _ mem_cons_self
  have hnew : (LiveView.new t (some host) locale).Prepared 0 items t.size locale :=
    prepared_new t host locale fun item hitem s hs => h.lt item hitem s (mem_cons_of_mem _ hs)
  have hempty : ∀ item ∈ items, (LiveView.new t (some host) locale).slots[item.slot]? = some .empty := by
    intro item hitem
    exact Array.getElem?_replicate.trans (if_pos (hlt item hitem))
  have hcreate := yields_applyCreate_lined h.nodup hlt heager items [] _ rfl hnew .nil hempty
  exact (yields_start h.create_eq hcreate).bind fun b v hv => yields_pure hv

end Lined

/-! ### The view that shows values -/

section Shown

variable {cfg : Config} {site : Site} {root m : Nat} {items : List RootItem} {base v : LiveView}
  {front : Nat → List Nat} {values : List String}

theorem LiveView.Supports.content_anchor (h : base.Supports root items front v) (hb : base.Sound root)
    (hnodup : (items.map RootItem.slot).Nodup) {slot id : Nat} {label : String} {plan : IcuPlan} {eager : Bool}
    (hitem : .icu slot label plan eager ∈ items) (hid : base.Seat root slot id) :
    v.tree.content? id = base.tree.content? id := by
  refine h.content id hid.2 fun slot' value eager' htext hseat => ?_
  have hslot : slot' = slot := hb.slot_inj slot' slot id hseat.1 hid.1
  have hsame : RootItem.text slot' value eager' = .icu slot label plan eager :=
    inj_on_of_nodup_map hnodup htext hitem hslot
  cases hsame

theorem innerText_planSegments (hcfg : cfg.ReadsPlain) (hm : m ≤ 2 ^ 63) (hvalues : values.length ≤ 2147483647)
    (hb : base.Sound root) (hnodup : (items.map RootItem.slot).Nodup) (h : base.Supports root items front v)
    (hstands : ∀ item ∈ items, item.Stands root base front (some values) v) :
    ∀ (segments : List Segment) (n : Nat) (ids : List Nat), Segment.Every (0 ≤ ·) (PlainBody m) segments →
      (planSegments cfg site true segments n).1 ⊆ items →
      List.Forall₂ (fun item id => base.slots[item.slot]? = some (.node id) ∧ base.tree.parent? id = some root ∧
        base.tree.content? id = some item.content) (planSegments cfg site true segments n).1 ids →
        innerText ((ids.flatMap fun id => front id ++ [id]).map v.tree.node) = Segment.denote v.locale values segments
  | [], _, ids, _, _, hids => by
    cases hids
    rw [flatMap_nil, map_nil, innerText, Segment.denote]
  | .text text :: rest, n, ids, he, hsub, hids => by
    rw [planSegments] at hsub hids
    rw [Segment.denote]
    split at hids
    · next hempty =>
      rw [if_pos hempty] at hsub
      rw [innerText_planSegments hcfg hm hvalues hb hnodup h hstands rest n ids he hsub hids,
        String.isEmpty_iff.mp hempty]
      exact String.empty_append.symm
    · next hempty =>
      rw [if_neg hempty] at hsub
      obtain ⟨hitem, hsub⟩ := cons_subset.mp hsub
      obtain ⟨id, ids, ⟨hslot, hparent, hcontent⟩, hrest, rfl⟩ := forall₂_cons_left_iff.mp hids
      obtain ⟨hfront, hshown⟩ := hstands _ hitem id ⟨hslot, .child .root hparent⟩
      rw [hcontent] at hshown
      have hnode : v.tree.content? id = some (.text (denoteText values text)) :=
        hshown.trans (congrArg some (textContent_eq hvalues n text))
      rw [flatMap_cons, hfront, nil_append, singleton_append, map_cons,
        Tree.node_of_content? hnode (by rintro _ _ _ ⟨⟩), Content.leaf, innerText,
        innerText_planSegments hcfg hm hvalues hb hnodup h hstands rest (n + 1) ids he hsub hrest]
  | .icu e :: rest, n, ids, he, hsub, hids => by
    rw [planSegments] at hsub hids
    obtain ⟨hitem, hsub⟩ := cons_subset.mp hsub
    obtain ⟨id, ids, ⟨hslot, hparent, hcontent⟩, hrest, rfl⟩ := forall₂_cons_left_iff.mp hids
    have hseat : base.Seat root n id := ⟨hslot, .child .root hparent⟩
    have hshows := (hstands _ hitem).2 id hseat root hparent
    have hnode : v.tree.content? id = some (.comment (rootLabel site e.main)) :=
      (h.content_anchor hb hnodup hitem hseat).trans hcontent
    rw [Segment.denote, flatMap_cons, map_append, map_append, map_cons, map_nil,
      Tree.node_of_content? hnode (by rintro _ _ _ ⟨⟩), Content.leaf, append_assoc,
      Markup.innerText_append, innerText_planIcu hcfg hm hvalues e (n + 1) root (front id) he.1 hshows,
      singleton_append, innerText,
      innerText_planSegments hcfg hm hvalues hb hnodup h hstands rest _ ids he.2 hsub hrest]

theorem innerText_hostNodes (hcfg : cfg.ReadsPlain) (hm : m ≤ 2 ^ 63) (hvalues : values.length ≤ 2147483647)
    {segments : List Segment} {n size : Nat} {locale : Locale}
    (he : Segment.Every (0 ≤ ·) (PlainBody m) segments) (hitems : items = (planSegments cfg site true segments n).1)
    (hnodup : (items.flatMap RootItem.slots).Nodup) (hbase : base.Prepared root items size locale)
    (hlined : base.Lined root items) (h : Standing root items base (some values) v) :
    innerText (Command.hostNodes v) = Segment.denote locale values segments := by
  obtain ⟨front, hsupports, hstands⟩ := h
  have hslots := (map_slot_sublist items).nodup hnodup
  unfold Command.hostNodes
  rw [hsupports.host, hbase.host]
  dsimp only
  rw [hsupports.children root .root, ← hbase.locale_eq, ← hsupports.locale]
  exact innerText_planSegments hcfg hm hvalues hbase.sound hslots hsupports hstands segments n _ he
    (hitems ▸ List.Subset.refl _) (hitems ▸ hlined)

end Shown

open TemplateView in
/-- A message without placeholders that was accepted shows, after any sequence of updates, what it means for the
values bound last. Its texts have no character that markup gives a meaning to, and plural selection has an answer
for the values after each update; other messages may have been compiled into the view since. -/
theorem innerText_rendered {t t' : TemplateView} (ht : t.Reachable) {cfg : Config} (hcfg : cfg.ReadsPlain)
    (site : Site) (message : String) {handle : Handle}
    (hnew : ∀ serial block, t.slot? site.index ≠ some (.block serial block))
    (hparent : site.parent = -1 ∨ t.contains site.parent = true)
    (hmessage : Message.occurs Message.Placeholder.read? message.toList = false)
    (hplain : ∀ c ∈ message.toList, c ≠ '<' ∧ c ≠ '&' ∧ c ≠ '\r' ∧ c ≠ '\x00')
    (hlength : message.length ≤ 2 ^ 63)
    (hok : (t.compile cfg site message .root).result = .ok handle)
    (hlater : (t.compile cfg site message .root).view.Later (t.Added (t.compile cfg site message .root).view) t')
    (host : String) (locale : Locale) (updates : List (List String)) (hne : updates ≠ [])
    (hdecided : ∀ history, history <+: updates → history ≠ [] →
      handle.block.Decided t' locale (history.foldl rebound []))
    (hvalues : (updates.foldl rebound []).length ≤ 2147483647) :
    ∃ segments nodes, (Message.split (releaseSpaces message.toList)).result = .ok segments ∧
      rendered t' handle.block host locale [] updates = .ok nodes ∧
      Markup.innerText nodes = Segment.denote locale (updates.foldl rebound []) segments := by
  obtain ⟨segments, hsplit, hcompiled⟩ := compiled_planSegments ht.sound hnew hmessage hok
  have hchars := isPlain_releaseSpaces fun c hc => Markup.isPlain_iff.mpr (hplain c hc)
  have he := (Message.every_split hchars hsplit).2
  have hm : (releaseSpaces message.toList).length ≤ 2 ^ 63 := by
    unfold releaseSpaces
    rw [List.length_map, String.length_toList]
    exact hlength
  have hs₁ := ht.sound.compile cfg site message .root
  have hstart := (retains_compile ht.sound cfg site message .root (fun _ (h : False) => h.elim) fun _ h => h.elim).2.2
  obtain ⟨hinstalled, hsize⟩ := hcompiled.installed_of_registered ht.sound hs₁ hstart hlater hparent
    fun item hitem hregistered s hs _ => steadyAt_planSegments hcfg hm segments _ he item hitem
      ((List.nodup_flatMap.mp hcompiled.increasing.nodup).1 item hitem) hregistered s hs
  obtain ⟨base, ⟨hbase, hlined⟩, hrender⟩ := exists_rendered hinstalled hsize
    (yields_prepare_lined hinstalled (eager_planSegments segments _) host) fun _ h => h.1
  obtain ⟨v, hv, hrendered⟩ := hrender updates hne hdecided
  exact ⟨segments, _, hsplit, hrendered, innerText_hostNodes hcfg hm hvalues he rfl hinstalled.nodup hbase hlined hv⟩

/-- A plural expression inside a case, a kept space, and a marker for which there is no value. -/
def nestedMessage : String :=
  "\uFFFD0\uFFFD\x7b\uFFFD1\uFFFD,select,a\x7bx\x7b\uFFFD2\uFFFD,plural,one\x7b\uFFFD3\uFFFD\x7d" ++
    "other\x7b\uFFFD2\uFFFD\uE500y\uFFFD9\uFFFD\x7d\x7d\x7dother\x7bn\x7d\x7d!"

/-- The outer case is left and entered again, and the inner one changes. -/
theorem innerText_rendered_nested :
    let o := (TemplateView.new 4 1).compile .standard ⟨-1, 22⟩ nestedMessage .root
    let updates := [["k", "a", "1", "z"], ["k", "b"], ["m", "a", "2"]]
    ∃ handle nodes, o.result = .ok handle ∧ rendered o.view handle.block "div" ⟨"pt", "PT"⟩ [] updates = .ok nodes ∧
      Markup.innerText nodes = "mx2 y!" := by
  intro o updates
  obtain ⟨handle, hok, hcheck⟩ := exists_ok_of_check (r := o.result)
    (fun handle : Handle => decide (∀ history ∈ updates.inits, history ≠ [] →
      handle.block.Decided o.view ⟨"pt", "PT"⟩ (history.foldl rebound [])))
    (by decide +kernel)
  have hmeaning : (Message.split (releaseSpaces nestedMessage.toList)).result.map
      (Segment.denote ⟨"pt", "PT"⟩ (updates.foldl rebound [])) = .ok "mx2 y!" := by decide +kernel
  have hplain : ∀ c ∈ nestedMessage.toList, decide (c ≠ '<' ∧ c ≠ '&' ∧ c ≠ '\r' ∧ c ≠ '\x00') = true :=
    List.all_eq_true.mp (by decide +kernel)
  obtain ⟨segments, nodes, hsplit, hrendered, htext⟩ := innerText_rendered (.new 4 1) readsPlain_standard
    ⟨-1, 22⟩ nestedMessage (fun _ _ h => by cases h) (.inl rfl) (by decide +kernel)
    (fun c hc => of_decide_eq_true (hplain c hc)) (by decide +kernel) hok .refl "div" ⟨"pt", "PT"⟩ updates
    (List.cons_ne_nil _ _) (fun history h => of_decide_eq_true hcheck history ((List.mem_inits _ _).mpr h)) (by decide)
  rw [hsplit] at hmeaning
  exact ⟨handle, nodes, hok, hrendered, htext.trans (Except.ok.inj hmeaning)⟩

end MessageCompiler
