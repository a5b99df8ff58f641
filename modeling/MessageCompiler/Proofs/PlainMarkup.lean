/-
Reading plain markup.

Text without tags and references, and comments whose content has neither dashes nor brackets, are read as
they were written.

* **`Content.Plain`** — such a text or comment.
* **`Tree.Row`** — the children of a node are leaves with these contents.
* **`next_text`**, **`next_comment`** — the next token is the whole text, or the whole comment.
* **`parseFragment_plain`** — texts and comments, no two texts in a row, are read as one leaf each.
-/
import Mathlib.Data.List.Chain
import MessageCompiler.Markup.Fragment
import MessageCompiler.Proofs.Rooted

namespace MessageCompiler.Markup

open List

variable {c : Char} {s : List Char} {t : Tree} {root : Nat}

def isPlain (c : Char) : Bool := c != '<' && c != '&' && c != '\r' && c != '\x00'

theorem isPlain_iff : isPlain c = true ↔ c ≠ '<' ∧ c ≠ '&' ∧ c ≠ '\r' ∧ c ≠ '\x00' := by
  simp [isPlain, and_assoc]

namespace Content

def isText : Content → Bool
  | .text _ => true
  | _ => false

/-- The two are not both texts, which would become one if they stood next to each other. -/
def Apart (c d : Content) : Prop := c.isText = true → d.isText = false

def source : Content → List Char
  | .text s => s.toList
  | .comment s => '<' :: '!' :: '-' :: '-' :: (s.toList ++ ['-', '-', '>'])
  | .element _ _ _ => []

/-- A text that is not empty, or a comment, that is written without escapes. -/
def Plain : Content → Prop
  | .text s => s.toList ≠ [] ∧ ∀ c ∈ s.toList, isPlain c = true
  | .comment s => ∀ c ∈ s.toList, isPlain c = true ∧ c ≠ '-' ∧ c ≠ '>'
  | .element _ _ _ => False

def leaf : Content → Node
  | .text s => .text s
  | .comment s => .comment s
  | .element ns tag attrs => .element ns tag attrs []

theorem Plain.source_ne_nil {c : Content} (h : c.Plain) : c.source ≠ [] := by
  cases c with
  | text s => exact h.1
  | comment s => exact cons_ne_nil _ _
  | element => exact h.elim

end Content

/-! ### Characters -/

section Characters

variable {s : List Char}

theorem unifyNewlines_of_forall (h : ∀ c ∈ s, isPlain c = true) : unifyNewlines s = s := by
  induction s with
  | nil => rfl
  | cons c s ih =>
    obtain ⟨hc, hs⟩ := forall_mem_cons.mp h
    have hne : c ≠ '\r' := (isPlain_iff.mp hc).2.2.1
    unfold unifyNewlines
    split
    · next heq => cases heq
    · next heq =>
      cases heq
      exact absurd rfl hne
    · next heq =>
      cases heq
      exact absurd rfl hne
    · next heq =>
      cases heq
      rw [ih hs]

theorem toNat_ne_zero (h : isPlain c = true) : c.toNat ≠ 0 := by
  intro hzero
  exact (isPlain_iff.mp h).2.2.2 (Char.toNat_inj.mp hzero)

theorem replaceNul_of_forall (h : ∀ c ∈ s, isPlain c = true) : replaceNul s = s := by
  unfold replaceNul
  exact (map_congr_left fun c hc => if_neg (toNat_ne_zero (h c hc))).trans (map_id s)

theorem decodeFrom_of_forall (inValue : Bool) (h : ∀ c ∈ s, isPlain c = true) : decodeFrom inValue 0 s = s := by
  induction s with
  | nil => rfl
  | cons c s ih =>
    obtain ⟨hc, hs⟩ := forall_mem_cons.mp h
    have hne : (c == '&') = false := beq_false_of_ne (isPlain_iff.mp hc).2.1
    rw [decodeFrom, hne, if_neg Bool.false_ne_true, ih hs]

end Characters

/-! ### Tokens -/

def EndsText (s : List Char) : Prop := s = [] ∨ opensMarkup s = true

theorem opensMarkup_of_ne (h : c ≠ '<') (s : List Char) : opensMarkup (c :: s) = false := by
  unfold opensMarkup
  split
  · next heq =>
    cases heq
    exact absurd rfl h
  · rfl

theorem plainText_append {rest : List Char} (h : ∀ c ∈ s, isPlain c = true) (hrest : EndsText rest) :
    plainText (s ++ rest) = (s, rest) := by
  induction s with
  | nil =>
    rcases hrest with rfl | hopens
    · rfl
    · cases rest with
      | nil => rfl
      | cons d rest => rw [nil_append, plainText, if_pos hopens]
  | cons c s ih =>
    obtain ⟨hc, hs⟩ := forall_mem_cons.mp h
    rw [cons_append, plainText, opensMarkup_of_ne (isPlain_iff.mp hc).1, if_neg Bool.false_ne_true, ih hs]

theorem next_text {rest : List Char} (hne : s ≠ []) (h : ∀ c ∈ s, isPlain c = true) (hrest : EndsText rest)
    (cdata : Bool) : next cdata none (s ++ rest) = some ⟨.text s, none, rest⟩ := by
  cases s with
  | nil => exact absurd rfl hne
  | cons c s =>
    have hopens : opensMarkup (c :: (s ++ rest)) = false :=
      opensMarkup_of_ne (isPlain_iff.mp (h c mem_cons_self)).1 _
    have htext : plainText (c :: (s ++ rest)) = (c :: s, rest) := plainText_append h hrest
    show nextMarkup cdata (c :: (s ++ rest)) = _
    unfold nextMarkup
    rw [hopens, if_neg Bool.false_ne_true]
    dsimp only
    rw [htext, unifyNewlines_of_forall h]
    unfold decode
    rw [decodeFrom_of_forall false h]

theorem commentFrom_append (h : ∀ c ∈ s, c ≠ '-' ∧ c ≠ '>') (rest : List Char) :
    ∀ (read : List Char) (atStart : Bool),
      commentFrom read (.dashes 0 atStart) (s ++ '-' :: '-' :: '>' :: rest) = (read.reverse ++ s, rest) := by
  induction s with
  | nil =>
    intro read atStart
    simp [commentFrom]
  | cons c s ih =>
    simp_all [cons_append, commentFrom]

theorem next_comment (h : ∀ c ∈ s, isPlain c = true ∧ c ≠ '-' ∧ c ≠ '>') (rest : List Char) (cdata : Bool) :
    next cdata none ('<' :: '!' :: '-' :: '-' :: (s ++ '-' :: '-' :: '>' :: rest)) = some ⟨.comment s, none, rest⟩ := by
  have hplain : ∀ c ∈ s, isPlain c = true := fun c hc => (h c hc).1
  have hread : commentFrom [] (.dashes 0 true) (s ++ '-' :: '-' :: '>' :: rest) = (s, rest) :=
    commentFrom_append (fun c hc => (h c hc).2) rest [] true
  have hdecode : decode false (replaceNul (unifyNewlines s)) = s := by
    rw [unifyNewlines_of_forall hplain, replaceNul_of_forall hplain]
    exact decodeFrom_of_forall false hplain
  show some (⟨.comment (decode false (replaceNul (unifyNewlines
    (commentFrom [] (.dashes 0 true) (s ++ '-' :: '-' :: '>' :: rest)).1))), none,
    (commentFrom [] (.dashes 0 true) (s ++ '-' :: '-' :: '>' :: rest)).2⟩ : Reading) = _
  rw [hread, hdecode]

/-! ### Rows of leaves -/

namespace Tree

def Row (t : Tree) (root : Nat) (contents : List Content) : Prop :=
  (t.children root).map t.content? = contents.map some

theorem children_append_create (h : t.Linked) (hroot : root < t.size) (content : Content) :
    ((t.create content).append root t.size).children root = t.children root ++ [t.size] := by
  have hsize : (t.create content).size = t.size + 1 := size_create t content
  have hplaced := (h.create content).placed_append (p := root) (c := t.size) (by omega) (by omega)
  have hnone : t.parent? t.size = none := by
    unfold parent?
    rw [cells_size]
    rfl
  rw [hplaced.children_self, children_create, h.erase_of_none hnone]

theorem Row.append_create (h : t.Linked) (hroot : root < t.size)
    {contents : List Content} (hrow : t.Row root contents) (content : Content) :
    ((t.create content).append root t.size).Row root (contents ++ [content]) := by
  have hsize : (t.create content).size = t.size + 1 := size_create t content
  have hplaced := (h.create content).placed_append (p := root) (c := t.size) (by omega) (by omega)
  unfold Row at hrow ⊢
  rw [children_append_create h hroot, map_append, map_append, ← hrow]
  refine congr (congrArg _ (map_congr_left fun c hc => ?_)) ?_
  · have hlt := lt_of_parent? ((h.child root c).mp hc)
    rw [hplaced.content?_eq, content?_create_lt _ _ hlt]
  · rw [map_singleton, map_singleton, hplaced.content?_eq, content?_create_size]

theorem node_of_content? {id : Nat} {c : Content} (h : t.content? id = some c)
    (hc : ∀ ns tag attrs, c ≠ .element ns tag attrs) : t.node id = c.leaf := by
  obtain ⟨n, hn⟩ : ∃ n, t.size = n + 1 := by
    refine ⟨t.size - 1, ?_⟩
    by_cases hzero : t.size = 0
    · rw [content?_eq_none (by omega)] at h
      cases h
    · omega
  unfold node
  rw [hn, toNode, h]
  cases c with
  | text s => rfl
  | comment s => rfl
  | element ns tag attrs => exact absurd rfl (hc ns tag attrs)

theorem Row.map_node {contents : List Content} (h : t.Row root contents)
    (hleaf : ∀ c ∈ contents, ∀ ns tag attrs, c ≠ .element ns tag attrs) :
    (t.children root).map t.node = contents.map Content.leaf := by
  unfold Row at h
  generalize t.children root = ids at h ⊢
  induction contents generalizing ids with
  | nil => rw [map_eq_nil_iff.mp h, map_nil, map_nil]
  | cons c rest ih =>
    obtain ⟨hc, hrest⟩ := forall_mem_cons.mp hleaf
    obtain ⟨id, ids, rfl, hid, hids⟩ := map_eq_cons_iff.mp h
    rw [map_cons, map_cons, node_of_content? hid hc, ih hrest ids hids]

end Tree

/-! ### Building -/

/-- Nothing but the root is open, and all that was read is directly inside it. -/
structure Builder.Flat {cs : List String} (contents : List Content) (b : Builder cs) : Prop where
  root : b.tree.content? 0 = some (.element .html "html" [])
  row : b.tree.Row 0 contents
  stack : b.stack = [0]
  formatting : b.formatting = []
  templates : b.templates = []
  mode : b.mode = .body
  fostering : b.fostering = false
  plainNext : b.plainNext = false

namespace Builder

variable {cs : List String} {contents : List Content} {b : Builder cs}

theorem flat_new : Flat [] .new := ⟨rfl, rfl, rfl, rfl, rfl, rfl, rfl, rfl⟩

namespace Flat

section

variable (h : Flat contents b)
include h

theorem top_eq : b.top = 0 := by
  unfold top
  rw [h.stack]
  rfl

theorem topTag_eq : b.topTag = "html" := by
  unfold topTag tag
  rw [h.top_eq, h.root]

theorem ns_top : b.ns b.top = .html := by
  unfold ns
  rw [h.top_eq, h.root]

theorem misplaced_eq : b.misplaced = false := by
  unfold misplaced
  rw [h.fostering]
  rfl

theorem reopen_eq : b.reopen = b := by
  have hnone : b.sinceBorder = [] := by
    unfold sinceBorder
    rw [h.formatting]
    rfl
  unfold reopen
  rw [hnone]
  rfl

theorem add (content : Content) : Flat (contents ++ [content]) (b.add content) := by
  have hplain : ({ b with tree := b.tree.create content } : Builder _).misplaced = false := by
    unfold misplaced
    rw [h.fostering]
    rfl
  have hadd : b.add content = { b with tree := (b.tree.create content).append 0 b.tree.size } := by
    unfold Builder.add place
    rw [hplain, if_neg Bool.false_ne_true]
    show ({ b with tree := (b.tree.create content).append b.top b.tree.size } : Builder _) = _
    rw [h.top_eq]
  have hroot := b.tree.size_pos
  have hsize : (b.tree.toTree.create content).size = b.tree.size + 1 := Tree.size_create _ _
  have hplaced := (b.tree.linked.create content).placed_append (p := 0) (c := b.tree.size) (by omega) (by omega)
  have htree : ((b.tree.create content).append 0 b.tree.size).toTree =
      (b.tree.toTree.create content).append 0 b.tree.size :=
    congrArg Document.toTree (dif_pos ⟨⟨(b.tree.create content).size_pos, Nat.lt_of_lt_of_eq (Nat.lt_succ_self _) hsize.symm⟩,
      Nat.ne_of_gt hroot⟩)
  rw [hadd]
  refine ⟨?_, ?_, h.stack, h.formatting, h.templates, h.mode, h.fostering, h.plainNext⟩
  · show ((b.tree.create content).append 0 b.tree.size).toTree.content? 0 = _
    rw [htree, hplaced.content?_eq, Tree.content?_create_lt _ _ hroot, h.root]
  · show ((b.tree.create content).append 0 b.tree.size).toTree.Row 0 _
    rw [htree]
    exact h.row.append_create b.tree.linked hroot content

theorem addText_eq (hlast : ∀ c, contents.getLast? = some c → c.isText = false)
    (hne : s ≠ []) : b.addText s = b.add (.text (String.ofList s)) := by
  have hempty : s.isEmpty = false := isEmpty_eq_false_iff.mpr hne
  unfold addText
  rw [hempty, if_neg Bool.false_ne_true, h.misplaced_eq]
  refine (if_neg Bool.false_ne_true).trans ?_
  rw [h.top_eq]
  cases hid : (b.tree.children 0).getLast? with
  | none => rfl
  | some last =>
    have hcontent : (contents.map some).getLast? = some (b.tree.content? last) := by
      rw [← h.row, List.getLast?_map, hid]
      rfl
    rw [List.getLast?_map] at hcontent
    obtain ⟨c, hc, hsome⟩ := Option.map_eq_some_iff.mp hcontent
    have htext : b.textOf? last = none := by
      unfold textOf?
      rw [← hsome]
      have := hlast c hc
      cases c with
      | text s => cases this
      | comment s => rfl
      | element => rfl
    dsimp only
    rw [htext]

theorem process_eq {t : Token} {r : Builder (t.comments ++ cs)}
    (hbody : ∀ run, inBody run t b = .done r) : b.process t = r := by
  have hforeign : isForeign t b = false := by
    unfold isForeign
    rw [h.ns_top]
    rfl
  have hlook : ∀ run, look run t b = .done r := by
    intro run
    unfold look byMode
    rw [hforeign, if_neg Bool.false_ne_true, h.mode]
    exact hbody run
  unfold process
  rw [show ∀ n, n + 32 = (n + 31) + 1 from fun _ => rfl, Builder.run, hlook]

theorem process_text (hlast : ∀ c, contents.getLast? = some c → c.isText = false)
    (hne : s ≠ []) (hs : ∀ c ∈ s, isPlain c = true) :
    (b.process (.text s)).Flat (contents ++ [.text (String.ofList s)]) := by
  have hfilter : s.filter (·.toNat != 0) = s :=
    filter_eq_self.mpr fun c hc => bne_iff_ne.mpr (toNat_ne_zero (hs c hc))
  have hempty : s.isEmpty = false := isEmpty_eq_false_iff.mpr hne
  have htag : (("html" == "pre" || "html" == "listing") && (b.tree.children b.top).isEmpty) = false := by simp
  have htext : b.textInBody s = b.add (.text (String.ofList s)) := by
    unfold textInBody
    dsimp only
    rw [h.topTag_eq, htag, if_neg Bool.false_ne_true, hfilter, hempty, if_neg Bool.false_ne_true, h.reopen_eq,
      h.addText_eq hlast hne]
  rw [h.process_eq (t := .text s) (r := b.textInBody s) fun _ => rfl, htext]
  exact h.add _

theorem process_comment (s : List Char) : (b.process (.comment s)).Flat (contents ++ [.comment (String.ofList s)]) := by
  rw [h.process_eq (t := .comment s) (r := b.addComment s) fun _ => rfl]
  exact h.add _

theorem process_eof : b.process .eof = b := by
  refine h.process_eq (t := .eof) fun run => ?_
  show (if b.templates.isEmpty then b.done else _) = _
  rw [h.templates]
  rfl

end

end Flat

end Builder

theorem endsText_flatMap {pieces : List Content} (h : ∀ c ∈ pieces, c.Plain)
    (hhead : ∀ c, pieces.head? = some c → c.isText = false) : EndsText (pieces.flatMap Content.source) := by
  cases pieces with
  | nil => exact .inl rfl
  | cons c rest =>
    have hc := h c mem_cons_self
    have hkind := hhead c rfl
    cases c with
    | text s => cases hkind
    | comment s => exact .inr rfl
    | element => exact hc.elim

theorem flat_build : ∀ {pieces contents : List Content} {fuel : Nat} {cs : List String} {b : Builder cs},
    (∀ c ∈ pieces, c.Plain) → (contents ++ pieces).IsChain Content.Apart → pieces.length ≤ fuel → b.Flat contents →
        (build fuel none (pieces.flatMap Content.source) b).2.Flat (contents ++ pieces)
  | [], contents, fuel, cs, b, _, _, _, h => by
    have hflat : (b.process .eof).Flat (contents ++ []) := by
      rw [append_nil, h.process_eof]
      exact h
    cases fuel with
    | zero => exact hflat
    | succ fuel => exact hflat
  | c :: rest, contents, 0, cs, b, _, _, hfuel, _ => by
    rw [length_cons] at hfuel
    omega
  | c :: rest, contents, fuel + 1, cs, b, hplain, hchain, hfuel, h => by
    obtain ⟨hc, hrest⟩ := forall_mem_cons.mp hplain
    have hle : rest.length ≤ fuel := Nat.le_of_succ_le_succ hfuel
    have hsplit : contents ++ c :: rest = (contents ++ [c]) ++ rest := append_cons _ _ _
    have hbefore : b = { b with plainNext := false } := by
      cases b
      cases h.plainNext
      rfl
    have hstep : ∀ t, next (b.ns b.top != .html) none ((c :: rest).flatMap Content.source) =
        some ⟨t, none, rest.flatMap Content.source⟩ → (b.process t).Flat (contents ++ [c]) →
          (build (fuel + 1) none ((c :: rest).flatMap Content.source) b).2.Flat (contents ++ c :: rest) := by
      intro t hnext hadded
      rw [build, hnext]
      dsimp only
      rw [← hbefore, hadded.plainNext, if_neg Bool.false_ne_true, hsplit]
      exact flat_build hrest (hsplit ▸ hchain) hle hadded
    cases c with
    | element => exact hc.elim
    | comment s =>
      refine hstep (.comment s.toList) ?_ ?_
      · rw [flatMap_cons]
        show next _ none ('<' :: '!' :: '-' :: '-' :: ((s.toList ++ ['-', '-', '>']) ++ _)) = _
        rw [append_assoc]
        exact next_comment hc _ _
      · rw [← String.ofList_toList (s := s), String.toList_ofList]
        exact h.process_comment _
    | text s =>
      refine hstep (.text s.toList) ?_ ?_
      · rw [flatMap_cons]
        refine next_text hc.1 hc.2 (endsText_flatMap hrest fun d hd => ?_) _
        obtain ⟨tail, rfl⟩ : ∃ tail, rest = d :: tail := by
          cases rest with
          | nil => cases hd
          | cons e tail => exact ⟨tail, by cases hd; rfl⟩
        exact (isChain_cons_cons.mp (isChain_append.mp hchain).2.1).1 rfl
      · rw [← String.ofList_toList (s := s), String.toList_ofList]
        refine h.process_text (fun d hd => ?_) hc.1 hc.2
        rw [← Bool.not_eq_true]
        intro hd'
        cases (isChain_append.mp hchain).2.2 d hd (.text s) rfl hd'

theorem parseFragment_plain {pieces : List Content} (hplain : ∀ c ∈ pieces, c.Plain)
    (hchain : pieces.IsChain Content.Apart) :
    parseFragment (String.ofList (pieces.flatMap Content.source)) = pieces.map Content.leaf := by
  have hlength : ∀ {l : List Content}, (∀ c ∈ l, c.Plain) → l.length ≤ (l.flatMap Content.source).length := by
    intro l hl
    induction l with
    | nil => exact Nat.le_refl 0
    | cons c rest ih =>
      obtain ⟨hc, hrest⟩ := forall_mem_cons.mp hl
      have := length_pos_of_ne_nil hc.source_ne_nil
      have := ih hrest
      rw [flatMap_cons, length_append, length_cons]
      omega
  have hfuel : pieces.length ≤ (String.ofList (pieces.flatMap Content.source)).length + 1 := by
    rw [String.length_ofList]
    exact Nat.le_succ_of_le (hlength hplain)
  have hflat := flat_build hplain (show ([] ++ pieces).IsChain Content.Apart from hchain) hfuel Builder.flat_new
  have hrow : Tree.Row _ 0 pieces := hflat.row
  unfold parseFragment
  rw [String.toList_ofList]
  refine hrow.map_node fun c hc ns tag attrs heq => ?_
  subst heq
  exact hplain _ hc

end MessageCompiler.Markup
