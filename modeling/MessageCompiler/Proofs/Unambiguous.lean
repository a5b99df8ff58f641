/-
Flat streams can be read back.

The entries of a flat stream do not say which instruction they belong to, and markers are plain words in a stream
that is stored. Still no two streams have the same entries, because an instruction can be read off the front of a
stream whatever follows it.

* **`IcuCreateOp.read?_portable`**, **`RemoveOp.read?_encode`**, **`CreateOp.read?_encode`** — the readers.
* **`Flat.groups_encodePortableAll`** — the sizes in an update stream lead from group to group.
* **`UpdateOp.ofGroup?_body`** — a group says all of its instruction but the function of its sanitizer.
-/
import MessageCompiler.Proofs.Codes
import MessageCompiler.Proofs.Rounding

namespace MessageCompiler

open List
open Text (readInt? showInt)

/-- If `x` can be read off the front of a list that starts with `f x`, lists are the same for which `f` makes the
same list. -/
theorem eq_of_flatMap_eq {α β : Type} {P : α → Prop} {f : α → List β} {read? : List β → Option (α × List β)}
    (hnil : read? [] = none) (hread : ∀ x, P x → ∀ rest, read? (f x ++ rest) = some (x, rest)) {as bs : List α}
    (ha : ∀ x ∈ as, P x) (hb : ∀ x ∈ bs, P x) (h : as.flatMap f = bs.flatMap f) : as = bs := by
  have heq_nil : ∀ {xs : List α}, (∀ x ∈ xs, P x) → xs.flatMap f = [] → xs = [] := by
    intro xs hP hflat
    cases xs with
    | nil => rfl
    | cons x xs =>
      rw [flatMap_cons] at hflat
      have hx := hread x (hP x mem_cons_self) (xs.flatMap f)
      rw [hflat, hnil] at hx
      exact nomatch hx
  induction as generalizing bs with
  | nil => exact (heq_nil hb h.symm).symm
  | cons a as ih =>
    cases bs with
    | nil => exact heq_nil ha h
    | cons b bs =>
      rw [flatMap_cons, flatMap_cons] at h
      have hfirst := hread a (ha a mem_cons_self) (as.flatMap f)
      rw [h, hread b (hb b mem_cons_self)] at hfirst
      obtain ⟨hab, hrest⟩ := Prod.mk.inj (Option.some.inj hfirst)
      rw [hab, ih (fun x hx => ha x (mem_cons_of_mem a hx)) (fun x hx => hb x (mem_cons_of_mem b hx)) hrest.symm]

/-! ### Creating and removing -/

namespace IcuCreateOp

def Encodable : IcuCreateOp → Prop
  | .text index _ | .element index _ | .anchor index _ | .setAttribute index _ _ =>
    -4611686018427387904 ≤ index ∧ index < 4611686018427387904
  | .append child parent => (0 ≤ child ∧ child < 65536) ∧ -70368744177664 ≤ parent ∧ parent < 70368744177664
  | .unknown => False

/-- The instruction at the front of a stored stream. A code comes first for an attribute and for an appended node,
and the word of a marker is one only if a second text follows. -/
def read? : List Json → Option (IcuCreateOp × List Json)
  | .str value :: .num index :: rest => do
    let index ← readInt? index.toList
    return (.text index value, rest)
  | .str marker :: .str value :: .num index :: rest => do
    let index ← readInt? index.toList
    return (if marker = "element" then .element index value else .anchor index value, rest)
  | .num code :: rest => do
    let code ← readInt? code.toList
    if code % 2 = 0 then
      return (.append (packedRef code) (packedParent code), rest)
    match rest with
    | .str name :: .str value :: rest => return (.setAttribute (code / 2) name value, rest)
    | _ => none
  | _ => none

theorem read?_portable {op : IcuCreateOp} (h : op.Encodable) (rest : List Json) :
    read? (op.encode.map Flat.portable ++ rest) = some (op, rest) := by
  have hint : ∀ {i : Int}, -9223372036854775808 ≤ i → i ≤ 9223372036854775807 →
      readInt? (showInt i).toList = some i := by
    intro i hl hu
    exact Text.readInt?_showInt (by rw [Text.fitsWord, decide_eq_true hl, decide_eq_true hu]; rfl)
  cases op with
  | text index value =>
    obtain ⟨hl, hu⟩ := h
    show (readInt? (showInt index).toList).bind _ = _
    rw [hint (by omega) (by omega)]
    rfl
  | element index tag =>
    obtain ⟨hl, hu⟩ := h
    show (readInt? (showInt index).toList).bind _ = _
    rw [hint (by omega) (by omega)]
    rfl
  | anchor index label =>
    obtain ⟨hl, hu⟩ := h
    show (readInt? (showInt index).toList).bind _ = _
    rw [hint (by omega) (by omega)]
    rfl
  | setAttribute index name value =>
    obtain ⟨hl, hu⟩ := h
    have hcode := attributeCode_eq hl hu
    show (readInt? (showInt (bitOr (shiftLeft index 1) 1)).toList).bind _ = _
    rw [hcode, hint (by omega) (by omega), Option.bind_some, if_neg (by omega)]
    show some (setAttribute ((2 * index + 1) / 2) name value, rest) = _
    rw [show (2 * index + 1) / 2 = index by omega]
  | append child parent =>
    obtain ⟨⟨hl, hu⟩, hpl, hpu⟩ := h
    have hcode := packIcuCreate_eq hl hu hpl hpu
    show (readInt? (showInt (packIcuCreate 0 parent child)).toList).bind _ = _
    rw [hint (by omega) (by omega), Option.bind_some, if_pos (by omega),
      packedRef_packIcuCreate hl hu hpl hpu, packedParent_packIcuCreate hl hu hpl hpu]
    rfl
  | unknown => exact h.elim

end IcuCreateOp

namespace RemoveOp

/-- The instruction at the front of a stream. A complement says that the node after it anchors an ICU expression. -/
def read? : List Flat → Option (RemoveOp × List Flat)
  | .int i :: rest =>
    if 0 ≤ i then some (.node i, rest)
    else
      match rest with
      | .int index :: rest => some (.nestedIcu index, rest)
      | _ => none
  | _ => none

theorem read?_encode {op : RemoveOp} (h : 0 ≤ op.index) (rest : List Flat) :
    read? (op.encode ++ rest) = some (op, rest) := by
  cases op with
  | node index => exact if_pos h
  | nestedIcu index =>
    have hneg : ¬ 0 ≤ complement index := by
      have : 0 ≤ index := h
      unfold complement
      omega
    exact if_neg hneg

end RemoveOp

namespace CreateOp

def read? : List Flat → Option (CreateOp × List Flat)
  | .int code :: .text text :: rest =>
    some (⟨code / 4, text, decide (code / 2 % 2 = 1), decide (code % 2 = 1)⟩, rest)
  | _ => none

theorem read?_encode {op : CreateOp} (h : -2305843009213693952 ≤ op.index ∧ op.index < 2305843009213693952)
    (rest : List Flat) : read? (op.encode ++ rest) = some (op, rest) := by
  have hcode := code_eq h.1 h.2
  have hindex : op.code / 4 = op.index := by
    rw [hcode]
    split <;> split <;> omega
  have hcomment : decide (op.code / 2 % 2 = 1) = op.comment := by
    rw [hcode]
    cases op.comment <;> cases op.eager <;> simp <;> omega
  have heager : decide (op.code % 2 = 1) = op.eager := by
    rw [hcode]
    cases op.comment <;> cases op.eager <;> simp <;> omega
  show some (CreateOp.mk (op.code / 4) op.text (decide (op.code / 2 % 2 = 1)) (decide (op.code % 2 = 1)), rest) = _
  rw [hindex, hcomment, heager]

end CreateOp

/-- **Streams that create and remove.** Two streams with the same flat form are the same: the content of an ICU
case as it is stored, where the word of a marker may also be a text, a tag or a value; what is removed; and the
nodes of a message. -/
theorem create_and_remove_unambiguous :
    (∀ as bs : List IcuCreateOp, (∀ op ∈ as, op.Encodable) → (∀ op ∈ bs, op.Encodable) →
      (IcuCreateOp.encodeAll as).map Flat.portable = (IcuCreateOp.encodeAll bs).map Flat.portable → as = bs) ∧
    (∀ as bs : List RemoveOp, (∀ op ∈ as, 0 ≤ op.index) → (∀ op ∈ bs, 0 ≤ op.index) →
      RemoveOp.encodeAll as = RemoveOp.encodeAll bs → as = bs) ∧
    ∀ as bs : List CreateOp, (∀ op ∈ as, -2305843009213693952 ≤ op.index ∧ op.index < 2305843009213693952) →
      (∀ op ∈ bs, -2305843009213693952 ≤ op.index ∧ op.index < 2305843009213693952) →
      CreateOp.encodeAll as = CreateOp.encodeAll bs → as = bs := by
  refine ⟨fun as bs ha hb h => ?_, fun as bs ha hb h => ?_, fun as bs ha hb h => ?_⟩
  · unfold IcuCreateOp.encodeAll at h
    rw [List.map_flatMap, List.map_flatMap] at h
    exact eq_of_flatMap_eq rfl (fun op hop rest => IcuCreateOp.read?_portable hop rest) ha hb h
  · exact eq_of_flatMap_eq rfl (fun op hop rest => RemoveOp.read?_encode hop rest) ha hb h
  · exact eq_of_flatMap_eq rfl (fun op hop rest => CreateOp.read?_encode hop rest) ha hb h

/-- The text node `element` is told from an element, though the word of the marker is the same, and streams with the
same entries are the same. -/
theorem create_and_remove_unambiguous_marker :
    (IcuCreateOp.encodeAll [.text 25 "element", .append 25 (-1)]).map Flat.portable ≠
      (IcuCreateOp.encodeAll [.element 25 "element", .append 25 (-1)]).map Flat.portable ∧
    [RemoveOp.node 24, .nestedIcu 26] = [RemoveOp.nestedIcu 26, .node 24].reverse := by
  constructor
  · intro h
    have hsame := create_and_remove_unambiguous.1 [.text 25 "element", .append 25 (-1)]
      [.element 25 "element", .append 25 (-1)] (by simp [IcuCreateOp.Encodable]) (by simp [IcuCreateOp.Encodable]) h
    exact absurd hsame (by decide)
  · exact create_and_remove_unambiguous.2.1 _ _ (by simp [RemoveOp.index]) (by simp [RemoveOp.index]) (by decide)

/-! ### Groups of an update stream -/

/-- The groups of a flat update stream: a mask, the number of entries that follow, and these entries. -/
def Flat.groups : List Flat → Option (List (Int × List Flat))
  | [] => some []
  | .int mask :: .int size :: rest =>
    if rest.length < size.toNat then none
    else (groups (rest.drop size.toNat)).map ((mask, rest.take size.toNat) :: ·)
  | _ => none
termination_by flat => flat.length
decreasing_by
  rw [List.length_drop, List.length_cons, List.length_cons]
  omega

/-- What a flat list says with the names in place of the functions, in this order. -/
def Flat.nameFunctions : List String → List Flat → List Flat
  | name :: names, .function :: rest => .text name :: nameFunctions names rest
  | names, entry :: rest => entry :: nameFunctions names rest
  | _, [] => []

def Part.ofFlat? : Flat → Option Part
  | .text s => some (.literal s)
  | .int i => some (.binding (-1 - i))
  | _ => none

namespace Target

def byName : Target → Target
  | .attribute name _ sanitizerName => .attribute name none sanitizerName
  | target => target

def ofCode? (code : Int) : Option Target :=
  if code = 0 then some .text
  else if code = 2 then some .icuSwitch
  else if code = 3 then some .icuUpdate
  else none

def sanitizerName? : Target → Option String
  | .attribute _ _ sanitizerName => if sanitizerName.isEmpty then none else some sanitizerName
  | _ => none

def Named : Target → Prop
  | .attribute _ sanitizer sanitizerName => sanitizer.isSome = !sanitizerName.isEmpty
  | _ => True

end Target

namespace UpdateOp

/-- The target is one of the four, and every number fits its bits of the code. -/
structure Encodable (op : UpdateOp) : Prop where
  target_ne : ∀ code, op.target ≠ .unknown code
  index_nonneg : 0 ≤ op.index
  index_lt : op.index < 2305843009213693952
  bindings : ∀ i ∈ op.bindings, 0 ≤ i ∧ i ≤ 9223372036854775807

def byName (op : UpdateOp) : UpdateOp := { op with target := op.target.byName }

def body (op : UpdateOp) : List Flat := op.encodePortable.drop 2

/-- The instruction of a group, without the function of its sanitizer. What follows the parts is told from the end:
a number, or a name and a sanitizer after it. -/
def ofGroup? (mask : Int) (body : List Flat) : Option UpdateOp :=
  match body.reverse with
  | .int ref :: parts => do
    let parts ← parts.reverse.mapM Part.ofFlat?
    let target ← Target.ofCode? (ref % 4)
    return ⟨BitVec.ofInt 32 mask, parts, ref / 4, target⟩
  | .text sanitizerName :: .text name :: .int ref :: parts => do
    let parts ← parts.reverse.mapM Part.ofFlat?
    return ⟨BitVec.ofInt 32 mask, parts, ref / 4, .attribute name none sanitizerName⟩
  | .null :: .text name :: .int ref :: parts => do
    let parts ← parts.reverse.mapM Part.ofFlat?
    return ⟨BitVec.ofInt 32 mask, parts, ref / 4, .attribute name none ""⟩
  | _ => none

variable (op : UpdateOp)

theorem length_body : op.body.length = op.size := by
  unfold body encodePortable size front
  cases op.target <;> simp

theorem encodePortable_eq : op.encodePortable = .int op.mask.toInt :: .int op.body.length :: op.body := by
  rw [length_body]
  rfl

theorem mapM_ofFlat?_encode {parts : List Part}
    (h : ∀ i ∈ parts.filterMap Part.binding?, 0 ≤ i ∧ i ≤ 9223372036854775807) :
    (parts.map Part.encode).mapM Part.ofFlat? = some parts := by
  induction parts with
  | nil => rfl
  | cons part parts ih =>
    have hpart : Part.ofFlat? part.encode = some part := by
      cases part with
      | literal s => rfl
      | binding i =>
        obtain ⟨hl, hu⟩ := h i (by simp [Part.binding?])
        show some (Part.binding (-1 - wrap (-1 - i))) = _
        rw [wrap_of_range (by omega) (by omega), show -1 - (-1 - i) = i by omega]
    rw [map_cons, mapM_cons, hpart, ih]
    · rfl
    · intro i hi
      rw [filterMap_cons] at h
      split at h
      · exact h i hi
      · exact h i (mem_cons_of_mem _ hi)

theorem reverse_body : op.body.reverse = (op.encodePortable.drop op.front.length).reverse ++
      .int op.ref :: (op.parts.map Part.encode).reverse := by
  unfold encodePortable
  rw [drop_left]
  show ((op.parts.map Part.encode ++ [Flat.int op.ref]) ++ _).reverse = _
  rw [reverse_append, reverse_append]
  rfl

theorem ofGroup?_body {op : UpdateOp} (h : op.Encodable) : ofGroup? op.mask.toInt op.body = some op.byName := by
  have hparts := mapM_ofFlat?_encode h.bindings
  have href : ∀ code : Nat, code < 4 → op.target.code = code → op.ref / 4 = op.index ∧ op.ref % 4 = code := by
    intro code hlt hcode
    have := ref_eq (hcode ▸ hlt) h.index_nonneg h.index_lt
    omega
  unfold ofGroup?
  rw [reverse_body]
  unfold encodePortable byName
  rw [drop_left]
  cases htarget : op.target with
  | text =>
    obtain ⟨hindex, hcode⟩ := href 0 (by decide) (congrArg Target.code htarget)
    simp [hparts, hindex, hcode, Target.ofCode?, Target.byName]
  | «attribute» name sanitizer sanitizerName =>
    obtain ⟨hindex, -⟩ := href 1 (by decide) (congrArg Target.code htarget)
    by_cases hname : sanitizerName = ""
    · simp [hparts, hindex, Target.byName, hname]
    · simp [hparts, hindex, Target.byName, hname]
  | icuSwitch =>
    obtain ⟨hindex, hcode⟩ := href 2 (by decide) (congrArg Target.code htarget)
    simp [hparts, hindex, hcode, Target.ofCode?, Target.byName]
  | icuUpdate =>
    obtain ⟨hindex, hcode⟩ := href 3 (by decide) (congrArg Target.code htarget)
    simp [hparts, hindex, hcode, Target.ofCode?, Target.byName]
  | unknown code => exact absurd htarget (h.target_ne code)

end UpdateOp

theorem Flat.groups_encodePortableAll (ops : List UpdateOp) :
    groups (UpdateOp.encodePortableAll ops) = some (ops.map fun op => (op.mask.toInt, op.body)) := by
  induction ops with
  | nil => exact groups.eq_1
  | cons op ops ih =>
    unfold UpdateOp.encodePortableAll at ih ⊢
    simp_all [flatMap_cons, UpdateOp.encodePortable_eq, cons_append, groups, Int.toNat_natCast]

theorem Flat.nameFunctions_append {entries : List Flat} (h : .function ∉ entries) (names : List String)
    (rest : List Flat) : nameFunctions names (entries ++ rest) = entries ++ nameFunctions names rest := by
  induction entries with
  | nil => rfl
  | cons entry entries ih =>
    have hentries := ih fun hmem => h (mem_cons_of_mem entry hmem)
    cases entry with
    | function => exact absurd mem_cons_self h
    | _ => cases names <;> simp [nameFunctions, hentries]

theorem UpdateOp.function_not_mem_front (op : UpdateOp) : .function ∉ op.front := by
  intro hmem
  unfold front at hmem
  simp at hmem
  obtain ⟨part, -, hpart⟩ := hmem
  cases part <;> cases hpart

theorem Flat.nameFunctions_encode {op : UpdateOp} (h : op.target.Named) (names : List String) (rest : List Flat) :
    nameFunctions (op.target.sanitizerName?.toList ++ names) (op.encode ++ rest) =
      op.encodePortable ++ nameFunctions names rest := by
  unfold UpdateOp.encode UpdateOp.encodePortable
  rw [append_assoc, append_assoc, nameFunctions_append op.function_not_mem_front]
  cases htarget : op.target with
  | «attribute» name sanitizer sanitizerName =>
    rw [htarget] at h
    have hsome : sanitizer.isSome = !sanitizerName.isEmpty := h
    simp only [hsome, Target.sanitizerName?]
    cases sanitizerName.isEmpty <;> cases names <;> simp [nameFunctions]
  | _ => rfl

theorem Flat.nameFunctions_encodeAll {ops : List UpdateOp} (h : ∀ op ∈ ops, op.target.Named) :
    nameFunctions (ops.filterMap (·.target.sanitizerName?)) (UpdateOp.encodeAll ops) =
      UpdateOp.encodePortableAll ops := by
  induction ops with
  | nil => rfl
  | cons op ops ih =>
    have hops := ih fun op' hop => h op' (mem_cons_of_mem op hop)
    have hnames : (op :: ops).filterMap (·.target.sanitizerName?) =
        op.target.sanitizerName?.toList ++ ops.filterMap (·.target.sanitizerName?) := by
      rw [filterMap_cons]
      cases op.target.sanitizerName? <;> rfl
    unfold UpdateOp.encodeAll UpdateOp.encodePortableAll at hops ⊢
    rw [hnames, flatMap_cons, flatMap_cons, nameFunctions_encode (h op mem_cons_self), hops]

/-- **Update streams.** Two stored streams with the same entries say the same instructions, up to the functions that
the names of sanitizers stand for; from mask to mask, the size entries count what lies between; and a stream is
stored by writing names in place of functions. -/
theorem UpdateOp.encodePortableAll_unambiguous :
    (∀ as bs : List UpdateOp, (∀ op ∈ as, op.Encodable) → (∀ op ∈ bs, op.Encodable) →
      encodePortableAll as = encodePortableAll bs → as.map byName = bs.map byName) ∧
    (∀ ops : List UpdateOp, Flat.groups (encodePortableAll ops) = some (ops.map fun op => (op.mask.toInt, op.body))) ∧
    ∀ ops : List UpdateOp, (∀ op ∈ ops, op.target.Named) →
      encodePortableAll ops = Flat.nameFunctions (ops.filterMap (·.target.sanitizerName?)) (encodeAll ops) := by
  have hread : ∀ ops : List UpdateOp, (∀ op ∈ ops, op.Encodable) →
      (ops.map fun op => (op.mask.toInt, op.body)).map (fun group => ofGroup? group.1 group.2) =
        (ops.map byName).map some := by
    intro ops hops
    rw [List.map_map, List.map_map]
    exact List.map_congr_left fun op hop => ofGroup?_body (hops op hop)
  refine ⟨fun as bs ha hb h => ?_, Flat.groups_encodePortableAll,
    fun ops hops => (Flat.nameFunctions_encodeAll hops).symm⟩
  have hgroups := congrArg Flat.groups h
  rw [Flat.groups_encodePortableAll, Flat.groups_encodePortableAll, Option.some.injEq] at hgroups
  have hsome := hread as ha
  rw [hgroups, hread bs hb] at hsome
  exact (List.map_inj_right fun _ _ => Option.some.inj).mp hsome.symm

def UpdateOp.linkStream (sanitizer : Option Sanitizer) : List UpdateOp :=
  [⟨1, [.literal "a", .binding 0], 24, .attribute "href" sanitizer "url"⟩, ⟨2, [.binding 1], 25, .icuSwitch⟩]

/-- A stream with the function of a sanitizer, and the same stream with only its name. -/
theorem UpdateOp.encodePortableAll_unambiguous_link :
    (linkStream (some .url)).map byName = (linkStream none).map byName ∧
      encodePortableAll (linkStream (some .url)) = Flat.nameFunctions ["url"] (encodeAll (linkStream (some .url))) := by
  have hencodable : ∀ sanitizer, ∀ op ∈ linkStream sanitizer, op.Encodable := by
    intro sanitizer op hop
    simp only [linkStream, List.mem_cons, List.not_mem_nil, or_false] at hop
    rcases hop with rfl | rfl
    · exact ⟨nofun, by dsimp only; omega, by dsimp only; omega, by simp [bindings, Part.binding?]⟩
    · exact ⟨nofun, by decide, by decide, by simp [bindings, Part.binding?]⟩
  have hnamed : ∀ op ∈ linkStream (some .url), op.target.Named := by
    intro op hop
    simp only [linkStream, List.mem_cons, List.not_mem_nil, or_false] at hop
    rcases hop with rfl | rfl
    · exact (by decide : true = !("url".isEmpty))
    · trivial
  exact ⟨encodePortableAll_unambiguous.1 _ _ (hencodable (some .url)) (hencodable none) (by decide),
    encodePortableAll_unambiguous.2.2 (linkStream (some .url)) hnamed⟩

end MessageCompiler
