/-
Artifacts are read back.

An artifact is stored as JSON, and its streams have no types: their numbers come back through floating point
numbers. If all of them are small enough to survive that, the artifact that is read is printed as the one that was
stored.
-/
import MessageCompiler.Proofs.JsonText

namespace MessageCompiler

open List
open Text (showInt readInt? fitsWord lower)

def Small (i : Int) : Prop := i.natAbs ≤ 2 ^ 53

instance (i : Int) : Decidable (Small i) := inferInstanceAs (Decidable (_ ≤ _))

/-! ### Entries of a stream -/

namespace Flat

def int? : Flat → Option Int
  | .int i => some i
  | _ => none

def numbers (flat : List Flat) : List Int := flat.filterMap int?

theorem integral_portable (f : Flat) : f.portable.Integral := by
  cases f with
  | int i =>
    rw [portable, Json.int, Json.Integral]
    exact ⟨i, rfl⟩
  | _ => simp [portable, Json.Integral]

variable {f : Flat}

theorem rounded_portable (h : ∀ i, f.int? = some i → Small i) : Artifact.rounded f.portable = f.portable := by
  cases f with
  | int i =>
    rw [portable, Json.int, Artifact.rounded]
    exact congrArg Json.num (Artifact.roundedNumber_showInt (h i rfl))
  | _ => simp [portable, Artifact.rounded]

theorem rounded_portable_of_mem {flat : List Flat} (h : ∀ i ∈ numbers flat, Small i) (hf : f ∈ flat) :
    Artifact.rounded f.portable = f.portable :=
  rounded_portable fun i hi => h i (mem_filterMap.mpr ⟨f, hf, hi⟩)

end Flat

namespace Json

theorem integralItems_iff (items : List Json) : IntegralItems items ↔ ∀ j ∈ items, j.Integral := by
  induction items with
  | nil => simp [IntegralItems]
  | cons j items ih => simp [IntegralItems, ih]

theorem integralMembers_iff (members : List (String × Json)) :
    IntegralMembers members ↔ ∀ m ∈ members, m.2.Integral := by
  induction members with
  | nil => simp [IntegralMembers]
  | cons m members ih =>
    simp_all [IntegralMembers]

theorem integral_stream (flat : List Flat) : (Json.arr (flat.map Flat.portable)).Integral := by
  rw [Integral, integralItems_iff]
  intro j hj
  obtain ⟨f, -, rfl⟩ := mem_map.mp hj
  exact f.integral_portable

end Json

/-! ### Reading the fields of an artifact -/

namespace Artifact

theorem roundedItems_eq (items : List Json) : roundedItems items = items.map rounded := by
  induction items with
  | nil => rfl
  | cons j items ih => rw [roundedItems, ih, map_cons]

theorem roundedItems_stream {flat : List Flat} (h : ∀ i ∈ Flat.numbers flat, Small i) :
    roundedItems (flat.map Flat.portable) = flat.map Flat.portable := by
  rw [roundedItems_eq, map_map]
  exact map_congr_left fun f hf => Flat.rounded_portable_of_mem h hf

variable {name : String}

theorem field_of_mem {j : Json} {members : List (String × Json)} (hmem : (name, j) ∈ members)
    (hnodup : (members.map fun p => lower p.1).Nodup) : field name members = j := by
  unfold field
  obtain ⟨before, after, rfl⟩ := append_of_mem hmem
  -- Of equal names the last one counts.
  have hafter : ∀ p ∈ after.reverse, ¬(lower p.1 == lower name) = true := by
    intro p hp heq
    rw [map_append, map_cons] at hnodup
    have hnotin := (nodup_cons.mp (nodup_append.mp hnodup).2.1).1
    exact hnotin (beq_iff_eq.mp heq ▸ mem_map_of_mem (mem_reverse.mp hp))
  have hfind : (before ++ (name, j) :: after).reverse.find? (fun p => lower p.1 == lower name) = some (name, j) := by
    rw [reverse_append, reverse_cons, append_assoc, List.find?_append, List.find?_eq_none.mpr hafter,
      Option.none_or, singleton_append]
    exact List.find?_cons_of_pos (beq_self_eq_true (lower name))
  rw [hfind]
  rfl

theorem field_eq_null {members : List (String × Json)} (h : lower name ∉ members.map fun p => lower p.1) :
    field name members = .null := by
  unfold field
  rw [List.find?_eq_none.mpr]
  · rfl
  · intro p hp heq
    exact h (beq_iff_eq.mp heq ▸ mem_map_of_mem (mem_reverse.mp hp))

theorem mapM_map {α β : Type} {f : β → Except DecodeError α} {write : α → β} :
    ∀ {l : List α}, (∀ x ∈ l, f (write x) = .ok x) → (l.map write).mapM f = .ok l
  | [], _ => rfl
  | x :: l, h => by
    rw [map_cons, mapM_cons, h x mem_cons_self, mapM_map fun y hy => h y (mem_cons_of_mem x hy)]
    rfl

end Artifact

theorem Small.fitsWord {i : Int} (h : Small i) : fitsWord i = true := by
  unfold Small at h
  simp only [Text.fitsWord, Bool.and_eq_true, decide_eq_true_eq]
  omega

/-! ### Expressions -/

def CompiledCase.numbers (c : CompiledCase) : List Int :=
  Flat.numbers (IcuCreateOp.encodeAll c.create) ++ Flat.numbers (RemoveOp.encodeAll c.remove) ++
    Flat.numbers (UpdateOp.encodePortableAll c.update)

def CompiledIcu.numbers (icu : CompiledIcu) : List Int :=
  icu.anchor :: icu.current :: icu.cases.flatMap CompiledCase.numbers

namespace IcuArtifact

variable {icu : CompiledIcu}

theorem integral_caseList {f : CompiledCase → Json} (h : ∀ c, (f c).Integral) : (caseList icu f).Integral := by
  unfold caseList
  split
  · simp [Json.Integral]
  · rw [Json.Integral, Json.integralItems_iff]
    intro j hj
    obtain ⟨c, -, rfl⟩ := mem_map.mp hj
    exact h c

def members (a : IcuArtifact) : List (String × Json) :=
  [("type", .str a.kind), ("anchorIdx", .int a.anchor), ("currentCaseLViewIndex", .int a.current), ("cases", a.cases),
    ("create", a.create), ("remove", a.remove), ("update", a.update)]

theorem toJson_eq (a : IcuArtifact) : a.toJson = .obj a.members := rfl

theorem field_members {a : IcuArtifact} {name : String} {j : Json} (h : (name, j) ∈ a.members) :
    Artifact.field name a.members = j := by
  refine Artifact.field_of_mem h ?_
  show [lower "type", lower "anchorIdx", lower "currentCaseLViewIndex", lower "cases",
    lower "create", lower "remove", lower "update"].Nodup
  decide +kernel

theorem integral_toJson (icu : CompiledIcu) : (ofIcu icu).toJson.Integral := by
  have hint : ∀ i, (Json.int i).Integral := fun i => (Flat.int i).integral_portable
  have hstr : ∀ s, (Json.str s).Integral := fun s => (Flat.text s).integral_portable
  rw [toJson_eq, Json.Integral, Json.integralMembers_iff]
  intro m hm
  simp only [members, ofIcu, mem_cons, not_mem_nil, or_false] at hm
  rcases hm with rfl | rfl | rfl | rfl | rfl | rfl | rfl
  · exact hstr _
  · exact hint _
  · exact hint _
  · exact integral_caseList fun c => hstr c.label
  · exact integral_caseList fun c => Json.integral_stream _
  · exact integral_caseList fun c => Json.integral_stream _
  · exact integral_caseList fun c => Json.integral_stream _

end IcuArtifact

namespace Artifact

variable {item : Json → Except DecodeError Json} {name : String}

theorem listField_arr {members : List (String × Json)} {items : List Json}
    (hfield : field name members = .arr items) (hitem : ∀ j ∈ items, item j = .ok j) :
    listField name item members = .ok (.arr items) := by
  have hall : (items.map fun j => j).mapM item = .ok items := mapM_map hitem
  rw [map_id'] at hall
  unfold listField
  rw [hfield]
  show (items.mapM item >>= _) = _
  rw [hall]
  rfl

theorem intField_int {members : List (String × Json)} {i : Int} (hfield : field name members = .int i)
    (hi : Small i) : intField name members = .ok i := by
  have hnum : field name members = .num (showInt i) := hfield
  unfold intField
  generalize field name members = j at hnum
  subst hnum
  dsimp only
  rw [Text.readInt?_showInt hi.fitsWord]

section Icu

open IcuArtifact (ofIcu caseList)

variable {icu : CompiledIcu}

theorem listField_caseList {f : CompiledCase → Json} (hmem : (name, caseList icu f) ∈ (ofIcu icu).members)
    (hitem : ∀ c ∈ icu.cases, item (f c) = .ok (f c)) :
    listField name item (ofIcu icu).members = .ok (caseList icu f) := by
  have hfield := IcuArtifact.field_members hmem
  by_cases hempty : icu.cases.isEmpty = true
  · rw [caseList, if_pos hempty] at hfield ⊢
    unfold listField
    rw [hfield]
  · rw [caseList, if_neg hempty] at hfield ⊢
    refine listField_arr hfield fun j hj => ?_
    obtain ⟨c, hc, rfl⟩ := mem_map.mp hj
    exact hitem c hc

theorem listField_streams {f : CompiledCase → List Flat}
    (hmem : (name, caseList icu fun c => .arr ((f c).map Flat.portable)) ∈ (ofIcu icu).members)
    (h : ∀ c ∈ icu.cases, ∀ i ∈ Flat.numbers (f c), Small i) :
    listField name (streamItem name) (ofIcu icu).members =
      .ok (caseList icu fun c => .arr ((f c).map Flat.portable)) :=
  listField_caseList hmem fun c hc => by rw [streamItem, roundedItems_stream (h c hc)]

theorem decodeIcu_toJson (h : ∀ i ∈ icu.numbers, Small i) : decodeIcu (ofIcu icu).toJson = .ok (.ofIcu icu) := by
  have hcase : ∀ c ∈ icu.cases, ∀ i ∈ c.numbers, Small i := fun c hc i hi =>
    h i (mem_cons_of_mem _ (mem_cons_of_mem _ (mem_flatMap.mpr ⟨c, hc, hi⟩)))
  have htype : textField "type" (ofIcu icu).members = .ok (ofIcu icu).kind := by
    rw [textField, IcuArtifact.field_members (j := .str (ofIcu icu).kind) mem_cons_self]
  have hanchor : intField "anchorIdx" (ofIcu icu).members = .ok (ofIcu icu).anchor :=
    intField_int (IcuArtifact.field_members (by simp [IcuArtifact.members])) (h _ mem_cons_self)
  have hcurrent : intField "currentCaseLViewIndex" (ofIcu icu).members = .ok (ofIcu icu).current :=
    intField_int (IcuArtifact.field_members (by simp [IcuArtifact.members])) (h _ (mem_cons_of_mem _ mem_cons_self))
  have hcases : listField "cases" textItem (ofIcu icu).members = .ok (ofIcu icu).cases :=
    listField_caseList (by simp [IcuArtifact.members, ofIcu]) fun c _ => rfl
  have hcreate : listField "create" (streamItem "create") (ofIcu icu).members = .ok (ofIcu icu).create :=
    listField_streams (by simp [IcuArtifact.members, ofIcu]) fun c hc i hi =>
      hcase c hc i (mem_append_left _ (mem_append_left _ hi))
  have hremove : listField "remove" (streamItem "remove") (ofIcu icu).members = .ok (ofIcu icu).remove :=
    listField_streams (by simp [IcuArtifact.members, ofIcu]) fun c hc i hi =>
      hcase c hc i (mem_append_left _ (mem_append_right _ hi))
  have hupdate : listField "update" (streamItem "update") (ofIcu icu).members = .ok (ofIcu icu).update :=
    listField_streams (by simp [IcuArtifact.members, ofIcu]) fun c hc i hi =>
      hcase c hc i (mem_append_right _ hi)
  rw [IcuArtifact.toJson_eq, decodeIcu]
  dsimp only
  rw [htype, hanchor, hcurrent, hcases, hcreate, hremove, hupdate]
  rfl

end Icu

/-! ### Artifacts -/

def icuMember (p : Int × IcuArtifact) : String × Json := (showInt p.1, p.2.toJson)

def sortedIcus (a : Artifact) : List (Int × IcuArtifact) :=
  a.icus.mergeSort fun x y => decide ((icuMember x).1 ≤ (icuMember y).1)

variable (a : Artifact)

theorem icuMembers_eq : a.icuMembers = a.sortedIcus.map icuMember := by
  unfold icuMembers sortedIcus
  rw [map_mergeSort]
  · rfl
  · exact fun _ _ _ _ => rfl

theorem toJson_sorted : { a with icus := a.sortedIcus }.toJson = a.toJson := by
  have hmembers : { a with icus := a.sortedIcus }.icuMembers = a.icuMembers := by
    show (a.sortedIcus.map icuMember).mergeSort _ = _
    rw [← icuMembers_eq]
    refine mergeSort_of_pairwise ?_
    unfold icuMembers
    refine pairwise_mergeSort ?_ ?_ _
    · intro x y z hxy hyz
      exact decide_eq_true (String.le_trans (of_decide_eq_true hxy) (of_decide_eq_true hyz))
    · intro x y
      rw [Bool.or_eq_true, decide_eq_true_eq, decide_eq_true_eq]
      exact String.le_total x.1 y.1
  have hempty : a.sortedIcus.isEmpty = a.icus.isEmpty :=
    (mergeSort_perm a.icus _).isEmpty_eq
  unfold toJson
  rw [hmembers]
  dsimp only
  rw [hempty]

def members (a : Artifact) : List (String × Json) :=
  [("id", .str a.id), ("create", a.create), ("update", a.update)] ++
    if a.icus.isEmpty then [] else [("icus", .obj a.icuMembers)]

theorem toJson_eq : a.toJson = .obj a.members := rfl

theorem nodup_members : (a.members.map fun p => lower p.1).Nodup := by
  unfold members
  split
  · show [lower "id", lower "create", lower "update"].Nodup
    decide +kernel
  · show [lower "id", lower "create", lower "update", lower "icus"].Nodup
    decide +kernel

variable {id : String} {block : Block} {t : TemplateView}

theorem integral_toJson (id : String) (block : Block) (t : TemplateView) : (ofBlock id block t).toJson.Integral := by
  rw [toJson_eq, Json.Integral, Json.integralMembers_iff]
  intro m hm
  rcases mem_append.mp hm with hm | hm
  · simp only [ofBlock, mem_cons, not_mem_nil, or_false] at hm
    rcases hm with rfl | rfl | rfl
    · exact (Flat.text id).integral_portable
    · exact Json.integral_stream _
    · exact Json.integral_stream _
  · split at hm
    · cases hm
    · rw [mem_singleton.mp hm, Json.Integral, Json.integralMembers_iff, icuMembers_eq]
      intro p hp
      obtain ⟨q, hq, rfl⟩ := mem_map.mp hp
      obtain ⟨r, -, rfl⟩ := mem_map.mp ((mergeSort_perm _ _).mem_iff.mp hq)
      exact IcuArtifact.integral_toJson r.2

def numbers (block : Block) (t : TemplateView) : List Int :=
  Flat.numbers (CreateOp.encodeAll block.create) ++ Flat.numbers (UpdateOp.encodePortableAll block.update) ++
    t.icus.flatMap fun p => (p.1 : Int) :: p.2.numbers

section

variable (h : ∀ i ∈ numbers block t, Small i)
include h

theorem decodeIcus_members : decodeIcus (ofBlock id block t).icuMembers = .ok (ofBlock id block t).sortedIcus := by
  rw [icuMembers_eq]
  refine mapM_map fun p hp => ?_
  obtain ⟨q, hq, rfl⟩ := mem_map.mp ((mergeSort_perm _ _).mem_iff.mp hp)
  have hnumbers : ∀ i ∈ (q.1 : Int) :: q.2.numbers, Small i := fun i hi =>
    h i (mem_append_right _ (mem_flatMap.mpr ⟨q, hq, hi⟩))
  have hslot := Text.readInt?_showInt (hnumbers _ mem_cons_self).fitsWord
  have hicu := decodeIcu_toJson fun i hi => hnumbers i (mem_cons_of_mem _ hi)
  dsimp only [icuMember]
  rw [hslot]
  dsimp only
  rw [hicu]
  rfl

/-- **An artifact with small numbers is read back,** its expressions in alphabetical order. -/
theorem decode_compact : decode (ofBlock id block t).toJson.compact =
      .ok { ofBlock id block t with icus := (ofBlock id block t).sortedIcus } := by
  have hread : Json.read .careful (ofBlock id block t).toJson.compact = .ok (.obj (ofBlock id block t).members) :=
    Json.read_compact (integral_toJson id block t)
  have hfield : ∀ {name j}, (name, j) ∈ (ofBlock id block t).members → field name (ofBlock id block t).members = j :=
    fun hmem => field_of_mem hmem (nodup_members _)
  have hid : textField "id" (ofBlock id block t).members = .ok id := by
    rw [textField, hfield (j := .str id) mem_cons_self]
  have hstream : ∀ {name : String} {flat : List Flat}, (∀ i ∈ Flat.numbers flat, Small i) →
      (name, Json.arr (flat.map Flat.portable)) ∈ (ofBlock id block t).members →
        listField name anyItem (ofBlock id block t).members = .ok (.arr (flat.map Flat.portable)) := by
    intro name flat hflat hmem
    refine listField_arr (hfield hmem) fun j hj => ?_
    obtain ⟨f, hf, rfl⟩ := mem_map.mp hj
    rw [anyItem, Flat.rounded_portable_of_mem hflat hf]
  have hcreate : listField "create" anyItem (ofBlock id block t).members = .ok (ofBlock id block t).create :=
    hstream (fun i hi => h i (mem_append_left _ (mem_append_left _ hi))) (by simp [members, ofBlock])
  have hupdate : listField "update" anyItem (ofBlock id block t).members = .ok (ofBlock id block t).update :=
    hstream (fun i hi => h i (mem_append_left _ (mem_append_right _ hi))) (by simp [members, ofBlock])
  unfold decode
  rw [hread]
  dsimp only
  rw [hid, hcreate, hupdate]
  by_cases hempty : (ofBlock id block t).icus.isEmpty = true
  · -- No expressions are written as no field at all.
    have hsorted : (ofBlock id block t).sortedIcus = [] := by
      rw [sortedIcus, isEmpty_iff.mp hempty, mergeSort_nil]
    rw [hsorted, field_eq_null]
    · rfl
    · rw [members, if_pos hempty]
      show lower "icus" ∉ [lower "id", lower "create", lower "update"]
      decide +kernel
  · rw [hfield (j := .obj (ofBlock id block t).icuMembers) (by simp [members, hempty])]
    dsimp only
    rw [decodeIcus_members h]
    rfl

theorem text_of_decode {a : Artifact}
    (ha : decode (ofBlock id block t).toJson.compact = .ok a) : a.text = (ofBlock id block t).text := by
  rw [decode_compact h] at ha
  cases ha
  unfold text
  rw [toJson_sorted]

end

end Artifact

end MessageCompiler
