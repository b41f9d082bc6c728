import Achain.Proofs.TypeValues

/-!
# Merging types

Where one of the two types is a union, or both list literals, the merged type is written into one of the two
objects, so whatever points to that object describes more than before unless the object described the values
of the other type already. Two types of one kind are merged to the second.
-/

namespace Achain.Glua

open TypeHeap

variable {F : Type} (n : Numerals F)

/-- Objects that point to objects. -/
structure ClosedHeap where
  heap : TypeHeap
  closed : heap.Closed heap.length

/-- The merged type is an upper bound, and the types that were there describe what they did. -/
def MergesWell (h : TypeHeap) (type1 type2 : TypeRef) : Prop :=
  let merged := mergeUnionTypes h type1 type2
  valuesOf n h type1 ∪ valuesOf n h type2 ⊆ valuesOf n merged.1 merged.2 ∧
    ∀ p < h.length, valuesOf n merged.1 p = valuesOf n h p

/-- Whether the type that the merge keeps describes the values of the other one already. Nothing is asked
where the merge makes a type of its own. -/
def MergeCovered (h : TypeHeap) (type1 type2 : TypeRef) : Prop :=
  let t1 := h.deref type1
  let t2 := h.deref type2
  if t1.etype = .ltiUndefined then True
  else if t1.isUnion then valuesOf n h type2 ⊆ valuesOf n h type1
  else if t2.isUnion then
    t2.unionTypes = [] ∧ t1.isLiteralType ∨ valuesOf n h type1 ⊆ valuesOf n h type2
  else if t1.isLiteralType && t2.isLiteralType then valuesOf n h type2 ⊆ valuesOf n h type1
  else if t1.etype = t2.etype then valuesOf n h type1 ⊆ valuesOf n h type2
  else if t1.isRecord && t2.isNarrowTable then valuesOf n h type2 ⊆ valuesOf n h type1
  else True

/-! ## The objects a merge writes -/

section Nodes

variable {t : GluaTypeInfo} (values : TypeRef → Set (TypeValue F))

theorem nodeValues_copy (dest src : GluaTypeInfo) :
    nodeValues n (copyLuaTypeInfo dest src) values = nodeValues n src values := rfl

theorem nodeValues_union (hu : t.isUnion) :
    nodeValues n t values = {v | ∃ q ∈ t.unionTypes, v ∈ values q} := by
  simp_all [GluaTypeInfo.isUnion, nodeValues, kindValues, GluaTypeInfo.isLiteralItemType,
    GluaTypeInfo.isString, GluaTypeInfo.isNumber, GluaTypeInfo.isBool, GluaTypeInfo.isNil]

theorem nodeValues_literal (hl : t.isLiteralType) :
    nodeValues n t values = {v | ∃ item ∈ t.literalTypeOptions, literalValue n item = some v} := by
  simp_all [GluaTypeInfo.isLiteralType, nodeValues, kindValues, GluaTypeInfo.isLiteralItemType,
    GluaTypeInfo.isString, GluaTypeInfo.isNumber, GluaTypeInfo.isBool, GluaTypeInfo.isNil]

theorem mem_foldl_insert {q : TypeRef} (l l' : List TypeRef) :
    q ∈ l'.foldl (fun l u => l.insert u) l ↔ q ∈ l ∨ q ∈ l' := by
  induction l' generalizing l with
  | nil => simp
  | cons u l' ih => simp [ih, or_assoc, or_left_comm]

/-- Literals with the same type and text are the same value. -/
theorem mergeOptions_values (l l' : List GluaParserToken) (v : TypeValue F) :
    (∃ item ∈ mergeOptions l l', literalValue n item = some v) ↔
      (∃ item ∈ l, literalValue n item = some v) ∨ ∃ item ∈ l', literalValue n item = some v := by
  induction l' generalizing l with
  | nil => simp [mergeOptions]
  | cons item l' ih =>
    simp only [mergeOptions, List.foldl_cons] at ih ⊢
    rw [ih]
    split_ifs with hany
    · obtain ⟨other, hmem, hsame⟩ := List.any_eq_true.1 hany
      have hval : literalValue n other = literalValue n item := by
        simp only [Bool.and_eq_true, decide_eq_true_eq] at hsame
        simp only [literalValue, hsame.1, hsame.2]
      simp only [List.exists_mem_cons_iff, ← hval]
      exact ⟨fun hv => hv.imp_right .inr,
        fun hv => hv.elim .inl fun hv => hv.elim (fun hv => .inl ⟨other, hmem, hv⟩) .inr⟩
    · simp [or_and_right, exists_or, or_assoc]

end Nodes

/-- A new object with the defaults is read as a pointer to no object is. -/
@[simp] theorem deref_create_default (h : TypeHeap) (p : TypeRef) : (h.create {}).deref p = h.deref p := by
  rcases lt_trichotomy p h.length with hp | rfl | hp
  · exact deref_create_of_lt hp
  · simp [deref, create]
  · have hnew : ([{}] : TypeHeap).length ≤ p - h.length := Nat.sub_pos_of_lt hp
    rw [deref, deref, create, List.getElem?_append_right hp.le, List.getElem?_eq_none hnew,
      List.getElem?_eq_none hp.le]

/-! ## The ways to merge -/

section Ways

variable {n} {h h' : TypeHeap} {bound : Nat} {c o r : TypeRef}

/-- A type of its own that describes what both do. -/
theorem fresh_merges {type1 type2 : TypeRef} (hc : h.Closed bound) (h1 : type1 < bound) (h2 : type2 < bound)
    (hsame : ∀ p < bound, h'.deref p = h.deref p)
    (hr : valuesOf n h' type1 ∪ valuesOf n h' type2 ⊆ valuesOf n h' r) :
    valuesOf n h type1 ∪ valuesOf n h type2 ⊆ valuesOf n h' r ∧
      ∀ p < bound, valuesOf n h' p = valuesOf n h p := by
  have hkeep : ∀ p < bound, valuesOf n h' p = valuesOf n h p := fun p hp => valuesOf_congr n hc hsame hp
  rw [hkeep type1 h1, hkeep type2 h2] at hr
  exact ⟨hr, hkeep⟩

/-- The values of a type are added to an object in place. -/
theorem inPlace_merges_iff (added : (TypeRef → Set (TypeValue F)) → Set (TypeValue F)) (hc : h.Closed bound)
    (hlt : c < bound) (hsame : ∀ p < bound, p ≠ c → h'.deref p = h.deref p)
    (hitems : ∀ q ∈ (h'.deref c).itemTypes, q < bound)
    (hnode : ∀ values, nodeValues n (h'.deref c) values = nodeValues n (h.deref c) values ∪ added values)
    (hadded : added (valuesOf n h) = valuesOf n h o) (hr : valuesOf n h' r = valuesOf n h' c) :
    (valuesOf n h c ∪ valuesOf n h o ⊆ valuesOf n h' r ∧
      ∀ p < bound, valuesOf n h' p = valuesOf n h p) ↔ valuesOf n h o ⊆ valuesOf n h c := by
  have g : Grown n h h' bound c :=
    ⟨hc, hlt, hsame, hitems, fun values => hnode values ▸ Set.subset_union_left⟩
  have hboth : nodeValues n (h'.deref c) (valuesOf n h) = valuesOf n h c ∪ valuesOf n h o := by
    rw [hnode, hadded, ← valuesOf_eq]
  have hupper : valuesOf n h c ∪ valuesOf n h o ⊆ valuesOf n h' r := by
    rw [hr, valuesOf_eq n h' c, ← hboth]
    exact nodeValues_mono n _ fun q hq => g.subset (hitems q hq)
  rw [g.keeps_iff, hboth]
  exact ⟨fun hm => Set.subset_union_right.trans hm.2,
    fun hm => ⟨hupper, Set.union_subset subset_rfl hm⟩⟩

variable (hc : h.Closed h.length) {type1 type2 : TypeRef} (h1 : type1 < h.length) (h2 : type2 < h.length)

include hc h1 h2 in
theorem insert_merges_iff (hu : (h.deref type1).isUnion) :
    let h' := (h.create {}).store type1
      { h.deref type1 with unionTypes := (h.deref type1).unionTypes.insert type2 }
    (valuesOf n h type1 ∪ valuesOf n h type2 ⊆ valuesOf n h' type1 ∧
      ∀ p < h.length, valuesOf n h' p = valuesOf n h p) ↔ valuesOf n h type2 ⊆ valuesOf n h type1 := by
  intro h'
  have hnew : h'.deref type1 = { h.deref type1 with unionTypes := (h.deref type1).unionTypes.insert type2 } :=
    deref_store_self (length_create ▸ Nat.lt_succ_of_lt h1)
  refine inPlace_merges_iff (fun values => values type2) hc h1 (fun p hp hne => ?_) ?_
    (fun values => ?_) rfl rfl
  · simp [h', deref_store_ne hne]
  · intro q hq
    have hold := hc type1 h1 q
    simp only [hnew, GluaTypeInfo.itemTypes, List.append_assoc, List.mem_append, List.mem_insert_iff]
      at hq hold
    rcases hq with (rfl | hq) | hq
    · exact h2
    · exact hold (.inl hq)
    · exact hold (.inr hq)
  · rw [hnew, nodeValues_union n values hu, nodeValues_union n values (by exact hu)]
    ext v
    simp [List.mem_insert_iff, or_comm]

include hc h1 h2 in
theorem unions_merge_iff (hu : (h.deref type1).isUnion) (hu' : (h.deref type2).isUnion) :
    let h' := (h.create {}).store type1 { h.deref type1 with
      unionTypes := (h.deref type2).unionTypes.foldl (fun l u => l.insert u) (h.deref type1).unionTypes }
    (valuesOf n h type1 ∪ valuesOf n h type2 ⊆ valuesOf n h' type1 ∧
      ∀ p < h.length, valuesOf n h' p = valuesOf n h p) ↔ valuesOf n h type2 ⊆ valuesOf n h type1 := by
  intro h'
  have hnew : h'.deref type1 = _ := deref_store_self (length_create ▸ Nat.lt_succ_of_lt h1)
  refine inPlace_merges_iff (fun values => nodeValues n (h.deref type2) values) hc h1 (fun p hp hne => ?_) ?_
    (fun values => ?_) (valuesOf_eq n h type2).symm rfl
  · simp [h', deref_store_ne hne]
  · intro q hq
    have hold := hc type1 h1 q
    have hold' := hc type2 h2 q
    simp only [hnew, GluaTypeInfo.itemTypes, List.append_assoc, List.mem_append, mem_foldl_insert]
      at hq hold hold'
    rcases hq with (hq | hq) | hq
    · exact hold (.inl hq)
    · exact hold' (.inl hq)
    · exact hold (.inr hq)
  · rw [hnew, nodeValues_union n values hu, nodeValues_union n values hu',
      nodeValues_union n values (by exact hu)]
    ext v
    simp [mem_foldl_insert, or_and_right, exists_or]

/-- What is written over the first type is the literal type that the call returns. -/
theorem copied_merges_iff {t : GluaTypeInfo} (hc : h.Closed h.length) (h1 : type1 < h.length)
    (hitems : ∀ q ∈ t.itemTypes, q < h.length)
    (hnode : ∀ values, nodeValues n t values =
      nodeValues n (h.deref type1) values ∪ nodeValues n (h.deref type2) values) :
    let h' := ((h.create {}).store h.length t).store type1 (copyLuaTypeInfo (h.deref type1) t)
    (valuesOf n h type1 ∪ valuesOf n h type2 ⊆ valuesOf n h' h.length ∧
      ∀ p < h.length, valuesOf n h' p = valuesOf n h p) ↔ valuesOf n h type2 ⊆ valuesOf n h type1 := by
  intro h'
  have hnew : h'.deref type1 = _ := deref_store_self (by simpa using Nat.lt_succ_of_lt h1)
  have hfresh : h'.deref h.length = t := by
    rw [deref_store_ne h1.ne', deref_store_self (by simp)]
  refine inPlace_merges_iff (fun values => nodeValues n (h.deref type2) values) hc h1 (fun p hp hne => ?_) ?_
    (fun values => ?_) (valuesOf_eq n h type2).symm ?_
  · rw [deref_store_ne hne, deref_store_ne hp.ne, deref_create_default]
  · intro q hq
    rw [hnew] at hq
    exact hitems q hq
  · rw [hnew, nodeValues_copy, hnode]
  · rw [valuesOf_eq, hfresh, valuesOf_eq n h' type1, hnew, nodeValues_copy]

/-- One of the two types, and nothing is written. -/
theorem kept_merges_iff (hc : h.Closed h.length) (hlt : c < h.length) :
    (valuesOf n h c ∪ valuesOf n h o ⊆ valuesOf n (h.create {}) c ∧
      ∀ p < h.length, valuesOf n (h.create {}) p = valuesOf n h p) ↔
        valuesOf n h o ⊆ valuesOf n h c := by
  have hkeep : ∀ p < h.length, valuesOf n (h.create {}) p = valuesOf n h p := fun p hp =>
    valuesOf_congr n hc (fun q _ => deref_create_default h q) hp
  rw [hkeep c hlt, Set.union_subset_iff]
  exact ⟨fun hm => hm.1.2, fun hm => ⟨⟨subset_rfl, hm⟩, hkeep⟩⟩

end Ways

/-- Merging gives an upper bound and changes nothing else if and only if the type that the merge keeps
describes the values of the other one already. -/
theorem mergeUnionTypes_mergesWell_iff (h : ClosedHeap) (type1 type2 : Fin h.heap.length) :
    MergesWell n h.heap type1 type2 ↔ MergeCovered n h.heap type1 type2 := by
  obtain ⟨h, hc⟩ := h
  obtain ⟨type1, h1⟩ := type1
  obtain ⟨type2, h2⟩ := type2
  simp only at h1 h2 ⊢
  have hold : ∀ t p, p < h.length → ((h.create {}).store h.length t).deref p = h.deref p := fun t p hp => by
    rw [deref_store_ne hp.ne, deref_create_default]
  have hnew : ∀ t, ((h.create {}).store h.length t).deref h.length = t :=
    fun t => deref_store_self (by simp)
  simp only [MergesWell, MergeCovered, mergeUnionTypes, deref_create_default]
  split_ifs with hundef hunion1 hempty hunion2 hunion2 hempty hliteral hsame hrecord
  · -- an undefined type has no values
    refine iff_true_intro (fresh_merges hc h1 h2 (hold _) ?_)
    rw [valuesOf_eq n _ type1, hold _ _ h1, valuesOf_eq n _ h.length, hnew, nodeValues_copy,
      valuesOf_eq n _ type2, hold _ _ h2]
    refine Set.union_subset (fun v hv => ?_) subset_rfl
    simp [nodeValues, kindValues, hundef, GluaTypeInfo.isLiteralItemType, GluaTypeInfo.isString,
      GluaTypeInfo.isNumber, GluaTypeInfo.isBool, GluaTypeInfo.isNil] at hv
  · -- an empty union is overwritten by a literal type
    refine copied_merges_iff hc h1 (hc type2 h2) fun values => ?_
    rw [nodeValues_copy, nodeValues_union n values hunion1, hempty.1]
    simp
  · exact insert_merges_iff hc h1 h2 hunion1
  · exact unions_merge_iff hc h1 h2 hunion1 (by simpa using hunion2)
  · -- the first type is written over itself, and the second has no values
    have hself : ∀ p < h.length,
        (((h.create {}).store h.length (copyLuaTypeInfo {} (h.deref type1))).store type1
          (copyLuaTypeInfo (h.deref type1) (copyLuaTypeInfo {} (h.deref type1)))).deref p = h.deref p := by
      intro p hp
      rcases eq_or_ne p type1 with rfl | hne
      · rw [deref_store_self (by simpa using Nat.lt_succ_of_lt hp)]
        rfl
      · rw [deref_store_ne hne, hold _ p hp]
    refine iff_of_true (fresh_merges hc h1 h2 hself ?_) (.inl hempty)
    rw [valuesOf_eq n _ h.length, deref_store_ne h1.ne', hnew, nodeValues_copy, valuesOf_eq n _ type1,
      hself type1 h1, valuesOf_eq n _ type2, hself type2 h2, nodeValues_union n _ hunion2, hempty.1]
    simp
  · rw [Set.union_comm, or_iff_right hempty]
    exact insert_merges_iff hc h2 h1 hunion2
  · simp only [Bool.and_eq_true] at hliteral
    refine copied_merges_iff hc h1 (by simp [GluaTypeInfo.itemTypes]) fun values => ?_
    rw [nodeValues_literal n values hliteral.1, nodeValues_literal n values hliteral.2,
      nodeValues_literal n values rfl]
    exact Set.ext fun v => mergeOptions_values n _ _ v
  · rw [Set.union_comm]
    exact kept_merges_iff hc h2
  · exact kept_merges_iff hc h1
  · -- a union of the two
    refine iff_true_intro (fresh_merges hc h1 h2 (hold _) ?_)
    rw [valuesOf_eq n _ h.length, hnew, nodeValues_union n _ rfl]
    exact Set.union_subset (fun v hv => ⟨type1, by simp, hv⟩) fun v hv => ⟨type2, by simp, hv⟩

/-! ## Two merges that do not -/

/-- `int`, `string`, an array of each, and a union of the second. -/
def mergedTypes : TypeHeap :=
  [{ etype := .ltiInt }, { etype := .ltiString }, { etype := .ltiArray, arrayItemType := some 0 },
    { etype := .ltiArray, arrayItemType := some 1 }, { etype := .ltiUnion, unionTypes := [1] }]

def mergedHeap : ClosedHeap where
  heap := mergedTypes
  closed := by
    unfold TypeHeap.Closed
    decide

/-- Two array types are merged to the second, which does not describe an array of integers; and an integer
added to a union is a value of the union from then on. -/
theorem merges_lose_and_share :
    ¬ MergesWell zeroNumerals mergedTypes 2 3 ∧ ¬ MergesWell zeroNumerals mergedTypes 4 0 := by
  have hint : .int 7 ∈ valuesOf zeroNumerals mergedTypes 0 := by
    rw [valuesOf_eq]
    exact ⟨7, rfl⟩
  have hstring : .int 7 ∉ valuesOf zeroNumerals mergedTypes 1 := by
    rw [valuesOf_eq]
    rintro ⟨s, hs⟩
    simp at hs
  have hclosed := mergedHeap.closed
  constructor
  · intro hm
    have hsub : valuesOf zeroNumerals mergedTypes 2 ⊆ valuesOf zeroNumerals mergedTypes 3 :=
      ((Set.union_comm _ _ ▸ kept_merges_iff hclosed (by decide)).1 hm)
    have hin : .table [.int 7] [] ∈ valuesOf zeroNumerals mergedTypes 2 := by
      rw [valuesOf_eq]
      exact ⟨_, rfl, fun x hx => ⟨0, rfl, List.mem_singleton.1 hx ▸ hint⟩⟩
    have hout := hsub hin
    rw [valuesOf_eq] at hout
    obtain ⟨items, hitems, hall⟩ := hout
    cases hitems
    obtain ⟨q, hq, hv⟩ := hall _ (List.mem_singleton_self _)
    cases hq
    exact hstring hv
  · intro hm
    have hsub := (insert_merges_iff hclosed (by decide) (by decide) rfl).1 hm
    have hout := hsub hint
    rw [valuesOf_eq] at hout
    obtain ⟨q, hq, hv⟩ := hout
    cases List.mem_singleton.1 hq
    exact hstring hv

end Achain.Glua
