import Achain.Proofs.TypeValues
import Mathlib.Order.Filter.AtTopBot.Basic
import Mathlib.Order.Filter.Finite

/-!
# Accepted types

A declared type that accepts a real one should describe its values. Some branches of the comparison accept
without regard to all of them, and two unions are compared the wrong way round. The comparison is first
brought into rules that mention no depth; then the rules by which a value can be lost are singled out.
-/

namespace Achain.Glua

open Filter
open GluaTypeInfoEnum (ltiInt ltiNumber ltiBool ltiString ltiArray ltiMap ltiObject)

variable {F : Type} (n : Numerals F) (h : TypeHeap)

def GluaTypeInfo.isBasic (t : GluaTypeInfo) : Bool :=
  t.etype = ltiInt || t.etype = ltiNumber || t.etype = ltiBool || t.etype = ltiString

/-- The types built from the basic types, literal types, arrays, maps and unions, with the types of literals
and of empty table literals. -/
inductive Built : TypeRef → Prop where
  | basic {p : TypeRef} (kind : (h.deref p).isBasic) (plain : ¬ (h.deref p).isLiteralTokenValue) : Built p
  | token {p : TypeRef} {t : GluaTypeInfo} (kind : (h.deref p).isBasic)
      (literal : (h.deref p).isLiteralTokenValue)
      (ht : literalTokenType (h.deref p).literalValueToken = some t) (same : t.etype = (h.deref p).etype) :
      Built p
  | literalType {p : TypeRef} (kind : (h.deref p).isLiteralType) : Built p
  | emptyArray {p item : TypeRef} (kind : (h.deref p).isArray) (empty : (h.deref p).isLiteralEmptyTable)
      (hitem : (h.deref p).arrayItemType = some item) (object : (h.deref item).etype = ltiObject) : Built p
  | emptyMap {p item : TypeRef} (kind : (h.deref p).isMap) (empty : (h.deref p).isLiteralEmptyTable)
      (hitem : (h.deref p).mapItemType = some item) (object : (h.deref item).etype = ltiObject) : Built p
  | array {p item : TypeRef} (kind : (h.deref p).isArray) (plain : ¬ (h.deref p).isLiteralEmptyTable)
      (hitem : (h.deref p).arrayItemType = some item) (built : Built item) : Built p
  | map {p item : TypeRef} (kind : (h.deref p).isMap) (plain : ¬ (h.deref p).isLiteralEmptyTable)
      (hitem : (h.deref p).mapItemType = some item) (built : Built item) : Built p
  | union {p : TypeRef} (kind : (h.deref p).isUnion)
      (members : ∀ q ∈ (h.deref p).unionTypes, Built q) : Built p

/-- The branches that accept a real type without regard to all of its values. -/
inductive Unchecked (declare real : GluaTypeInfo) : Prop where
  /-- A map is accepted by whatever is not like a table. -/
  | map (kind : real.isMap) (other : ¬ declare.isLikeTable)
  /-- One literal of a literal type has to fit. -/
  | oneLiteral (kind : declare.isBasic) (fits : real.containsLiteralItemType declare)
  /-- The literal that the declared type comes from is not looked at. -/
  | token (kind : declare.isBasic) (literal : declare.isLiteralTokenValue)
      (sameKind : declare.etype = real.etype ∨ declare.etype = ltiNumber ∧ real.etype = ltiInt)
  /-- Nor is it that the declared type is the one of an empty table. -/
  | emptyTable (kind : declare.isArray ∧ real.isArray ∨ declare.isMap ∧ real.isMap)
      (empty : declare.isLiteralEmptyTable)

/-- The rules by which a comparison takes a real type for a declared one. -/
inductive Agrees : TypeRef → TypeRef → Prop where
  | same {declare : TypeRef} : Agrees declare declare
  | unchecked {declare real : TypeRef} (branch : Unchecked (h.deref declare) (h.deref real)) :
      Agrees declare real
  | basic {declare real : TypeRef} (kind : (h.deref declare).isBasic)
      (plain : ¬ (h.deref declare).isLiteralTokenValue)
      (sameKind : (h.deref declare).etype = (h.deref real).etype ∨
        (h.deref declare).etype = ltiNumber ∧ (h.deref real).etype = ltiInt) : Agrees declare real
  | literals {declare real : TypeRef} (kind : (h.deref declare).isLiteralType)
      (fits : matchLiteral (h.deref declare) (h.deref real)) : Agrees declare real
  | emptyTable {declare real : TypeRef} (empty : (h.deref real).isLiteralEmptyTable)
      (kind : (h.deref declare).isArray ∧ (h.deref real).isArray ∨
        (h.deref declare).isMap ∧ (h.deref real).isMap) : Agrees declare real
  | arrayItems {declare real d r : TypeRef} (kind : (h.deref declare).isArray)
      (kind' : (h.deref real).isArray) (plain : ¬ (h.deref declare).isLiteralEmptyTable)
      (plain' : ¬ (h.deref real).isLiteralEmptyTable) (hitem : (h.deref declare).arrayItemType = some d)
      (hitem' : (h.deref real).arrayItemType = some r) (agree : Agrees d r) : Agrees declare real
  | mapItems {declare real d r : TypeRef} (kind : (h.deref declare).isMap) (kind' : (h.deref real).isMap)
      (plain : ¬ (h.deref declare).isLiteralEmptyTable) (plain' : ¬ (h.deref real).isLiteralEmptyTable)
      (hitem : (h.deref declare).mapItemType = some d) (hitem' : (h.deref real).mapItemType = some r)
      (agree : Agrees d r) : Agrees declare real
  | member {declare real q : TypeRef} (kind : (h.deref declare).isUnion) (kind' : ¬ (h.deref real).isUnion)
      (hq : q ∈ (h.deref declare).unionTypes) (agree : Agrees q real) : Agrees declare real
  /-- Each declared member takes a real one; a real member may be left out. -/
  | unions {declare real : TypeRef} (kind : (h.deref declare).isUnion) (kind' : (h.deref real).isUnion)
      (size : (h.deref declare).unionTypes.length = (h.deref real).unionTypes.length)
      (pick : TypeRef → TypeRef)
      (picked : ∀ q ∈ (h.deref declare).unionTypes, pick q ∈ (h.deref real).unionTypes)
      (agree : ∀ q ∈ (h.deref declare).unionTypes, Agrees q (pick q)) : Agrees declare real

/-- A comparison of the two types comes to a branch that accepts without regard to all values of the real
type, and the declared one does not describe them. -/
inductive Misled : TypeRef → TypeRef → Prop where
  | unchecked {declare real : TypeRef} (branch : Unchecked (h.deref declare) (h.deref real))
      (gap : ¬ valuesOf n h real ⊆ valuesOf n h declare) : Misled declare real
  /-- Unions of one size are compared by what the declared members take. -/
  | unions {declare real : TypeRef} (kind : (h.deref declare).isUnion) (kind' : (h.deref real).isUnion)
      (size : (h.deref declare).unionTypes.length = (h.deref real).unionTypes.length)
      (agree : ∀ q ∈ (h.deref declare).unionTypes, ∃ r ∈ (h.deref real).unionTypes, Agrees h q r)
      (gap : ¬ valuesOf n h real ⊆ valuesOf n h declare) : Misled declare real
  | arrayItems {declare real d r : TypeRef} (kind : (h.deref declare).isArray)
      (kind' : (h.deref real).isArray) (plain : ¬ (h.deref declare).isLiteralEmptyTable)
      (plain' : ¬ (h.deref real).isLiteralEmptyTable) (hitem : (h.deref declare).arrayItemType = some d)
      (hitem' : (h.deref real).arrayItemType = some r)
      (misled : Misled d r) : Misled declare real
  | mapItems {declare real d r : TypeRef} (kind : (h.deref declare).isMap) (kind' : (h.deref real).isMap)
      (plain : ¬ (h.deref declare).isLiteralEmptyTable) (plain' : ¬ (h.deref real).isLiteralEmptyTable)
      (hitem : (h.deref declare).mapItemType = some d) (hitem' : (h.deref real).mapItemType = some r)
      (misled : Misled d r) : Misled declare real
  | member {declare real q : TypeRef} (kind : (h.deref declare).isUnion) (kind' : ¬ (h.deref real).isUnion)
      (hq : q ∈ (h.deref declare).unionTypes) (misled : Misled q real)
      (gap : ¬ valuesOf n h real ⊆ valuesOf n h declare) : Misled declare real

/-! ## What one comparison accepts -/

section Kinds

variable {h}

/-- The kinds of the types that are built. -/
theorem Built.kind {p : TypeRef} (hb : Built h p) :
    (h.deref p).isBasic ∨ (h.deref p).isLiteralType ∨ (h.deref p).isArray ∨ (h.deref p).isMap ∨
      (h.deref p).isUnion := by
  cases hb with
  | basic kind | token kind => exact .inl kind
  | literalType kind => exact .inr (.inl kind)
  | emptyArray kind | array kind => exact .inr (.inr (.inl kind))
  | emptyMap kind | map kind => exact .inr (.inr (.inr (.inl kind)))
  | union kind => exact .inr (.inr (.inr (.inr kind)))

variable {isMatch : TypeRef → TypeRef → Bool → Bool} {declare real : TypeRef} (hr : Built h real)

attribute [local simp] matchStep GluaTypeInfo.isBasic GluaTypeInfo.isNil GluaTypeInfo.isLikeTable
  GluaTypeInfo.isNarrowTable GluaTypeInfo.isMap GluaTypeInfo.isArray GluaTypeInfo.isRecord
  GluaTypeInfo.isUnion GluaTypeInfo.isLiteralType GluaTypeInfo.isLiteralItemType GluaTypeInfo.isString
  GluaTypeInfo.isNumber GluaTypeInfo.isBool

include hr

omit hr

theorem Built.arrayItem {p q : TypeRef} (hb : Built h p) (kind : (h.deref p).isArray)
    (plain : ¬ (h.deref p).isLiteralEmptyTable) (hq : (h.deref p).arrayItemType = some q) : Built h q := by
  cases hb with
  | array _ _ hitem built => rwa [Option.some.inj (hitem.symm.trans hq)] at built
  | emptyArray _ empty => exact absurd empty plain
  | basic kind' | token kind' | literalType kind' | emptyMap kind' | map kind' | union kind' =>
    simp at kind kind'
    simp [kind] at kind'

theorem Built.mapItem {p q : TypeRef} (hb : Built h p) (kind : (h.deref p).isMap)
    (plain : ¬ (h.deref p).isLiteralEmptyTable) (hq : (h.deref p).mapItemType = some q) : Built h q := by
  cases hb with
  | map _ _ hitem built => rwa [Option.some.inj (hitem.symm.trans hq)] at built
  | emptyMap _ empty => exact absurd empty plain
  | basic kind' | token kind' | literalType kind' | emptyArray kind' | array kind' | union kind' =>
    simp at kind kind'
    simp [kind] at kind'

theorem Built.member {p q : TypeRef} (hb : Built h p) (kind : (h.deref p).isUnion)
    (hq : q ∈ (h.deref p).unionTypes) : Built h q := by
  cases hb with
  | union _ members => exact members q hq
  | basic kind' | token kind' | literalType kind' | emptyArray kind' | emptyMap kind' | array kind'
  | map kind' =>
    simp at kind kind'
    simp [kind] at kind'

variable {p : TypeRef}

theorem valuesOf_array (kind : (h.deref p).isArray) :
    valuesOf n h p = {v | ∃ items, v = .table items [] ∧
      Filled (h.deref p).isLiteralEmptyTable (h.deref p).arrayItemType (valuesOf n h) items} := by
  simp at kind
  simp [valuesOf_eq n h p, nodeValues, kindValues, kind]

theorem valuesOf_map (kind : (h.deref p).isMap) :
    valuesOf n h p = {v | ∃ props, v = .table [] props ∧
      Filled (h.deref p).isLiteralEmptyTable (h.deref p).mapItemType (valuesOf n h)
        (props.map Prod.snd)} := by
  simp at kind
  simp [valuesOf_eq n h p, nodeValues, kindValues, kind]

theorem valuesOf_literalType (kind : (h.deref p).isLiteralType) :
    valuesOf n h p = {v | ∃ item ∈ (h.deref p).literalTypeOptions, literalValue n item = some v} := by
  simp at kind
  simp [valuesOf_eq n h p, nodeValues, kindValues, kind]

theorem valuesOf_union (kind : (h.deref p).isUnion) :
    valuesOf n h p = {v | ∃ q ∈ (h.deref p).unionTypes, v ∈ valuesOf n h q} := by
  simp at kind
  simp [valuesOf_eq n h p, nodeValues, kindValues, kind]

/-- The value of a literal is one of its kind. -/
theorem literalValue_mem_kindValues {token : GluaParserToken} {t t' : GluaTypeInfo} {v : TypeValue F}
    (ht : literalTokenType token = some t) (hk : t'.etype = t.etype) (hv : literalValue n token = some v) :
    v ∈ kindValues n t' (valuesOf n h) := by
  unfold literalTokenType at ht
  unfold literalValue at hv
  cases htype : token.type <;> simp only [htype, Option.map_some, Option.map_none, Option.some.injEq,
    reduceCtorEq] at ht hv
  all_goals subst ht hv
  all_goals simp [kindValues, hk]

theorem Built.subset_kindValues (hb : Built h p) (kind : (h.deref p).isBasic) :
    valuesOf n h p ⊆ kindValues n (h.deref p) (valuesOf n h) := by
  rw [valuesOf_eq]
  cases hb with
  | basic _ plain => rw [nodeValues, if_neg fun hf => plain hf.2]
  | token _ literal ht same =>
    have hbasic : (h.deref p).isLiteralItemType := by
      simp at kind ⊢
      rcases kind with ((hk | hk) | hk) | hk <;> simp [hk]
    rw [nodeValues, if_pos ⟨hbasic, literal⟩]
    exact fun v hv => literalValue_mem_kindValues n ht same.symm hv
  | literalType kind' | emptyArray kind' | emptyMap kind' | array kind' | map kind' | union kind' =>
    simp at kind kind'
    simp [kind'] at kind

/-! ## Comparisons that accept too much -/

theorem basic_subset (hr : Built h real) (kind : (h.deref declare).isBasic)
    (plain : ¬ (h.deref declare).isLiteralTokenValue)
    (sameKind : (h.deref declare).etype = (h.deref real).etype ∨
      (h.deref declare).etype = ltiNumber ∧ (h.deref real).etype = ltiInt) :
    valuesOf n h real ⊆ valuesOf n h declare := by
  have hreal : (h.deref real).isBasic := by
    simp at kind ⊢
    rcases sameKind with heq | heq
    · rwa [← heq]
    · simp [heq.2]
  refine (hr.subset_kindValues n hreal).trans ?_
  rw [valuesOf_eq n h declare, nodeValues, if_neg fun hf => plain hf.2]
  rcases sameKind with heq | ⟨hnum, hint⟩
  · simp at hreal
    rcases hreal with ((hk | hk) | hk) | hk <;> simp [kindValues, heq, hk]
  · simp [kindValues, hnum, hint]

/-- Literals are compared by kind and text. -/
theorem literals_subset (kind : (h.deref declare).isLiteralType)
    (fits : matchLiteral (h.deref declare) (h.deref real)) :
    valuesOf n h real ⊆ valuesOf n h declare := by
  rw [valuesOf_literalType n kind]
  unfold matchLiteral at fits
  rcases Bool.or_eq_true_iff.1 fits with hall | htoken
  · simp only [GluaTypeInfo.matchLiteralType, Bool.and_eq_true, List.all_eq_true, List.any_eq_true,
      decide_eq_true_eq] at hall
    obtain ⟨⟨⟨-, hreal⟩, -⟩, hall⟩ := hall
    rw [valuesOf_literalType n hreal]
    rintro v ⟨value, hvalue, hv⟩
    obtain ⟨item, hitem, htype, htext⟩ := hall value hvalue
    exact ⟨item, hitem, by rw [← hv]; simp only [literalValue, htype, htext]⟩
  · simp only [GluaTypeInfo.matchLiteralValue, Bool.and_eq_true, List.any_eq_true,
      decide_eq_true_eq] at htoken
    obtain ⟨⟨hflag, hbasic⟩, -, item, hitem, ⟨htype, htext⟩, -⟩ := htoken
    rw [valuesOf_eq n h real, nodeValues, if_pos ⟨hbasic, hflag⟩]
    intro v (hv : literalValue n (h.deref real).literalValueToken = some v)
    exact ⟨item, hitem, by rw [← hv]; simp only [literalValue, htype, htext]⟩

/-- The empty table is in every array and map type. -/
theorem emptyTable_subset (empty : (h.deref real).isLiteralEmptyTable)
    (kind : (h.deref declare).isArray ∧ (h.deref real).isArray ∨
      (h.deref declare).isMap ∧ (h.deref real).isMap) :
    valuesOf n h real ⊆ valuesOf n h declare := by
  rcases kind with ⟨hd, hr⟩ | ⟨hd, hr⟩
  · rw [valuesOf_array n hd, valuesOf_array n hr]
    rintro v ⟨items, rfl, hf⟩
    obtain rfl : items = [] := by simpa [Filled, empty] using hf
    exact ⟨[], rfl, by simp [Filled]⟩
  · rw [valuesOf_map n hd, valuesOf_map n hr]
    rintro v ⟨props, rfl, hf⟩
    obtain rfl : props = [] := by simpa [Filled, empty] using hf
    exact ⟨[], rfl, by simp [Filled]⟩

theorem array_subset_iff {d r : TypeRef} (kind : (h.deref declare).isArray) (kind' : (h.deref real).isArray)
    (plain : ¬ (h.deref declare).isLiteralEmptyTable) (plain' : ¬ (h.deref real).isLiteralEmptyTable)
    (hitem : (h.deref declare).arrayItemType = some d) (hitem' : (h.deref real).arrayItemType = some r) :
    valuesOf n h real ⊆ valuesOf n h declare ↔ valuesOf n h r ⊆ valuesOf n h d := by
  rw [valuesOf_array n kind, valuesOf_array n kind', hitem, hitem']
  simp only [Filled, plain, plain', Option.mem_some_iff, exists_eq_left']
  constructor
  · intro hsub v hv
    obtain ⟨items, hitems, hall⟩ := @hsub (.table [v] []) ⟨_, rfl, by simpa using hv⟩
    cases hitems
    exact hall v (List.mem_singleton_self v)
  · rintro hsub v ⟨items, rfl, hall⟩
    exact ⟨items, rfl, fun x hx => hsub (hall x hx)⟩

theorem map_subset_iff {d r : TypeRef} (kind : (h.deref declare).isMap) (kind' : (h.deref real).isMap)
    (plain : ¬ (h.deref declare).isLiteralEmptyTable) (plain' : ¬ (h.deref real).isLiteralEmptyTable)
    (hitem : (h.deref declare).mapItemType = some d) (hitem' : (h.deref real).mapItemType = some r) :
    valuesOf n h real ⊆ valuesOf n h declare ↔ valuesOf n h r ⊆ valuesOf n h d := by
  rw [valuesOf_map n kind, valuesOf_map n kind', hitem, hitem']
  simp only [Filled, plain, plain', Option.mem_some_iff, exists_eq_left']
  constructor
  · intro hsub v hv
    obtain ⟨props, hprops, hall⟩ := @hsub (.table [] [([], v)]) ⟨_, rfl, by simpa using hv⟩
    cases hprops
    exact hall v (by simp)
  · rintro hsub v ⟨props, rfl, hall⟩
    exact ⟨props, rfl, fun x hx => hsub (hall x hx)⟩

/-- A type taken for a declared one that does not describe all of its values is so by a branch that misleads. -/
theorem Agrees.misled (ha : Agrees h declare real) (hd : Built h declare) (hr : Built h real)
    (gap : ¬ valuesOf n h real ⊆ valuesOf n h declare) : Misled n h declare real := by
  induction ha with
  | same => exact absurd subset_rfl gap
  | unchecked branch => exact .unchecked branch gap
  | basic kind plain sameKind => exact absurd (basic_subset n hr kind plain sameKind) gap
  | literals kind fits => exact absurd (literals_subset n kind fits) gap
  | emptyTable empty kind => exact absurd (emptyTable_subset n empty kind) gap
  | arrayItems kind kind' plain plain' hitem hitem' _ ih =>
    rw [array_subset_iff n kind kind' plain plain' hitem hitem'] at gap
    exact .arrayItems kind kind' plain plain' hitem hitem'
      (ih (hd.arrayItem kind plain hitem) (hr.arrayItem kind' plain' hitem') gap)
  | mapItems kind kind' plain plain' hitem hitem' _ ih =>
    rw [map_subset_iff n kind kind' plain plain' hitem hitem'] at gap
    exact .mapItems kind kind' plain plain' hitem hitem'
      (ih (hd.mapItem kind plain hitem) (hr.mapItem kind' plain' hitem') gap)
  | member kind kind' hq _ ih =>
    have gap' : ¬ valuesOf n h _ ⊆ valuesOf n h _ := fun hsub =>
      gap (hsub.trans fun v hv => by rw [valuesOf_union n kind]; exact ⟨_, hq, hv⟩)
    exact .member kind kind' hq (ih (hd.member kind hq) hr gap') gap
  | unions kind kind' size pick picked agree =>
    exact .unions kind kind' size (fun q hq => ⟨pick q, picked q hq, agree q hq⟩) gap

variable {n}

theorem Misled.gap (hm : Misled n h declare real) : ¬ valuesOf n h real ⊆ valuesOf n h declare := by
  induction hm with
  | unchecked _ gap | unions _ _ _ _ gap | member _ _ _ _ gap => exact gap
  | arrayItems kind kind' plain plain' hitem hitem' _ ih =>
    rwa [array_subset_iff n kind kind' plain plain' hitem hitem']
  | mapItems kind kind' plain plain' hitem hitem' _ ih =>
    rwa [map_subset_iff n kind kind' plain plain' hitem hitem']

theorem match_object {typeUp : Bool} (depth : Nat) (hd : (h.deref declare).etype = ltiObject) :
    matchDeclareType h (depth + 1) declare real typeUp := by
  by_cases heq : declare = real <;> by_cases hnil : (h.deref real).etype = .ltiNil <;>
    simp [matchDeclareType, heq, hnil, hd]

theorem match_arrays {d r : TypeRef} {depth : Nat} (kind : (h.deref declare).isArray)
    (kind' : (h.deref real).isArray) (hitem : (h.deref declare).arrayItemType = some d)
    (hitem' : (h.deref real).arrayItemType = some r) (accepted : matchDeclareType h depth d r true) :
    matchDeclareType h (depth + 1) declare real true := by
  simp at kind kind'
  simp [matchDeclareType, matchTables, matchItems, kind, kind', hitem, hitem', accepted]

theorem match_maps {d r : TypeRef} {depth : Nat} (kind : (h.deref declare).isMap)
    (kind' : (h.deref real).isMap) (hitem : (h.deref declare).mapItemType = some d)
    (hitem' : (h.deref real).mapItemType = some r) (accepted : matchDeclareType h depth d r true) :
    matchDeclareType h (depth + 1) declare real true := by
  simp at kind kind'
  simp [matchDeclareType, matchTables, matchItems, kind, kind', hitem, hitem', accepted]

theorem match_member {q : TypeRef} {depth : Nat} (kind : (h.deref declare).isUnion)
    (kind' : ¬ (h.deref real).isUnion) (hr : Built h real) (hq : q ∈ (h.deref declare).unionTypes)
    (accepted : matchDeclareType h depth q real true) :
    matchDeclareType h (depth + 1) declare real true := by
  have hany : ∃ q ∈ (h.deref declare).unionTypes, matchDeclareType h depth q real true = true :=
    ⟨q, hq, accepted⟩
  have hk := hr.kind
  simp at kind kind' hk
  rcases hk with (((hk | hk) | hk) | hk) | hk | hk | hk | hk <;>
    simp_all [matchDeclareType, matchUnion]

theorem match_unions {depth : Nat} (kind : (h.deref declare).isUnion) (kind' : (h.deref real).isUnion)
    (size : (h.deref declare).unionTypes.length = (h.deref real).unionTypes.length)
    (accepted : ∀ q ∈ (h.deref declare).unionTypes, ∃ r ∈ (h.deref real).unionTypes,
      matchDeclareType h depth q r true = true) :
    matchDeclareType h (depth + 1) declare real true := by
  simp at kind kind'
  simp [matchDeclareType, matchUnion, kind, kind', size]
  exact .inr accepted

theorem match_basic (depth : Nat) (kind : (h.deref declare).isBasic)
    (sameKind : (h.deref declare).etype = (h.deref real).etype ∨
      (h.deref declare).etype = ltiNumber ∧ (h.deref real).etype = ltiInt) :
    matchDeclareType h (depth + 1) declare real true := by
  simp at kind
  rcases kind with ((hk | hk) | hk) | hk <;> rcases sameKind with hs | hs <;>
    simp_all [matchDeclareType, matchSameKind]

theorem match_literals (depth : Nat) (hr : Built h real) (kind : (h.deref declare).isLiteralType)
    (fits : matchLiteral (h.deref declare) (h.deref real)) :
    matchDeclareType h (depth + 1) declare real true := by
  have hk := hr.kind
  simp at kind hk
  rcases hk with (((hk | hk) | hk) | hk) | hk | hk | hk | hk <;> simp_all [matchDeclareType]

theorem Built.exists_arrayItem (hb : Built h p) (kind : (h.deref p).isArray) :
    ∃ q, (h.deref p).arrayItemType = some q ∧
      ((h.deref p).isLiteralEmptyTable → (h.deref q).etype = ltiObject) := by
  cases hb with
  | emptyArray _ _ hitem object => exact ⟨_, hitem, fun _ => object⟩
  | array _ plain hitem _ => exact ⟨_, hitem, fun hf => absurd hf plain⟩
  | basic kind' | token kind' | literalType kind' | emptyMap kind' | map kind' | union kind' =>
    simp at kind kind'
    simp [kind] at kind'

theorem Built.exists_mapItem (hb : Built h p) (kind : (h.deref p).isMap) :
    ∃ q, (h.deref p).mapItemType = some q ∧
      ((h.deref p).isLiteralEmptyTable → (h.deref q).etype = ltiObject) := by
  cases hb with
  | emptyMap _ _ hitem object => exact ⟨_, hitem, fun _ => object⟩
  | map _ plain hitem _ => exact ⟨_, hitem, fun hf => absurd hf plain⟩
  | basic kind' | token kind' | literalType kind' | emptyArray kind' | array kind' | union kind' =>
    simp at kind kind'
    simp [kind] at kind'

theorem match_emptyTable (depth : Nat) (hr : Built h real) (empty : (h.deref real).isLiteralEmptyTable)
    (kind : (h.deref declare).isArray ∧ (h.deref real).isArray ∨
      (h.deref declare).isMap ∧ (h.deref real).isMap) :
    matchDeclareType h (depth + 1) declare real true := by
  rcases kind with ⟨hk, hk'⟩ | ⟨hk, hk'⟩
  · obtain ⟨r, hitem, hobject⟩ := hr.exists_arrayItem hk'
    have hr' := hobject empty
    simp at hk hk'
    simp [matchDeclareType, matchTables, isObject, hk, hk', hitem, hr', empty]
  · obtain ⟨r, hitem, hobject⟩ := hr.exists_mapItem hk'
    have hr' := hobject empty
    simp at hk hk'
    simp [matchDeclareType, matchTables, isObject, hk, hk', hitem, hr', empty]

/-- The branches that do not look at the values accept. -/
theorem Unchecked.accepted (depth : Nat) (hd : Built h declare) (hr : Built h real)
    (hu : Unchecked (h.deref declare) (h.deref real)) :
    matchDeclareType h (depth + 2) declare real true := by
  rcases eq_or_ne declare real with rfl | hne
  · simp [matchDeclareType]
  cases hu with
  | map kind other =>
    have hk := hd.kind
    simp at kind other hk
    rcases hk with (((hk | hk) | hk) | hk) | hk | hk | hk | hk <;> simp_all [matchDeclareType]
  | oneLiteral kind fits =>
    have hlit : (h.deref real).isLiteralType := by
      simp only [GluaTypeInfo.containsLiteralItemType, Bool.and_eq_true] at fits
      exact fits.1.1
    simp at kind hlit
    rcases kind with ((hk | hk) | hk) | hk <;> simp_all [matchDeclareType]
  | token kind literal sameKind => exact match_basic (depth + 1) kind sameKind
  | emptyTable kind empty =>
    rcases kind with ⟨hk, hk'⟩ | ⟨hk, hk'⟩
    · obtain ⟨d, hitem, hobject⟩ := hd.exists_arrayItem hk
      obtain ⟨r, hitem', -⟩ := hr.exists_arrayItem hk'
      exact match_arrays hk hk' hitem hitem' (match_object depth (hobject empty))
    · obtain ⟨d, hitem, hobject⟩ := hd.exists_mapItem hk
      obtain ⟨r, hitem', -⟩ := hr.exists_mapItem hk'
      exact match_maps hk hk' hitem hitem' (match_object depth (hobject empty))

/-- What holds one level up of a comparison that is deep enough holds of every comparison deep enough. -/
theorem eventually_succ {p q : Nat → Prop} (hp : ∀ᶠ depth in atTop, p depth)
    (hpq : ∀ depth, p depth → q (depth + 1)) : ∀ᶠ depth in atTop, q depth := by
  rw [← map_add_atTop_eq_nat 1, eventually_map]
  exact hp.mono hpq

theorem eventually_one {q : Nat → Prop} (hq : ∀ depth, q (depth + 1)) : ∀ᶠ depth in atTop, q depth :=
  eventually_succ (.of_forall fun _ => trivial) fun depth _ => hq depth

/-- A type that agrees by the rules is accepted, once there is depth enough for the comparisons. -/
theorem Agrees.accepted (ha : Agrees h declare real) (hd : Built h declare) (hr : Built h real) :
    ∀ᶠ depth in atTop, matchDeclareType h depth declare real true := by
  induction ha with
  | same => exact eventually_one fun _ => by simp [matchDeclareType]
  | unchecked branch =>
    refine eventually_atTop.2 ⟨2, fun depth hle => ?_⟩
    obtain ⟨depth, rfl⟩ := Nat.exists_eq_add_of_le' hle
    exact branch.accepted depth hd hr
  | basic kind plain sameKind =>
    exact eventually_one fun depth => match_basic depth kind sameKind
  | literals kind fits => exact eventually_one fun depth => match_literals depth hr kind fits
  | emptyTable empty kind => exact eventually_one fun depth => match_emptyTable depth hr empty kind
  | arrayItems kind kind' plain plain' hitem hitem' _ ih =>
    exact eventually_succ (ih (hd.arrayItem kind plain hitem) (hr.arrayItem kind' plain' hitem'))
      fun _ => match_arrays kind kind' hitem hitem'
  | mapItems kind kind' plain plain' hitem hitem' _ ih =>
    exact eventually_succ (ih (hd.mapItem kind plain hitem) (hr.mapItem kind' plain' hitem'))
      fun _ => match_maps kind kind' hitem hitem'
  | member kind kind' hq _ ih =>
    exact eventually_succ (ih (hd.member kind hq) hr) fun _ => match_member kind kind' hr hq
  | unions kind kind' size pick picked _ ih =>
    have hall := (eventually_all_finite (List.finite_toSet _)).2 fun q hq =>
      ih q hq (hd.member kind hq) (hr.member kind' (picked q hq))
    exact eventually_succ hall fun _ hdepth => match_unions kind kind' size fun q hq =>
      ⟨pick q, picked q hq, hdepth q hq⟩

variable (n)

end Kinds

end Achain.Glua
