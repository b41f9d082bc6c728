import Mathlib.Order.FixedPoints
import Mathlib.Data.Set.Lattice
import Mathlib.Order.CompletePartialOrder
import Achain.Glua.TypeChecker

/-!
# What types describe

Types point to each other and may come to contain themselves, so the values of a type are the least solution
of what the objects say of the values of the types they point to.
-/

namespace Achain.Glua

/-- A value with floating point numbers of some kind. The empty table has neither items nor properties. -/
inductive TypeValue (F : Type) where
  | nil
  | bool (b : Bool)
  | int (i : Int)
  | flt (x : F)
  | string (s : Str)
  | table (items : List (TypeValue F)) (props : List (Str × TypeValue F))

/-- What the texts of numerals stand for. -/
structure Numerals (F : Type) where
  int : Str → Int
  flt : Str → F

def zeroNumerals : Numerals Nat := ⟨fun _ => 0, fun _ => 0⟩

variable {F : Type} (n : Numerals F)

/-- The value of a literal. -/
def literalValue (item : GluaParserToken) : Option (TypeValue F) :=
  match item.type with
  | .ltkNil => some .nil
  | .ltkTrue => some (.bool true)
  | .ltkFalse => some (.bool false)
  | .ltkInt => some (.int (n.int item.token))
  | .ltkFlt => some (.flt (n.flt item.token))
  | .ltkString => some (.string item.token)
  | _ => none

/-- The items of a table whose item type is given; an empty table literal has none. -/
def Filled (isLiteralEmptyTable : Bool) (item : Option TypeRef) (values : TypeRef → Set (TypeValue F))
    (items : List (TypeValue F)) : Prop :=
  if isLiteralEmptyTable then items = [] else ∀ x ∈ items, ∃ q ∈ item, x ∈ values q

/-- The values of a type object, given those of the types it points to. Records and functions are not
described here. -/
def kindValues (t : GluaTypeInfo) (values : TypeRef → Set (TypeValue F)) : Set (TypeValue F) :=
  match t.etype with
  | .ltiObject => Set.univ
  | .ltiNil => {.nil}
  | .ltiBool => {v | ∃ b, v = .bool b}
  | .ltiInt => {v | ∃ i, v = .int i}
  | .ltiNumber => {v | (∃ i, v = .int i) ∨ ∃ x, v = .flt x}
  | .ltiString => {v | ∃ s, v = .string s}
  | .ltiTable => {v | ∃ items props, v = .table items props}
  | .ltiLiteralType => {v | ∃ item ∈ t.literalTypeOptions, literalValue n item = some v}
  | .ltiArray =>
    {v | ∃ items, v = .table items [] ∧ Filled t.isLiteralEmptyTable t.arrayItemType values items}
  | .ltiMap =>
    {v | ∃ props, v = .table [] props ∧
      Filled t.isLiteralEmptyTable t.mapItemType values (props.map Prod.snd)}
  | .ltiUnion => {v | ∃ q ∈ t.unionTypes, v ∈ values q}
  | _ => ∅

/-- The type of a literal describes its value only. -/
def nodeValues (t : GluaTypeInfo) (values : TypeRef → Set (TypeValue F)) : Set (TypeValue F) :=
  if t.isLiteralItemType ∧ t.isLiteralTokenValue then {v | literalValue n t.literalValueToken = some v}
  else kindValues n t values

/-- The types whose values the values of an object depend on. -/
def GluaTypeInfo.itemTypes (t : GluaTypeInfo) : List TypeRef :=
  t.unionTypes ++ t.arrayItemType.toList ++ t.mapItemType.toList

section Monotone

variable {values values' : TypeRef → Set (TypeValue F)}

theorem Filled.mono {empty : Bool} {item : Option TypeRef} {items : List (TypeValue F)}
    (hsub : ∀ q ∈ item, values q ⊆ values' q) (hf : Filled empty item values items) :
    Filled empty item values' items := by
  unfold Filled at hf ⊢
  split_ifs at hf ⊢
  · exact hf
  intro x hx
  obtain ⟨q, hq, hv⟩ := hf x hx
  exact ⟨q, hq, hsub q hq hv⟩

theorem kindValues_mono (t : GluaTypeInfo) (hsub : ∀ q ∈ t.itemTypes, values q ⊆ values' q) :
    kindValues n t values ⊆ kindValues n t values' := by
  intro v hv
  cases hk : t.etype <;> simp only [kindValues, hk] at hv ⊢
  case ltiArray =>
    obtain ⟨items, rfl, hf⟩ := hv
    exact ⟨items, rfl, hf.mono fun q hq => hsub q (by simp_all [GluaTypeInfo.itemTypes])⟩
  case ltiMap =>
    obtain ⟨props, rfl, hf⟩ := hv
    exact ⟨props, rfl, hf.mono fun q hq => hsub q (by simp_all [GluaTypeInfo.itemTypes])⟩
  case ltiUnion =>
    obtain ⟨q, hq, hv⟩ := hv
    exact ⟨q, hq, hsub q (by simp [GluaTypeInfo.itemTypes, hq]) hv⟩
  all_goals exact hv

theorem nodeValues_mono (t : GluaTypeInfo) (hsub : ∀ q ∈ t.itemTypes, values q ⊆ values' q) :
    nodeValues n t values ⊆ nodeValues n t values' := by
  unfold nodeValues
  split_ifs
  · exact subset_rfl
  · exact kindValues_mono n t hsub

end Monotone

variable (h : TypeHeap)

def valuesStep : (TypeRef → Set (TypeValue F)) →o (TypeRef → Set (TypeValue F)) where
  toFun values p := nodeValues n (h.deref p) values
  monotone' _ _ hle p := nodeValues_mono n (h.deref p) fun q _ => hle q

/-- The values that the types of a heap describe. -/
def valuesOf : TypeRef → Set (TypeValue F) := (valuesStep n h).lfp

theorem valuesOf_eq (p : TypeRef) : valuesOf n h p = nodeValues n (h.deref p) (valuesOf n h) :=
  (congrFun (valuesStep n h).map_lfp p).symm

/-- The types that the types below a bound depend on are below it. -/
def TypeHeap.Closed (bound : Nat) : Prop := ∀ p < bound, ∀ q ∈ (h.deref p).itemTypes, q < bound

variable {h} {bound : Nat} {values : TypeRef → Set (TypeValue F)}

/-- Sets that take in what the objects say of them take in the values of the types. -/
theorem valuesOf_subset (hc : h.Closed bound)
    (hstep : ∀ p < bound, nodeValues n (h.deref p) values ⊆ values p) {p : TypeRef} (hp : p < bound) :
    valuesOf n h p ⊆ values p := by
  let below : TypeRef → Set (TypeValue F) := fun q => {v | q < bound → v ∈ values q}
  have hle : valuesOf n h ≤ below := by
    refine (valuesStep n h).lfp_le fun q v hv hq => hstep q hq ?_
    have hmono : nodeValues n (h.deref q) below ⊆ nodeValues n (h.deref q) values :=
      nodeValues_mono n _ fun r hr w hw => hw (hc q hq r hr)
    exact hmono hv
  exact fun v hv => hle p hv hp

theorem valuesOf_congr {h' : TypeHeap} (hc : h.Closed bound) (hsame : ∀ p < bound, h'.deref p = h.deref p)
    {p : TypeRef} (hp : p < bound) : valuesOf n h' p = valuesOf n h p := by
  have hc' : h'.Closed bound := fun q hq => (hsame q hq).symm ▸ hc q hq
  refine subset_antisymm (valuesOf_subset n hc' (fun q hq => ?_) hp)
    (valuesOf_subset n hc (fun q hq => ?_) hp)
  · rw [hsame q hq, ← valuesOf_eq]
  · rw [← hsame q hq, ← valuesOf_eq]

/-! ## One object changed -/

/-- The objects below a bound are as before but for one, which describes no less. -/
structure Grown (h h' : TypeHeap) (bound : Nat) (c : TypeRef) : Prop where
  closed : h.Closed bound
  lt : c < bound
  same : ∀ p < bound, p ≠ c → h'.deref p = h.deref p
  items : ∀ q ∈ (h'.deref c).itemTypes, q < bound
  grows : ∀ values, nodeValues n (h.deref c) values ⊆ nodeValues n (h'.deref c) values

namespace Grown

variable {n} {h' : TypeHeap} {c : TypeRef} (g : Grown n h h' bound c)

include g in
theorem closed' : h'.Closed bound := by
  intro p hp
  rcases eq_or_ne p c with rfl | hne
  · exact g.items
  · rw [g.same p hp hne]
    exact g.closed p hp

include g in
theorem subset {p : TypeRef} (hp : p < bound) : valuesOf n h p ⊆ valuesOf n h' p := by
  refine valuesOf_subset n g.closed (fun q hq => ?_) hp
  rw [valuesOf_eq n h' q]
  rcases eq_or_ne q c with rfl | hne
  · exact g.grows _
  · rw [g.same q hq hne]

include g in
/-- All types describe what they did if the changed object describes no more than before, given what the
types it points to described. -/
theorem keeps_iff : (∀ p < bound, valuesOf n h' p = valuesOf n h p) ↔
    nodeValues n (h'.deref c) (valuesOf n h) ⊆ valuesOf n h c := by
  constructor
  · intro hk
    have hmono : nodeValues n (h'.deref c) (valuesOf n h) ⊆ nodeValues n (h'.deref c) (valuesOf n h') :=
      nodeValues_mono n _ fun q hq => (hk q (g.items q hq)).ge
    rw [← valuesOf_eq, hk c g.lt] at hmono
    exact hmono
  · intro hsub p hp
    refine subset_antisymm (valuesOf_subset n g.closed' (fun q hq => ?_) hp) (g.subset hp)
    rcases eq_or_ne q c with rfl | hne
    · exact hsub
    · rw [g.same q hq hne, ← valuesOf_eq]

end Grown

end Achain.Glua
