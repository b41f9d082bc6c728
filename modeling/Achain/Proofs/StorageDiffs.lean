import Achain.Proofs.StorageOrder
import Achain.OtherOperations
import Achain.Lib.MapDiff
import Achain.Lib.Replay

/-!
# The difference of two tables

What a commit leaves of a table before and after, applied to what the chain has of the first, gives what
it is to have of the second, if the doubles that compare equal are the same: 0 and -0 are not, and the
change from one to the other gets lost.
-/

namespace Achain

open Table

/-! ## Values on the chain -/

/-- The item of a key in a table. -/
def StorageDataType.itemAt : StorageDataType → Str → Option StorageDataType
  | .intTable m, k | .intArray m, k => (m.lookup k).map .int
  | .numberTable m, k | .numberArray m, k => (m.lookup k).map .number
  | .boolTable m, k | .boolArray m, k => (m.lookup k).map .bool
  | .stringTable m, k | .stringArray m, k => (m.lookup k).map .string
  | _, _ => none

/-- Two tables of one type with the same items. -/
def StorageDataType.SameTable (d d' : StorageDataType) : Prop :=
  d.storageType = d'.storageType ∧ ∀ k, d.itemAt k = d'.itemAt k

/-- What is looked up in a merged table. -/
theorem StorageOperation.lookup_mergeMap {V : Type} (m b a : Map Str V) (k : Str) :
    (mergeMap m b a).lookup k = MapDiff.patch m.lookup b.lookup a.lookup k := by
  have hooks : Hooks (fun m : Map Str V => fun k => m.lookup k) (fun m k => m.erase k)
      fun m k v => m.insert k v := by
    refine ⟨fun m k k' => ?_, fun m k v k' => ?_⟩
    · by_cases hk : k' = k
      · rw [if_pos hk, hk, AList.lookup_erase]
      · rw [if_neg hk, AList.lookup_erase_ne hk]
    · by_cases hk : k' = k
      · rw [if_pos hk, hk, AList.lookup_insert]
      · rw [if_neg hk, AList.lookup_insert_ne hk]
  have hstores := hooks.read_stores (m := a) (.refl _) (b.keys.foldl (fun m k => m.erase k) m) k
  refine hstores.trans ?_
  rw [MapDiff.patch, hooks.read_removes]
  cases ha : a.lookup k with
  | some v => rfl
  | none =>
    have hkeys : k ∈ b.keys ↔ (b.lookup k).isSome = true := by
      rw [AList.lookup_isSome, AList.mem_keys]
    simp only [hkeys]

namespace Glua

open StorageOperation

/-! ## Tables of the VM -/

namespace GluaStorageValue

variable {items : List (Str × GluaStorageValue)}

theorem find_cons (key : Str) (e : Str × GluaStorageValue) :
    find key (e :: items) = if e.1 = key then some e.2 else find key items := by
  rw [find, List.find?_cons]
  by_cases hk : e.1 = key <;> simp [hk, find]

theorem find_eq_none {key : Str} : find key items = none ↔ key ∉ items.map Prod.fst := by
  induction items with
  | nil => simp [find]
  | cons e items ih =>
    rw [find_cons, List.map_cons, List.mem_cons, not_or, ← ih]
    by_cases hk : e.1 = key
    · simp [hk]
    · simp [hk, Ne.symm hk]

theorem mem_of_find {key : Str} {v : GluaStorageValue} (h : find key items = some v) :
    (key, v) ∈ items := by
  obtain ⟨e, he, rfl⟩ := Option.map_eq_some_iff.1 h
  obtain rfl : e.1 = key := by simpa using List.find?_some he
  exact List.mem_of_find?_eq_some he

/-- What is looked up in a map filled from a table. -/
theorem lookup_itemsAs {V : Type} (read : GluaStorageValue → V) (hnodup : (items.map Prod.fst).Nodup)
    (key : Str) : (itemsAs read items).lookup key = (find key items).map read := by
  let entry (e : Str × V) : Sigma fun _ : Str => V := ⟨e.1, e.2⟩
  have hperm : (((items.map fun e => (e.1, read e.2)).insertionSort
      fun a b => strLe a.1 b.1 = true).map entry).Perm
        ((items.map fun e => (e.1, read e.2)).map entry) :=
    (List.perm_insertionSort _ _).map _
  have hkeys : ((items.map fun e => (e.1, read e.2)).map entry).NodupKeys := by
    rw [List.NodupKeys, List.keys, List.map_map, List.map_map]
    exact hnodup
  rw [itemsAs, stdMap, AList.lookup_to_alist]
  refine (List.perm_dlookup key ((List.perm_nodupKeys hperm).2 hkeys) hperm).trans ?_
  clear hperm hkeys hnodup
  induction items with
  | nil => rfl
  | cons e items ih =>
    rw [find_cons, List.map_cons, List.map_cons]
    by_cases hk : e.1 = key
    · rw [if_pos hk, ← hk]
      exact List.dlookup_cons_eq _ _ _
    · rw [if_neg hk, List.dlookup_cons_ne _ _ (Ne.symm hk), ih]

/-- What is found among the items that have a property. -/
theorem find_filter (hnodup : (items.map Prod.fst).Nodup) (p : Str × GluaStorageValue → Bool)
    (key : Str) : find key (items.filter p) = (find key items).filter fun v => p (key, v) := by
  induction items with
  | nil => rfl
  | cons e items ih =>
    rw [List.map_cons, List.nodup_cons] at hnodup
    rw [find_cons, List.filter_cons]
    by_cases hk : e.1 = key
    · subst hk
      by_cases hp : p e = true
      · rw [if_pos hp, find_cons, if_pos rfl, if_pos rfl, Option.filter_some, if_pos hp]
      · have hnone : find e.1 items = none := find_eq_none.2 hnodup.1
        rw [if_neg hp, ih hnodup.2, hnone, if_pos rfl, Option.filter_some, if_neg hp, Option.filter_none]
    · rw [if_neg hk, ← ih hnodup.2]
      by_cases hp : p e = true
      · rw [if_pos hp, find_cons, if_neg hk]
      · rw [if_neg hp]

end GluaStorageValue

/-! ## Tables with items of one type -/

/-- The types of the items of the tables that the chain can hold. -/
inductive ElementType where
  | int | number | bool | string

namespace ElementType

/-- The value is one of the type. -/
def Holds : ElementType → GluaStorageValue → Prop
  | .int, .int _ | .number, .number _ | .bool, .bool _ | .string, .string _ => True
  | _, _ => False

/-- The type of a table or an array of such items. -/
def container : ElementType → Bool → StorageValueTypes
  | .int, isArray => if isArray then .intArray else .intTable
  | .number, isArray => if isArray then .numberArray else .numberTable
  | .bool, isArray => if isArray then .boolArray else .boolTable
  | .string, isArray => if isArray then .stringArray else .stringTable

end ElementType

/-- A table of a storage. -/
structure StorageTable (T : ElementType) where
  isArray : Bool
  items : List (Str × GluaStorageValue)
  typed : ∀ e ∈ items, T.Holds e.2
  nodupKeys : (items.map Prod.fst).Nodup

namespace StorageTable

variable (F : Platform) {T : ElementType} (s s' : StorageTable T)

def value : GluaStorageValue := .table (T.container s.isArray) s.items

/-- What is left of a change from one table to another. -/
def diff : GluaStorageChangeItem := GluaStorageChangeItem.diffIfIsTable F ⟨0, [], s.value, s'.value⟩

/-- What a storage that holds the first table holds after the change. -/
def applied : Except Exn StorageDataType :=
  updateValue (s.value.toStorageData F) ((s.diff F s').before.toStorageData F)
    ((s.diff F s').after.toStorageData F)

variable {F s s'} {v v' : GluaStorageValue} {key : Str}

theorem holds_of_find (h : GluaStorageValue.find key s.items = some v) : T.Holds v :=
  s.typed _ (GluaStorageValue.mem_of_find h)

theorem ne_null_of_find (h : GluaStorageValue.find key s.items = some v) : v.type ≠ .null := by
  have hholds := holds_of_find h
  cases T <;> cases v <;> first | exact hholds.elim | exact fun h => nomatch h

/-- The test of `diff_storage_change_if_is_table`. -/
def same (F : Platform) (v v' : GluaStorageValue) : Bool := v'.equals F v

/-- The items before and after a change are the entries by which the tables differ. -/
theorem find_diff (key : Str) :
    GluaStorageValue.find key (s.diff F s').before.items =
        MapDiff.before (same F) (GluaStorageValue.find · s.items)
          (GluaStorageValue.find · s'.items) key ∧
      GluaStorageValue.find key (s.diff F s').after.items =
        MapDiff.after (same F) (GluaStorageValue.find · s.items)
          (GluaStorageValue.find · s'.items) key := by
  refine ⟨(GluaStorageValue.find_filter s.nodupKeys _ key).trans ?_,
    (GluaStorageValue.find_filter s'.nodupKeys _ key).trans ?_⟩
  · rw [MapDiff.before]
    cases hs : GluaStorageValue.find key s.items with
    | none => rfl
    | some v =>
      have hnull := ne_null_of_find hs
      cases hs' : GluaStorageValue.find key s'.items with
      | none => simp [hs']
      | some v' => by_cases heq : v'.equals F v = true <;> simp [hs', heq, hnull, same]
  · rw [MapDiff.after]
    cases hs' : GluaStorageValue.find key s'.items with
    | none => cases GluaStorageValue.find key s.items <;> rfl
    | some v' =>
      cases hs : GluaStorageValue.find key s.items with
      | none => simp [hs]
      | some v =>
        have hnull := ne_null_of_find hs
        by_cases heq : v'.equals F v = true <;> simp [hs, heq, hnull, same]

theorem nodupKeys_diff : ((s.diff F s').before.items.map Prod.fst).Nodup ∧
    ((s.diff F s').after.items.map Prod.fst).Nodup :=
  ⟨s.nodupKeys.sublist (List.filter_sublist.map _), s'.nodupKeys.sublist (List.filter_sublist.map _)⟩

end StorageTable

/-! ## The eight types of tables -/

/-- How the chain holds tables and arrays of a type of items. -/
structure Container (F : Platform) (T : ElementType) (V : Type) where
  wrap : Bool → Map Str V → StorageDataType
  item : V → StorageDataType
  read : GluaStorageValue → V
  item_injective : Function.Injective item
  read_injective : ∀ v v', T.Holds v → T.Holds v' → read v = read v' → v = v'
  toStorageData_table : ∀ isArray items,
    (GluaStorageValue.table (T.container isArray) items).toStorageData F =
      wrap isArray (GluaStorageValue.itemsAs read items)
  updateValue_wrap : ∀ isArray isArray' m b a,
    updateValue (wrap isArray m) (wrap isArray b) (wrap isArray' a) =
      if isArray = isArray' then .ok (wrap isArray (mergeMap m b a)) else .error .fcAssert
  itemAt_wrap : ∀ isArray m k, (wrap isArray m).itemAt k = (m.lookup k).map item
  storageType_wrap : ∀ isArray m m', (wrap isArray m).storageType = (wrap isArray m').storageType

namespace Container

open GluaStorageValue

variable (F : Platform)

def ofInt : Container F .int Int64 where
  wrap isArray m := if isArray then .intArray m else .intTable m
  item := .int
  read := intValue F
  item_injective _ _ h := StorageDataType.int.inj h
  read_injective v v' hv hv' h := by
    cases v <;> first | exact hv.elim | cases v' <;> first | exact hv'.elim | exact congrArg _ h
  toStorageData_table isArray items := by cases isArray <;> rfl
  updateValue_wrap isArray isArray' m b a := by cases isArray <;> cases isArray' <;> rfl
  itemAt_wrap isArray m k := by cases isArray <;> rfl
  storageType_wrap isArray m m' := by cases isArray <;> rfl

def ofNumber : Container F .number UInt64 where
  wrap isArray m := if isArray then .numberArray m else .numberTable m
  item := .number
  read := numberValue F
  item_injective _ _ h := StorageDataType.number.inj h
  read_injective v v' hv hv' h := by
    cases v <;> first | exact hv.elim | cases v' <;> first | exact hv'.elim | exact congrArg _ h
  toStorageData_table isArray items := by cases isArray <;> rfl
  updateValue_wrap isArray isArray' m b a := by cases isArray <;> cases isArray' <;> rfl
  itemAt_wrap isArray m k := by cases isArray <;> rfl
  storageType_wrap isArray m m' := by cases isArray <;> rfl

def ofBool : Container F .bool Bool where
  wrap isArray m := if isArray then .boolArray m else .boolTable m
  item := .bool
  read := boolValue F
  item_injective _ _ h := StorageDataType.bool.inj h
  read_injective v v' hv hv' h := by
    cases v <;> first | exact hv.elim | cases v' <;> first | exact hv'.elim | exact congrArg _ h
  toStorageData_table isArray items := by cases isArray <;> rfl
  updateValue_wrap isArray isArray' m b a := by cases isArray <;> cases isArray' <;> rfl
  itemAt_wrap isArray m k := by cases isArray <;> rfl
  storageType_wrap isArray m m' := by cases isArray <;> rfl

def ofString : Container F .string Str where
  wrap isArray m := if isArray then .stringArray m else .stringTable m
  item := .string
  read := stringValue F
  item_injective _ _ h := StorageDataType.string.inj h
  read_injective v v' hv hv' h := by
    cases v <;> first | exact hv.elim | cases v' <;> first | exact hv'.elim | exact congrArg _ h
  toStorageData_table isArray items := by cases isArray <;> rfl
  updateValue_wrap isArray isArray' m b a := by cases isArray <;> cases isArray' <;> rfl
  itemAt_wrap isArray m k := by cases isArray <;> rfl
  storageType_wrap isArray m m' := by cases isArray <;> rfl

variable {F} {T : ElementType} {V : Type} (C : Container F T V) (s s' : StorageTable T)

include C in
/-- A change is applied if the tables are both arrays or both not, and what compares equal is the same. -/
theorem applied_iff :
    (∃ d, s.applied F s' = .ok d ∧ d.SameTable (s'.value.toStorageData F)) ↔
      s.isArray = s'.isArray ∧ ∀ key v v', find key s.items = some v → find key s'.items = some v' →
        v'.equals F v = true → v' = v := by
  have happlied : s.applied F s' =
      updateValue (C.wrap s.isArray (itemsAs C.read s.items))
        (C.wrap s.isArray (itemsAs C.read (s.diff F s').before.items))
        (C.wrap s'.isArray (itemsAs C.read (s.diff F s').after.items)) := by
    rw [← C.toStorageData_table, ← C.toStorageData_table, ← C.toStorageData_table]
    rfl
  rw [happlied, C.updateValue_wrap]
  by_cases harray : s.isArray = s'.isArray
  · rw [if_pos harray, and_iff_right harray]
    have hitems : ∀ key, (mergeMap (itemsAs C.read s.items)
        (itemsAs C.read (s.diff F s').before.items)
        (itemsAs C.read (s.diff F s').after.items)).lookup key =
        MapDiff.patch (fun k => (find k s.items).map C.read)
          (fun k => (MapDiff.before (StorageTable.same F) (find · s.items) (find · s'.items) k).map C.read)
          (fun k => (MapDiff.after (StorageTable.same F) (find · s.items) (find · s'.items) k).map C.read)
          key := by
      intro key
      rw [lookup_mergeMap, MapDiff.patch, MapDiff.patch, lookup_itemsAs C.read s.nodupKeys,
        lookup_itemsAs C.read StorageTable.nodupKeys_diff.1,
        lookup_itemsAs C.read StorageTable.nodupKeys_diff.2, (StorageTable.find_diff key).1,
        (StorageTable.find_diff key).2]
    have hsame : ∀ d, (C.wrap s.isArray d).SameTable (s'.value.toStorageData F) ↔
        ∀ key, d.lookup key = (find key s'.items).map C.read := by
      intro d
      have hvalue : s'.value.toStorageData F = C.wrap s'.isArray (itemsAs C.read s'.items) :=
        C.toStorageData_table _ _
      rw [StorageDataType.SameTable, hvalue, harray, and_iff_right (C.storageType_wrap _ _ _)]
      refine forall_congr' fun key => ?_
      rw [C.itemAt_wrap, C.itemAt_wrap, (Option.map_injective C.item_injective).eq_iff,
        lookup_itemsAs C.read s'.nodupKeys]
    simp only [Except.ok.injEq, exists_eq_left', hsame, hitems]
    rw [MapDiff.patch_iff]
    refine forall_congr' fun key => forall₂_congr fun v v' => forall₂_congr fun hv hv' => ?_
    refine imp_congr_right fun _ => ⟨fun hread => ?_, fun heq => heq ▸ rfl⟩
    exact (C.read_injective v v' (StorageTable.holds_of_find hv) (StorageTable.holds_of_find hv')
      hread).symm
  · rw [if_neg harray]
    refine iff_of_false ?_ fun h => harray h.1
    rintro ⟨d, hd, -⟩
    cases hd

end Container

/-! ## The difference -/

section Equal

variable {F : Platform} {T : ElementType} {v v' : GluaStorageValue}

/-- Of the types of items, only doubles compare in another way than they are the same. -/
theorem ElementType.Holds.equals_iff (hv : T.Holds v) (hv' : T.Holds v')
    (h : ∀ x y, v = .number x → v' = .number y → (F.equal y x = true ↔ y = x)) :
    v'.equals F v = true ↔ v' = v := by
  cases T <;> cases v <;> first | exact hv.elim | cases v' <;> first | exact hv'.elim | skip
  · rw [GluaStorageValue.equals, beq_iff_eq, GluaStorageValue.int.injEq]
  · rw [GluaStorageValue.equals, h _ _ rfl rfl, GluaStorageValue.number.injEq]
  · rw [GluaStorageValue.equals, beq_iff_eq, GluaStorageValue.bool.injEq]
  · rw [GluaStorageValue.equals, beq_iff_eq, GluaStorageValue.string.injEq]

end Equal

namespace StorageTable

variable (F : Platform) {T : ElementType} (s s' : StorageTable T)

theorem applied_iff :
    (∃ d, s.applied F s' = .ok d ∧ d.SameTable (s'.value.toStorageData F)) ↔
      s.isArray = s'.isArray ∧ ∀ key v v', GluaStorageValue.find key s.items = some v →
        GluaStorageValue.find key s'.items = some v' → v'.equals F v = true → v' = v := by
  cases T with
  | int => exact (Container.ofInt F).applied_iff s s'
  | number => exact (Container.ofNumber F).applied_iff s s'
  | bool => exact (Container.ofBool F).applied_iff s s'
  | string => exact (Container.ofString F).applied_iff s s'

/-- A change is applied, and mentions nothing that is the same, if the tables are both arrays or both not
and the doubles of a key compare equal exactly if they are the same. -/
theorem diff_applied_iff :
    (∃ d, s.applied F s' = .ok d ∧ d.SameTable (s'.value.toStorageData F)) ∧
        (∀ key v, GluaStorageValue.find key s.items = some v →
          GluaStorageValue.find key s'.items = some v →
          GluaStorageValue.find key (s.diff F s').before.items = none ∧
            GluaStorageValue.find key (s.diff F s').after.items = none) ↔
      s.isArray = s'.isArray ∧ ∀ key x y, GluaStorageValue.find key s.items = some (.number x) →
        GluaStorageValue.find key s'.items = some (.number y) → (F.equal y x = true ↔ y = x) := by
  have hmentioned := MapDiff.not_mentioned_iff (same F) (GluaStorageValue.find · s.items)
    (GluaStorageValue.find · s'.items)
  simp only [← (find_diff _).1, ← (find_diff _).2] at hmentioned
  rw [applied_iff, hmentioned, and_assoc]
  refine and_congr_right fun _ => ?_
  constructor
  · rintro ⟨hsame, hself⟩ key x y hx hy
    refine ⟨fun heq => ?_, ?_⟩
    · exact GluaStorageValue.number.inj (hsame key _ _ hx hy heq)
    · rintro rfl
      exact hself key _ hx hy
  · intro h
    have hequals : ∀ key v v', GluaStorageValue.find key s.items = some v →
        GluaStorageValue.find key s'.items = some v' → (v'.equals F v = true ↔ v' = v) := by
      intro key v v' hv hv'
      refine (holds_of_find hv).equals_iff (holds_of_find hv') ?_
      rintro x y rfl rfl
      exact h key x y hv hv'
    exact ⟨fun key v v' hv hv' => (hequals key v v' hv hv').1,
      fun key v hv hv' => (hequals key v v hv hv').2 rfl⟩

/-- A table of doubles with one key. -/
def oneDouble (bits : UInt64) : StorageTable .number where
  isArray := false
  items := [(['a'], .number bits)]
  typed e he := by
    rw [List.mem_singleton.1 he]
    trivial
  nodupKeys := List.nodup_singleton _

end StorageTable

/-- A machine that compares doubles: the two zeros are equal, and what is not a number is not equal to
itself. -/
def Platform.ieee : Platform :=
  { Platform.plain with
    equal := fun x y =>
      (x <<< 1 == 0 && y <<< 1 == 0) || (x == y && x <<< 1 ≤ 0xFFE0000000000000) }

/-- The change from 0 to -0 is not applied. -/
theorem zero_sign_lost : ¬ ∃ d,
    (StorageTable.oneDouble 0).applied .ieee (StorageTable.oneDouble 0x8000000000000000) = .ok d ∧
      d.SameTable ((StorageTable.oneDouble 0x8000000000000000).value.toStorageData .ieee) := by
  rw [StorageTable.applied_iff]
  rintro ⟨-, hsame⟩
  have heq := GluaStorageValue.number.inj (hsame ['a'] _ _ rfl rfl (by decide))
  exact absurd heq (by decide)

end Glua

end Achain
