import Achain.Proofs.ComparedSort
import Achain.Proofs.TableTraversal

/-!
# The order of the pairs of a table

The loop over `pairs` goes through the keys with a value, numbers by value and then strings by length
and characters, for every table without boolean keys whose two lists `table.sort` takes. It yields the
text of a boolean key in its place, with what the table has under the text.
-/

namespace Achain.Glua

/-! ## Sorted lists -/

section Sorting

variable {α K : Type} [LinearOrder K] {l : List α}

theorem map_getD_range' (l : List α) (d : α) :
    (List.range' 1 l.length).map (fun i => l.getD (i - 1) d) = l := by
  refine List.ext_getElem (by simp) fun i hi hl => ?_
  simp [hl]

theorem tableSort_ok (less : α → α → Bool) (key : α → K) (clock : Nat → Nat) (readings : Nat)
    (hless : ∀ a ∈ l, ∀ b ∈ l, less a b = decide (key a < key b))
    (hlength : l.length < intMax) : ∃ l' readings', tableSort less clock readings l = some (l', readings') ∧
      l'.Perm l ∧ l'.Pairwise fun a b => key a ≤ key b := by
  match l with
  | [] => exact ⟨[], readings, rfl, .refl _, .nil⟩
  | [x] => exact ⟨[x], readings, rfl, .refl _, List.pairwise_singleton _ _⟩
  | x :: y :: l =>
    rw [tableSort]
    generalize ha : x :: y :: l = a at hless hlength
    have hx : x ∈ a := ha ▸ List.mem_cons_self
    have hmem (i : Nat) : a.getD (i - 1) x ∈ a := by
      rw [List.getD_eq_getElem?_getD]
      cases hi : a[i - 1]? with
      | none => exact hx
      | some v => exact List.mem_of_getElem? hi
    have hall (v w : α) (hv : v ∈ a) (hw : w ∈ a) := hless v hv w hw
    obtain ⟨s, hrun, hperm, hsorted⟩ := memorySort_ok hall clock (n := a.length)
      (s := ⟨fun i => a.getD (i - 1) x, readings⟩) hmem
    refine ⟨(List.range' 1 a.length).map s.values, s.readings, ?_, ?_, ?_⟩
    · simp only [if_pos hlength, hrun]
    · exact hperm.perm.trans (.of_eq (map_getD_range' a x))
    · rw [List.pairwise_map]
      refine List.Pairwise.imp_of_mem ?_ (List.pairwise_lt_range' (s := 1) (n := a.length))
      intro i j hi hj hij
      rw [List.mem_range'_1] at hi hj
      exact hsorted i j hi.1 hij.le (by omega)

theorem length_of_tableSort {less : α → α → Bool} {clock : Nat → Nat} {readings : Nat}
    {r : List α × Nat} (h : tableSort less clock readings l = some r) :
    l.length < intMax := by
  match l with
  | [] => exact Nat.zero_lt_succ _
  | [x] => exact Nat.succ_lt_succ (Nat.zero_lt_succ _)
  | x :: y :: l =>
    rw [tableSort] at h
    split_ifs at h with hlength
    exact hlength

end Sorting

/-! ## The order of the keys -/

namespace Key

/-- Numbers by value, then strings by length and characters. Nothing is said of booleans. -/
def Before : Key → Key → Prop
  | number m, number n => m.value < n.value
  | number _, string _ => True
  | string l, string r => shortlexKey l < shortlexKey r
  | string _, number _ => False
  | _, _ => True

theorem number?_eq_some {k : Key} {n : LuaNumber} : k.number? = some n ↔ k = number n := by
  cases k <;> simp [number?]

theorem tostring?_eq_some {k : Key} {s : Str} (hk : ∀ b, k ≠ boolean b) :
    k.tostring? = some s ↔ k = string s := by
  cases k with
  | number n => simp [tostring?]
  | string r => simp [tostring?]
  | boolean b => exact absurd rfl (hk b)

/-- Two keys other than booleans do not both come before each other. -/
theorem eq_of_before {k k' : Key} (hk : ∀ b, k ≠ boolean b) (hk' : ∀ b, k' ≠ boolean b)
    (h : k.Before k') (h' : k'.Before k) : k = k' := by
  cases k with
  | boolean b => exact absurd rfl (hk b)
  | number m =>
    cases k' with
    | boolean b => exact absurd rfl (hk' b)
    | number n => exact absurd h' (lt_asymm h)
    | string s => exact h'.elim
  | string l =>
    cases k' with
    | boolean b => exact absurd rfl (hk' b)
    | number n => exact h.elim
    | string r => exact absurd h' (lt_asymm (show shortlexKey l < shortlexKey r from h))

end Key

/-- What is in order and has no element twice is in strict order. -/
theorem pairwise_lt_of_le {α K : Type} [LinearOrder K] {key : α → K} {l : List α}
    (hkey : ∀ a ∈ l, ∀ b ∈ l, key a = key b → a = b) (hnodup : l.Nodup)
    (h : l.Pairwise fun a b => key a ≤ key b) : l.Pairwise fun a b => key a < key b := by
  refine (hnodup.and h).imp_of_mem fun ha hb hab => ?_
  exact lt_of_le_of_ne hab.2 fun heq => hab.1 (hkey _ ha _ hb heq)

/-! ## The loop -/

namespace HashTable

variable {V : Type} {t t' : HashTable V} {seed : Nat} {clock : Nat → Nat}

theorem iterate_eq (t : HashTable V) (ints : List LuaNumber) (strs : List Str) {i : Nat} (hi : 0 < i) :
    t.iterate ints strs i =
      (ints.map Key.number ++ strs.map Key.string)[i - 1]?.map fun k => (k, t.get k) := by
  rw [iterate]
  split_ifs with hle
  · rw [List.getElem?_append_left (by rw [List.length_map]; omega), List.getElem?_map, Option.map_map]
    rfl
  · rw [List.getElem?_append_right (by rw [List.length_map]; omega), List.getElem?_map, Option.map_map,
      List.length_map, Nat.sub_right_comm]
    rfl

theorem forLoop_eq (t : HashTable V) (ints : List LuaNumber) (strs : List Str) : ∀ {fuel i : Nat}, 0 < i →
    ints.length + strs.length + 1 < fuel + i → t.forLoop ints strs fuel i =
      ((ints.map Key.number ++ strs.map Key.string).drop (i - 1)).map fun k => (k, t.get k)
  | 0, i, hi, hfuel => by
    rw [forLoop, List.drop_eq_nil_of_le (by simp; omega)]
    rfl
  | fuel + 1, i, hi, hfuel => by
    rw [forLoop, iterate_eq t ints strs hi]
    cases hk : (ints.map Key.number ++ strs.map Key.string)[i - 1]? with
    | none =>
      rw [List.drop_eq_nil_of_le (List.getElem?_eq_none_iff.1 hk)]
      rfl
    | some k =>
      obtain ⟨hlt, heq⟩ := List.getElem?_eq_some_iff.1 hk
      rw [List.drop_eq_getElem_cons hlt, heq, List.map_cons, Option.map_some,
        Nat.sub_add_cancel hi]
      exact congrArg _ (forLoop_eq t ints strs (Nat.succ_pos i) (by omega))

/-! ## What the loop has to go through -/

/-- The keys with a value once each, in order and with their values. -/
structure Visits (values : Key → Option V) (visited : List (Key × Option V)) : Prop where
  once : (visited.map Prod.fst).Nodup
  all : ∀ k v, values k = some v → (k, some v) ∈ visited
  only : ∀ p ∈ visited, p.2 = values p.1 ∧ (values p.1).isSome = true
  ordered : (visited.map Prod.fst).Pairwise Key.Before

/-- The loop over the pairs of all tables with these values, however they were built, is the same and goes
through everything in order. -/
def PairsVisit (t : HashTable V) : Prop :=
  ∃ visited, Visits t.values visited ∧ ∀ (t' : HashTable V) (seed : Nat) (clock : Nat → Nat),
    Built seed t' → t'.values = t.values → t'.pairs clock = some visited

/-- No boolean has a value, and `table.sort` takes the two lists of keys. -/
structure Sortable (t : HashTable V) : Prop where
  noBoolean : ∀ b, t.values (.boolean b) = none
  numbers : (t.liveKeys.filterMap Key.number?).length < intMax
  strings : (t.liveKeys.filterMap Key.tostring?).length < intMax

/-- The strings with a value are compared by length and characters. -/
def Comparable (t : HashTable V) : Prop :=
  ∀ l r, t.live (.string l) = true → t.live (.string r) = true →
    (lStrcmp l r < 0 ↔ shortlexKey l < shortlexKey r)

/-- They are if their lengths fit an `int`. -/
theorem comparable_of_lengths (h : ∀ s, t.live (.string s) = true → s.length < 2 ^ 31) : t.Comparable :=
  fun l r hl hr => lStrcmp_neg_iff (h l hl) (h r hr)

section Loop

theorem mem_numbers {n : LuaNumber} : n ∈ t.liveKeys.filterMap Key.number? ↔ .number n ∈ t.liveKeys := by
  simp [List.mem_filterMap, Key.number?_eq_some]

theorem nodup_numbers (hinv : t.Inv) : (t.liveKeys.filterMap Key.number?).Nodup := by
  refine hinv.nodup_liveKeys.filterMap fun k k' n hk hk' => ?_
  rw [Key.number?_eq_some.1 hk, Key.number?_eq_some.1 hk']

variable (hinv : t.Inv) (hbool : ∀ b, t.values (.boolean b) = none)
include hinv hbool

theorem ne_boolean {k : Key} (hk : k ∈ t.liveKeys) : ∀ b, k ≠ .boolean b := by
  rintro b rfl
  rw [hinv.mem_liveKeys, live, hbool] at hk
  cases hk

theorem mem_strings {s : Str} : s ∈ t.liveKeys.filterMap Key.tostring? ↔ .string s ∈ t.liveKeys := by
  rw [List.mem_filterMap]
  constructor
  · rintro ⟨k, hk, heq⟩
    rwa [← (Key.tostring?_eq_some (ne_boolean hinv hbool hk)).1 heq]
  · exact fun hk => ⟨_, hk, rfl⟩

theorem nodup_strings : (t.liveKeys.filterMap Key.tostring?).Nodup := by
  rw [List.Nodup, List.pairwise_filterMap]
  refine hinv.nodup_liveKeys.imp_of_mem fun hk hk' hne s hs s' hs' heq => hne ?_
  rw [(Key.tostring?_eq_some (ne_boolean hinv hbool hk)).1 hs,
    (Key.tostring?_eq_some (ne_boolean hinv hbool hk')).1 hs', heq]

omit hinv hbool in
/-- The keys of the loop, in its order. -/
theorem Built.pairs_eq (h : Built seed t) (hs : t.Sortable) (hc : t.Comparable) (clock : Nat → Nat) :
    ∃ keys : List Key, t.pairs clock = some (keys.map fun k => (k, t.values k)) ∧ keys.Perm t.liveKeys ∧
      keys.Pairwise Key.Before := by
  have hinv := h.inv
  have hbool := hs.noBoolean
  have hvalid (n : LuaNumber) (hn : n ∈ t.liveKeys.filterMap Key.number?) : (Key.number n).Valid :=
    h.valid _ (hinv.mem_liveKeys.1 (mem_numbers.1 hn))
  have hlive (s : Str) (hmem : s ∈ t.liveKeys.filterMap Key.tostring?) : t.live (.string s) = true :=
    hinv.mem_liveKeys.1 ((mem_strings hinv hbool).1 hmem)
  obtain ⟨ints, readings, hints, hintsPerm, hintsSorted⟩ := tableSort_ok ltNum
    LuaNumber.value clock 0 (l := t.liveKeys.filterMap Key.number?) (fun m hm n hn => by
      rw [Bool.eq_iff_iff, decide_eq_true_eq]
      exact ltNum_iff (hvalid m hm).1 (hvalid n hn).1) hs.numbers
  obtain ⟨strs, readings', hstrs, hstrsPerm, hstrsSorted⟩ := tableSort_ok
    (fun l r => decide (lStrcmp l r < 0)) shortlexKey clock readings
    (l := t.liveKeys.filterMap Key.tostring?)
    (fun l hl r hr => decide_eq_decide.2 (hc l r (hlive l hl) (hlive r hr))) hs.strings
  have hintsStrict := pairwise_lt_of_le (fun m hm n hn => Key.number_inj
    (hvalid m (hintsPerm.mem_iff.1 hm)) (hvalid n (hintsPerm.mem_iff.1 hn)))
    (hintsPerm.nodup_iff.2 (nodup_numbers hinv)) hintsSorted
  have hstrsStrict := pairwise_lt_of_le (fun l _ r _ => shortlexKey_inj)
    (hstrsPerm.nodup_iff.2 (nodup_strings hinv hbool)) hstrsSorted
  have hordered : (ints.map Key.number ++ strs.map Key.string).Pairwise Key.Before := by
    refine List.pairwise_append.2 ⟨List.pairwise_map.2 hintsStrict, List.pairwise_map.2 hstrsStrict, ?_⟩
    intro k hk k' hk'
    obtain ⟨n, -, rfl⟩ := List.mem_map.1 hk
    obtain ⟨s, -, rfl⟩ := List.mem_map.1 hk'
    trivial
  have hmem (k : Key) : k ∈ ints.map Key.number ++ strs.map Key.string ↔ k ∈ t.liveKeys := by
    rw [List.mem_append, List.mem_map, List.mem_map]
    cases k with
    | number n => simp [hintsPerm.mem_iff.trans mem_numbers]
    | string s => simp [hstrsPerm.mem_iff.trans (mem_strings hinv hbool)]
    | boolean b => simpa using fun hk => ne_boolean hinv hbool hk b rfl
  refine ⟨ints.map Key.number ++ strs.map Key.string, ?_, ?_, hordered⟩
  · rw [pairs, hinv.keysAfter_none]
    show (tableSort ltNum clock 0 (t.liveKeys.filterMap Key.number?)).bind _ = _
    rw [hints]
    show (tableSort _ clock readings (t.liveKeys.filterMap Key.tostring?)).bind _ = _
    rw [hstrs]
    show some (t.forLoop ints strs (ints.length + strs.length + 1) 1) = _
    rw [forLoop_eq t ints strs Nat.zero_lt_one (Nat.lt_succ_self _), Nat.sub_self, List.drop_zero]
    refine congrArg some (List.map_congr_left fun k hk => ?_)
    rw [get, Key.normalize_of_valid (h.valid k (hinv.mem_liveKeys.1 ((hmem k).1 hk)))]
    rfl
  · refine (List.perm_ext_iff_of_nodup ?_ hinv.nodup_liveKeys).2 hmem
    refine hordered.imp_of_mem fun {k k'} hk _ hbefore heq => ?_
    subst heq
    cases k with
    | number n => exact lt_irrefl _ hbefore
    | string s => exact lt_irrefl _ hbefore
    | boolean b => exact ne_boolean hinv hbool ((hmem _).1 hk) b rfl

end Loop

/-! ## The loop goes through everything in order -/

theorem Sortable.of_perm (h : t.Sortable) (hperm : t'.liveKeys.Perm t.liveKeys)
    (hvalues : t'.values = t.values) : t'.Sortable where
  noBoolean := hvalues ▸ h.noBoolean
  numbers := (hperm.filterMap Key.number?).length_eq.trans_lt h.numbers
  strings := (hperm.filterMap Key.tostring?).length_eq.trans_lt h.strings

theorem Inv.liveKeys_perm (h : t.Inv) (h' : t'.Inv) (hvalues : t'.values = t.values) :
    t'.liveKeys.Perm t.liveKeys := by
  refine (List.perm_ext_iff_of_nodup h'.nodup_liveKeys h.nodup_liveKeys).2 fun k => ?_
  rw [h'.mem_liveKeys, h.mem_liveKeys, live, hvalues, live]

/-- Keys in order with their values. -/
theorem visits_of_keys (h : t.Inv) {keys : List Key} (hperm : keys.Perm t.liveKeys)
    (hordered : keys.Pairwise Key.Before) : Visits t.values (keys.map fun k => (k, t.values k)) := by
  have hkeys : (keys.map fun k => (k, t.values k)).map Prod.fst = keys := by
    rw [List.map_map]
    exact List.map_id _
  refine ⟨?_, fun k v hv => ?_, fun p hp => ?_, ?_⟩
  · rw [hkeys]
    exact hperm.nodup_iff.2 h.nodup_liveKeys
  · refine List.mem_map.2 ⟨k, hperm.mem_iff.2 (h.mem_liveKeys.2 ?_), by rw [hv]⟩
    rw [live, hv]
    rfl
  · obtain ⟨k, hk, rfl⟩ := List.mem_map.1 hp
    exact ⟨rfl, h.mem_liveKeys.1 (hperm.mem_iff.1 hk)⟩
  · rwa [hkeys]

theorem pairsVisit_of_sortable (h : Built seed t) (hs : t.Sortable) (hc : t.Comparable) :
    t.PairsVisit := by
  obtain ⟨keys, -, hperm, hordered⟩ := h.pairs_eq hs hc fun _ => 0
  refine ⟨_, visits_of_keys h.inv hperm hordered, fun t' seed' clock h' hvalues => ?_⟩
  have hlive := h.inv.liveKeys_perm h'.inv hvalues
  have hc' : t'.Comparable := by
    unfold Comparable live
    rw [hvalues]
    exact hc
  obtain ⟨keys', hpairs, hperm', hordered'⟩ := h'.pairs_eq (hs.of_perm hlive hvalues) hc' clock
  have hne (k : Key) (hk : k ∈ t.liveKeys) := ne_boolean h.inv hs.noBoolean hk
  have hsame : keys' = keys := by
    refine List.Perm.eq_of_pairwise (fun k k' hk hk' => ?_) hordered' hordered
      ((hperm'.trans hlive).trans hperm.symm)
    exact Key.eq_of_before (hne k (hlive.mem_iff.1 (hperm'.mem_iff.1 hk))) (hne k' (hperm.mem_iff.1 hk'))
  rw [hpairs, hsame, hvalues]

/-- A loop over the pairs has sorted both lists, and goes through numbers and strings. -/
theorem Inv.of_pairs (h : t.Inv) {visited : List (Key × Option V)} (hpairs : t.pairs clock = some visited) :
    (t.liveKeys.filterMap Key.number?).length < intMax ∧
      (t.liveKeys.filterMap Key.tostring?).length < intMax ∧
        ∃ (ints : List LuaNumber) (strs : List Str), visited =
          (ints.map Key.number ++ strs.map Key.string).map fun k => (k, t.get k) := by
  rw [pairs, h.keysAfter_none] at hpairs
  obtain ⟨keys, hkeys, hpairs⟩ := Option.bind_eq_some_iff.1 hpairs
  cases hkeys
  obtain ⟨⟨ints, readings⟩, hints, hpairs⟩ := Option.bind_eq_some_iff.1 hpairs
  obtain ⟨⟨strs, readings'⟩, hstrs, hpairs⟩ := Option.bind_eq_some_iff.1 hpairs
  refine ⟨length_of_tableSort hints, length_of_tableSort hstrs, ints, strs, ?_⟩
  rw [← Option.some.inj hpairs, forLoop_eq t ints strs Nat.zero_lt_one (Nat.lt_succ_self _), Nat.sub_self,
    List.drop_zero]

theorem sortable_of_pairsVisit (h : Built seed t) (hp : t.PairsVisit) : t.Sortable := by
  obtain ⟨visited, hvisits, hall⟩ := hp
  obtain ⟨hnumbers, hstrings, ints, strs, rfl⟩ := h.inv.of_pairs (hall t seed (fun _ => 0) h rfl)
  refine ⟨fun b => ?_, hnumbers, hstrings⟩
  cases hb : t.values (.boolean b) with
  | none => rfl
  | some v =>
    obtain ⟨k, hk, heq⟩ := List.mem_map.1 (hvisits.all _ v hb)
    simp [(Prod.mk.inj heq).1] at hk

/-- `pairs` goes through everything once and in order, however the table was built, only if no boolean has
a value and `table.sort` takes the lists of keys, and then if the strings are compared by length and
characters. -/
theorem pairs_visit (h : Built seed t) :
    (t.PairsVisit → t.Sortable) ∧ (t.Sortable ∧ t.Comparable → t.PairsVisit) :=
  ⟨sortable_of_pairsVisit h, fun hs => pairsVisit_of_sortable h hs.1 hs.2⟩

/-- `{b = 6, [3] = 4}`, with `aa` stored later. -/
def mixed : HashTable ℕ :=
  (((HashTable.ofSizes 7 0 2).set 7 (.string "b".toList) (some 6)).set 7 (.integer 3) (some 4)).set 7
    (.string "aa".toList) (some 7)

theorem mixed_built : Built 7 mixed := by
  have hconstructor :
      Built 7 ((HashTable.ofSizes 7 0 2 : HashTable ℕ).set 7 (.string "b".toList) (some 6)) :=
    .set (k := .string "b".toList) _ (.ofSizes (by decide)) nofun rfl
  refine .set (k := .string "aa".toList) _
    (.set (k := .integer 3) _ hconstructor (fun i h => ?_) rfl) nofun rfl
  cases h
  decide

theorem mixed_visit : mixed.PairsVisit := by
  refine (pairs_visit mixed_built).2 ⟨⟨by decide, by decide, by decide⟩,
    comparable_of_lengths fun s hs => ?_⟩
  have hshort : ∀ k ∈ mixed.liveKeys, ∀ s ∈ k.tostring?, s.length ≤ 2 := by decide
  exact (hshort _ (mixed_built.inv.mem_liveKeys.2 hs) s rfl).trans_lt (by decide)

/-- `{[true] = ...}`. -/
def flagged : HashTable Unit := (HashTable.ofSizes 0 0 1).set 0 (.boolean true) (some ())

/-- The loop over a table with a boolean key yields a string that the table does not have. -/
theorem flagged_not_visit : Built 0 flagged ∧
    flagged.pairs (fun _ => 0) = some [(.string "true".toList, none)] ∧ ¬ flagged.PairsVisit := by
  have hbuilt : Built 0 flagged := .set (k := .boolean true) _ (.ofSizes (Nat.zero_le _)) nofun rfl
  refine ⟨hbuilt, by decide, fun hp => ?_⟩
  have hnone := (sortable_of_pairsVisit hbuilt hp).noBoolean true
  cases hnone

end HashTable

end Achain.Glua
