import Achain.Glua.Table

/-!
# Every key of a table has a place

A key with a value is in the array part or in one node, and there is no free node from `lastfree` on.
The insertion into a table with room keeps this, and so does the rehash, which makes nodes for as many
keys as are left after those that go to the array part.
-/

namespace Achain.Glua

namespace HashTable

variable {V : Type} {t t' : HashTable V} {seed : Nat} {k : Key}

/-! ## The layout -/

/-- No key has two nodes. -/
def Once (nodes : List (Option Key)) : Prop :=
  ∀ (i j : Nat) (k : Key), nodes[i]? = some (some k) → nodes[j]? = some (some k) → i = j

/-- No key has two places, and no node is free from `lastfree` on. -/
structure Laid (t : HashTable V) : Prop where
  once : Once t.nodes
  apart : ∀ k, some k ∈ t.nodes → t.inArray k = false
  taken : ∀ i : Nat, t.lastfree ≤ i → t.nodes[i]? ≠ some none

/-- A key in the array part or in a node. -/
def Placed (t : HashTable V) (k : Key) : Prop := t.inArray k = true ∨ some k ∈ t.nodes

theorem Laid.nodup_keys (h : t.Laid) : (t.nodes.filterMap id).Nodup := by
  rw [List.Nodup, List.pairwise_filterMap, List.pairwise_iff_getElem]
  intro i j hi hj hij k hk k' hk' heq
  have hi' : t.nodes[i]? = some (some k) := by rw [List.getElem?_eq_getElem hi]; exact congrArg some hk
  have hj' : t.nodes[j]? = some (some k) := by
    rw [List.getElem?_eq_getElem hj, heq]
    exact congrArg some hk'
  exact absurd (h.once i j k hi' hj') hij.ne

/-- A table without a free node has no more nodes than keys. -/
theorem Laid.length_le (h : t.Laid) {keys : List Key} (hkeys : ∀ k, some k ∈ t.nodes → k ∈ keys)
    (hfull : ∀ i : Nat, t.nodes[i]? ≠ some none) : t.nodes.length ≤ keys.length := by
  have hlength : (t.nodes.filterMap id).length = t.nodes.length := by
    rw [List.length_filterMap_eq_countP, List.countP_eq_length]
    intro o ho
    obtain ⟨i, hi⟩ := List.getElem?_of_mem ho
    cases o with
    | none => exact absurd hi (hfull i)
    | some k => rfl
  rw [← hlength]
  refine (List.subperm_of_subset h.nodup_keys fun k hk => hkeys k ?_).length_le
  simpa using hk

/-! ## The insertion of a key -/

theorem getfreepos_eq_some {nodes : List (Option Key)} {f : Nat} : ∀ {n : Nat},
    getfreepos nodes n = some f →
      f < n ∧ nodes[f]? = some none ∧ ∀ i : Nat, f < i → i < n → nodes[i]? ≠ some none
  | 0, h => nomatch h
  | n + 1, h => by
    rw [getfreepos] at h
    split_ifs at h with hfree
    · cases h
      exact ⟨Nat.lt_succ_self _, hfree, by omega⟩
    · obtain ⟨hlt, hnone, habove⟩ := getfreepos_eq_some h
      refine ⟨hlt.trans (Nat.lt_succ_self _), hnone, fun i hi hin => ?_⟩
      by_cases heq : i = n
      · rwa [heq]
      · exact habove i hi (by omega)

theorem getfreepos_eq_none {nodes : List (Option Key)} : ∀ {n : Nat},
    getfreepos nodes n = none → ∀ i : Nat, i < n → nodes[i]? ≠ some none
  | 0, _, i, hi => absurd hi (Nat.not_lt_zero i)
  | n + 1, h, i, hi => by
    rw [getfreepos] at h
    split_ifs at h with hfree
    by_cases heq : i = n
    · rwa [heq]
    · exact getfreepos_eq_none h i (by omega)

theorem or_one (n : Nat) : n ||| 1 = n / 2 * 2 + 1 := by
  refine Nat.eq_of_testBit_eq fun i => ?_
  rw [Nat.testBit_or]
  cases i with
  | zero => simp [Nat.testBit_zero]
  | succ i =>
    have hhalf : (n / 2 * 2 + 1) / 2 = n / 2 := by omega
    simp [Nat.testBit_succ, hhalf]

theorem mainposition_lt (seed : Nat) (k : Key) {size : Nat} (h : 0 < size) :
    mainposition seed size k < size := by
  cases k with
  | string s => exact Nat.mod_lt _ h
  | boolean b => exact Nat.mod_lt _ h
  | number n =>
    cases n with
    | integer i =>
      have hlt := Int.emod_lt_of_pos i (b := size) (by exact_mod_cast h)
      have hnonneg := Int.emod_nonneg i (b := size) (by exact_mod_cast h.ne')
      show (i % size).toNat < size
      omega
    | float bits =>
      have hodd : (size - 1) ||| 1 ≤ size := by
        rw [or_one]
        omega
      exact (Nat.mod_lt _ (Nat.pos_of_ne_zero (by simp))).trans_le hodd

section Set

variable {nodes : List (Option Key)} {k' : Key} {i j : Nat} {o : Option Key}

theorem getElem?_set_eq_some (h : (nodes.set i (some k))[j]? = some (some k')) :
    j = i ∧ k' = k ∨ nodes[j]? = some (some k') := by
  rw [List.getElem?_set] at h
  split_ifs at h with hij
  · exact .inl ⟨hij.symm, (Option.some.inj (Option.some.inj h)).symm⟩
  · exact .inr h

theorem once_set (h : Once nodes) (hk : some k ∉ nodes) : Once (nodes.set i (some k)) := by
  intro j j' k' hj hj'
  rcases getElem?_set_eq_some hj with ⟨hji, hk'⟩ | hold
  · rcases getElem?_set_eq_some hj' with ⟨hji', -⟩ | hold'
    · rw [hji, hji']
    · exact absurd (hk' ▸ List.mem_of_getElem? hold') hk
  · rcases getElem?_set_eq_some hj' with ⟨-, hk'⟩ | hold'
    · exact absurd (hk' ▸ List.mem_of_getElem? hold) hk
    · exact h j j' k' hold hold'

theorem mem_set_of_ne (h : some k' ∈ nodes) (hne : nodes[i]? ≠ some (some k')) :
    some k' ∈ nodes.set i o := by
  obtain ⟨j, hj⟩ := List.getElem?_of_mem h
  have hij : i ≠ j := fun heq => hne (heq ▸ hj)
  exact List.mem_of_getElem? ((List.getElem?_set_ne hij).trans hj)

theorem not_mem_set (h : Once nodes) (hi : nodes[i]? = some (some k')) (hne : k' ≠ k) :
    some k' ∉ nodes.set i (some k) := by
  intro hmem
  obtain ⟨j, hj⟩ := List.getElem?_of_mem hmem
  rcases getElem?_set_eq_some hj with ⟨-, heq⟩ | hj'
  · exact hne heq
  · obtain rfl := h i j k' hi hj'
    have hlt : i < nodes.length := (List.getElem?_eq_some_iff.1 hi).1
    rw [List.getElem?_set_self hlt] at hj
    exact hne (Option.some.inj (Option.some.inj hj)).symm

theorem set_ne_none (h : j = i ∨ nodes[j]? ≠ some none) : (nodes.set i (some k))[j]? ≠ some none := by
  rw [List.getElem?_set]
  split_ifs with hij
  · nofun
  · nofun
  · exact h.resolve_left (Ne.symm hij)

end Set

/-- What the insertion of a key into a node leaves. -/
structure Inserted (t t' : HashTable V) (k : Key) : Prop where
  values : t'.values = t.values
  sizearray : t'.sizearray = t.sizearray
  length : t'.nodes.length = t.nodes.length
  placed : some k ∈ t'.nodes
  new : ∀ k', some k' ∈ t'.nodes → k' = k ∨ some k' ∈ t.nodes
  kept : ∀ k', t.live k' = true → some k' ∈ t.nodes → some k' ∈ t'.nodes
  laid : Laid t'

/-- A node that is free, or whose key has no value, takes the key. -/
theorem Laid.write (h : t.Laid) (hk : some k ∉ t.nodes) (harray : t.inArray k = false) {i f : Nat}
    (hi : i < t.nodes.length) (hdead : ∀ k', t.nodes[i]? = some (some k') → t.live k' = false)
    (hf : ∀ j, f ≤ j → j = i ∨ t.nodes[j]? ≠ some none) :
    Inserted t { t with nodes := t.nodes.set i (some k), lastfree := f } k where
  values := rfl
  sizearray := rfl
  length := List.length_set
  placed := List.mem_set hi _
  new k' hk' := by
    rcases List.mem_or_eq_of_mem_set hk' with hold | heq
    · exact .inr hold
    · exact .inl (Option.some.inj heq)
  kept k' hlive hk' := mem_set_of_ne hk' fun heq => by simp [hdead k' heq] at hlive
  laid := {
    once := once_set h.once hk
    apart := fun k' hk' => by
      rcases List.mem_or_eq_of_mem_set hk' with hold | heq
      · exact h.apart k' hold
      · exact Option.some.inj heq ▸ harray
    taken := fun j hj => set_ne_none (hf j hj) }

/-- A key out of its main position makes room for another one. -/
theorem Laid.relocate (h : t.Laid) (hk : some k ∉ t.nodes) (harray : t.inArray k = false) {i f : Nat}
    {other : Key} (hi : t.nodes[i]? = some (some other)) (hfree : t.nodes[f]? = some none)
    (hf : ∀ j, f < j → t.nodes[j]? ≠ some none) :
    Inserted t { t with nodes := (t.nodes.set f (some other)).set i (some k), lastfree := f } k := by
  have hne : i ≠ f := fun heq => by simp [← heq, hi] at hfree
  have hother : other ≠ k := fun heq => hk (heq ▸ List.mem_of_getElem? hi)
  have hnew : ∀ k', some k' ∈ (t.nodes.set i (some k)).set f (some other) →
      k' = k ∨ some k' ∈ t.nodes := by
    intro k' hk'
    rcases List.mem_or_eq_of_mem_set hk' with hold | heq
    · rcases List.mem_or_eq_of_mem_set hold with hold | heq
      · exact .inr hold
      · exact .inl (Option.some.inj heq)
    · exact .inr (heq ▸ List.mem_of_getElem? hi)
  rw [List.set_comm _ _ hne.symm]
  refine ⟨rfl, rfl, by simp, ?_, hnew, fun k' _ hk' => ?_, ?_, fun k' hk' => ?_, fun j hj => ?_⟩
  · refine mem_set_of_ne (List.mem_set (List.getElem?_eq_some_iff.1 hi).1 _) ?_
    rw [List.getElem?_set_ne hne, hfree]
    nofun
  · by_cases heq : k' = other
    · exact heq ▸ List.mem_set (by simpa using (List.getElem?_eq_some_iff.1 hfree).1) _
    · refine mem_set_of_ne (mem_set_of_ne hk' ?_) ?_
      · rw [hi]
        exact fun hsame => heq (Option.some.inj (Option.some.inj hsame)).symm
      · rw [List.getElem?_set_ne hne, hfree]
        nofun
  · exact once_set (once_set h.once hk) (not_mem_set h.once hi hother)
  · rcases hnew k' hk' with rfl | hold
    · exact harray
    · exact h.apart k' hold
  · rcases hj.eq_or_lt with heq | hlt
    · exact set_ne_none (.inl heq.symm)
    · exact set_ne_none (.inr (set_ne_none (.inr (hf j hlt))))

/-- The nodes above a free one from `lastfree` down are taken. -/
theorem Laid.above_free (h : t.Laid) {f : Nat} (hfree : getfreepos t.nodes t.lastfree = some f) :
    t.nodes[f]? = some none ∧ ∀ j, f < j → t.nodes[j]? ≠ some none := by
  obtain ⟨-, hnone, habove⟩ := getfreepos_eq_some hfree
  refine ⟨hnone, fun j hj => ?_⟩
  by_cases hlast : j < t.lastfree
  · exact habove j hj hlast
  · exact h.taken j (not_lt.1 hlast)

theorem insertNode_ok (h : t.Laid) (hk : some k ∉ t.nodes) (harray : t.inArray k = false)
    (hinsert : t.insertNode seed k = some t') : Inserted t t' k := by
  unfold insertNode at hinsert
  dsimp only at hinsert
  split at hinsert
  · cases hinsert
  · next hmp =>
    cases hinsert
    exact h.write hk harray (List.getElem?_eq_some_iff.1 hmp).1 (by simp [hmp])
      fun j hj => .inr (h.taken j hj)
  · next other hmp =>
    have hlt := (List.getElem?_eq_some_iff.1 hmp).1
    by_cases hlive : t.live other = true
    · rw [if_pos hlive] at hinsert
      split at hinsert
      · cases hinsert
      · next f hfree =>
        obtain ⟨hnone, habove⟩ := h.above_free hfree
        split_ifs at hinsert
        · cases hinsert
          exact h.relocate hk harray hmp hnone habove
        · cases hinsert
          refine h.write hk harray (List.getElem?_eq_some_iff.1 hnone).1 (by simp [hnone]) fun j hj => ?_
          exact hj.eq_or_lt.imp Eq.symm (habove j)
    · rw [if_neg hlive] at hinsert
      cases hinsert
      refine h.write hk harray hlt (fun k' hk' => ?_) fun j hj => .inr (h.taken j hj)
      rw [hmp] at hk'
      cases hk'
      simpa using hlive

/-- An insertion that finds no free node needs the rehash. -/
theorem insertNode_eq_none (h : t.Laid) (hinsert : t.insertNode seed k = none) (i : Nat) :
    t.nodes[i]? ≠ some none := by
  unfold insertNode at hinsert
  dsimp only at hinsert
  split at hinsert
  · next hmp =>
    have hempty : t.nodes.length = 0 := by
      by_contra hne
      have hlt := mainposition_lt seed k (Nat.pos_of_ne_zero hne)
      exact absurd (List.getElem?_eq_none_iff.1 hmp) (not_le.2 hlt)
    rw [List.eq_nil_of_length_eq_zero hempty]
    nofun
  · cases hinsert
  · next other _ =>
    by_cases hlive : t.live other = true
    · rw [if_pos hlive] at hinsert
      split at hinsert
      · next hfree =>
        by_cases hlast : i < t.lastfree
        · exact getfreepos_eq_none hfree i hlast
        · exact h.taken i (not_lt.1 hlast)
      · split_ifs at hinsert
    · rw [if_neg hlive] at hinsert
      cases hinsert

/-! ## The rehash -/

/-- The insertion of a key into a table with fewer keys than nodes. -/
theorem Laid.reinsert (h : t.Laid) (hk : some k ∉ t.nodes) (harray : t.inArray k = false)
    (keys : List Key) (hkeys : ∀ k', some k' ∈ t.nodes → k' ∈ keys)
    (hroom : keys.length < t.nodes.length) : Inserted t (t.reinsert seed k) k := by
  rw [HashTable.reinsert, if_neg (by simp [harray])]
  cases hinsert : t.insertNode seed k with
  | some t' => exact insertNode_ok h hk harray hinsert
  | none => exact absurd (h.length_le hkeys (insertNode_eq_none h hinsert)) (not_le.2 hroom)

/-- A table after the insertion of the given keys. -/
structure Refilled (t t' : HashTable V) (keys : List Key) : Prop where
  values : t'.values = t.values
  sizearray : t'.sizearray = t.sizearray
  length : t'.nodes.length = t.nodes.length
  origin : ∀ k, some k ∈ t'.nodes → k ∈ keys ∧ t'.inArray k = false
  placed : ∀ k ∈ keys, t.live k = true → t'.Placed k
  laid : Laid t'

theorem Refilled.inArray {keys : List Key} (h : Refilled t t' keys) (k : Key) :
    t'.inArray k = t.inArray k := by
  rw [HashTable.inArray, h.sizearray, HashTable.inArray]

/-- One more key goes into a table with room for all. -/
theorem Refilled.step {done : List Key} (h : Refilled t t' done) (seed : Nat) (hk : k ∉ done)
    (hroom : ((done ++ [k]).filter fun k => !t.inArray k).length ≤ t.nodes.length) :
    Refilled t (t'.reinsert seed k) (done ++ [k]) ∧ (t'.reinsert seed k).Placed k := by
  by_cases harray : t'.inArray k = true
  · have hsame : t'.reinsert seed k = t' := if_pos harray
    rw [hsame]
    refine ⟨⟨h.values, h.sizearray, h.length, fun k' hk' => ?_, fun k' hk' hlive => ?_, h.laid⟩,
      .inl harray⟩
    · exact ⟨List.mem_append_left _ (h.origin k' hk').1, (h.origin k' hk').2⟩
    · rcases List.mem_append.1 hk' with hdone | hnew
      · exact h.placed k' hdone hlive
      · exact .inl (List.mem_singleton.1 hnew ▸ harray)
  · have harray := Bool.not_eq_true _ ▸ harray
    have hnode : some k ∉ t'.nodes := fun hmem => hk (h.origin k hmem).1
    have hins : Inserted t' (t'.reinsert seed k) k := by
      refine h.laid.reinsert hnode harray (done.filter fun k => !t.inArray k) (fun k' hk' => ?_) ?_
      · have horigin := h.origin k' hk'
        rw [h.inArray] at horigin
        simp [horigin]
      · rw [h.inArray] at harray
        rw [h.length]
        exact Nat.lt_of_succ_le (by simpa [List.filter_append, harray] using hroom)
    have hinArray (k' : Key) : (t'.reinsert seed k).inArray k' = t'.inArray k' := by
      rw [HashTable.inArray, hins.sizearray, HashTable.inArray]
    refine ⟨⟨hins.values.trans h.values, hins.sizearray.trans h.sizearray, hins.length.trans h.length,
      fun k' hk' => ?_, fun k' hk' hlive => ?_, hins.laid⟩, .inr hins.placed⟩
    · rw [hinArray]
      rcases hins.new k' hk' with rfl | hold
      · exact ⟨by simp, harray⟩
      · exact ⟨List.mem_append_left _ (h.origin k' hold).1, (h.origin k' hold).2⟩
    · rcases List.mem_append.1 hk' with hdone | hnew
      · refine (h.placed k' hdone hlive).imp (fun hin => by rwa [hinArray]) fun hin => ?_
        refine hins.kept k' ?_ hin
        rwa [live, h.values]
      · exact .inr (List.mem_singleton.1 hnew ▸ hins.placed)

theorem Refilled.foldl (seed : Nat) (keys : List Key) : ∀ {done : List Key} {t' : HashTable V},
    Refilled t t' done → (done ++ keys).Nodup →
      ((done ++ keys).filter fun k => !t.inArray k).length ≤ t.nodes.length →
        Refilled t (keys.foldl (reinsert seed) t') (done ++ keys) := by
  induction keys with
  | nil =>
    intro done t' h _ _
    rwa [List.append_nil]
  | cons k keys ih =>
    intro done t' h hnodup hroom
    have happend : done ++ k :: keys = (done ++ [k]) ++ keys := by simp
    rw [happend] at hnodup hroom ⊢
    refine ih (h.step seed ?_ ?_).1 hnodup hroom
    · have hnodup := (List.nodup_append.1 hnodup).1
      exact fun hmem => (List.nodup_append.1 hnodup).2.2 k hmem k (by simp) rfl
    · rw [List.filter_append, List.length_append] at hroom
      omega

/-! ## Resizing -/

theorem mem_arrayKeys {first : Nat} :
    k ∈ t.arrayKeys first ↔ t.live k = true ∧ ∃ i : Nat, first < i ∧ i ≤ t.sizearray ∧ k = .integer i := by
  rw [arrayKeys, List.mem_filter, List.mem_map, and_comm]
  refine and_congr_right fun _ => exists_congr fun i => ?_
  rw [List.mem_range'_1]
  constructor
  · rintro ⟨hi, rfl⟩
    exact ⟨by omega, by omega, rfl⟩
  · rintro ⟨hfirst, hlast, rfl⟩
    exact ⟨by omega, rfl⟩

theorem mem_nodeKeys : k ∈ t.nodeKeys ↔ t.live k = true ∧ some k ∈ t.nodes := by
  rw [nodeKeys, List.mem_filter, and_comm]
  simp

theorem nodup_arrayKeys (first : Nat) : (t.arrayKeys first).Nodup := by
  refine (List.Nodup.map (fun i j hij => ?_) List.nodup_range').filter _
  simpa using hij

theorem inArray_integer {i : Nat} (h : t.sizearray ≤ 2 ^ 31) (hi : 0 < i) :
    t.inArray (.integer i) = true ↔ i ≤ t.sizearray := by
  have hindex : arrayindex (.integer i) = if i ≤ 2 ^ 31 then i else 0 := by
    simp only [arrayindex]
    split_ifs <;> omega
  rw [inArray, hindex]
  split_ifs with hle
  · simp [hi.ne']
  · simp only [ne_eq, not_true_eq_false, decide_false, Bool.false_and,
      Bool.false_eq_true, false_iff]
    omega

theorem integer_of_inArray (h : t.inArray k = true) :
    ∃ i : Nat, 0 < i ∧ i ≤ t.sizearray ∧ k = .integer i := by
  rw [inArray, Bool.and_eq_true, decide_eq_true_eq, decide_eq_true_eq] at h
  unfold arrayindex at h
  split at h
  · next i =>
    split_ifs at h with hi
    · exact ⟨i.toNat, by omega, h.2, by rw [Int.toNat_of_nonneg hi.1.le]⟩
    · exact absurd rfl h.1
  · exact absurd rfl h.1

/-- A table whose keys have their places. -/
structure Inv (t : HashTable V) : Prop where
  laid : t.Laid
  placed : ∀ k, t.live k = true → t.Placed k
  bound : t.sizearray ≤ 2 ^ 31

/-- The keys that `luaH_resize` inserts again, in this order. -/
def moved (t : HashTable V) (nasize : Nat) : List Key := t.arrayKeys nasize ++ t.nodeKeys.reverse

/-- The table before they are. -/
def emptied (t : HashTable V) (nasize nhsize : Nat) : HashTable V :=
  let nodes := if nhsize = 0 then [] else List.replicate (2 ^ Nat.clog 2 nhsize) none
  { t with sizearray := nasize, nodes := nodes, lastfree := nodes.length }

theorem emptied_nodes {nasize nhsize : Nat} (h : some k ∈ (t.emptied nasize nhsize).nodes) : False := by
  unfold emptied at h
  dsimp only at h
  split_ifs at h
  · cases h
  · cases List.eq_of_mem_replicate h

theorem length_emptied (nasize nhsize : Nat) : nhsize ≤ (t.emptied nasize nhsize).nodes.length := by
  unfold emptied
  dsimp only
  split_ifs with h
  · rw [h]
    exact Nat.zero_le _
  · rw [List.length_replicate]
    exact Nat.le_pow_clog (by decide) _

theorem refilled_emptied (t : HashTable V) (nasize nhsize : Nat) :
    Refilled (t.emptied nasize nhsize) (t.emptied nasize nhsize) [] where
  values := rfl
  sizearray := rfl
  length := rfl
  origin k hk := (emptied_nodes hk).elim
  placed k hk := nomatch hk
  laid := {
    once := fun i j k hi => (emptied_nodes (List.mem_of_getElem? hi)).elim
    apart := fun k hk => (emptied_nodes hk).elim
    taken := fun i hi heq => by
      have hlt := (List.getElem?_eq_some_iff.1 heq).1
      exact absurd hlt (not_lt.2 hi) }

section Resize

variable {nasize nhsize : Nat} (h : t.Inv)
include h

theorem Inv.nodup_moved : (t.moved nasize).Nodup := by
  refine List.nodup_append.2 ⟨nodup_arrayKeys _, ?_, fun k hk k' hk' heq => ?_⟩
  · exact List.nodup_reverse.2 (h.laid.nodup_keys.filter _)
  · subst heq
    obtain ⟨-, i, hfirst, hlast, rfl⟩ := mem_arrayKeys.1 hk
    have hapart := h.laid.apart _ (mem_nodeKeys.1 (List.mem_reverse.1 hk')).2
    rw [(inArray_integer h.bound (by omega)).2 hlast] at hapart
    cases hapart

/-- A key with a value stays in the array part or is inserted again. -/
theorem Inv.moved_of_live (nasize nhsize : Nat) (hlive : t.live k = true) (hn : nasize ≤ 2 ^ 31) :
    (t.emptied nasize nhsize).inArray k = true ∨ k ∈ t.moved nasize := by
  rcases h.placed k hlive with harray | hnode
  · obtain ⟨i, hi, hlast, rfl⟩ := integer_of_inArray harray
    by_cases hle : i ≤ nasize
    · exact .inl ((inArray_integer hn hi).2 hle)
    · refine .inr (List.mem_append_left _ (mem_arrayKeys.2 ⟨hlive, i, ?_, hlast, rfl⟩))
      exact not_le.1 hle
  · exact .inr (List.mem_append_right _ (List.mem_reverse.2 (mem_nodeKeys.2 ⟨hlive, hnode⟩)))

theorem Inv.refilled_resize (seed : Nat) (hroom : ((t.moved nasize).filter fun k =>
      !(t.emptied nasize nhsize).inArray k).length ≤ (t.emptied nasize nhsize).nodes.length) :
    Refilled (t.emptied nasize nhsize) (t.resize seed nasize nhsize) (t.moved nasize) := by
  exact Refilled.foldl seed (t.moved nasize) (refilled_emptied t nasize nhsize) h.nodup_moved hroom

/-- Resizing with room for the keys. -/
theorem Inv.resize (hn : nasize ≤ 2 ^ 31) (hroom : ((t.moved nasize).filter fun k =>
      !(t.emptied nasize nhsize).inArray k).length ≤ (t.emptied nasize nhsize).nodes.length) :
    (t.resize seed nasize nhsize).Inv ∧ (t.resize seed nasize nhsize).values = t.values := by
  have hrefilled := h.refilled_resize seed hroom
  refine ⟨⟨hrefilled.laid, fun k hlive => ?_, hrefilled.sizearray.trans_le hn⟩, hrefilled.values⟩
  rw [live, hrefilled.values] at hlive
  rcases h.moved_of_live nasize nhsize hlive hn with harray | hmoved
  · exact .inl ((hrefilled.inArray k).trans harray)
  · exact hrefilled.placed k hmoved hlive

end Resize

/-! ## The sizes of a rehash -/

/-- The keys whose index is in a slice before the `i`-th. -/
def below (keys : List Key) (i : Nat) : Nat :=
  keys.countP fun k => arrayindex k ≠ 0 && Nat.clog 2 (arrayindex k) < i

theorem below_succ (keys : List Key) (i : Nat) : below keys (i + 1) = below keys i + slice keys i := by
  unfold below slice
  induction keys with
  | nil => rfl
  | cons k keys ih =>
    rw [List.countP_cons, List.countP_cons, List.countP_cons, ih]
    by_cases hindex : arrayindex k = 0
    · simp [hindex]
    · rcases lt_trichotomy (Nat.clog 2 (arrayindex k)) i with hlt | heq | hgt
      · have hlt' := hlt.trans (Nat.lt_succ_self i)
        simp [hindex, hlt, hlt', hlt.ne]
        omega
      · simp [hindex, heq]
        omega
      · have hgt' : ¬ Nat.clog 2 (arrayindex k) < i + 1 := by omega
        simp [hindex, hgt', hgt.not_gt, hgt.ne']

/-- The keys that fit an array part of the given size. -/
def fitting (keys : List Key) (size : Nat) : Nat :=
  keys.countP fun k => arrayindex k ≠ 0 && arrayindex k ≤ size

theorem below_succ_eq_fitting (keys : List Key) (i : Nat) : below keys (i + 1) = fitting keys (2 ^ i) := by
  refine List.countP_congr fun k _ => ?_
  have hclog : Nat.clog 2 (arrayindex k) < i + 1 ↔ arrayindex k ≤ 2 ^ i :=
    Nat.lt_succ_iff.trans (Nat.clog_le_iff_le_pow (by decide))
  simp only [hclog]

/-- The keys that go to the array part are those that fit it. -/
theorem computesizesLoop_fitting (keys : List Key) (pna : Nat) : ∀ {fuel i na optimal : Nat},
    i + fuel = 32 → optimal ≤ 2 ^ 31 → na = fitting keys optimal →
      let sizes := computesizesLoop (slice keys) pna fuel i (below keys i) na optimal
      sizes.1 ≤ 2 ^ 31 ∧ sizes.2 = fitting keys sizes.1
  | 0, _, _, _, _, hle, hna => ⟨hle, hna⟩
  | fuel + 1, i, na, optimal, hi, hle, hna => by
    rw [computesizesLoop, ← below_succ]
    split_ifs
    · refine computesizesLoop_fitting keys pna (by omega) ?_ (below_succ_eq_fitting keys i)
      exact Nat.pow_le_pow_right (by decide) (by omega)
    · exact computesizesLoop_fitting keys pna (by omega) hle hna
    · exact ⟨hle, hna⟩

theorem computesizes_fitting (keys : List Key) (pna : Nat) :
    (computesizes (slice keys) pna).1 ≤ 2 ^ 31 ∧
      (computesizes (slice keys) pna).2 = fitting keys (computesizes (slice keys) pna).1 := by
  have hbelow : below keys 0 = 0 := by
    rw [below, List.countP_eq_zero]
    simp
  have hfitting : fitting keys 0 = 0 := by
    rw [fitting, List.countP_eq_zero]
    simp
  have hloop := computesizesLoop_fitting keys pna (show 0 + 32 = 32 from rfl) (Nat.zero_le _)
    hfitting.symm
  rwa [hbelow] at hloop

section Place

variable (h : t.Inv)
include h

theorem Inv.mem_liveKeys : k ∈ t.liveKeys ↔ t.live k = true := by
  rw [liveKeys, List.mem_append, mem_arrayKeys, mem_nodeKeys, ← and_or_left, and_iff_left_iff_imp]
  intro hlive
  refine (h.placed k hlive).imp_left fun harray => ?_
  obtain ⟨i, hi, hlast, heq⟩ := integer_of_inArray harray
  exact ⟨i, hi, hlast, heq⟩

theorem Inv.nodup_liveKeys : t.liveKeys.Nodup := by
  refine List.nodup_append.2 ⟨nodup_arrayKeys _, h.laid.nodup_keys.filter _, fun k hk k' hk' heq => ?_⟩
  subst heq
  obtain ⟨-, i, hi, hlast, rfl⟩ := mem_arrayKeys.1 hk
  have hapart := h.laid.apart _ (mem_nodeKeys.1 hk').2
  rw [(inArray_integer h.bound hi).2 hlast] at hapart
  cases hapart

/-- The keys of a table and a new one go into the parts that the rehash makes. -/
theorem Inv.room {nasize : Nat} :
    ((t.moved nasize ++ [k]).filter fun k => !(arrayindex k ≠ 0 && arrayindex k ≤ nasize)).length ≤
      (t.liveKeys ++ [k]).length - fitting (t.liveKeys ++ [k]) nasize := by
  have hsub : t.moved nasize ⊆ t.liveKeys := by
    intro k hk
    rw [h.mem_liveKeys]
    rcases List.mem_append.1 hk with harray | hnode
    · exact (mem_arrayKeys.1 harray).1
    · exact (mem_nodeKeys.1 (List.mem_reverse.1 hnode)).1
  have hcount := (List.subperm_of_subset h.nodup_moved hsub).countP_le
    fun k => !(arrayindex k ≠ 0 && arrayindex k ≤ nasize)
  have hall := List.length_eq_countP_add_countP (l := t.liveKeys ++ [k])
    fun k => arrayindex k ≠ 0 && arrayindex k ≤ nasize
  rw [← List.countP_eq_length_filter, fitting]
  simp only [List.countP_append, Bool.not_eq_true, Bool.decide_eq_false] at hall hcount ⊢
  omega

theorem Inv.inserted (hins : Inserted t t' k) :
    t'.Inv ∧ t'.values = t.values ∧ t'.Placed k := by
  refine ⟨⟨hins.laid, fun k' hlive => ?_, hins.sizearray.trans_le h.bound⟩, hins.values, .inr hins.placed⟩
  rw [live, hins.values] at hlive
  refine (h.placed k' hlive).imp (fun harray => ?_) (hins.kept k' hlive)
  rwa [inArray, hins.sizearray]

/-- The rehash makes room for its key. -/
theorem Inv.rehash (hk : ¬ t.Placed k) : ((t.rehash seed k).reinsert seed k).Inv ∧
    ((t.rehash seed k).reinsert seed k).values = t.values ∧
      ((t.rehash seed k).reinsert seed k).Placed k := by
  obtain ⟨hbound, hsize⟩ := computesizes_fitting (t.liveKeys ++ [k])
    ((t.liveKeys ++ [k]).countP fun k => arrayindex k ≠ 0)
  unfold HashTable.rehash
  dsimp only
  rw [hsize]
  generalize (computesizes (slice (t.liveKeys ++ [k])) _).1 = nasize at hbound
  generalize hnhsize : (t.liveKeys ++ [k]).length - fitting (t.liveKeys ++ [k]) nasize = nhsize
  have hroom : ((t.moved nasize ++ [k]).filter fun k => !(t.emptied nasize nhsize).inArray k).length ≤
      (t.emptied nasize nhsize).nodes.length :=
    (h.room.trans hnhsize.le).trans (length_emptied nasize nhsize)
  have hmoved : ((t.moved nasize).filter fun k => !(t.emptied nasize nhsize).inArray k).length ≤
      (t.emptied nasize nhsize).nodes.length := by
    rw [List.filter_append, List.length_append] at hroom
    omega
  have hrefilled := h.refilled_resize seed hmoved
  have hnew : k ∉ t.moved nasize := by
    intro hmem
    rcases List.mem_append.1 hmem with harray | hnode
    · exact hk (h.placed k (mem_arrayKeys.1 harray).1)
    · exact hk (h.placed k (mem_nodeKeys.1 (List.mem_reverse.1 hnode)).1)
  obtain ⟨hstep, hplaced⟩ := hrefilled.step seed hnew hroom
  refine ⟨⟨hstep.laid, fun k' hlive => ?_, hstep.sizearray.trans_le hbound⟩, hstep.values, hplaced⟩
  rw [live, hstep.values] at hlive
  rcases h.moved_of_live nasize nhsize hlive hbound with harray | hmem
  · exact .inl ((hstep.inArray k').trans harray)
  · exact hstep.placed k' (List.mem_append_left _ hmem) hlive

theorem Inv.place (seed : Nat) (k : Key) : (t.place seed k).Inv ∧ (t.place seed k).values = t.values ∧
    (t.place seed k).Placed k := by
  unfold HashTable.place
  split_ifs with hk
  · exact ⟨h, rfl, hk⟩
  · have hnode : some k ∉ t.nodes := fun hmem => hk (.inr hmem)
    have harray : t.inArray k = false := Bool.eq_false_iff.2 fun harray => hk (.inl harray)
    split
    · next t' hinsert => exact h.inserted (insertNode_ok h.laid hnode harray hinsert)
    · exact h.rehash hk

theorem Inv.set (v : Option V) : (t.set seed k v).Inv := by
  obtain ⟨hinv, hvalues, hplaced⟩ := h.place seed k
  refine ⟨⟨hinv.laid.once, hinv.laid.apart, hinv.laid.taken⟩, fun k' hlive => ?_, hinv.bound⟩
  by_cases heq : k' = k
  · exact heq ▸ hplaced
  · refine hinv.placed k' ?_
    rw [live, hvalues]
    simpa [live, HashTable.set, heq] using hlive

/-- An array part that grows leaves the nodes to the same keys. -/
theorem Inv.resizearray {n : Nat} (hgrow : t.sizearray ≤ n) (hn : n ≤ 2 ^ 31) :
    (t.resizearray seed n).Inv ∧ (t.resizearray seed n).values = t.values := by
  refine h.resize hn ((List.length_filter_le _ _).trans ?_)
  have harray : t.arrayKeys n = [] := by
    rw [arrayKeys, Nat.sub_eq_zero_of_le hgrow]
    rfl
  rw [moved, harray, List.nil_append, List.length_reverse, nodeKeys]
  refine ((List.length_filter_le _ _).trans (List.length_filterMap_le _ _)).trans ?_
  exact length_emptied n t.nodes.length

end Place

theorem inv_ofSizes {narray nhash : Nat} (h : narray ≤ 2 ^ 31) :
    (ofSizes seed narray nhash : HashTable V).Inv ∧
      (ofSizes seed narray nhash : HashTable V).values = fun _ => none := by
  have hempty : (empty : HashTable V).Inv :=
    ⟨⟨nofun, nofun, nofun⟩, nofun, Nat.zero_le _⟩
  refine hempty.resize h ((List.length_filter_le _ _).trans ?_)
  simp [moved, arrayKeys, nodeKeys, empty]

end HashTable

end Achain.Glua
