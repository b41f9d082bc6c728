import Achain.Glua.Pairs
import Achain.Proofs.Compare
import Achain.Proofs.TableLayout

/-!
# The traversal of a table goes through its keys

A table that was built by the operations of the VM has its keys in their places, and the traversal goes
from place to place. It yields the keys with a value, each once.
-/

namespace Achain.Glua

open Doubles

/-! ## Stored keys -/

namespace Key

/-- A key as it is stored: an integer of 64 bits, or a float that is not an integer. -/
def Valid : Key → Prop
  | number n => n.Valid ∧ ∀ bits, n = .float bits → floatToInteger bits = none
  | _ => True

theorem floatToInteger_eq_some {bits : UInt64} {i : Int} (h : floatToInteger bits = some i) :
    -2 ^ 63 ≤ i ∧ i < 2 ^ 63 := by
  have hu := cast_unit_pos
  unfold floatToInteger at h
  split_ifs at h with hfits
  cases h
  exact ⟨(Int.le_ediv_iff_mul_le hu).2 hfits.2.1, (Int.ediv_lt_iff_lt_mul hu).2 hfits.2.2⟩

theorem valid_of_normalize {k k' : Key} (hrange : ∀ i, k = integer i → -2 ^ 63 ≤ i ∧ i < 2 ^ 63)
    (h : k.normalize = some k') : k'.Valid := by
  cases k with
  | string s =>
    cases h
    trivial
  | boolean b =>
    cases h
    trivial
  | number n =>
    cases n with
    | integer i =>
      cases h
      exact ⟨hrange i rfl, nofun⟩
    | float bits =>
      rw [normalize] at h
      split_ifs at h with hnan
      cases hint : floatToInteger bits with
      | none =>
        rw [hint] at h
        cases h
        refine ⟨Bool.eq_false_iff.2 hnan, fun bits' heq => ?_⟩
        cases heq
        exact hint
      | some i =>
        rw [hint] at h
        cases h
        exact ⟨floatToInteger_eq_some hint, nofun⟩

/-- A stored key is found as it is. -/
theorem normalize_of_valid {k : Key} (h : k.Valid) : k.normalize = some k := by
  cases k with
  | string s => rfl
  | boolean b => rfl
  | number n =>
    cases n with
    | integer i => rfl
    | float bits =>
      have hnan : isNaN bits = false := h.1
      rw [normalize, if_neg (by simp [hnan]), h.2 bits rfl]

/-- An integer has the value of no stored float. -/
theorem value_ne_of_valid {i : Int} {bits : UInt64} (hi : -2 ^ 63 ≤ i ∧ i < 2 ^ 63)
    (hf : floatToInteger bits = none) : i * unit ≠ value bits := by
  intro heq
  have hu := cast_unit_pos
  have hlow : -2 ^ 63 * unit ≤ i * unit := mul_le_mul_of_nonneg_right hi.1 hu.le
  have hhigh : i * unit < 2 ^ 63 * unit := mul_lt_mul_of_pos_right hi.2 hu
  rw [floatToInteger, ← heq, if_pos ⟨Dvd.intro_left i rfl, hlow, hhigh⟩] at hf
  cases hf

/-- Stored numbers of one value are the same key. -/
theorem number_inj {m n : LuaNumber} (hm : (number m).Valid) (hn : (number n).Valid)
    (h : m.value = n.value) : m = n := by
  have hu := cast_unit_pos
  cases m with
  | integer i =>
    cases n with
    | integer j => rw [mul_right_cancel₀ hu.ne' h]
    | float g => exact absurd h (value_ne_of_valid hm.1 (hn.2 g rfl))
  | float f =>
    cases n with
    | integer j => exact absurd h.symm (value_ne_of_valid hn.1 (hm.2 f rfl))
    | float g =>
      refine congrArg _ (value_inj h fun hzero => ?_)
      refine value_ne_of_valid (i := 0) (by decide) (hm.2 f rfl) ?_
      rw [hzero, zero_mul]

end Key

namespace HashTable

variable {V : Type} {t : HashTable V} {seed : Nat} {k : Key}

/-- The tables that the operations of the VM build. -/
inductive Built (seed : Nat) : HashTable V → Prop
  | ofSizes {narray nhash : Nat} : narray ≤ 2 ^ 31 → Built seed (ofSizes seed narray nhash)
  | set {t : HashTable V} {k k' : Key} (v : Option V) : Built seed t →
      (∀ i, k = .integer i → -2 ^ 63 ≤ i ∧ i < 2 ^ 63) → k.normalize = some k' →
        Built seed (t.set seed k' v)
  | resizearray {t : HashTable V} {n : Nat} : Built seed t → t.sizearray ≤ n → n ≤ 2 ^ 31 →
      Built seed (t.resizearray seed n)

theorem Built.inv (h : Built seed t) : t.Inv := by
  induction h with
  | ofSizes hn => exact (inv_ofSizes hn).1
  | set v _ _ _ ih => exact ih.set v
  | resizearray _ hgrow hn ih => exact (ih.resizearray hgrow hn).1

theorem Built.valid (h : Built seed t) : ∀ k, t.live k = true → k.Valid := by
  induction h with
  | ofSizes hn =>
    intro k hlive
    rw [live, (inv_ofSizes hn).2] at hlive
    cases hlive
  | @set t k k' v ht hrange hnormal ih =>
    intro k'' hlive
    by_cases heq : k'' = k'
    · exact heq ▸ Key.valid_of_normalize hrange hnormal
    · refine ih k'' ?_
      simpa [live, HashTable.set, heq] using hlive
  | resizearray ht hgrow hn ih =>
    intro k hlive
    rw [live, (ht.inv.resizearray hgrow hn).2] at hlive
    exact ih k hlive

/-! ## The traversal -/

/-- The key with a value at a position. -/
def liveSlot (t : HashTable V) (i : Nat) : Option Key := (t.slot i).filter t.live

theorem nextFrom_eq (t : HashTable V) (i : Nat) :
    t.nextFrom i = (List.range' i (t.sizearray + t.nodes.length - i)).findSome? t.liveSlot := rfl

section Positions

variable (h : t.Inv)
include h

theorem Inv.findindex_slot {i : Nat} (hk : t.slot i = some k) : t.findindex (some k) = some (i + 1) := by
  unfold slot at hk
  unfold findindex
  dsimp only
  split_ifs at hk with hi
  · cases hk
    have harray : t.inArray (.integer (i + 1)) = true :=
      (inArray_integer (i := i + 1) h.bound (Nat.succ_pos i)).2 hi
    rw [if_pos harray]
    have hindex : arrayindex (.integer (i + 1)) = i + 1 := by
      have hle := hi.trans_le h.bound
      simp only [arrayindex]
      split_ifs <;> omega
    rw [hindex]
  · have hnode : t.nodes[i - t.sizearray]? = some (some k) := Option.join_eq_some_iff.1 hk
    have hmem := List.mem_of_getElem? hnode
    rw [if_neg (by simp [h.laid.apart k hmem]), if_pos hmem]
    have hidx : t.nodes[t.nodes.idxOf (some k)]? = some (some k) := by
      rw [List.getElem?_eq_getElem (List.idxOf_lt_length_of_mem hmem), List.getElem_idxOf]
    have hsame := h.laid.once _ _ k hidx hnode
    congr 1
    omega

/-- The traversal from a position on. -/
theorem Inv.keysAfter_eq : ∀ (fuel i : Nat) (key : Option Key), t.findindex key = some i →
    t.sizearray + t.nodes.length - i < fuel → t.keysAfter fuel key =
      some ((List.range' i (t.sizearray + t.nodes.length - i)).filterMap t.liveSlot)
  | 0, _, _, _, hfuel => absurd hfuel (Nat.not_lt_zero _)
  | fuel + 1, i, key, hkey, hfuel => by
    have hstep : t.keysAfter (fuel + 1) key = (t.nextFrom i).elim (some []) fun k =>
        (t.keysAfter fuel (some k)).bind fun keys => some (k :: keys) := by
      rw [keysAfter, next, hkey, Option.map_some]
      cases t.nextFrom i <;> rfl
    rw [hstep, nextFrom_eq]
    cases hnext : (List.range' i (t.sizearray + t.nodes.length - i)).findSome? t.liveSlot with
    | none =>
      have hnone := List.findSome?_eq_none_iff.1 hnext
      rw [List.filterMap_eq_nil_iff.2 hnone, Option.elim_none]
    | some k =>
      obtain ⟨before, p, after, hrange, hp, hbefore⟩ := List.findSome?_eq_some_iff.1 hnext
      obtain ⟨n, hn, rfl, hrest⟩ := List.range'_eq_append_iff.1 hrange
      rw [mul_one] at hrest
      obtain ⟨rfl, hpos, rfl⟩ := List.range'_eq_cons_iff.1 hrest.symm
      have hslot : t.slot (i + n) = some k := (Option.filter_eq_some_iff.1 hp).1
      rw [Option.elim_some, hrange, List.filterMap_append, List.filterMap_eq_nil_iff.2 hbefore, List.nil_append,
        List.filterMap_cons_some hp,
        Inv.keysAfter_eq fuel (i + n + 1) (some k) (h.findindex_slot hslot) (by omega)]
      have hlength : t.sizearray + t.nodes.length - (i + n + 1) =
          t.sizearray + t.nodes.length - i - n - 1 := by omega
      rw [hlength]
      rfl

end Positions

/-- The positions hold the keys in the order of the traversal. -/
theorem filterMap_liveSlot (t : HashTable V) :
    (List.range (t.sizearray + t.nodes.length)).filterMap t.liveSlot = t.liveKeys := by
  rw [List.range_add, List.filterMap_append, liveKeys]
  congr 1
  · rw [arrayKeys, ← List.filterMap_eq_filter, Nat.sub_zero, List.range'_eq_map_range, List.map_map,
      List.filterMap_map]
    refine List.filterMap_congr fun i hi => ?_
    have hindex : ((0 + 1 + i : Nat) : Int) = i + 1 := by omega
    rw [liveSlot, slot, if_pos (List.mem_range.1 hi), ← hindex]
    rfl
  · have hnodes : t.nodes = (List.range t.nodes.length).map fun i => t.nodes[i]?.join :=
      List.ext_getElem (by simp) fun i hi _ => by simp [List.getElem?_eq_getElem hi]
    rw [nodeKeys, ← List.filterMap_eq_filter, List.filterMap_filterMap, List.filterMap_map]
    conv_rhs => rw [hnodes]
    rw [List.filterMap_map]
    refine List.filterMap_congr fun i _ => ?_
    have hslot : t.slot (t.sizearray + i) = t.nodes[i]?.join := by
      rw [slot, if_neg (by omega), Nat.add_sub_cancel_left]
    show (t.slot (t.sizearray + i)).filter t.live = (t.nodes[i]?.join).bind _
    rw [hslot]
    cases t.nodes[i]?.join <;> rfl

/-- The traversal goes through the keys with a value. -/
theorem Inv.keysAfter_none (h : t.Inv) :
    t.keysAfter (t.sizearray + t.nodes.length + 1) none = some t.liveKeys := by
  rw [h.keysAfter_eq _ 0 none rfl (by omega), Nat.sub_zero, ← List.range_eq_range', filterMap_liveSlot]

end HashTable

end Achain.Glua
