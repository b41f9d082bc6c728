import Mathlib.Logic.Equiv.Basic
import Mathlib.Data.List.Perm.Basic
import Mathlib.Data.List.Dedup
import Mathlib.Order.Lattice
import Mathlib.Algebra.Group.End
import Mathlib.Data.Nat.Basic

/-!
# Rearranged intervals of arrays

An array is a function of the index. It is rearranged on an interval if its elements there are
permuted and the others stand where they stood. What holds of all elements of the interval still
does, and rearrangements compose; an array split by one of its elements is sorted once both parts
are.
-/

variable {V K : Type}

/-- `b` is `a` with the elements from `lo` to `up` permuted. -/
def Rearranged (lo up : ℕ) (a b : ℕ → V) : Prop :=
  ∃ e : Equiv.Perm ℕ, (∀ k, k < lo ∨ up < k → e k = k) ∧ ∀ k, b k = a (e k)

namespace Rearranged

variable {lo up lo' up' : ℕ} {a b c : ℕ → V}

theorem refl (a : ℕ → V) : Rearranged lo up a a := ⟨1, fun _ _ => rfl, fun _ => rfl⟩

theorem trans (h : Rearranged lo up a b) (h' : Rearranged lo up b c) : Rearranged lo up a c := by
  obtain ⟨e, he, hb⟩ := h
  obtain ⟨e', he', hc⟩ := h'
  refine ⟨e'.trans e, ?_, ?_⟩
  · intro k hk
    rw [Equiv.trans_apply, he' k hk, he k hk]
  · intro k
    rw [hc, hb, Equiv.trans_apply]

theorem mono (h : Rearranged lo up a b) (hlo : lo' ≤ lo) (hup : up ≤ up') :
    Rearranged lo' up' a b := by
  obtain ⟨e, he, hb⟩ := h
  exact ⟨e, fun k hk => he k (hk.imp (fun h => h.trans_le hlo) fun h => hup.trans_lt h), hb⟩

theorem swap {i j : ℕ} (hi : lo ≤ i ∧ i ≤ up) (hj : lo ≤ j ∧ j ≤ up) :
    Rearranged lo up a (a ∘ Equiv.swap i j) := by
  refine ⟨Equiv.swap i j, ?_, fun k => rfl⟩
  intro k hk
  exact Equiv.swap_apply_of_ne_of_ne (by omega) (by omega)

theorem eq_outside (h : Rearranged lo up a b) {k : ℕ} (hk : k < lo ∨ up < k) : b k = a k := by
  obtain ⟨e, he, hb⟩ := h
  rw [hb, he k hk]

/-- What holds of all elements of the interval holds of them rearranged. -/
theorem forall_mem (h : Rearranged lo up a b) {Q : V → Prop}
    (hQ : ∀ k, lo ≤ k → k ≤ up → Q (a k)) : ∀ k, lo ≤ k → k ≤ up → Q (b k) := by
  obtain ⟨e, he, hb⟩ := h
  intro k hlo hup
  rw [hb]
  have hmem : ¬ (e k < lo ∨ up < e k) := by
    intro hout
    have hfix : e k = k := e.injective (he (e k) hout)
    rw [hfix] at hout
    omega
  rw [not_or, not_lt, not_lt] at hmem
  exact hQ (e k) hmem.1 hmem.2

/-- The elements of a rearranged array are those of the array. -/
theorem perm {n : ℕ} (h : Rearranged 1 n a b) :
    ((List.range' 1 n).map b).Perm ((List.range' 1 n).map a) := by
  have hindex : ∀ k, k ∈ List.range' 1 n ↔ 1 ≤ k ∧ k ≤ n := by
    intro k
    rw [List.mem_range'_1]
    omega
  have hid : Rearranged 1 n id h.choose := ⟨h.choose, h.choose_spec.1, fun k => rfl⟩
  have hb : (List.range' 1 n).map b = ((List.range' 1 n).map h.choose).map a := by
    rw [List.map_map]
    exact List.map_congr_left fun k _ => h.choose_spec.2 k
  rw [hb]
  refine List.Perm.map a ?_
  refine (List.perm_ext_iff_of_nodup ?_ (List.nodup_range' ..)).2 fun k => ?_
  · exact (List.nodup_range' ..).map h.choose.injective
  · rw [List.mem_map, hindex]
    constructor
    · rintro ⟨l, hl, rfl⟩
      rw [hindex] at hl
      exact hid.forall_mem (Q := fun k => 1 ≤ k ∧ k ≤ n) (fun k h1 h2 => ⟨h1, h2⟩) l hl.1 hl.2
    · intro hk
      refine ⟨h.choose.symm k, ?_, h.choose.apply_symm_apply k⟩
      rw [hindex]
      by_contra hout
      have hfix := h.choose_spec.1 (h.choose.symm k) (by omega)
      rw [Equiv.apply_symm_apply] at hfix
      rw [← hfix] at hout
      exact hout hk

end Rearranged

section Sorted

variable [LinearOrder K] (key : V → K) {lo p up : ℕ} {a b : ℕ → V}

/-- The elements from `lo` to `up` are in order. -/
def SortedOn (lo up : ℕ) (a : ℕ → V) : Prop :=
  ∀ k l, lo ≤ k → k ≤ l → l ≤ up → key (a k) ≤ key (a l)

/-- The elements before `p` are at most that at `p`, those after it at least that. -/
structure SplitAt (lo p up : ℕ) (a : ℕ → V) : Prop where
  below : ∀ k, lo ≤ k → k < p → key (a k) ≤ key (a p)
  above : ∀ k, p < k → k ≤ up → key (a p) ≤ key (a k)

variable {key}

theorem SortedOn.of_le (h : up ≤ lo) : SortedOn key lo up a := by
  intro k l hk hkl hl
  rw [show k = l by omega]

theorem SortedOn.of_rearranged {lo' up' : ℕ} (h : SortedOn key lo up a)
    (hr : Rearranged lo' up' a b) (hout : up < lo' ∨ up' < lo) : SortedOn key lo up b := by
  intro k l hk hkl hl
  rw [hr.eq_outside (by omega), hr.eq_outside (by omega)]
  exact h k l hk hkl hl

theorem SplitAt.of_below (h : SplitAt key lo p up a) (hr : Rearranged lo (p - 1) a b) (hp : 0 < p) :
    SplitAt key lo p up b := by
  have hpivot : b p = a p := hr.eq_outside (by omega)
  constructor
  · intro k hlo hk
    rw [hpivot]
    exact hr.forall_mem (Q := fun v => key v ≤ key (a p)) (fun k hlo hk => h.below k hlo (by omega))
      k hlo (by omega)
  · intro k hk hup
    rw [hpivot, hr.eq_outside (by omega)]
    exact h.above k hk hup

theorem SplitAt.of_above (h : SplitAt key lo p up a) (hr : Rearranged (p + 1) up a b) :
    SplitAt key lo p up b := by
  have hpivot : b p = a p := hr.eq_outside (by omega)
  constructor
  · intro k hlo hk
    rw [hpivot, hr.eq_outside (by omega)]
    exact h.below k hlo hk
  · intro k hk hup
    rw [hpivot]
    exact hr.forall_mem (Q := fun v => key (a p) ≤ key v) (fun k hk hup => h.above k (by omega) hup)
      k (by omega) hup

theorem SplitAt.sorted (h : SplitAt key lo p up a) (hbelow : SortedOn key lo (p - 1) a)
    (habove : SortedOn key (p + 1) up a) : SortedOn key lo up a := by
  intro k l hk hkl hl
  rcases lt_trichotomy l p with hlp | rfl | hpl
  · exact hbelow k l hk hkl (by omega)
  · rcases hkl.eq_or_lt with rfl | hkl
    · exact le_rfl
    · exact h.below k hk hkl
  · rcases lt_trichotomy k p with hkp | rfl | hpk
    · exact (h.below k hk hkp).trans (h.above l hpl hl)
    · exact h.above l hpl hl
    · exact habove k l (by omega) hkl hl

end Sorted
