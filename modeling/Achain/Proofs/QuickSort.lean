import Achain.Glua.Sort
import Achain.Lib.Rearranged
import Achain.Lib.Stateful

/-!
# The quicksort sorts

On an array in memory with a total order, the sort ends without an error and leaves the array sorted
and rearranged, whatever the readings of the clock (`sort_ok`). The partition needs the element at
`lo` to be at most the pivot and the pivot to stand at `up - 1`: they stop the two scans.
-/

namespace Achain.Glua

open Stateful

variable {V K : Type} [LinearOrder K] (key : V → K) (clock : Nat → Nat)

namespace SortState

/-- The array with two elements exchanged. -/
def swap (s : SortState V) (i j : Nat) : SortState V := { s with values := s.values ∘ Equiv.swap i j }

end SortState

theorem set2_ok (s : SortState V) (i j : Nat) :
    (sortArray key clock).set2 i j (s.values j) (s.values i) s = .ok () (s.swap i j) := by
  have hvalues : Function.update (Function.update s.values i (s.values j)) j (s.values i) =
      s.values ∘ Equiv.swap i j := by
    funext k
    rw [Function.comp_apply, Equiv.swap_apply_def, Function.update_apply, Function.update_apply]
    split_ifs with hj hi <;> simp_all
  show EStateM.Result.ok () _ = _
  rw [SortState.swap, ← hvalues]

variable {key} {s : SortState V} {pivot : V} {lo up i j : Nat}

/-- The scan from below ends at the first element not less than the pivot, at `up - 1` at last. -/
theorem scanUp_ok (hup : key (s.values (up - 1)) = key pivot) :
    ∀ fuel i : Nat, i < up - 1 → up - 1 - i ≤ fuel →
      ∃ m, (sortArray key clock).scanUp pivot up fuel i s = .ok (m, s.values m) s ∧ i < m ∧
        m ≤ up - 1 ∧ key pivot ≤ key (s.values m) ∧
        ∀ k, i < k → k < m → key (s.values k) < key pivot
  | 0, i, hi, hfuel => by omega
  | fuel + 1, i, hi, hfuel => by
    have hstep : (sortArray key clock).scanUp pivot up (fuel + 1) i s =
        (if decide (key (s.values (i + 1)) < key pivot) then
          if i + 1 = up - 1 then throw .errrun
          else (sortArray key clock).scanUp pivot up fuel (i + 1)
        else pure (i + 1, s.values (i + 1))) s := rfl
    rw [hstep]
    by_cases hless : key (s.values (i + 1)) < key pivot
    · have hne : i + 1 ≠ up - 1 := by
        intro heq
        rw [heq, hup] at hless
        exact lt_irrefl _ hless
      obtain ⟨m, hrun, him, hm, hge, hbelow⟩ :=
        scanUp_ok hup fuel (i + 1) (by omega) (by omega)
      refine ⟨m, ?_, by omega, hm, hge, ?_⟩
      · rw [if_pos (decide_eq_true hless), if_neg hne, hrun]
      · intro k hik hkm
        by_cases hk : k = i + 1
        · rw [hk]
          exact hless
        · exact hbelow k (by omega) hkm
    · refine ⟨i + 1, ?_, by omega, by omega, not_lt.1 hless, fun k hik hkm => by omega⟩
      rw [if_neg (by simpa using hless)]
      rfl

/-- The scan from above ends at the last element not above the pivot, at `lo` at last. -/
theorem scanDown_ok (hlo : key (s.values lo) ≤ key pivot)
    (hbelow : ∀ k, lo ≤ k → k < i → key (s.values k) ≤ key pivot) :
    ∀ fuel j : Nat, lo < j → j - lo ≤ fuel →
      ∃ m, (sortArray key clock).scanDown pivot i fuel j s = .ok (m, s.values m) s ∧ lo ≤ m ∧
        m < j ∧ key (s.values m) ≤ key pivot ∧
        ∀ k, m < k → k < j → key pivot < key (s.values k)
  | 0, j, hj, hfuel => by omega
  | fuel + 1, j, hj, hfuel => by
    have hstep : (sortArray key clock).scanDown pivot i (fuel + 1) j s =
        (if decide (key pivot < key (s.values (j - 1))) then
          if j - 1 < i then throw .errrun
          else (sortArray key clock).scanDown pivot i fuel (j - 1)
        else pure (j - 1, s.values (j - 1))) s := rfl
    rw [hstep]
    by_cases hless : key pivot < key (s.values (j - 1))
    · have hne : ¬ j - 1 < i := fun hlt => absurd (hbelow (j - 1) (by omega) hlt) (not_le.2 hless)
      have hlt : lo < j - 1 := by
        by_contra hnot
        rw [show j - 1 = lo by omega] at hless
        exact absurd hlo (not_le.2 hless)
      obtain ⟨m, hrun, hm, hmj, hle, habove⟩ :=
        scanDown_ok hlo hbelow fuel (j - 1) hlt (by omega)
      refine ⟨m, ?_, hm, by omega, hle, ?_⟩
      · rw [if_pos (decide_eq_true hless), if_neg hne, hrun]
      · intro k hmk hkj
        by_cases hk : k = j - 1
        · rw [hk]
          exact hless
        · exact habove k hmk (by omega)
    · refine ⟨j - 1, ?_, by omega, by omega, not_lt.1 hless, fun k hmk hkj => by omega⟩
      rw [if_neg (by simpa using hless)]
      rfl

/-- What the partition loop knows of the array: the elements up to `i` are at most the pivot, those
from `j` on at least it, and the pivot stands at `up - 1`. -/
structure Partitioning (key : V → K) (pivot : V) (lo up i j : Nat) (a : Nat → V) : Prop where
  lo_le : lo ≤ i
  lo_lt : lo < j
  le : i ≤ j
  lt_up : i < up - 1
  le_up : j ≤ up - 1
  pivot_eq : a (up - 1) = pivot
  below : ∀ k, lo ≤ k → k ≤ i → key (a k) ≤ key pivot
  above : ∀ k, j ≤ k → k ≤ up → key pivot ≤ key (a k)

/-- Exchanging the two elements the scans stopped at, in order. -/
theorem Partitioning.swap {m n : Nat} (h : Partitioning key pivot lo up i j s.values)
    (him : i < m) (hmn : m ≤ n) (hnj : n < j)
    (hm : key pivot ≤ key (s.values m)) (hbelow : ∀ k, i < k → k < m → key (s.values k) < key pivot)
    (hn : key (s.values n) ≤ key pivot) (habove : ∀ k, n < k → k < j → key pivot < key (s.values k)) :
    Partitioning key pivot lo up m n (s.swap m n).values := by
  have hle := h.le_up
  have hswap : ∀ k, (s.swap m n).values k =
      if k = m then s.values n else if k = n then s.values m else s.values k := by
    intro k
    show s.values (Equiv.swap m n k) = _
    rw [Equiv.swap_apply_def]
    split_ifs <;> rfl
  have hlo := h.lo_le
  refine ⟨by omega, by omega, hmn, by omega, by omega, ?_, ?_, ?_⟩
  · rw [hswap, if_neg (by omega), if_neg (by omega), h.pivot_eq]
  · intro k hlo hk
    rw [hswap]
    split_ifs with hkm hkn
    · exact hn
    · omega
    · by_cases hki : k ≤ i
      · exact h.below k hlo hki
      · exact (hbelow k (by omega) (by omega)).le
  · intro k hk hup
    rw [hswap]
    split_ifs with hkm hkn
    · rw [show n = m by omega]
      exact hm
    · exact hm
    · by_cases hkj : j ≤ k
      · exact h.above k hkj hup
      · exact (habove k (by omega) (by omega)).le

/-- Putting the pivot where the scan from below stopped, once the scans have crossed. -/
theorem Partitioning.split {m n : Nat} (h : Partitioning key pivot lo up i j s.values)
    (hnm : n < m) (hmup : m ≤ up - 1)
    (hm : key pivot ≤ key (s.values m)) (hbelow : ∀ k, i < k → k < m → key (s.values k) < key pivot)
    (habove : ∀ k, n < k → k < j → key pivot < key (s.values k)) :
    SplitAt key lo m up (s.swap (up - 1) m).values := by
  have hlt := h.lt_up
  have hswap : ∀ k, (s.swap (up - 1) m).values k =
      if k = up - 1 then s.values m else if k = m then pivot else s.values k := by
    intro k
    show s.values (Equiv.swap (up - 1) m k) = _
    rw [Equiv.swap_apply_def]
    split_ifs
    · rfl
    · exact h.pivot_eq
    · rfl
  have hpivot : key ((s.swap (up - 1) m).values m) = key pivot := by
    rw [hswap, if_pos rfl]
    split_ifs with heq
    · rw [heq, h.pivot_eq]
    · rfl
  constructor
  · intro k hlo hk
    rw [hpivot, hswap, if_neg (by omega), if_neg (by omega)]
    by_cases hki : k ≤ i
    · exact h.below k hlo hki
    · exact (hbelow k (by omega) hk).le
  · intro k hk hup
    rw [hpivot, hswap]
    split_ifs with hkup hkm
    · exact hm
    · exact le_rfl
    · by_cases hkj : j ≤ k
      · exact h.above k hkj hup
      · exact (habove k (by omega) (by omega)).le

theorem partitionLoop_ok : ∀ (fuel i j : Nat) (s : SortState V),
    Partitioning key pivot lo up i j s.values → j - i < fuel →
      ∃ m s', (sortArray key clock).partitionLoop pivot up fuel i j s = .ok m s' ∧ lo < m ∧
        m ≤ up - 1 ∧ Rearranged lo up s.values s'.values ∧ SplitAt key lo m up s'.values
  | 0, i, j, s, h, hfuel => by omega
  | fuel + 1, i, j, s, h, hfuel => by
    have hlo := h.lo_le
    have hij := h.le
    have hup := h.lt_up
    have hjup := h.le_up
    obtain ⟨m, hupper, him, hmup, hm, hbelow⟩ := scanUp_ok clock
      (congrArg key h.pivot_eq) up i h.lt_up (by omega)
    have hbefore : ∀ k, lo ≤ k → k < m → key (s.values k) ≤ key pivot := by
      intro k hk hkm
      by_cases hki : k ≤ i
      · exact h.below k hk hki
      · exact (hbelow k (by omega) hkm).le
    have hloj := h.lo_lt
    obtain ⟨n, hlower, hn, hnj, hnle, habove⟩ := scanDown_ok clock
      (h.below lo le_rfl h.lo_le) hbefore (j + 1) j hloj (by omega)
    have hstep : (sortArray key clock).partitionLoop pivot up (fuel + 1) i j s =
        (if n < m then do
          (sortArray key clock).set2 (up - 1) m (s.values m) pivot
          return m
        else do
          (sortArray key clock).set2 m n (s.values n) (s.values m)
          (sortArray key clock).partitionLoop pivot up fuel m n) s :=
      (bind_of_ok hupper).trans (bind_of_ok hlower)
    rw [hstep]
    by_cases hnm : n < m
    · refine ⟨m, s.swap (up - 1) m, ?_, by omega, hmup, Rearranged.swap (by omega) (by omega),
        h.split hnm hmup hm hbelow habove⟩
      rw [if_pos hnm, ← h.pivot_eq]
      exact bind_of_ok (set2_ok key clock s (up - 1) m)
    · obtain ⟨p, s', hrun, hp, hpup, hr, hsplit⟩ := partitionLoop_ok fuel m n (s.swap m n)
        (h.swap him (not_lt.1 hnm) hnj hm hbelow hnle habove) (by omega)
      refine ⟨p, s', ?_, hp, hpup, .trans (Rearranged.swap (by omega) (by omega)) hr, hsplit⟩
      rw [if_neg hnm, bind_of_ok (set2_ok key clock s m n)]
      exact hrun

variable (key)

theorem sortEnds_ok (s : SortState V) (hlt : lo < up) :
    ∃ s', (sortArray key clock).sortEnds lo up s = .ok () s' ∧
      Rearranged lo up s.values s'.values ∧ key (s'.values lo) ≤ key (s'.values up) := by
  have hstep : (sortArray key clock).sortEnds lo up s =
      (if decide (key (s.values up) < key (s.values lo)) then
        (sortArray key clock).set2 lo up (s.values up) (s.values lo)
      else pure ()) s := rfl
  rw [hstep]
  by_cases hless : key (s.values up) < key (s.values lo)
  · refine ⟨s.swap lo up, ?_, Rearranged.swap (by omega) (by omega), ?_⟩
    · rw [if_pos (decide_eq_true hless)]
      exact set2_ok key clock s lo up
    · show key (s.values (Equiv.swap lo up lo)) ≤ key (s.values (Equiv.swap lo up up))
      rw [Equiv.swap_apply_left, Equiv.swap_apply_right]
      exact hless.le
  · refine ⟨s, ?_, .refl _, not_lt.1 hless⟩
    rw [if_neg (by simpa using hless)]
    rfl

theorem sortMiddle_ok (s : SortState V) {p : Nat} (hlo : lo < p) (hup : p < up)
    (hends : key (s.values lo) ≤ key (s.values up)) :
    ∃ s', (sortArray key clock).sortMiddle lo p up s = .ok () s' ∧
      Rearranged lo up s.values s'.values ∧ key (s'.values lo) ≤ key (s'.values p) ∧
      key (s'.values p) ≤ key (s'.values up) := by
  let last : EStateM LuaError (SortState V) Unit := do
    let vup ← (sortArray key clock).geti up
    let less ← (sortArray key clock).comp vup (s.values p)
    if less then (sortArray key clock).set2 p up vup (s.values p) else return
  have hstep : (sortArray key clock).sortMiddle lo p up s =
      (if decide (key (s.values p) < key (s.values lo)) then
        (sortArray key clock).set2 p lo (s.values lo) (s.values p)
      else last) s := rfl
  have hlast : last s =
      (if decide (key (s.values up) < key (s.values p)) then
        (sortArray key clock).set2 p up (s.values up) (s.values p)
      else pure ()) s := rfl
  rw [hstep]
  by_cases hless : key (s.values p) < key (s.values lo)
  · refine ⟨s.swap p lo, ?_, Rearranged.swap (by omega) (by omega), ?_, ?_⟩
    · rw [if_pos (decide_eq_true hless)]
      exact set2_ok key clock s p lo
    · show key (s.values (Equiv.swap p lo lo)) ≤ key (s.values (Equiv.swap p lo p))
      rw [Equiv.swap_apply_left, Equiv.swap_apply_right]
      exact hless.le
    · show key (s.values (Equiv.swap p lo p)) ≤ key (s.values (Equiv.swap p lo up))
      rw [Equiv.swap_apply_left, Equiv.swap_apply_of_ne_of_ne (by omega) (by omega)]
      exact hends
  rw [if_neg (by simpa using hless), hlast]
  by_cases hless' : key (s.values up) < key (s.values p)
  · refine ⟨s.swap p up, ?_, Rearranged.swap (by omega) (by omega), ?_, ?_⟩
    · rw [if_pos (decide_eq_true hless')]
      exact set2_ok key clock s p up
    · show key (s.values (Equiv.swap p up lo)) ≤ key (s.values (Equiv.swap p up p))
      rw [Equiv.swap_apply_left, Equiv.swap_apply_of_ne_of_ne (by omega) (by omega)]
      exact hends
    · show key (s.values (Equiv.swap p up p)) ≤ key (s.values (Equiv.swap p up up))
      rw [Equiv.swap_apply_left, Equiv.swap_apply_right]
      exact hless'.le
  · refine ⟨s, ?_, .refl _, not_lt.1 hless, not_lt.1 hless'⟩
    rw [if_neg (by simpa using hless')]
    rfl

theorem pivotIndex_between (h : 2 ≤ up - lo) (rnd : Nat) :
    lo < pivotIndex lo up rnd ∧ pivotIndex lo up rnd < up := by
  unfold pivotIndex
  split_ifs with hsmall
  · omega
  · rw [not_or, ranLimit] at hsmall
    have hmod := Nat.mod_lt rnd (show 0 < (up - lo) / 4 * 2 by omega)
    rw [choosePivot]
    omega

theorem movePivot_ok (s : SortState V) (p : Nat) :
    (sortArray key clock).movePivot p up s = .ok (s.values p) (s.swap p (up - 1)) := by
  show ((sortArray key clock).set2 p (up - 1) (s.values (up - 1)) (s.values p) >>=
    fun _ => pure (s.values p)) s = _
  rw [bind_of_ok (set2_ok key clock s p (up - 1))]
  rfl

variable {key} in
/-- After the median step the partition can start. -/
theorem Partitioning.of_median {s : SortState V} {p : Nat} (hlo : lo < p) (hup : p < up)
    (hbelow : key (s.values lo) ≤ key (s.values p))
    (habove : key (s.values p) ≤ key (s.values up)) :
    Partitioning key (s.values p) lo up lo (up - 1) (s.swap p (up - 1)).values := by
  have hswap : ∀ k, (s.swap p (up - 1)).values k = s.values (Equiv.swap p (up - 1) k) :=
    fun k => rfl
  refine ⟨le_rfl, by omega, by omega, by omega, le_rfl, ?_, ?_, ?_⟩
  · rw [hswap, Equiv.swap_apply_right]
  · intro k hk hk'
    rw [hswap, show k = lo by omega, Equiv.swap_apply_of_ne_of_ne (by omega) (by omega)]
    exact hbelow
  · intro k hk hk'
    rw [hswap]
    by_cases hlast : k = up - 1
    · rw [hlast, Equiv.swap_apply_right]
    · rw [show k = up by omega, Equiv.swap_apply_of_ne_of_ne (by omega) (by omega)]
      exact habove

theorem rerandomize_ok (s : SortState V) (larger smaller rnd : Nat) :
    ∃ rnd' s', (sortArray key clock).rerandomize larger smaller rnd s = .ok rnd' s' ∧
      s'.values = s.values := by
  rw [SortArray.rerandomize]
  split_ifs
  · exact ⟨_, _, rfl, rfl⟩
  · exact ⟨_, _, rfl, rfl⟩

/-- What a sort of the interval has done when it ended well. -/
def Sorts (key : V → K) (lo up : Nat) (x : EStateM LuaError (SortState V) Unit) : Prop :=
  ∀ s, ∃ s', x s = .ok () s' ∧ Rearranged lo up s.values s'.values ∧ SortedOn key lo up s'.values

variable {key} in
/-- The two recursive calls, in either order, around an element that splits the interval. -/
theorem sorts_halves {p n : Nat} {x y : Nat → EStateM LuaError (SortState V) Unit} (hp : lo < p)
    (hpup : p < up) {lo₁ up₁ lo₂ up₂ : Nat} (hx : ∀ rnd, Sorts key lo₁ up₁ (x rnd))
    (hy : ∀ rnd, Sorts key lo₂ up₂ (y rnd))
    (hhalves : lo₁ = lo ∧ up₁ = p - 1 ∧ lo₂ = p + 1 ∧ up₂ = up ∨
      lo₁ = p + 1 ∧ up₁ = up ∧ lo₂ = lo ∧ up₂ = p - 1)
    {s : SortState V} (hs : SplitAt key lo p up s.values) (larger rnd : Nat) :
    ∃ s', (do
        x rnd
        let rnd ← (sortArray key clock).rerandomize larger n rnd
        y rnd) s = .ok () s' ∧ Rearranged lo up s.values s'.values ∧
      SortedOn key lo up s'.values := by
  obtain ⟨s₁, hrun₁, hr₁, hs₁⟩ := hx rnd s
  obtain ⟨rnd', s₂, hrun₂, hvalues⟩ := rerandomize_ok key clock s₁ larger n rnd
  obtain ⟨s₃, hrun₃, hr₃, hs₃⟩ := hy rnd' s₂
  rw [hvalues] at hr₃
  refine ⟨s₃, ?_, ?_, ?_⟩
  · rw [bind_of_ok hrun₁, bind_of_ok hrun₂]
    exact hrun₃
  · exact (hr₁.mono (by omega) (by omega)).trans (hr₃.mono (by omega) (by omega))
  · have hs₁' := hs₁.of_rearranged hr₃ (by omega)
    rcases hhalves with ⟨rfl, rfl, rfl, rfl⟩ | ⟨rfl, rfl, rfl, rfl⟩
    · exact ((hs.of_below hr₁ (by omega)).of_above hr₃).sorted hs₁' hs₃
    · exact ((hs.of_above hr₁).of_below hr₃ (by omega)).sorted hs₃ hs₁'

theorem auxsort_ok : ∀ fuel lo up rnd : Nat, up - lo < fuel →
    Sorts key lo up ((sortArray key clock).auxsort fuel lo up rnd)
  | 0, _, _, _, h => by omega
  | fuel + 1, lo, up, rnd, h => by
    intro s
    rw [SortArray.auxsort]
    by_cases hlt : lo < up
    · rw [if_pos hlt]
      obtain ⟨s₁, hrun₁, hr₁, hends⟩ := sortEnds_ok key clock s hlt
      rw [bind_of_ok hrun₁]
      by_cases htwo : up - lo = 1
      · rw [if_pos htwo]
        refine ⟨s₁, rfl, hr₁, ?_⟩
        intro k l hk hkl hl
        by_cases hkl' : k = l
        · rw [hkl']
        · rw [show k = lo by omega, show l = up by omega]
          exact hends
      · rw [if_neg htwo]
        obtain ⟨hp, hpup⟩ := pivotIndex_between (show 2 ≤ up - lo by omega) rnd
        obtain ⟨s₂, hrun₂, hr₂, hbelow, habove⟩ := sortMiddle_ok key clock s₁ hp hpup hends
        rw [bind_of_ok hrun₂]
        by_cases hthree : up - lo = 2
        · rw [if_pos hthree]
          refine ⟨s₂, rfl, hr₁.trans hr₂, ?_⟩
          refine SplitAt.sorted (p := pivotIndex lo up rnd) ⟨?_, ?_⟩ (.of_le (by omega))
            (.of_le (by omega))
          · intro k hk hkp
            rw [show k = lo by omega]
            exact hbelow
          · intro k hpk hk
            rw [show k = up by omega]
            exact habove
        · rw [if_neg hthree]
          rw [bind_of_ok (movePivot_ok key clock s₂ _)]
          obtain ⟨p, s₃, hrun₃, hp', hpup', hr₃, hsplit⟩ := partitionLoop_ok clock up lo (up - 1)
            (s₂.swap _ (up - 1)) (Partitioning.of_median hp hpup hbelow habove) (by omega)
          have hpartition : (sortArray key clock).partition lo up
              (s₂.values (pivotIndex lo up rnd)) (s₂.swap _ (up - 1)) = .ok p s₃ := hrun₃
          rw [bind_of_ok hpartition]
          have hr : Rearranged lo up s.values s₃.values :=
            (hr₁.trans hr₂).trans
              ((Rearranged.swap ⟨hp.le, hpup.le⟩ ⟨by omega, by omega⟩).trans hr₃)
          have hlower (rnd : Nat) := auxsort_ok fuel lo (p - 1) rnd (by omega)
          have hupper (rnd : Nat) := auxsort_ok fuel (p + 1) up rnd (by omega)
          split_ifs
          · obtain ⟨s', hrun, hr', hsorted⟩ := sorts_halves clock hp' (by omega) hlower hupper
              (.inl ⟨rfl, rfl, rfl, rfl⟩) hsplit (up - (p + 1)) rnd
            exact ⟨s', hrun, hr.trans hr', hsorted⟩
          · obtain ⟨s', hrun, hr', hsorted⟩ := sorts_halves clock hp' (by omega) hupper hlower
              (.inr ⟨rfl, rfl, rfl, rfl⟩) hsplit (p - 1 - lo) rnd
            exact ⟨s', hrun, hr.trans hr', hsorted⟩
    · rw [if_neg hlt]
      exact ⟨s, rfl, .refl _, .of_le (not_lt.1 hlt)⟩

/-- The sort of an array in memory. -/
theorem sort_ok (n : Nat) : Sorts key 1 n ((sortArray key clock).sort n) := by
  rw [SortArray.sort]
  split_ifs with hn
  · exact auxsort_ok key clock n 1 n 0 (by omega)
  · exact fun s => ⟨s, rfl, .refl _, .of_le (by omega)⟩

end Achain.Glua
