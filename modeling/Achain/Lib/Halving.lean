import Mathlib.Algebra.Ring.Nat
import Mathlib.Data.Nat.Size
import Mathlib.Data.Nat.Find
import Mathlib.Order.Monotone.Basic

/-!
# Halving the rest

Positions from the first of `n` places to the last, each time past half of the places that are left.
There are as many of them as `n` has binary digits.
-/

namespace Halving

variable {n k f high : Nat}

/-- The position after a given one. -/
def next (n s : Nat) : Nat := s + (n - s + 2) / 2

/-- The positions, from the first place on. -/
def seq (n : Nat) : Nat → Nat
  | 0 => 1
  | k + 1 => next n (seq n k)

theorem lt_next (n s : Nat) : s < next n s := by
  unfold next
  omega

theorem seq_strictMono (n : Nat) : StrictMono (seq n) :=
  strictMono_nat_of_lt_succ fun k => lt_next n (seq n k)

theorem lt_seq (n : Nat) : ∀ k, k < seq n k
  | 0 => Nat.one_pos
  | k + 1 => lt_of_le_of_lt (lt_seq n k) (lt_next n (seq n k))

/-- The places left, a position's own among them, are halved. -/
theorem left_next (n s : Nat) : n + 1 - next n s = (n + 1 - s) / 2 := by
  unfold next
  omega

theorem left_seq (n : Nat) : ∀ k, n + 1 - seq n k = n / 2 ^ k
  | 0 => by rw [seq, Nat.add_sub_cancel, Nat.pow_zero, Nat.div_one]
  | k + 1 => by rw [seq, left_next, left_seq n k, Nat.div_div_eq_div_mul, Nat.pow_succ]

theorem seq_le_iff : seq n k ≤ n ↔ k < n.size := by
  rw [Nat.lt_size, ← Nat.one_le_div_iff (Nat.two_pow_pos k), ← left_seq n k]
  omega

theorem seq_size (hn : 0 < n) : seq n (n.size - 1) = n := by
  have hsize := Nat.size_pos.2 hn
  have hle : seq n (n.size - 1) ≤ n := seq_le_iff.2 (by omega)
  have hlt : ¬ seq n (n.size - 1 + 1) ≤ n := fun h => absurd (seq_le_iff.1 h) (by omega)
  rw [seq, next] at hlt
  omega

/-- How many positions are within some of the places. -/
theorem exists_count (n high : Nat) : ∃ m, ∀ k, seq n k ≤ high ↔ k < m := by
  have hlarge : ∃ m, ¬ seq n m ≤ high :=
    ⟨high, not_le.2 (lt_seq n high)⟩
  refine ⟨Nat.find hlarge, fun k => ⟨fun hk => ?_, fun hk => ?_⟩⟩
  · by_contra hge
    exact Nat.find_spec hlarge (((seq_strictMono n).monotone (not_lt.1 hge)).trans hk)
  · exact not_not.1 (Nat.find_min hlarge hk)

/-- The last position up to a place leaves no more places before it than there are after it. -/
theorem gap (hk : seq n k ≤ f) (hnext : f < seq n (k + 1)) (hf : f ≤ n) : f - seq n k ≤ n - f := by
  rw [seq, next] at hnext
  omega

end Halving
