import Mathlib.Algebra.Group.Defs
import Mathlib.Tactic.Abel

/-!
# Checked arithmetic on 64-bit integers

Addition and subtraction that fail where the exact result leaves the 64-bit range. Where they
succeed they agree with the wrapping operations and, on the integers, with the exact ones.
-/

namespace Checked

instance instAddCommGroupInt64 : AddCommGroup Int64 where
  add_assoc := Int64.add_assoc
  zero_add := Int64.zero_add
  add_zero := Int64.add_zero
  add_comm := Int64.add_comm
  neg_add_cancel := Int64.add_left_neg
  sub_eq_add_neg a b := Int64.sub_eq_add_neg a b
  nsmul := nsmulRec
  zsmul := zsmulRec

/-- Addition that fails on overflow. -/
def add? (a b : Int64) : Option Int64 :=
  if 0 < b ∧ Int64.maxValue - b < a then none
  else if b < 0 ∧ a < Int64.minValue - b then none
  else some (a + b)

/-- Subtraction that fails on overflow. -/
def sub? (a b : Int64) : Option Int64 :=
  if 0 < b ∧ a < Int64.minValue + b then none
  else if b < 0 ∧ Int64.maxValue + b < a then none
  else some (a - b)

variable {a b c : Int64}

theorem add?_eq (h : add? a b = some c) : c = a + b := by
  unfold add? at h
  split_ifs at h
  exact (Option.some.inj h).symm

theorem sub?_eq (h : sub? a b = some c) : c = a - b := by
  unfold sub? at h
  split_ifs at h
  exact (Option.some.inj h).symm

theorem toInt_bounds (a : Int64) : -2 ^ 63 ≤ a.toInt ∧ a.toInt ≤ 2 ^ 63 - 1 := by
  have h₁ := Int64.le_toInt a
  have h₂ := Int64.toInt_le a
  rw [Int64.toInt_maxValue] at h₂
  exact ⟨h₁, h₂⟩

/-- An exact result inside the range is not changed by the wrap-around. -/
theorem bmod_of_bounds {x : ℤ} (h₁ : -2 ^ 63 ≤ x) (h₂ : x ≤ 2 ^ 63 - 1) :
    x.bmod (2 ^ 64) = x := by
  apply Int.bmod_eq_of_le <;> omega

theorem toInt_add_of_bounds (h₁ : -2 ^ 63 ≤ a.toInt + b.toInt)
    (h₂ : a.toInt + b.toInt ≤ 2 ^ 63 - 1) : (a + b).toInt = a.toInt + b.toInt := by
  rw [Int64.toInt_add, bmod_of_bounds h₁ h₂]

theorem toInt_sub_of_bounds (h₁ : -2 ^ 63 ≤ a.toInt - b.toInt)
    (h₂ : a.toInt - b.toInt ≤ 2 ^ 63 - 1) : (a - b).toInt = a.toInt - b.toInt := by
  rw [Int64.toInt_sub, bmod_of_bounds h₁ h₂]

theorem add?_toInt (h : add? a b = some c) : c.toInt = a.toInt + b.toInt := by
  have ha := toInt_bounds a
  have hb := toInt_bounds b
  unfold add? at h
  split_ifs at h with h₁ h₂
  obtain rfl := Option.some.inj h
  have hmax : (Int64.maxValue - b).toInt = 2 ^ 63 - 1 - b.toInt ∨ b.toInt < 0 := by
    by_cases hneg : b.toInt < 0
    · exact .inr hneg
    · left
      rw [toInt_sub_of_bounds] <;> rw [Int64.toInt_maxValue] <;> omega
  have hmin : (Int64.minValue - b).toInt = -2 ^ 63 - b.toInt ∨ 0 ≤ b.toInt := by
    by_cases hneg : 0 ≤ b.toInt
    · exact .inr hneg
    · left
      rw [toInt_sub_of_bounds] <;> rw [Int64.toInt_minValue] <;> omega
  simp only [Int64.lt_iff_toInt_lt, Int64.toInt_zero] at h₁ h₂
  apply toInt_add_of_bounds <;> omega

theorem sub?_toInt (h : sub? a b = some c) : c.toInt = a.toInt - b.toInt := by
  have ha := toInt_bounds a
  have hb := toInt_bounds b
  unfold sub? at h
  split_ifs at h with h₁ h₂
  obtain rfl := Option.some.inj h
  have hmin : (Int64.minValue + b).toInt = -2 ^ 63 + b.toInt ∨ b.toInt < 0 := by
    by_cases hneg : b.toInt < 0
    · exact .inr hneg
    · left
      rw [toInt_add_of_bounds] <;> rw [Int64.toInt_minValue] <;> omega
  have hmax : (Int64.maxValue + b).toInt = 2 ^ 63 - 1 + b.toInt ∨ 0 ≤ b.toInt := by
    by_cases hneg : 0 ≤ b.toInt
    · exact .inr hneg
    · left
      rw [toInt_add_of_bounds] <;> rw [Int64.toInt_maxValue] <;> omega
  simp only [Int64.lt_iff_toInt_lt, Int64.toInt_zero] at h₁ h₂
  apply toInt_sub_of_bounds <;> omega

theorem add?_of_bounds (h₁ : -2 ^ 63 ≤ a.toInt + b.toInt) (h₂ : a.toInt + b.toInt ≤ 2 ^ 63 - 1) :
    add? a b = some (a + b) := by
  have hb := toInt_bounds b
  unfold add?
  simp only [Int64.lt_iff_toInt_lt, Int64.toInt_zero]
  rw [if_neg, if_neg]
  · rintro ⟨hneg, hlt⟩
    have hmin : (Int64.minValue - b).toInt = -2 ^ 63 - b.toInt := by
      rw [toInt_sub_of_bounds] <;> rw [Int64.toInt_minValue] <;> omega
    omega
  · rintro ⟨hpos, hlt⟩
    have hmax : (Int64.maxValue - b).toInt = 2 ^ 63 - 1 - b.toInt := by
      rw [toInt_sub_of_bounds] <;> rw [Int64.toInt_maxValue] <;> omega
    omega

theorem sub?_of_bounds (h₁ : -2 ^ 63 ≤ a.toInt - b.toInt) (h₂ : a.toInt - b.toInt ≤ 2 ^ 63 - 1) :
    sub? a b = some (a - b) := by
  have hb := toInt_bounds b
  unfold sub?
  simp only [Int64.lt_iff_toInt_lt, Int64.toInt_zero]
  rw [if_neg, if_neg]
  · rintro ⟨hneg, hlt⟩
    have hmax : (Int64.maxValue + b).toInt = 2 ^ 63 - 1 + b.toInt := by
      rw [toInt_add_of_bounds] <;> rw [Int64.toInt_maxValue] <;> omega
    omega
  · rintro ⟨hpos, hlt⟩
    have hmin : (Int64.minValue + b).toInt = -2 ^ 63 + b.toInt := by
      rw [toInt_add_of_bounds] <;> rw [Int64.toInt_minValue] <;> omega
    omega

end Checked
