import Mathlib.Algebra.Order.Ring.Abs
import Mathlib.Algebra.Order.Ring.Int
import Mathlib.Tactic.Linarith
import Mathlib.Tactic.Ring

/-!
# Doubles

A double of 64 bits that is a number is an integer multiple of the smallest one, and an infinite one
counts as the power of two after the largest finite ones. So doubles are compared with each other and
with integers as integers.
-/

namespace Doubles

/-- The smallest double is 2 to the power of minus this. -/
def unitExponent : Nat := 1074

/-- 1, in units of the smallest double. -/
def unit : Nat := 2 ^ unitExponent

section Bits

variable (bits : UInt64)

def exponent : Nat := bits.toNat / 2 ^ 52 % 2 ^ 11

def fraction : Nat := bits.toNat % 2 ^ 52

def negative : Bool := decide (2 ^ 63 ≤ bits.toNat)

def isNaN : Bool := decide (exponent bits = 2 ^ 11 - 1 ∧ fraction bits ≠ 0)

def isInfinite : Bool := decide (exponent bits = 2 ^ 11 - 1 ∧ fraction bits = 0)

/-- The absolute value, in units. -/
def magnitude : Nat :=
  if exponent bits = 0 then fraction bits else (2 ^ 52 + fraction bits) * 2 ^ (exponent bits - 1)

/-- The value, in units. -/
def value : Int := if negative bits then -magnitude bits else magnitude bits

end Bits

variable {bits bits' : UInt64}

theorem fraction_lt : fraction bits < 2 ^ 52 := Nat.mod_lt _ (by decide)

theorem toNat_eq (bits : UInt64) :
    bits.toNat = (negative bits).toNat * 2 ^ 63 + exponent bits * 2 ^ 52 + fraction bits := by
  have hlt := bits.toNat_lt
  unfold negative exponent fraction
  by_cases h : 2 ^ 63 ≤ bits.toNat
  · simp only [h, decide_true, Bool.toNat_true]
    omega
  · simp only [h, decide_false, Bool.toNat_false]
    omega

theorem magnitude_of_exponent_pos (h : exponent bits ≠ 0) :
    magnitude bits = (2 ^ 52 + fraction bits) * 2 ^ (exponent bits - 1) := if_neg h

/-- Doubles of one exponent lie below those of a larger one. -/
theorem magnitude_lt (h : exponent bits < exponent bits') : magnitude bits < magnitude bits' := by
  have hpow : 2 ^ exponent bits ≤ 2 ^ (exponent bits' - 1) :=
    Nat.pow_le_pow_right (by decide) (by omega)
  have hfraction : fraction bits < 2 ^ 52 := fraction_lt
  have hpos : exponent bits' ≠ 0 := by omega
  rw [magnitude_of_exponent_pos hpos]
  have hbelow : magnitude bits < 2 ^ 52 * 2 ^ exponent bits := by
    by_cases hzero : exponent bits = 0
    · rw [magnitude, if_pos hzero, hzero]
      omega
    · have hsplit : 2 ^ exponent bits = 2 * 2 ^ (exponent bits - 1) := by
        rw [← Nat.pow_succ', Nat.succ_eq_add_one, Nat.sub_add_cancel (by omega)]
      have hpos : 0 < 2 ^ (exponent bits - 1) := Nat.two_pow_pos _
      rw [magnitude_of_exponent_pos hzero, hsplit]
      nlinarith
  calc magnitude bits < 2 ^ 52 * 2 ^ exponent bits := hbelow
    _ ≤ 2 ^ 52 * 2 ^ (exponent bits' - 1) := Nat.mul_le_mul_left _ hpow
    _ ≤ (2 ^ 52 + fraction bits') * 2 ^ (exponent bits' - 1) :=
      Nat.mul_le_mul_right _ (Nat.le_add_right _ _)

theorem magnitude_inj (h : magnitude bits = magnitude bits') :
    exponent bits = exponent bits' ∧ fraction bits = fraction bits' := by
  have hexponent : exponent bits = exponent bits' := by
    rcases lt_trichotomy (exponent bits) (exponent bits') with hlt | heq | hgt
    · exact absurd h (magnitude_lt hlt).ne
    · exact heq
    · exact absurd h (magnitude_lt hgt).ne'
  refine ⟨hexponent, ?_⟩
  unfold magnitude at h
  rw [← hexponent] at h
  split_ifs at h with hzero
  · exact h
  · have := Nat.eq_of_mul_eq_mul_right (Nat.two_pow_pos _) h
    omega

/-- Doubles of one value other than 0 are the same. -/
theorem value_inj (h : value bits = value bits') (hne : value bits ≠ 0) : bits = bits' := by
  have hsign : negative bits = negative bits' ∧ magnitude bits = magnitude bits' := by
    unfold value at h hne
    split_ifs at h hne with hneg hneg' hneg'
    · exact ⟨hneg.trans hneg'.symm, by omega⟩
    · omega
    · omega
    · exact ⟨by rw [Bool.not_eq_true] at hneg hneg'; rw [hneg, hneg'], by omega⟩
  obtain ⟨hexponent, hfraction⟩ := magnitude_inj hsign.2
  apply UInt64.toNat_inj.1
  rw [toNat_eq bits, toNat_eq bits', hsign.1, hexponent, hfraction]

theorem unit_pos : 0 < unit := Nat.two_pow_pos _

theorem pow_le_unit {n : Nat} (h : n ≤ unitExponent) : 2 ^ n ≤ unit := Nat.pow_le_pow_right (by decide) h

theorem unit_dvd_pow {n : Nat} (h : unitExponent ≤ n) : unit ∣ 2 ^ n := pow_dvd_pow 2 h

/-- Doubles of small exponents lie below `2 ^ 53`. -/
theorem magnitude_lt_of_exponent (h : exponent bits ≤ unitExponent) : magnitude bits < 2 ^ 53 * unit := by
  have hfraction : fraction bits < 2 ^ 52 := fraction_lt
  have hpos : 0 < unit := unit_pos
  unfold magnitude
  split_ifs with hzero
  · calc fraction bits < 2 ^ 53 * 1 := by omega
      _ ≤ 2 ^ 53 * unit := Nat.mul_le_mul_left _ hpos
  · calc (2 ^ 52 + fraction bits) * 2 ^ (exponent bits - 1)
        < 2 ^ 53 * 2 ^ (exponent bits - 1) :=
          Nat.mul_lt_mul_of_pos_right (by omega) (Nat.two_pow_pos _)
      _ ≤ 2 ^ 53 * unit := Nat.mul_le_mul_left _ (pow_le_unit (by omega))

theorem abs_value (bits : UInt64) : |value bits| = magnitude bits := by
  unfold value
  split_ifs <;> simp

/-- A double from `2 ^ 53` on is an integer. -/
theorem unit_dvd_of_large (h : 2 ^ 53 * (unit : Int) ≤ |value bits|) : (unit : Int) ∣ value bits := by
  rw [abs_value] at h
  have hnat : 2 ^ 53 * unit ≤ magnitude bits := by exact_mod_cast h
  have hexponent : unitExponent < exponent bits := by
    by_contra hle
    exact absurd hnat (not_le.2 (magnitude_lt_of_exponent (not_lt.1 hle)))
  have hdvd : unit ∣ magnitude bits := by
    rw [magnitude_of_exponent_pos (by omega)]
    exact Dvd.dvd.mul_left (unit_dvd_pow (by omega)) _
  rw [← Int.natCast_dvd_natCast, ← abs_value] at hdvd
  exact (dvd_abs _ _).1 hdvd

end Doubles
