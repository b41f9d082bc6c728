import Achain.Numerals
import Achain.Proofs.PriceProducts
import Achain.Proofs.PriceText
import Mathlib.Data.Rat.Floor

/-!
# Reading amounts

The fraction of an amount is a number `f` behind some zeros. The loops scale it to five digits, of which
the zeros take some away again. They stop early at a number of more than 32 bits whose low bits are small,
which comes out right only where the zeros leave nothing of it. The sign is that of the whole part, which
zero has not.
-/

namespace Achain

open Result Decimals

/-- A number that its low 32 bits show as smaller than the precision. -/
def Narrowed (n : Nat) : Prop := 2 ^ 32 ≤ n ∧ n % 2 ^ 32 < 100000

/-! ## The loops -/

section Loops

variable {f z : Nat}

theorem dropZeros_eq (fraction : Nat) : ∀ s : Str,
    dropZeros fraction s = fraction / 10 ^ (s.takeWhile (· == '0')).length
  | [] => by simp [dropZeros]
  | c :: s => by
    rw [dropZeros]
    split_ifs with hc
    · rw [dropZeros_eq, List.takeWhile_cons_of_pos (by simpa using hc), List.length_cons, Nat.pow_succ',
        Nat.div_div_eq_div_mul]
    · rw [List.takeWhile_cons_of_neg (by simpa using hc), List.length_nil, Nat.pow_zero, Nat.div_one]

/-- A fraction is divided by ten until its low bits are below the precision. -/
theorem scaleDown_eq (n : Nat) : ∃ i, scaleDown 100000 n = .ok (n / 10 ^ i) ∧
    n / 10 ^ i % 2 ^ 32 < 100000 ∧ ∀ j < i, 100000 ≤ n / 10 ^ j % 2 ^ 32 := by
  fun_induction scaleDown 100000 n with
  | case1 => omega
  | case2 n hlow hpos ih =>
    obtain ⟨i, hrun, hstop, hbefore⟩ := ih
    refine ⟨i + 1, ?_, ?_, fun j hj => ?_⟩
    · rw [hrun, Nat.pow_succ', Nat.div_div_eq_div_mul]
    · rw [Nat.pow_succ', ← Nat.div_div_eq_div_mul]
      exact hstop
    · cases j with
      | zero => rwa [Nat.pow_zero, Nat.div_one]
      | succ j =>
        rw [Nat.pow_succ', ← Nat.div_div_eq_div_mul]
        exact hbefore j (by omega)
  | case3 n hlow =>
    exact ⟨0, by rw [Nat.pow_zero, Nat.div_one], by rw [Nat.pow_zero, Nat.div_one]; omega,
      fun j hj => absurd hj (Nat.not_lt_zero j)⟩

/-- A fraction is multiplied by ten until its low bits are not below the precision, or it overflows. -/
theorem scaleUp_eq (n : Nat) (hpos : 0 < n) (hfits : n < 2 ^ 63) :
    (∃ m, scaleUp 100000 n = .ok (n * 10 ^ m) ∧ n * 10 ^ m < 2 ^ 63 ∧
        100000 ≤ n * 10 ^ m % 2 ^ 32 ∧ ∀ j < m, n * 10 ^ j % 2 ^ 32 < 100000) ∨
      scaleUp 100000 n = .error .undefined ∧
        ∀ m, n * 10 ^ m < 2 ^ 63 → n * 10 ^ m % 2 ^ 32 < 100000 := by
  fun_induction scaleUp 100000 n with
  | case1 => omega
  | case2 n hlow hne hten ih =>
    have hpow (j : Nat) : n * 10 ^ (j + 1) = n * 10 * 10 ^ j := by rw [Nat.pow_succ', Nat.mul_assoc]
    rcases ih (by omega) hten with ⟨m, hrun, hm, hstop, hbefore⟩ | ⟨hrun, hlow'⟩
    · refine .inl ⟨m + 1, by rw [hpow]; exact hrun, by rw [hpow]; exact hm, by rw [hpow]; exact hstop,
        fun j hj => ?_⟩
      cases j with
      | zero => rwa [Nat.pow_zero, Nat.mul_one]
      | succ j =>
        rw [hpow]
        exact hbefore j (by omega)
    · refine .inr ⟨hrun, fun m hm => ?_⟩
      cases m with
      | zero => rwa [Nat.pow_zero, Nat.mul_one]
      | succ m =>
        rw [hpow] at hm ⊢
        exact hlow' m hm
  | case3 n hlow hne hten =>
    refine .inr ⟨rfl, fun m hm => ?_⟩
    cases m with
    | zero => rwa [Nat.pow_zero, Nat.mul_one]
    | succ m =>
      have : n * 10 ≤ n * 10 ^ (m + 1) :=
        Nat.mul_le_mul_left n (Nat.le_self_pow (by omega) 10)
      omega
  | case4 n hlow =>
    exact .inl ⟨0, by rw [Nat.pow_zero, Nat.mul_one], by rwa [Nat.pow_zero, Nat.mul_one],
      by rw [Nat.pow_zero, Nat.mul_one]; omega, fun j hj => absurd hj (Nat.not_lt_zero j)⟩

end Loops

/-! ## The fraction -/

section Fraction

/-- The zeros that a text begins with. -/
def leadingZeros (s : Str) : Nat := (s.takeWhile (· == '0')).length

/-- What the loops make the right number of: one that fits, and that no loop takes for a smaller one
while the leading zeros leave something of it. -/
structure FractionRead (s : Str) : Prop where
  fits : digitsValue s < 2 ^ 63
  down : ∀ j, Narrowed (digitsValue s / 10 ^ j) → digitsValue s / 10 ^ j < 10 ^ leadingZeros s
  up : Narrowed (digitsValue s) → ∃ m, digitsValue s * 10 ^ m < 10 ^ leadingZeros s ∧
    digitsValue s * 10 ^ (m + 1) < 2 ^ 63 ∧ 100000 ≤ digitsValue s * 10 ^ (m + 1) % 2 ^ 32

variable {s : Str}

/-- A number has the digits behind the leading zeros. -/
theorem digitsValue_bounds (hs : ∀ c ∈ s, c.isDigit = true) (hpos : 0 < digitsValue s) :
    ∃ k, s.length = leadingZeros s + (k + 1) ∧ 10 ^ k ≤ digitsValue s ∧ digitsValue s < 10 ^ (k + 1) := by
  induction s with
  | nil => exact absurd hpos (by decide)
  | cons c s ih =>
    have hs' : ∀ d ∈ s, d.isDigit = true := fun d hd => hs d (by simp [hd])
    by_cases hc : c = '0'
    · have hvalue : digitsValue (c :: s) = digitsValue s := by
        rw [digitsValue, Nat.ofDigitChars_cons, hc]
        rfl
      rw [hvalue] at hpos ⊢
      obtain ⟨k, hlength, hbounds⟩ := ih hs' hpos
      refine ⟨k, ?_, hbounds⟩
      rw [leadingZeros, List.takeWhile_cons_of_pos (by simpa using hc), List.length_cons,
        List.length_cons, hlength, leadingZeros]
      omega
    · have hdigit : 0 < c.toNat - '0'.toNat := by
        have h := (Char.isDigit_iff_toNat.1 (hs c (by simp))).1
        have hne : c.toNat ≠ 48 := fun h => hc (Char.toNat_inj.1 h)
        change 0 < c.toNat - 48
        change 48 ≤ c.toNat at h
        omega
      refine ⟨s.length, ?_, ?_, ofDigitChars_lt hs⟩
      · rw [leadingZeros, List.takeWhile_cons_of_neg (by simpa using hc), List.length_nil,
          List.length_cons, Nat.zero_add]
      · rw [digitsValue, Nat.ofDigitChars_cons, Nat.mul_zero, Nat.zero_add,
          Nat.ofDigitChars_eq_ofDigitChars_zero]
        exact (Nat.le_mul_of_pos_right _ hdigit).trans (Nat.le_add_right _ _)

/-- A number that is too long is right just if the zeros leave nothing of it. -/
theorem misread_iff {h t z : Nat} (ht : t ≤ h / 10 ^ (z + 5)) : h / 10 ^ z = t ↔ h < 10 ^ z := by
  have hpow : h / 10 ^ (z + 5) = h / 10 ^ z / 100000 := by
    rw [Nat.pow_add, ← Nat.div_div_eq_div_mul]
  have hpos : 0 < 10 ^ z := Nat.pow_pos (by decide)
  rw [hpow] at ht
  constructor
  · intro heq
    refine (Nat.div_eq_zero_iff_lt hpos).1 ?_
    omega
  · intro hlt
    rw [(Nat.div_eq_zero_iff_lt hpos).2 hlt] at ht ⊢
    omega

/-- Five digits are the right ones. -/
theorem five_digits {f k m i z n : Nat} (hn : n = z + (k + 1)) (hlow : 10 ^ k ≤ f)
    (hhigh : f < 10 ^ (k + 1)) (hfour : 10 ^ 4 ≤ f * 10 ^ m / 10 ^ i)
    (hfive : f * 10 ^ m / 10 ^ i < 10 ^ 5) : f * 10 ^ m / 10 ^ i / 10 ^ z = f * 100000 / 10 ^ n := by
  have hpos (j : Nat) : 0 < 10 ^ j := Nat.pow_pos (by decide)
  have hlow' := (Nat.le_div_iff_mul_le (hpos i)).1 hfour
  have hhigh' := (Nat.div_lt_iff_lt_mul (hpos i)).1 hfive
  -- both numbers of digits of `f * 10 ^ m`
  have hdigits : k + m = i + 4 := by
    have h₁ : 10 ^ (k + m) ≤ f * 10 ^ m := by
      rw [Nat.pow_add]
      exact Nat.mul_le_mul_right _ hlow
    have h₂ : f * 10 ^ m < 10 ^ (k + 1 + m) := by
      rw [Nat.pow_add]
      exact Nat.mul_lt_mul_of_pos_right hhigh (hpos m)
    have h₃ := (Nat.pow_lt_pow_iff_right (by decide)).1
      (h₁.trans_lt (hhigh'.trans_eq (Nat.pow_add 10 5 i).symm))
    have h₄ := (Nat.pow_lt_pow_iff_right (by decide)).1
      (((Nat.pow_add 10 4 i).trans_le hlow').trans_lt h₂)
    omega
  rw [Nat.div_div_eq_div_mul, ← Nat.pow_add]
  calc f * 10 ^ m / 10 ^ (i + z)
      = f * 10 ^ m * 10 ^ 5 / (10 ^ (i + z) * 10 ^ 5) := (Nat.mul_div_mul_right _ _ (hpos 5)).symm
    _ = f * 100000 * 10 ^ m / (10 ^ n * 10 ^ m) := by
        rw [← Nat.pow_add, ← Nat.pow_add, show i + z + 5 = n + m by omega, Nat.mul_right_comm,
          show 10 ^ 5 = 100000 from rfl]
    _ = f * 100000 / 10 ^ n := Nat.mul_div_mul_right _ _ (hpos m)

/-- Of a longer number there are more digits than five. -/
theorem longer_le {f k z n : Nat} (i : Nat) (hn : n = z + (k + 1)) (hk : i + 9 ≤ k) :
    f * 100000 / 10 ^ n ≤ f / 10 ^ i / 10 ^ (z + 5) := by
  have hpos (j : Nat) : 0 < 10 ^ j := Nat.pow_pos (by decide)
  have hpow : 10 ^ n = 10 ^ (n - 5) * 100000 := by
    rw [show 100000 = 10 ^ 5 from rfl, ← Nat.pow_add, show n - 5 + 5 = n by omega]
  rw [hpow, Nat.mul_div_mul_right _ _ (by decide), Nat.div_div_eq_div_mul, ← Nat.pow_add]
  exact Nat.div_le_div_left (Nat.pow_le_pow_right (by decide) (by omega)) (hpos _)

theorem nine_le {f k : Nat} (i : Nat) (hlong : 2 ^ 32 ≤ f / 10 ^ i) (hhigh : f < 10 ^ (k + 1)) :
    i + 9 ≤ k := by
  have hpos : 0 < 10 ^ i := Nat.pow_pos (by decide)
  have hle := (Nat.le_div_iff_mul_le hpos).1 hlong
  have hten : 10 ^ (9 + i) ≤ f := by
    rw [Nat.pow_add]
    exact (Nat.mul_le_mul_right _ (by decide)).trans hle
  have := (Nat.pow_lt_pow_iff_right (by decide)).1 (hten.trans_lt hhigh)
  omega

/-- A small number that the loop goes on with is still small. -/
theorem small_stays {f m : Nat} (hsmall : f < 100000) (hlow : ∀ j < m, f * 10 ^ j % 2 ^ 32 < 100000) :
    ∀ j < m, f * 10 ^ j < 100000
  | 0, _ => by rwa [Nat.pow_zero, Nat.mul_one]
  | j + 1, hj => by
    have ih := small_stays hsmall hlow j (by omega)
    have h := hlow (j + 1) hj
    rw [Nat.pow_succ, ← Nat.mul_assoc] at h ⊢
    rwa [Nat.mod_eq_of_lt (by omega)] at h

/-- The loop goes on with a small number only until that has as many digits as the precision. -/
theorem small_ends {f : Nat} (hpos : 0 < f) (hsmall : f < 100000) :
    ∃ m, f * 10 ^ m < 2 ^ 63 ∧ 100000 ≤ f * 10 ^ m % 2 ^ 32 := by
  by_contra h
  push Not at h
  have hstays := small_stays (f := f) (m := 7) hsmall fun j hj => h j (by
    have : 10 ^ j ≤ 10 ^ 7 := Nat.pow_le_pow_right (by decide) (by omega)
    have : f * 10 ^ j ≤ 100000 * 10 ^ 7 := Nat.mul_le_mul hsmall.le this
    omega)
  have := hstays 6 (by decide)
  omega

/-- What a number is stopped at, and after how many factors and divisions. -/
structure Stopped (f m i : Nat) : Prop where
  fits : f * 10 ^ m < 2 ^ 63
  enough : 100000 ≤ f * 10 ^ m % 2 ^ 32
  up : ∀ j < m, f * 10 ^ j % 2 ^ 32 < 100000
  few : f * 10 ^ m / 10 ^ i % 2 ^ 32 < 100000
  down : ∀ j < i, 100000 ≤ f * 10 ^ m / 10 ^ j % 2 ^ 32

namespace Stopped

variable {f m i : Nat}

theorem divided (h : Stopped f m i) : 0 < i := by
  refine Nat.pos_of_ne_zero fun hi => ?_
  have hfew := h.few
  rw [hi, Nat.pow_zero, Nat.div_one] at hfew
  have := h.enough
  omega

/-- After a factor one division is enough. -/
theorem eq_one (h : Stopped f (m + 1) i) : i = 1 := by
  have hpos := h.divided
  by_contra hne
  have hdown := h.down 1 (by omega)
  have hup := h.up m (by omega)
  rw [Nat.pow_succ, ← Nat.mul_assoc, Nat.pow_one, Nat.mul_div_cancel _ (by decide)] at hdown
  omega

/-- What is short when it is stopped has five digits. -/
theorem five (h : Stopped f m i) (hshort : f * 10 ^ m / 10 ^ i < 2 ^ 32) :
    10 ^ 4 ≤ f * 10 ^ m / 10 ^ i ∧ f * 10 ^ m / 10 ^ i < 10 ^ 5 := by
  have hfew := h.few
  have hdown := h.down (i - 1) (by have := h.divided; omega)
  have hdiv : f * 10 ^ m / 10 ^ i = f * 10 ^ m / 10 ^ (i - 1) / 10 := by
    rw [Nat.div_div_eq_div_mul, ← Nat.pow_succ,
      Nat.succ_eq_add_one, Nat.sub_add_cancel h.divided]
  rw [Nat.mod_eq_of_lt hshort] at hfew
  have hmod := Nat.mod_le (f * 10 ^ m / 10 ^ (i - 1)) (2 ^ 32)
  exact ⟨by omega, hfew⟩

/-- A number that is multiplied is small, or stopped when it is long. -/
theorem long (h : Stopped f (m + 1) i) (hf : 2 ^ 32 ≤ f) : 2 ^ 32 ≤ f * 10 ^ (m + 1) / 10 ^ i := by
  rw [h.eq_one, Nat.pow_one, show 10 ^ (m + 1) = 10 ^ m * 10 from Nat.pow_succ .., ← Nat.mul_assoc,
    Nat.mul_div_cancel _ (by decide)]
  exact hf.trans (Nat.le_mul_of_pos_right _ (Nat.pow_pos (by decide)))

/-- The last product before a long number is stopped is the number that it is stopped at. -/
theorem stop_eq (h : Stopped f (m + 1) i) : f * 10 ^ (m + 1) / 10 ^ i = f * 10 ^ m := by
  rw [h.eq_one, Nat.pow_one, Nat.pow_succ, ← Nat.mul_assoc, Nat.mul_div_cancel _ (by decide)]

/-- What is long when it is stopped was long before. -/
theorem long_of_stop (h : Stopped f m i) (hlong : 2 ^ 32 ≤ f * 10 ^ m / 10 ^ i) : 2 ^ 32 ≤ f := by
  cases m with
  | zero =>
    rw [Nat.pow_zero, Nat.mul_one] at hlong
    exact hlong.trans (Nat.div_le_self _ _)
  | succ m =>
    rw [h.stop_eq] at hlong
    have hlow := h.up 0 (by omega)
    rw [Nat.pow_zero, Nat.mul_one] at hlow
    by_contra hsmall
    rw [Nat.mod_eq_of_lt (by omega)] at hlow
    have := small_stays hlow h.up m (by omega)
    omega

/-- A long number is stopped at the first of the numbers that are narrowed. -/
theorem narrowed_iff (h : Stopped f m i) (hlong : 2 ^ 32 ≤ f * 10 ^ m / 10 ^ i) (z : Nat) :
    f * 10 ^ m / 10 ^ i < 10 ^ z ↔
      (∀ j, Narrowed (f / 10 ^ j) → f / 10 ^ j < 10 ^ z) ∧
        (Narrowed f → ∃ m, f * 10 ^ m < 10 ^ z ∧ f * 10 ^ (m + 1) < 2 ^ 63 ∧
          100000 ≤ f * 10 ^ (m + 1) % 2 ^ 32) := by
  have hf := h.long_of_stop hlong
  cases m with
  | zero =>
    have henough := h.enough
    have hdown := h.down
    have hfew := h.few
    simp only [Nat.pow_zero, Nat.mul_one] at henough hdown hfew hlong ⊢
    refine ⟨fun hlt => ⟨fun j hj => ?_, fun hn => absurd hn.2 (by omega)⟩, fun hread => ?_⟩
    · have hij : i ≤ j := by
        by_contra hji
        have := hdown j (by omega)
        exact absurd hj.2 (by omega)
      exact (Nat.div_le_div_left (Nat.pow_le_pow_right (by decide) hij)
        (Nat.pow_pos (by decide))).trans_lt hlt
    · exact hread.1 i ⟨hlong, hfew⟩
  | succ m =>
    have hlow := h.up 0 (by omega)
    rw [Nat.pow_zero, Nat.mul_one] at hlow
    rw [h.stop_eq]
    have hle : f ≤ f * 10 ^ m := Nat.le_mul_of_pos_right _ (Nat.pow_pos (by decide))
    refine ⟨fun hlt => ⟨fun j _ => ?_, fun _ => ⟨m, hlt, h.fits, h.enough⟩⟩, fun hread => ?_⟩
    · exact ((Nat.div_le_self _ _).trans hle).trans_lt hlt
    · obtain ⟨m', hlt, -, henough⟩ := hread.2 ⟨hf, hlow⟩
      have hmm : m ≤ m' := by
        by_contra hlt'
        have := h.up (m' + 1) (by omega)
        omega
      exact (Nat.mul_le_mul_left f (Nat.pow_le_pow_right (by decide) hmm)).trans_lt hlt

/-- A short number is not narrowed anywhere. -/
theorem not_narrowed (h : Stopped f m i) (hshort : f * 10 ^ m / 10 ^ i < 2 ^ 32) (j : Nat) :
    ¬Narrowed (f / 10 ^ j) := by
  intro hj
  have hf : 2 ^ 32 ≤ f := hj.1.trans (Nat.div_le_self _ _)
  cases m with
  | zero =>
    have hdown := h.down
    simp only [Nat.pow_zero, Nat.mul_one] at hdown hshort
    by_cases hij : i ≤ j
    · have hle : f / 10 ^ j ≤ f / 10 ^ i :=
        Nat.div_le_div_left (Nat.pow_le_pow_right (by decide) hij) (Nat.pow_pos (by decide))
      exact absurd hj.1 (by omega)
    · have := hdown j (by omega)
      exact absurd hj.2 (by omega)
  | succ m => exact absurd (h.long hf) (by omega)

end Stopped

/-- The loops come to the digits of the fraction just if it is read. -/
theorem scaleFraction_iff (hs : ∀ c ∈ s, c.isDigit = true) (hpos : 0 < digitsValue s)
    (hfits : digitsValue s < 2 ^ 63) :
    scaleFraction 100000 (digitsValue s) s = .ok (digitsValue s * 100000 / 10 ^ s.length) ↔
      FractionRead s := by
  obtain ⟨k, hlength, hlow, hhigh⟩ := digitsValue_bounds hs hpos
  have hread : FractionRead s ↔ (∀ j, Narrowed (digitsValue s / 10 ^ j) →
      digitsValue s / 10 ^ j < 10 ^ leadingZeros s) ∧
        (Narrowed (digitsValue s) → ∃ m, digitsValue s * 10 ^ m < 10 ^ leadingZeros s ∧
          digitsValue s * 10 ^ (m + 1) < 2 ^ 63 ∧ 100000 ≤ digitsValue s * 10 ^ (m + 1) % 2 ^ 32) :=
    ⟨fun h => ⟨h.down, h.up⟩, fun h => ⟨hfits, h.1, h.2⟩⟩
  rw [hread, scaleFraction]
  generalize digitsValue s = f at *
  rcases scaleUp_eq f hpos hfits with ⟨m, hup, hm, henough, hbefore⟩ | ⟨hup, hnever⟩
  · obtain ⟨i, hdown, hfew, hafter⟩ := scaleDown_eq (f * 10 ^ m)
    have hstop : Stopped f m i := ⟨hm, henough, hbefore, hfew, hafter⟩
    rw [hup, ok_bind, hdown, ok_bind, dropZeros_eq, pure_eq_ok]
    change f * 10 ^ m / 10 ^ i / 10 ^ leadingZeros s = _ ↔ _
    by_cases hlong : 2 ^ 32 ≤ f * 10 ^ m / 10 ^ i
    · rw [← hstop.narrowed_iff hlong]
      refine misread_iff ?_
      cases m with
      | zero =>
        rw [Nat.pow_zero, Nat.mul_one] at hlong ⊢
        exact longer_le i hlength (nine_le i hlong hhigh)
      | succ m =>
        have hk := nine_le 0 (by rw [Nat.pow_zero, Nat.div_one]; exact hstop.long_of_stop hlong) hhigh
        rw [hstop.stop_eq]
        refine (longer_le 0 hlength hk).trans ?_
        rw [Nat.pow_zero, Nat.div_one]
        exact Nat.div_le_div_right (Nat.le_mul_of_pos_right _ (Nat.pow_pos (by decide)))
    · have hnone := hstop.not_narrowed (by omega)
      have hfive := hstop.five (by omega)
      refine iff_of_true (five_digits hlength hlow hhigh hfive.1 hfive.2)
        ⟨fun j hj => absurd hj (hnone j), fun hn => absurd ?_ (hnone 0)⟩
      rwa [Nat.pow_zero, Nat.div_one]
  · rw [hup]
    refine iff_of_false (fun h => nomatch h) fun hread => ?_
    have hsmall := hnever 0 (by rwa [Nat.pow_zero, Nat.mul_one])
    rw [Nat.pow_zero, Nat.mul_one] at hsmall
    by_cases hf : 2 ^ 32 ≤ f
    · obtain ⟨m, -, hm, henough⟩ := hread.2 ⟨hf, hsmall⟩
      have := hnever (m + 1) hm
      omega
    · rw [Nat.mod_eq_of_lt (by omega)] at hsmall
      obtain ⟨m, hm, henough⟩ := small_ends hpos hsmall
      have := hnever m hm
      omega

/-- The loops come to a number that fits. -/
theorem scaleFraction_lt {v : Nat} (hpos : 0 < digitsValue s) (hfits : digitsValue s < 2 ^ 63)
    (h : scaleFraction 100000 (digitsValue s) s = .ok v) : v < 2 ^ 63 := by
  rw [scaleFraction] at h
  rcases scaleUp_eq (digitsValue s) hpos hfits with ⟨m, hup, hm, -⟩ | ⟨hup, -⟩
  · obtain ⟨i, hdown, -⟩ := scaleDown_eq (digitsValue s * 10 ^ m)
    rw [hup, ok_bind, hdown, ok_bind, dropZeros_eq, pure_eq_ok] at h
    rw [← h]
    exact ((Nat.div_le_self _ _).trans (Nat.div_le_self _ _)).trans_lt hm
  · rw [hup] at h
    cases h

end Fraction

/-! ## Texts of amounts -/

/-- A number with digits before and after a point, or without a point. -/
structure DecimalText where
  negative : Bool
  whole : Str
  fraction : Option Str
  whole_ne : whole ≠ []
  whole_digits : ∀ c ∈ whole, c.isDigit = true
  fraction_ne : ∀ s, fraction = some s → s ≠ []
  fraction_digits : ∀ s, fraction = some s → ∀ c ∈ s, c.isDigit = true

/-- Without its fraction. -/
def truncate (q : ℚ) : ℤ := if 0 ≤ q then ⌊q⌋ else ⌈q⌉

namespace DecimalText

variable (d : DecimalText)

def sign : Str := if d.negative then ['-'] else []

def text : Str :=
  d.sign ++ d.whole ++
    match d.fraction with
    | none => []
    | some s => '.' :: s

/-- The digits after the point. -/
def decimals : Str := d.fraction.getD []

def magnitude : ℚ := (digitsValue d.whole : ℚ) + (digitsValue d.decimals : ℚ) / 10 ^ d.decimals.length

def value : ℚ := if d.negative then -d.magnitude else d.magnitude

/-- The value times a precision of five digits, which is to be read. -/
def scaled : ℤ := truncate (d.value * 100000)

/-- The number of the fraction in five digits. -/
def fifth : Nat := digitsValue d.decimals * 100000 / 10 ^ d.decimals.length

/-- What is read: a sign before a whole part other than zero, or before nothing, and a fraction that the
loops come to. -/
structure Readable : Prop where
  sign : d.negative = true → 0 < digitsValue d.whole ∨ d.fifth = 0
  fraction : FractionRead d.decimals

theorem decimals_digits : ∀ c ∈ d.decimals, c.isDigit = true := by
  unfold decimals
  cases h : d.fraction with
  | none => simp
  | some s => exact d.fraction_digits s h

theorem floor_magnitude : ⌊d.magnitude * 100000⌋ =
    ((digitsValue d.whole * 100000 + d.fifth : Nat) : ℤ) := by
  have hfraction :
      ⌊((digitsValue d.decimals * 100000 : Nat) : ℚ) / (10 ^ d.decimals.length : Nat)⌋ = (d.fifth : ℤ) :=
    Rat.floor_natCast_div_natCast _ _
  have hsplit : d.magnitude * 100000 =
      ((digitsValue d.decimals * 100000 : Nat) : ℚ) / (10 ^ d.decimals.length : Nat) +
        ((digitsValue d.whole * 100000 : Nat) : ℤ) := by
    rw [magnitude]
    push_cast
    ring
  rw [hsplit, Int.floor_add_intCast, hfraction]
  push_cast
  ring

theorem scaled_eq : d.scaled = withSign d.negative (digitsValue d.whole * 100000 + d.fifth) := by
  have hfloor := d.floor_magnitude
  have hnonneg : 0 ≤ d.magnitude * 100000 := by
    unfold magnitude
    positivity
  unfold scaled value truncate withSign
  cases d.negative with
  | false => rw [if_neg Bool.false_ne_true, if_neg Bool.false_ne_true, if_pos hnonneg, hfloor]
  | true =>
    rw [if_pos rfl, if_pos rfl, neg_mul, Int.ceil_neg, hfloor]
    split_ifs with hneg
    · have hzero : d.magnitude * 100000 = 0 := le_antisymm (neg_nonneg.1 hneg) hnonneg
      rw [hzero, Int.floor_zero] at hfloor
      rw [hzero, neg_zero, Int.floor_zero, ← hfloor, neg_zero]
    · rfl

end DecimalText

/-! ## Reading them -/

section Reading

theorem readSign_digits {negative : Bool} {s : Str} (hs : ∀ c ∈ s, c.isDigit = true) :
    readSign ((if negative then ['-'] else []) ++ s) = (negative, s) := by
  cases negative with
  | true => rfl
  | false =>
    cases s with
    | nil => rfl
    | cons c s => exact readSign_of_isDigit (hs c (by simp)) s

theorem atoll_digits (negative : Bool) {s : Str} (hs : ∀ c ∈ s, c.isDigit = true) :
    atoll ((if negative then ['-'] else []) ++ s) =
      if -2 ^ 63 ≤ withSign negative (digitsValue s) ∧ withSign negative (digitsValue s) < 2 ^ 63 then
        .ok (withSign negative (digitsValue s))
      else .error .undefined := by
  have hspace : ((if negative then ['-'] else []) ++ s).dropWhile isSpaceChar =
      (if negative then ['-'] else []) ++ s := by
    cases negative with
    | true => exact List.dropWhile_cons_of_neg (by decide)
    | false =>
      cases s with
      | nil => rfl
      | cons c s =>
        refine List.dropWhile_cons_of_neg ?_
        rw [isSpaceChar_of_isDigit (hs c (by simp))]
        decide
  rw [atoll, hspace, readSign_digits hs]
  simp only [List.takeWhile_eq_self_iff.2 hs]

/-- Adding the number of the fraction comes to the amount just if it is the right number, and the sign is
not lost with a whole part of zero. -/
theorem addFraction_iff {shares : Int64} {negative : Bool} {w v t : Nat}
    (hshares : shares.toInt = withSign negative (w * 100000)) (hv : v < 2 ^ 63)
    (hfits : -2 ^ 63 ≤ withSign negative (w * 100000 + t) ∧
      withSign negative (w * 100000 + t) < 2 ^ 63) :
    (∃ x, (if 0 ≤ shares then Checked.add? shares (.ofNat v) else Checked.sub? shares (.ofNat v)) =
        some x ∧ x.toInt = withSign negative (w * 100000 + t)) ↔
      v = t ∧ (negative = true → 0 < w ∨ t = 0) := by
  have hnat : (Int64.ofNat v).toInt = v := Int64.toInt_ofNat_of_lt hv
  by_cases hsign : 0 ≤ shares
  · have hpos : 0 ≤ shares.toInt := by
      rw [← Int64.toInt_zero]
      exact Int64.le_iff_toInt_le.1 hsign
    rw [if_pos hsign]
    have hneg : negative = true → w = 0 := fun hn => by
      rw [hshares, hn, withSign, if_pos rfl] at hpos
      omega
    constructor
    · rintro ⟨x, hadd, hx⟩
      rw [Checked.add?_toInt hadd, hshares, hnat] at hx
      cases negative with
      | true =>
        simp only [withSign, if_true, hneg rfl] at hx
        exact ⟨by omega, fun _ => .inr (by omega)⟩
      | false =>
        simp only [withSign, Bool.false_eq_true, if_false] at hx
        exact ⟨by omega, fun h => nomatch h⟩
    · rintro ⟨rfl, hlost⟩
      have hsum : shares.toInt + (Int64.ofNat v).toInt = withSign negative (w * 100000 + v) := by
        rw [hshares, hnat]
        cases negative with
        | true =>
          have hw := hneg rfl
          have hv0 := (hlost rfl).resolve_left (by omega)
          simp [withSign, hw, hv0]
        | false => simp [withSign]
      exact ⟨_, Checked.add?_of_bounds (by omega) (by omega),
        by rw [Checked.toInt_add_of_bounds (by omega) (by omega), hsum]⟩
  · have hneg : shares.toInt < 0 := by
      rw [← Int64.toInt_zero]
      exact Int64.lt_iff_toInt_lt.1 (Int64.not_le.1 hsign)
    rw [if_neg hsign]
    obtain rfl : negative = true := by
      cases negative with
      | true => rfl
      | false =>
        rw [hshares, withSign, if_neg Bool.false_ne_true] at hneg
        omega
    rw [withSign, if_pos rfl] at hshares hfits
    constructor
    · rintro ⟨x, hsub, hx⟩
      rw [Checked.sub?_toInt hsub, hshares, hnat, withSign, if_pos rfl] at hx
      exact ⟨by omega, fun _ => .inl (by omega)⟩
    · rintro ⟨rfl, -⟩
      have hdifference : shares.toInt - (Int64.ofNat v).toInt = -((w * 100000 + v : Nat) : ℤ) := by
        rw [hshares, hnat]
        omega
      refine ⟨_, Checked.sub?_of_bounds (by omega) (by omega), ?_⟩
      rw [Checked.toInt_sub_of_bounds (by omega) (by omega), hdifference, withSign, if_pos rfl]

variable {d : DecimalText} {a : AssetEntry}

theorem DecimalText.text_split (d : DecimalText) :
    d.text.takeWhile (· != '.') = d.sign ++ d.whole ∧ d.text.dropWhile (· != '.') =
      match d.fraction with
      | none => []
      | some s => '.' :: s := by
  have hdigits : ∀ c ∈ d.sign ++ d.whole, (c != '.') = true := fun c hc => by
    refine bne_iff_ne.2 fun h => ?_
    rw [h] at hc
    rcases List.mem_append.1 hc with hc | hc
    · unfold DecimalText.sign at hc
      split_ifs at hc
      · exact absurd (List.mem_singleton.1 hc) (by decide)
      · cases hc
    · exact absurd (d.whole_digits '.' hc) (by decide)
  rw [DecimalText.text, List.takeWhile_append_of_pos hdigits, List.dropWhile_append_of_pos hdigits]
  cases d.fraction <;> simp

theorem withSign_le {negative : Bool} {m n : Nat} (hmn : m ≤ n)
    (hn : -2 ^ 63 ≤ withSign negative n ∧ withSign negative n < 2 ^ 63) :
    -2 ^ 63 ≤ withSign negative m ∧ withSign negative m < 2 ^ 63 := by
  unfold withSign at *
  split_ifs at * <;> omega

/-- The whole part, times the precision. -/
theorem DecimalText.readWhole (d : DecimalText) (hfits : -2 ^ 63 ≤ d.scaled ∧ d.scaled < 2 ^ 63) :
    atoll (d.sign ++ d.whole) = .ok (withSign d.negative (digitsValue d.whole)) ∧
      (Int64.ofInt (withSign d.negative (digitsValue d.whole)) * Int64.ofNat 100000).toInt =
        withSign d.negative (digitsValue d.whole * 100000) := by
  rw [d.scaled_eq] at hfits
  have hproduct : withSign d.negative (digitsValue d.whole) * ((100000 : Nat) : ℤ) =
      withSign d.negative (digitsValue d.whole * 100000) := by
    unfold withSign
    split_ifs <;> push_cast <;> ring
  have hwhole := withSign_le (Nat.le_add_right (digitsValue d.whole * 100000) d.fifth) hfits
  constructor
  · rw [DecimalText.sign, atoll_digits _ d.whole_digits, if_pos (withSign_le (by omega) hwhole)]
  · rw [← Int64.ofInt_eq_ofNat, ← Int64.ofInt_mul, hproduct, Int64.toInt_ofInt_of_le hwhole.1 hwhole.2]

/-- An amount without a fraction, or with one of zeros. -/
theorem DecimalText.readable_of_zero (d : DecimalText) (hzero : digitsValue d.decimals = 0) :
    d.Readable := by
  refine ⟨fun _ => .inr ?_, ?_, fun j hj => ?_, fun hn => ?_⟩
  · rw [fifth, hzero, Nat.zero_mul, Nat.zero_div]
  · rw [hzero]
    decide
  · rw [hzero, Nat.zero_div] at hj
    exact absurd hj.1 (by decide)
  · rw [hzero] at hn
    exact absurd hn.1 (by decide)

/-- An amount is read just if it is readable. -/
theorem assetFromString_iff (hprecision : a.precision = 100000)
    (hfits : -2 ^ 63 ≤ d.scaled ∧ d.scaled < 2 ^ 63) :
    (∃ x, a.assetFromString d.text = .ok ⟨x, a.id⟩ ∧ x.toInt = d.scaled) ↔ d.Readable := by
  obtain ⟨hwhole, hshares⟩ := d.readWhole hfits
  have hdigits := d.decimals_digits
  have hzero (h : digitsValue d.decimals = 0) : withSign d.negative (digitsValue d.whole * 100000) =
      d.scaled := by
    rw [d.scaled_eq, DecimalText.fifth, h, Nat.zero_mul, Nat.zero_div, Nat.add_zero]
  rw [AssetEntry.assetFromString, d.text_split.1, d.text_split.2, hwhole, ok_bind, hprecision]
  generalize Int64.ofInt (withSign d.negative (digitsValue d.whole)) * Int64.ofNat 100000 = shares at *
  cases hfraction : d.fraction with
  | none =>
    have hnone : digitsValue d.decimals = 0 := by
      rw [DecimalText.decimals, hfraction]
      rfl
    exact iff_of_true ⟨shares, rfl, hshares.trans (hzero hnone)⟩ (d.readable_of_zero hnone)
  | some s =>
    have hdecimals : d.decimals = s := by rw [DecimalText.decimals, hfraction]; rfl
    have hempty : s.isEmpty = false := by
      cases s with
      | nil => exact absurd rfl (d.fraction_ne [] hfraction)
      | cons c s => rfl
    have hatoll := atoll_digits false (s := s) (hdecimals ▸ hdigits)
    rw [if_neg Bool.false_ne_true, List.nil_append, withSign, if_neg Bool.false_ne_true] at hatoll
    simp only [hatoll, hempty, Bool.false_or, decide_eq_true_eq]
    rw [hdecimals] at hzero
    by_cases hlarge : 2 ^ 63 ≤ digitsValue s
    · rw [if_neg (by omega)]
      refine iff_of_false (fun ⟨x, hx, _⟩ => nomatch hx) fun h => ?_
      have := h.fraction.fits
      rw [hdecimals] at this
      omega
    · rw [if_pos (by omega), ok_bind]
      by_cases hpos : digitsValue s = 0
      · rw [if_pos (by omega)]
        exact iff_of_true ⟨shares, rfl, hshares.trans (hzero hpos)⟩
          (d.readable_of_zero (hdecimals ▸ hpos))
      · rw [if_neg (by omega), Int.toNat_natCast]
        have hiff := scaleFraction_iff (hdecimals ▸ hdigits) (Nat.pos_of_ne_zero hpos)
          (Nat.lt_of_not_le hlarge)
        have hfifth : digitsValue s * 100000 / 10 ^ s.length = d.fifth := by
          rw [DecimalText.fifth, hdecimals]
        have hreadable : d.Readable ↔ FractionRead s ∧
            (d.negative = true → 0 < digitsValue d.whole ∨ d.fifth = 0) :=
          ⟨fun h => ⟨hdecimals ▸ h.fraction, h.sign⟩, fun h => ⟨h.2, hdecimals ▸ h.1⟩⟩
        rw [hreadable, ← hiff, hfifth]
        cases hscale : scaleFraction 100000 (digitsValue s) s with
        | error e => exact iff_of_false (fun ⟨x, hx, _⟩ => nomatch hx) fun h => nomatch h.1
        | ok v =>
          have hv := scaleFraction_lt (Nat.pos_of_ne_zero hpos) (Nat.lt_of_not_le hlarge) hscale
          rw [d.scaled_eq] at hfits ⊢
          rw [ok_eq_ok, ← addFraction_iff hshares hv hfits, ok_bind]
          refine exists_congr fun x => and_congr_left fun _ => ?_
          rw [bind_eq_ok]
          constructor
          · rintro ⟨y, hy, hxy⟩
            rw [orThrow_eq_ok] at hy
            rw [hy, (Asset.mk.inj (Except.ok.inj hxy)).1]
          · intro h
            exact ⟨x, by rw [orThrow_eq_ok, h], rfl⟩

end Reading

/-! ## Amounts that were written -/

section Written

variable {F : FcText} {a : AssetEntry} {x : ShareType}

/-- The shares that are written, without the sign. -/
theorem toNat_shares (hx : Int64.minValue < x) :
    (if 0 ≤ x then x else -x).toUInt64.toNat = x.toInt.natAbs := by
  rw [Int64.lt_iff_toInt_lt, Int64.toInt_minValue] at hx
  have hmax := Int64.toInt_lt x
  have hzero : 0 ≤ x ↔ 0 ≤ x.toInt := by rw [Int64.le_iff_toInt_le, Int64.toInt_zero]
  split_ifs with hsign
  · have := toNat_amount hsign
    omega
  · rw [hzero] at hsign
    have hneg : (-x).toInt = -x.toInt := by
      rw [Int64.toInt_neg, Checked.bmod_of_bounds (by omega) (by omega)]
    have hle : 0 ≤ -x := by
      rw [Int64.le_iff_toInt_le, Int64.toInt_zero, hneg]
      omega
    have := toNat_amount hle
    omega

/-- What is written without separators: the sign, and all five digits of the fraction. -/
theorem amountToString_eq (hF : F.Decimal) (hprecision : a.precision = 100000)
    (hx : Int64.minValue < x) :
    ∃ d : DecimalText, (a.amountToString F x false).filter (· != ',') = d.text ∧
      d.negative = decide (x < 0) ∧ digitsValue d.whole = x.toInt.natAbs / 100000 ∧
      d.decimals.length = 5 ∧ digitsValue d.decimals = x.toInt.natAbs % 100000 := by
  have hshares := toNat_shares hx
  have hprec : (UInt64.ofNat 100000).toNat = 100000 := rfl
  have hbound : x.toInt.natAbs < 2 ^ 63 := by
    have := Int64.toInt_lt x
    rw [Int64.lt_iff_toInt_lt, Int64.toInt_minValue] at hx
    omega
  obtain ⟨s, hdigits, hlength, hs, hvalue⟩ :=
    toDigits_pow_add (k := 5) (n := x.toInt.natAbs % 100000) (Nat.mod_lt _ (by decide))
  refine ⟨⟨decide (x < 0), Nat.toDigits 10 (x.toInt.natAbs / 100000), some s, ?_,
    fun c hc => isDigit_toDigits hc, ?_, ?_⟩, ?_, rfl, Nat.ofDigitChars_ten_toDigits, hlength, hvalue⟩
  · exact List.ne_nil_of_length_pos Nat.length_toDigits_pos
  · rintro t ⟨⟩ rfl
    cases hlength
  · rintro t ⟨⟩
    exact hs
  · have hdecimal : F.toString (UInt64.ofNat 100000 +
        (if 0 ≤ x then x else -x).toUInt64 % UInt64.ofNat 100000).toNat = '1' :: s := by
      rw [UInt64.toNat_add, UInt64.toNat_mod, hshares, hprec, Nat.mod_eq_of_lt (by omega), hF.toString,
        signedDigits, if_neg (by omega), Int.natAbs_natCast]
      exact hdigits
    have hpretty : (F.toPrettyString ((if 0 ≤ x then x else -x).toUInt64 /
        UInt64.ofNat 100000).toInt64.toInt).filter (· != ',') =
          Nat.toDigits 10 (x.toInt.natAbs / 100000) := by
      have hwhole : ((if 0 ≤ x then x else -x).toUInt64 / UInt64.ofNat 100000).toInt64.toInt =
          (x.toInt.natAbs / 100000 : Nat) := by
        have hquotient : ((if 0 ≤ x then x else -x).toUInt64 / UInt64.ofNat 100000).toNat =
            x.toInt.natAbs / 100000 := by
          rw [UInt64.toNat_div, hshares, hprec]
        rw [← hquotient, ← Int64.toInt_ofNat_of_lt (by omega), ← UInt64.toInt64_ofNat',
          UInt64.ofNat_toNat]
      rw [hF.toPrettyString, hwhole, signedDigits, if_neg (by omega), Int.natAbs_natCast]
    have hcommas : s.filter (· != ',') = s := List.filter_eq_self.2 fun c hc => bne_iff_ne.2 fun h => by
      rw [h] at hc
      exact absurd (hs ',' hc) (by decide)
    rw [AssetEntry.amountToString, hprecision]
    simp only [hdecimal, List.set_cons_zero, Bool.false_eq_true, if_false]
    have hpoint : ('.' :: s).filter (· != ',') = '.' :: s := by
      rw [List.filter_cons_of_pos (by decide), hcommas]
    by_cases hneg : x < 0
    · rw [if_pos hneg, List.filter_cons_of_pos (by decide), List.filter_append, hpretty, hpoint]
      simp [DecimalText.text, DecimalText.sign, hneg]
    · rw [if_neg hneg, List.filter_append, hpretty, hpoint]
      simp [DecimalText.text, DecimalText.sign, hneg]

/-- A fraction of no more than 32 bits is read. -/
theorem fractionRead_of_lt {s : Str} (hs : digitsValue s < 2 ^ 32) : FractionRead s := by
  have hnever : ∀ n ≤ digitsValue s, ¬Narrowed n := fun n hn h => by
    have := h.1
    omega
  exact ⟨by omega, fun j hj => absurd hj (hnever _ (Nat.div_le_self _ _)),
    fun h => absurd h (hnever _ le_rfl)⟩

theorem sign_kept_iff (n : ℤ) : (n < 0 → 0 < n.natAbs / 100000 ∨ n.natAbs % 100000 = 0) ↔
    ¬(-100000 < n ∧ n < 0) := by
  omega

/-- An amount that was written comes back unless it is negative and less than a whole. -/
theorem amount_readBack_iff (hF : F.Decimal) (hprecision : a.precision = 100000)
    (hx : Int64.minValue < x) :
    a.assetFromString ((a.amountToString F x false).filter (· != ',')) = .ok ⟨x, a.id⟩ ↔
      ¬(-100000 < x.toInt ∧ x.toInt < 0) := by
  obtain ⟨d, htext, hnegative, hwhole, hlength, hvalue⟩ := amountToString_eq hF hprecision hx
  have hfifth : d.fifth = x.toInt.natAbs % 100000 := by
    rw [DecimalText.fifth, hvalue, hlength]
    exact Nat.mul_div_cancel _ (by decide)
  have hlt : x < 0 ↔ x.toInt < 0 := by rw [Int64.lt_iff_toInt_lt, Int64.toInt_zero]
  have hscaled : d.scaled = x.toInt := by
    rw [d.scaled_eq, hfifth, hwhole, hnegative, Nat.div_add_mod', decide_eq_decide.2 hlt]
    exact withSign_natAbs x.toInt
  have hbounds := Checked.toInt_bounds x
  rw [htext]
  have hfits : -2 ^ 63 ≤ d.scaled ∧ d.scaled < 2 ^ 63 := by
    rw [hscaled]
    omega
  have hiff := assetFromString_iff hprecision hfits
  rw [hscaled] at hiff
  have hread : d.Readable ↔ ¬(-100000 < x.toInt ∧ x.toInt < 0) := by
    have hsign : (d.negative = true → 0 < digitsValue d.whole ∨ d.fifth = 0) ↔
        ¬(-100000 < x.toInt ∧ x.toInt < 0) := by
      rw [hnegative, decide_eq_true_eq, hlt, hwhole, hfifth]
      exact sign_kept_iff x.toInt
    rw [← hsign]
    exact ⟨fun h => h.sign, fun h => ⟨h, fractionRead_of_lt (by rw [hvalue]; omega)⟩⟩
  rw [← hread, ← hiff]
  constructor
  · intro h
    exact ⟨x, h, rfl⟩
  · rintro ⟨y, hy, hxy⟩
    rw [hy, Int64.toInt_inj.1 hxy]

end Written

/-- Amounts are read, and read back, just if their fraction is and their sign is not lost. -/
theorem amounts_read_iff (F : FcText) (hF : F.Decimal) (a : AssetEntry) (hprecision : a.precision = 100000) :
    (∀ d : DecimalText, -2 ^ 63 ≤ d.scaled ∧ d.scaled < 2 ^ 63 →
      ((∃ x, a.assetFromString d.text = .ok ⟨x, a.id⟩ ∧ x.toInt = d.scaled) ↔ d.Readable)) ∧
    ∀ x : ShareType, Int64.minValue < x →
      (a.assetFromString ((a.amountToString F x false).filter (· != ',')) = .ok ⟨x, a.id⟩ ↔
        ¬(-100000 < x.toInt ∧ x.toInt < 0)) :=
  ⟨fun _ => assetFromString_iff hprecision, fun _ => amount_readBack_iff hF hprecision⟩

/-- The amount `-1.5`. -/
def DecimalText.minusOneAndHalf : DecimalText where
  negative := true
  whole := ['1']
  fraction := some ['5']
  whole_ne := by decide
  whole_digits := by simp
  fraction_ne := by rintro s ⟨⟩; decide
  fraction_digits := by rintro s ⟨⟩; simp

/-- An asset of five digits reads `-1.5`, and writes and reads back 250000. -/
theorem amounts_read_of_five :
    (∃ x, ({ (default : AssetEntry) with precision := 100000 }).assetFromString
        DecimalText.minusOneAndHalf.text = .ok ⟨x, 0⟩ ∧
          x.toInt = DecimalText.minusOneAndHalf.scaled) ∧
      ({ (default : AssetEntry) with precision := 100000 }).assetFromString
        ((({ (default : AssetEntry) with precision := 100000 }).amountToString .plain 250000
          false).filter (· != ',')) = .ok ⟨250000, 0⟩ := by
  have hread := amounts_read_iff .plain FcText.decimal_plain
    { (default : AssetEntry) with precision := 100000 } rfl
  have hfits : -2 ^ 63 ≤ DecimalText.minusOneAndHalf.scaled ∧
      DecimalText.minusOneAndHalf.scaled < 2 ^ 63 := by
    rw [DecimalText.scaled_eq]
    decide
  have hfraction : FractionRead DecimalText.minusOneAndHalf.decimals := by
    have hvalue : digitsValue DecimalText.minusOneAndHalf.decimals = 5 := by decide
    have hsmall : ∀ j, ¬Narrowed (5 / 10 ^ j) := fun j hnarrowed => by
      have hle : 5 / 10 ^ j ≤ 5 := Nat.div_le_self 5 (10 ^ j)
      have hlarge := hnarrowed.1
      omega
    refine ⟨by decide, ?_, ?_⟩ <;> rw [hvalue]
    · exact fun j hnarrowed => absurd hnarrowed (hsmall j)
    · exact fun hnarrowed => absurd hnarrowed (hsmall 0)
  exact ⟨(hread.1 .minusOneAndHalf hfits).2 ⟨fun _ => .inl (by decide), hfraction⟩,
    (hread.2 250000 (by decide)).2 (by decide)⟩

/-- The sign of `-0.5` is lost, also where the amount was written so, and `0.4294967296` is multiplied
until it overflows. -/
theorem fractions_misread :
    ({ (default : AssetEntry) with precision := 100000 }).assetFromString ['-', '0', '.', '5'] =
        .ok ⟨50000, 0⟩ ∧
      ({ (default : AssetEntry) with precision := 100000 }).assetFromString
        (({ (default : AssetEntry) with precision := 100000 }).amountToString .plain (-50000) false) ≠
          .ok ⟨-50000, 0⟩ ∧
      ({ (default : AssetEntry) with precision := 100000 }).assetFromString
        ['0', '.', '4', '2', '9', '4', '9', '6', '7', '2', '9', '6'] = .error .undefined := by
  refine ⟨?_, fun h => ?_, ?_⟩
  · have hup : scaleUp 100000 5 = .ok 500000 := by simp [scaleUp]
    have hdown : scaleDown 100000 500000 = .ok 50000 := by simp [scaleDown]
    have hscale : scaleFraction 100000 5 ['5'] = .ok 50000 := by
      rw [scaleFraction, hup, ok_bind, hdown]
      rfl
    have hwhole : atoll ['-', '0'] = .ok 0 := rfl
    have hfraction : atoll ['5'] = .ok 5 := rfl
    simp [AssetEntry.assetFromString, hwhole, hfraction, hscale]
    rfl
  · have hiff := amount_readBack_iff (a := { (default : AssetEntry) with precision := 100000 })
      (x := -50000) FcText.decimal_plain rfl (by decide)
    rw [List.filter_eq_self.2 (List.all_eq_true.1 rfl)] at hiff
    exact hiff.1 h (by decide)
  · have hup : scaleUp 100000 4294967296 = .error .undefined := by simp [scaleUp]
    have hscale : scaleFraction 100000 4294967296 ['4', '2', '9', '4', '9', '6', '7', '2', '9', '6'] =
        .error .undefined := by
      rw [scaleFraction, hup]
      rfl
    have hwhole : atoll ['0'] = .ok 0 := rfl
    have hfraction : atoll ['4', '2', '9', '4', '9', '6', '7', '2', '9', '6'] = .ok 4294967296 := rfl
    simp [AssetEntry.assetFromString, hwhole, hfraction, hscale]

end Achain
