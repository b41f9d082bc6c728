import Mathlib.Data.List.DropRight
import Mathlib.Data.List.Shortlex
import Mathlib.Data.Nat.Basic

/-!
# Decimal numerals

The numeral of a smaller number is shorter, or as long and before the other in the order of its digits.
Digits are below a power of ten, which put before them shows them with all their leading zeros; zeros at
the end multiply by ten.
-/

namespace Decimals

/-- A numeral of one digit more. -/
theorem toDigits_step {n : Nat} (h : 10 ≤ n) :
    Nat.toDigits 10 n = Nat.toDigits 10 (n / 10) ++ [(n % 10).digitChar] :=
  Nat.toDigits_of_base_le (by decide) h

theorem digitChar_lt : ∀ i < 10, ∀ j < 10, i < j → i.digitChar < j.digitChar := by
  decide

theorem shortlex_append {s t : List Char} {c d : Char} (h : List.Shortlex (· < ·) s t) :
    List.Shortlex (· < ·) (s ++ [c]) (t ++ [d]) := by
  rcases List.shortlex_def.1 h with hlength | ⟨hlength, hlex⟩
  · exact .of_length_lt (by simpa using hlength)
  · refine .of_lex (by simpa using hlength) ?_
    clear h
    induction hlex with
    | nil => simp at hlength
    | rel h => exact .rel h
    | cons _ ih => exact .cons (ih (by simpa using hlength))

theorem shortlex_toDigits {i j : Nat} (h : i < j) :
    List.Shortlex (· < ·) (Nat.toDigits 10 i) (Nat.toDigits 10 j) := by
  induction j using Nat.strong_induction_on generalizing i with
  | _ j ih =>
    by_cases hj : j < 10
    · rw [Nat.toDigits_of_lt_base hj, Nat.toDigits_of_lt_base (h.trans hj), List.shortlex_singleton_iff]
      exact digitChar_lt i (h.trans hj) j hj h
    · rw [toDigits_step (not_lt.1 hj)]
      by_cases hi : i < 10
      · rw [Nat.toDigits_of_lt_base hi]
        have hpos : 0 < (Nat.toDigits 10 (j / 10)).length := Nat.length_toDigits_pos
        exact .of_length_lt (by simpa using hpos)
      · rw [toDigits_step (not_lt.1 hi)]
        rcases Nat.lt_or_eq_of_le (Nat.div_le_div_right (c := 10) h.le) with hdiv | hdiv
        · exact shortlex_append (ih (j / 10) (by omega) hdiv)
        · rw [hdiv]
          refine List.Shortlex.append_left ?_ _
          rw [List.shortlex_singleton_iff]
          exact digitChar_lt _ (by omega) _ (by omega) (by omega)

theorem toDigits_injective {i j : Nat} (h : Nat.toDigits 10 i = Nat.toDigits 10 j) : i = j := by
  rw [← Nat.ofDigitChars_ten_toDigits (n := i), h, Nat.ofDigitChars_ten_toDigits]

/-- Every character of a numeral is a digit. -/
theorem toDigits_digits (n : Nat) : ∀ c ∈ Nat.toDigits 10 n, '0' ≤ c ∧ c ≤ '9' := by
  have hdigit : ∀ i < 10, '0' ≤ i.digitChar ∧ i.digitChar ≤ '9' := by decide
  induction n using Nat.strong_induction_on with
  | _ n ih =>
    by_cases hn : n < 10
    · rw [Nat.toDigits_of_lt_base hn]
      simpa using hdigit n hn
    · rw [toDigits_step (not_lt.1 hn)]
      intro c hc
      rcases List.mem_append.1 hc with hc | hc
      · exact ih (n / 10) (by omega) c hc
      · rw [List.mem_singleton.1 hc]
        exact hdigit _ (by omega)

/-! ## Digits with zeros before and after them -/

theorem isDigit_toDigits {n : Nat} {c : Char} (hc : c ∈ Nat.toDigits 10 n) : c.isDigit = true :=
  Nat.isDigit_of_mem_toDigits (by decide) (by decide) hc

theorem isDigit_le {c : Char} (hc : c.isDigit = true) : c.toNat - '0'.toNat < 10 := by
  rw [Char.isDigit_iff_toNat] at hc
  have h := hc.2
  change c.toNat ≤ 57 at h
  change c.toNat - 48 < 10
  omega

theorem ofDigitChars_concat (s : List Char) (c : Char) :
    Nat.ofDigitChars 10 (s ++ [c]) 0 = 10 * Nat.ofDigitChars 10 s 0 + (c.toNat - '0'.toNat) := by
  rw [Nat.ofDigitChars_append, Nat.ofDigitChars_cons, Nat.ofDigitChars_nil]

theorem ofDigitChars_lt {s : List Char} (hs : ∀ c ∈ s, c.isDigit = true) :
    Nat.ofDigitChars 10 s 0 < 10 ^ s.length := by
  induction s using List.reverseRecOn with
  | nil => decide
  | append_singleton s c ih =>
    have hs' := ih fun d hd => hs d (by simp [hd])
    have hc := isDigit_le (hs c (by simp))
    rw [ofDigitChars_concat, List.length_append, List.length_singleton, Nat.pow_succ]
    omega

/-- A power of ten shows the digits of what is added to it, with their leading zeros. -/
theorem toDigits_pow_add {k n : Nat} (hn : n < 10 ^ k) :
    ∃ s, Nat.toDigits 10 (10 ^ k + n) = '1' :: s ∧ s.length = k ∧ (∀ c ∈ s, c.isDigit = true) ∧
      Nat.ofDigitChars 10 s 0 = n := by
  induction k generalizing n with
  | zero =>
    obtain rfl : n = 0 := by omega
    exact ⟨[], rfl, rfl, by simp, rfl⟩
  | succ k ih =>
    rw [Nat.pow_succ] at hn
    obtain ⟨s, hdigits, hlength, hs, hvalue⟩ := ih (n := n / 10) (by omega)
    have hpow : 0 < 10 ^ k := Nat.pow_pos (by decide)
    have hdiv : (10 ^ (k + 1) + n) / 10 = 10 ^ k + n / 10 := by
      rw [Nat.pow_succ]
      omega
    have hmod : (10 ^ (k + 1) + n) % 10 = n % 10 := by
      rw [Nat.pow_succ]
      omega
    have hlast : n % 10 < 10 := Nat.mod_lt _ (by decide)
    refine ⟨s ++ [(n % 10).digitChar], ?_, by simpa using hlength, fun c hc => ?_, ?_⟩
    · rw [toDigits_step (by rw [Nat.pow_succ]; omega), hdiv, hmod, hdigits, List.cons_append]
    · rcases List.mem_append.1 hc with hc | hc
      · exact hs c hc
      · rw [List.mem_singleton.1 hc]
        exact isDigit_toDigits (n := n % 10) (by rw [Nat.toDigits_of_lt_base hlast]; simp)
    · rw [Nat.ofDigitChars_append, hvalue, Nat.ofDigitChars_cons_digitChar_of_lt_ten hlast,
        Nat.ofDigitChars_nil]
      omega

/-- What is dropped from the end is dropped after the last element that stays. -/
theorem rdropWhile_append_cons {V : Type} {p : V → Bool} (a : List V) {c : V} (hc : ¬p c) (s : List V) :
    (a ++ c :: s).rdropWhile p = a ++ c :: s.rdropWhile p := by
  induction s using List.reverseRecOn with
  | nil => rw [List.rdropWhile_concat_neg _ _ _ hc, List.rdropWhile_nil]
  | append_singleton s d ih =>
    rw [← List.cons_append, ← List.append_assoc]
    by_cases hd : p d
    · rw [List.rdropWhile_concat_pos _ _ _ hd, List.rdropWhile_concat_pos _ _ _ hd, ih]
    · rw [List.rdropWhile_concat_neg _ _ _ hd, List.rdropWhile_concat_neg _ _ _ hd, List.append_assoc,
        List.cons_append]

/-- Zeros at the end multiply by ten. -/
theorem ofDigitChars_rdropWhile (s : List Char) :
    Nat.ofDigitChars 10 s 0 = Nat.ofDigitChars 10 (s.rdropWhile (· == '0')) 0 *
      10 ^ (s.length - (s.rdropWhile (· == '0')).length) := by
  induction s using List.reverseRecOn with
  | nil => rfl
  | append_singleton s c ih =>
    by_cases hc : c = '0'
    · have hle : (s.rdropWhile (· == '0')).length ≤ s.length := (List.rdropWhile_prefix _ s).length_le
      rw [List.rdropWhile_concat_pos _ _ _ (by simpa using hc), ofDigitChars_concat, ih, hc,
        List.length_append, List.length_singleton,
        show s.length + 1 - (s.rdropWhile (· == '0')).length =
          s.length - (s.rdropWhile (· == '0')).length + 1 by omega, Nat.pow_succ]
      simp only [Nat.sub_self, Nat.add_zero]
      rw [Nat.mul_comm 10, Nat.mul_assoc]
    · rw [List.rdropWhile_concat_neg _ _ _ (by simpa using hc), Nat.sub_self, Nat.pow_zero, Nat.mul_one]

end Decimals
