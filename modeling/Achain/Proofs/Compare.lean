import Achain.Glua.Compare
import Mathlib.Data.List.Lex
import Mathlib.Data.Prod.Lex

/-!
# What the comparisons of the VM order by

Numbers are compared by their values: a float that is far enough from 0 for an integer not to fit a float
is an integer itself. Strings are compared by length and then by their characters, of which the null
character is the least, as long as the lengths fit an `int`.
-/

namespace Achain.Glua

open Doubles

/-! ## Numbers -/

/-- A truncated float compares with an integer that does not fit a float as the float does. -/
theorem compare_tdiv {i v u : Int} (hu : 0 < u) (hi : i < -2 ^ 53 ∨ 2 ^ 53 < i)
    (hlarge : 2 ^ 53 * u ≤ |v| → u ∣ v) :
    (i < v.tdiv u ↔ i * u < v) ∧ (i ≤ v.tdiv u ↔ i * u ≤ v) := by
  by_cases hv : 2 ^ 53 * u ≤ |v|
  · obtain ⟨q, rfl⟩ := hlarge hv
    rw [Int.mul_tdiv_cancel_left _ hu.ne', mul_comm u q]
    exact ⟨(mul_lt_mul_iff_left₀ hu).symm, (mul_le_mul_iff_left₀ hu).symm⟩
  · have hlt := abs_lt.1 (not_le.1 hv)
    have hquotient : |v.tdiv u| < 2 ^ 53 := by
      have hnat : (v.tdiv u).natAbs < 2 ^ 53 := by
        rw [Int.natAbs_tdiv]
        refine Nat.div_lt_of_lt_mul ?_
        have : (v.natAbs : Int) < u.natAbs * 2 ^ 53 := by
          rw [Int.natCast_natAbs, Int.natCast_natAbs, abs_of_pos hu, mul_comm]
          exact not_le.1 hv
        exact_mod_cast this
      rw [Int.abs_eq_natAbs]
      exact_mod_cast hnat
    have hquotient := abs_lt.1 hquotient
    rcases hi with hi | hi
    · have : i * u < -2 ^ 53 * u := mul_lt_mul_of_pos_right hi hu
      constructor <;> constructor <;> intro <;> linarith
    · have : 2 ^ 53 * u < i * u := mul_lt_mul_of_pos_right hi hu
      constructor <;> constructor <;> intro <;> linarith

namespace LuaNumber

/-- The value, in units of the smallest double. -/
def value : LuaNumber → Int
  | integer i => i * unit
  | float bits => Doubles.value bits

/-- An integer has 64 bits, and a float is a number. -/
def Valid : LuaNumber → Prop
  | integer i => -2 ^ 63 ≤ i ∧ i < 2 ^ 63
  | float bits => isNaN bits = false

end LuaNumber

theorem cast_unit_pos : (0 : Int) < unit := by exact_mod_cast unit_pos

variable {i : Int} {f : UInt64}

theorem fits_cases (h : intFitsFloat i = false) : i < -2 ^ 53 ∨ 2 ^ 53 < i := by
  rw [intFitsFloat, Bool.and_eq_false_iff, decide_eq_false_iff_not, decide_eq_false_iff_not] at h
  omega

/-- The range of an integer of 64 bits, in units of the smallest double. -/
theorem scaled_bounds (hi : -2 ^ 63 ≤ i ∧ i < 2 ^ 63) :
    -2 ^ 63 * (unit : Int) ≤ i * unit ∧ i * unit < 2 ^ 63 * unit :=
  ⟨mul_le_mul_of_nonneg_right hi.1 cast_unit_pos.le, mul_lt_mul_of_pos_right hi.2 cast_unit_pos⟩

theorem ltIntFloat_iff (hi : -2 ^ 63 ≤ i ∧ i < 2 ^ 63) (hf : isNaN f = false) :
    ltIntFloat i f = true ↔ i * unit < value f := by
  obtain ⟨hlow, hhigh⟩ := scaled_bounds hi
  unfold ltIntFloat
  rw [if_neg (by simp [hf])]
  by_cases hfits : intFitsFloat i = true
  · rw [hfits, Bool.not_true, if_neg Bool.false_ne_true, decide_eq_true_eq]
  · have hfits := Bool.not_eq_true _ ▸ hfits
    rw [hfits, Bool.not_false, if_pos rfl]
    split_ifs with habove hbelow
    · exact iff_of_true rfl (hhigh.trans_le habove)
    · rw [decide_eq_true_eq]
      exact (compare_tdiv cast_unit_pos (fits_cases hfits) unit_dvd_of_large).1
    · exact iff_of_false not_false (not_lt.2 ((not_lt.1 hbelow).trans hlow))

theorem leIntFloat_iff (hi : -2 ^ 63 ≤ i ∧ i < 2 ^ 63) (hf : isNaN f = false) :
    leIntFloat i f = true ↔ i * unit ≤ value f := by
  obtain ⟨hlow, hhigh⟩ := scaled_bounds hi
  unfold leIntFloat
  rw [if_neg (by simp [hf])]
  by_cases hfits : intFitsFloat i = true
  · rw [hfits, Bool.not_true, if_neg Bool.false_ne_true, decide_eq_true_eq]
  · have hfits := Bool.not_eq_true _ ▸ hfits
    rw [hfits, Bool.not_false, if_pos rfl]
    split_ifs with habove hbelow
    · exact iff_of_true rfl (hhigh.trans_le habove).le
    · rw [decide_eq_true_eq]
      exact (compare_tdiv cast_unit_pos (fits_cases hfits) unit_dvd_of_large).2
    · exact iff_of_false not_false (not_le.2 ((not_le.1 hbelow).trans_le hlow))

/-- Numbers are compared by their values. -/
theorem ltNum_iff {a b : LuaNumber} (ha : a.Valid) (hb : b.Valid) :
    ltNum a b = true ↔ a.value < b.value := by
  have hu := cast_unit_pos
  cases a with
  | integer i =>
    cases b with
    | integer j =>
      rw [ltNum, decide_eq_true_eq]
      exact (mul_lt_mul_iff_left₀ hu).symm
    | float g => exact ltIntFloat_iff ha hb
  | float f =>
    cases b with
    | integer j =>
      have hle := leIntFloat_iff hb ha
      have hnan : isNaN f = false := ha
      rw [ltNum, hnan, Bool.not_false, Bool.true_and, Bool.not_eq_true', ← Bool.not_eq_true, hle, not_le]
      rfl
    | float g =>
      have hnan : isNaN f = false := ha
      have hnan' : isNaN g = false := hb
      rw [ltNum, hnan, hnan', Bool.not_false, Bool.true_and, Bool.true_and, decide_eq_true_eq]
      rfl

/-! ## Strings -/

theorem nullChar_lt {c : Char} (h : c ≠ nullChar) : nullChar < c := by
  have hne : c.toNat ≠ 0 := fun heq => h (Char.toNat_inj.1 heq)
  show nullChar.toNat < c.toNat
  exact Nat.pos_of_ne_zero hne

theorem cString_cons (c : Char) (s : Str) :
    cString (c :: s) = if c = nullChar then [] else c :: cString s := by
  rw [cString, List.takeWhile_cons]
  by_cases h : c = nullChar <;> simp [h, cString]

/-- Strings are ordered as their segments are, if these differ. -/
theorem lt_iff_of_segments_ne : ∀ {l r : Str}, cString l ≠ cString r → (cString l < cString r ↔ l < r)
  | [], [], h => absurd rfl h
  | [], d :: r, h => by
    rw [cString_cons] at h ⊢
    split_ifs at h ⊢
    · exact absurd rfl h
    · exact iff_of_true (List.nil_lt_cons _ _) (List.nil_lt_cons _ _)
  | c :: l, [], h => iff_of_false (List.not_lt_nil _) (List.not_lt_nil _)
  | c :: l, d :: r, h => by
    rw [cString_cons, cString_cons] at h ⊢
    rw [List.cons_lt_cons_iff]
    by_cases hc : c = nullChar
    · by_cases hd : d = nullChar
      · simp [hc, hd] at h
      · rw [if_pos hc, if_neg hd]
        exact iff_of_true (List.nil_lt_cons _ _) (.inl (hc ▸ nullChar_lt hd))
    · by_cases hd : d = nullChar
      · rw [if_pos hd]
        refine iff_of_false (List.not_lt_nil _) ?_
        rintro (hlt | ⟨heq, -⟩)
        · rw [hd] at hlt
          exact Nat.not_lt_zero _ (show c.toNat < nullChar.toNat from hlt)
        · exact hc (heq.trans hd)
      · rw [if_neg hc, if_neg hd, List.cons_lt_cons_iff]
        refine or_congr_right (and_congr_right fun heq => lt_iff_of_segments_ne fun hsame => h ?_)
        rw [if_neg hc, if_neg hd, heq, hsame]

/-- What follows a segment: nothing, or a null character and the rest. -/
theorem eq_cString_append (s : Str) :
    s = cString s ∨ s = cString s ++ nullChar :: s.drop ((cString s).length + 1) := by
  induction s with
  | nil => exact .inl rfl
  | cons c s ih =>
    rw [cString_cons]
    split_ifs with hc
    · exact .inr (by simp [hc])
    · rcases ih with ih | ih
      · exact .inl (by rw [← ih])
      · exact .inr (by simpa using ih)

theorem append_lt_append_iff {c l r : Str} : c ++ l < c ++ r ↔ l < r := by
  induction c with
  | nil => rfl
  | cons d c ih => simp [ih]

theorem strcoll_eq_zero_iff {l r : Str} : strcoll l r = 0 ↔ cString l = cString r := by
  unfold strcoll
  split_ifs with hlt heq
  · refine iff_of_false (by decide) fun heq => ?_
    rw [heq] at hlt
    exact List.lt_irrefl _ hlt
  · simp [heq]
  · simp [heq]

theorem strcoll_neg_iff {l r : Str} : strcoll l r < 0 ↔ cString l < cString r := by
  unfold strcoll
  split_ifs with hlt <;> simp [hlt]

theorem lStrcmpLoop_neg_iff : ∀ {n : Nat} {l r : Str}, l.length < n →
    (lStrcmpLoop n l r < 0 ↔ l < r)
  | 0, _, _, h => by omega
  | n + 1, l, r, h => by
    rw [lStrcmpLoop]
    by_cases htemp : strcoll l r = 0
    · have hsame := strcoll_eq_zero_iff.1 htemp
      rw [if_neg (not_not.2 htemp)]
      dsimp only
      generalize hl' : l.drop ((cString l).length + 1) = l'
      generalize hr' : r.drop ((cString l).length + 1) = r'
      have hl := hl' ▸ eq_cString_append l
      have hr := hr' ▸ hsame ▸ eq_cString_append r
      have hlength' : l'.length < n ∨ l'.length = 0 := by
        rw [← hl', List.length_drop]
        omega
      generalize cString l = c at hl hr
      clear hsame htemp hl' hr'
      rcases hl with rfl | rfl <;> rcases hr with rfl | rfl
      · simp
      · refine (iff_of_true ?_ ?_)
        · simp
        · simpa using append_lt_append_iff.2 (List.nil_lt_cons nullChar r')
      · refine (iff_of_false ?_ ?_)
        · simp
        · intro hlt
          have hlt : r ++ nullChar :: l' < r ++ [] := by rwa [List.append_nil]
          exact List.not_lt_nil _ (append_lt_append_iff.1 hlt)
      · rw [append_lt_append_iff, List.cons_lt_cons_self, if_neg (by simp), if_neg (by simp)]
        refine lStrcmpLoop_neg_iff ?_
        simp only [List.length_append, List.length_cons] at h
        omega
    · rw [if_pos htemp, strcoll_neg_iff]
      exact lt_iff_of_segments_ne fun hsame => htemp (strcoll_eq_zero_iff.2 hsame)

/-- A string as it is ordered: by its length, then by the codes of its characters. -/
def shortlexKey (s : Str) : ℕ ×ₗ List ℕ := toLex (s.length, s.map Char.toNat)

theorem map_toNat_lt_iff : ∀ {l r : Str}, l.map Char.toNat < r.map Char.toNat ↔ l < r
  | [], [] => by simp
  | [], d :: r => iff_of_true (List.nil_lt_cons _ _) (List.nil_lt_cons _ _)
  | c :: l, [] => iff_of_false (List.not_lt_nil _) (List.not_lt_nil _)
  | c :: l, d :: r => by
    rw [List.map_cons, List.map_cons, List.cons_lt_cons_iff, List.cons_lt_cons_iff, Char.toNat_inj,
      map_toNat_lt_iff]
    rfl

theorem toInt32_of_lt {x : Int} (hle : -2 ^ 31 ≤ x) (hlt : x < 2 ^ 31) : toInt32 x = x := by
  unfold toInt32
  rw [Int.bmod_eq_of_le] <;> omega

/-- Strings whose lengths fit an `int` are compared by length and characters. -/
theorem lStrcmp_neg_iff {l r : Str} (hl : l.length < 2 ^ 31) (hr : r.length < 2 ^ 31) :
    lStrcmp l r < 0 ↔ shortlexKey l < shortlexKey r := by
  rw [shortlexKey, shortlexKey, Prod.Lex.toLex_lt_toLex, lStrcmp]
  split_ifs with hne
  · rw [toInt32_of_lt (x := l.length) (by omega) (by omega),
      toInt32_of_lt (x := r.length) (by omega) (by omega), toInt32_of_lt (by omega) (by omega)]
    dsimp only
    omega
  · have heq := not_not.1 hne
    rw [lStrcmpLoop_neg_iff (Nat.lt_succ_self _), map_toNat_lt_iff]
    simp [heq]

theorem shortlexKey_inj {l r : Str} (h : shortlexKey l = shortlexKey r) : l = r := by
  have hcodes : l.map Char.toNat = r.map Char.toNat := congrArg (fun k => (ofLex k).2) h
  exact List.map_injective_iff.2 (fun c d => Char.toNat_inj.1) hcodes

end Achain.Glua
