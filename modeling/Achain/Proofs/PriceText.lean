import Achain.Prices
import Achain.Lib.Decimals
import Mathlib.Tactic.Linarith

/-!
# Reading prices that were written

The digits before the point come back modulo `2 ^ 64`, and those after it as the remainder they were
written for. So a price comes back just if its whole part is a 64-bit number.
-/

namespace Achain

open Result Decimals

/-- A text does not go on with a digit. -/
def NoDigit (s : Str) : Prop := ∀ c, s.head? = some c → c.isDigit = false

section Digits

variable {s rest : Str}

theorem takeWhile_digits (hs : ∀ c ∈ s, c.isDigit = true) (hrest : NoDigit rest) :
    (s ++ rest).takeWhile Char.isDigit = s ∧ (s ++ rest).dropWhile Char.isDigit = rest := by
  rw [List.takeWhile_append_of_pos hs, List.dropWhile_append_of_pos hs]
  cases rest with
  | nil => simp
  | cons c rest => simp [hrest c rfl]

theorem readIntPart_digits (n : Nat) (hs : ∀ c ∈ s, c.isDigit = true) (hrest : NoDigit rest) :
    readIntPart (.ofNat n) (s ++ rest) = (.ofNat (Nat.ofDigitChars 10 s n), rest) := by
  induction s generalizing n with
  | nil =>
    cases rest with
    | nil => rfl
    | cons c rest => simp [readIntPart, hrest c rfl]
  | cons c s ih =>
    have hstep : UInt64.ofNat n * 10 + .ofNat (digitValue c) = .ofNat (10 * n + (c.toNat - '0'.toNat)) := by
      rw [UInt64.ofNat_add, UInt64.ofNat_mul, UInt64.mul_comm]
      rfl
    rw [List.cons_append, readIntPart, if_pos (hs c (by simp)), hstep, Nat.ofDigitChars_cons]
    exact ih _ fun d hd => hs d (by simp [hd])

theorem readFracPart_digits (n m : Nat) (hs : ∀ c ∈ s, c.isDigit = true) (hrest : NoDigit rest) :
    readFracPart (.ofNat n) (.ofNat m) (s ++ rest) =
      (.ofNat (Nat.ofDigitChars 10 s n), .ofNat (m * 10 ^ s.length), rest) := by
  induction s generalizing n m with
  | nil =>
    cases rest with
    | nil => simp [readFracPart]
    | cons c rest => simp [readFracPart, hrest c rfl]
  | cons c s ih =>
    have hpart : Int64.ofNat n * 10 + .ofNat (digitValue c) = .ofNat (10 * n + (c.toNat - '0'.toNat)) := by
      rw [Int64.ofNat_add, Int64.ofNat_mul, Int64.mul_comm]
      rfl
    have hmagnitude : Int64.ofNat m * 10 = .ofNat (m * 10) := (Int64.ofNat_mul m 10).symm
    rw [List.cons_append, readFracPart, if_pos (hs c (by simp)), hpart, hmagnitude,
      Nat.ofDigitChars_cons, List.length_cons, Nat.pow_succ']
    rw [ih _ _ fun d hd => hs d (by simp [hd]), Nat.mul_assoc]

end Digits

section Ratio

variable {F : FcText}

/-- A ratio in decimals: its whole part, and digits that come to the rest with zeros after them. -/
theorem ratioString_eq (hF : F.Decimal) (p : Price) :
    ∃ s, p.ratioString F = Nat.toDigits 10 (p.ratio.toNat / real128Precision) ++ '.' :: s ∧
      (∀ c ∈ s, c.isDigit = true) ∧ s.length ≤ 18 ∧
      Nat.ofDigitChars 10 s 0 * 10 ^ (18 - s.length) = p.ratio.toNat % real128Precision := by
  have hprecision : (BitVec.ofNat 128 real128Precision).toNat = 10 ^ 18 := by decide
  have hmod : p.ratio.toNat % 10 ^ 18 < 10 ^ 18 := Nat.mod_lt _ (by decide)
  obtain ⟨digits, hdigits, hlength, hs, hvalue⟩ := toDigits_pow_add hmod
  have hwhole : F.uint128String (p.ratio / .ofNat 128 real128Precision) =
      Nat.toDigits 10 (p.ratio.toNat / real128Precision) := by
    rw [hF.uint128String, BitVec.toNat_udiv, hprecision]
    rfl
  have hrest : F.uint128String (p.ratio % .ofNat 128 real128Precision + .ofNat 128 real128Precision) =
      '1' :: digits := by
    rw [hF.uint128String, BitVec.toNat_add, BitVec.toNat_umod, hprecision, Nat.mod_eq_of_lt (by omega),
      Nat.add_comm, hdigits]
  refine ⟨digits.rdropWhile (· == '0'), ?_, fun c hc => ?_, ?_, ?_⟩
  · rw [Price.ratioString, hwhole, hrest, List.drop_succ_cons, List.drop_zero, List.append_assoc]
    exact rdropWhile_append_cons _ (by decide) digits
  · exact hs c ((List.rdropWhile_prefix _ digits).subset hc)
  · exact hlength ▸ (List.rdropWhile_prefix _ digits).length_le
  · have := ofDigitChars_rdropWhile digits
    rw [hlength, hvalue] at this
    exact this.symm

/-- The digits before the point are read modulo `2 ^ 64`. -/
theorem readRatioInt_digits (q : Nat) {rest : Str} (hrest : NoDigit rest) :
    readRatioInt (Nat.toDigits 10 q ++ rest) =
      .ok (.ofNat 128 (q % 2 ^ 64) * .ofNat 128 real128Precision, rest) := by
  have hdigits : ∀ c ∈ Nat.toDigits 10 q, c.isDigit = true := fun c hc => isDigit_toDigits hc
  have hvalue : Nat.ofDigitChars 10 (Nat.toDigits 10 q) 0 = q := Nat.ofDigitChars_ten_toDigits
  cases hq : Nat.toDigits 10 q with
  | nil => exact absurd (hq ▸ Nat.length_toDigits_pos (b := 10) (n := q)) (by simp)
  | cons c s =>
    rw [hq] at hdigits hvalue
    rw [Nat.ofDigitChars_cons, Nat.mul_zero, Nat.zero_add] at hvalue
    rw [List.cons_append, readRatioInt, if_pos (hdigits c (by simp)),
      readIntPart_digits _ (fun d hd => hdigits d (by simp [hd])) hrest]
    simp only [digitValue, hvalue]
    rw [UInt64.toNat_ofNat']

/-- The digits after the point are read with the zeros that are not written. -/
theorem readRatioFrac_digits (ratio : BitVec 128) {s rest : Str} (hs : ∀ c ∈ s, c.isDigit = true)
    (hlength : s.length ≤ 18) (hrest : NoDigit rest) :
    readRatioFrac ratio ('.' :: (s ++ rest)) =
      .ok (ratio + .ofNat 128 (Nat.ofDigitChars 10 s 0 * 10 ^ (18 - s.length)), rest) := by
  cases s with
  | nil =>
    cases rest with
    | nil => simp [readRatioFrac]
    | cons c rest => simp [readRatioFrac, hrest c rfl]
  | cons c s =>
    have hlt := ofDigitChars_lt hs
    rw [List.length_cons] at hlength hlt
    have hpow : 10 * 10 ^ s.length = 10 ^ (s.length + 1) := (Nat.pow_succ' ..).symm
    have hle : 10 ^ (s.length + 1) ≤ 10 ^ 18 := Nat.pow_le_pow_right (by decide) hlength
    have hpos : 0 < 10 ^ (s.length + 1) := Nat.pow_pos (by decide)
    have hread := readFracPart_digits (s := s) (digitValue c) 10 (fun d hd => hs d (by simp [hd])) hrest
    have hvalue : Nat.ofDigitChars 10 s (digitValue c) = Nat.ofDigitChars 10 (c :: s) 0 := by
      rw [Nat.ofDigitChars_cons, Nat.mul_zero, Nat.zero_add]
      rfl
    have hmagnitude : (Int64.ofNat (10 ^ (s.length + 1))).toInt = (10 ^ (s.length + 1) : Nat) :=
      Int64.toInt_ofNat_of_lt (by omega)
    have hpart : (Int64.ofNat (Nat.ofDigitChars 10 (c :: s) 0)).toInt =
        (Nat.ofDigitChars 10 (c :: s) 0 : Nat) := Int64.toInt_ofNat_of_lt (by omega)
    have hne : (Int64.ofNat (10 ^ (s.length + 1)) != 0) = true := by
      refine bne_iff_ne.2 fun h => ?_
      have := congrArg Int64.toInt h
      rw [hmagnitude, Int64.toInt_zero] at this
      omega
    have hscale : (UInt64.ofNat real128Precision / (Int64.ofNat (10 ^ (s.length + 1))).toUInt64).toNat =
        10 ^ (18 - (s.length + 1)) := by
      rw [UInt64.toNat_div, Int64.toUInt64_ofNat', UInt64.toNat_ofNat_of_lt' (by decide),
        UInt64.toNat_ofNat_of_lt' (lt_of_le_of_lt hle (by decide)),
        show real128Precision = 10 ^ 18 from rfl, Nat.pow_div hlength (by decide)]
    rw [hpow, hvalue] at hread
    rw [List.cons_append, readRatioFrac, if_pos (hs c (by simp))]
    rw [show (10 : Int64) = .ofNat 10 from rfl, hread]
    simp only [hne, ensure_true, ok_bind, hscale, hpart, List.length_cons]
    rw [BitVec.ofNat_mul, BitVec.ofInt_natCast]
    rfl

/-- A ratio is read back with its whole part modulo `2 ^ 64`. -/
theorem setRatioFromString_written (hF : F.Decimal) (p : Price) (rest : Str) (hrest : NoDigit rest) :
    setRatioFromString (p.ratioString F ++ rest) =
      .ok (.ofNat 128 (p.ratio.toNat / real128Precision % 2 ^ 64 * real128Precision +
        p.ratio.toNat % real128Precision), (p.ratioString F).length) := by
  obtain ⟨s, htext, hs, hlength, hvalue⟩ := ratioString_eq hF p
  have hpoint : NoDigit ('.' :: (s ++ rest)) := fun c hc => by
    obtain rfl := Option.some.inj hc
    rfl
  have hlengths (a b : Str) : (a ++ b).length - b.length = a.length := by simp
  rw [setRatioFromString, htext, List.append_assoc, List.cons_append, readRatioInt_digits _ hpoint,
    ok_bind]
  simp only [readRatioFrac_digits _ hs hlength hrest, ok_bind, hvalue]
  rw [← List.cons_append, ← List.append_assoc, hlengths, BitVec.ofNat_add, BitVec.ofNat_mul]
  rfl

/-- A ratio is itself just if its whole part is a 64-bit number. -/
theorem readBack_iff (x : BitVec 128) :
    BitVec.ofNat 128 (x.toNat / real128Precision % 2 ^ 64 * real128Precision +
        x.toNat % real128Precision) = x ↔ x.toNat < 2 ^ 64 * real128Precision := by
  have hx := x.isLt
  rw [BitVec.toNat_eq, BitVec.toNat_ofNat, show real128Precision = 1000000000000000000 from rfl]
  generalize x.toNat = n at hx ⊢
  have hdiv := Nat.div_add_mod n 1000000000000000000
  have hmod := Nat.mod_lt n (show 0 < 1000000000000000000 by decide)
  generalize n / 1000000000000000000 = q at hdiv ⊢
  generalize n % 1000000000000000000 = r at hdiv hmod ⊢
  have hq := Nat.mod_lt q (show 0 < 2 ^ 64 by decide)
  have hsum : q % 2 ^ 64 * 1000000000000000000 + r < 2 ^ 128 := by omega
  rw [Nat.mod_eq_of_lt hsum]
  omega

end Ratio

/-! ## The numbers of the assets -/

section Assets

theorem isSpaceChar_of_isDigit {c : Char} (hc : c.isDigit = true) : isSpaceChar c = false := by
  have hle : 48 ≤ c.toNat := (Char.isDigit_iff_toNat.1 hc).1
  have hne : c ≠ ' ' := fun h => by
    rw [h] at hle
    exact absurd hle (by decide)
  simp only [isSpaceChar, Bool.or_eq_false_iff, beq_eq_false_iff_ne, Bool.and_eq_false_imp,
    decide_eq_true_eq, decide_eq_false_iff_not]
  exact ⟨hne, fun _ => by omega⟩

/-- The digits of a number, behind its sign. -/
theorem signedDigits_cons (n : ℤ) : ∃ c s, signedDigits n = c :: s ∧ isSpaceChar c = false := by
  unfold signedDigits
  split_ifs
  · exact ⟨_, _, rfl, rfl⟩
  · cases hn : Nat.toDigits 10 n.natAbs with
    | nil => exact absurd (hn ▸ Nat.length_toDigits_pos (b := 10) (n := n.natAbs)) (by simp)
    | cons c s =>
      exact ⟨c, s, rfl, isSpaceChar_of_isDigit (isDigit_toDigits (n := n.natAbs) (by rw [hn]; simp))⟩

theorem readSign_of_isDigit {c : Char} (hc : c.isDigit = true) (s : Str) :
    readSign (c :: s) = (false, c :: s) := by
  rw [readSign]
  · intro t ht
    rw [(List.cons.inj ht).1] at hc
    exact absurd hc (by decide)
  · intro t ht
    rw [(List.cons.inj ht).1] at hc
    exact absurd hc (by decide)

theorem readSign_signedDigits (n : ℤ) (rest : Str) :
    readSign (signedDigits n ++ rest) = (decide (n < 0), Nat.toDigits 10 n.natAbs ++ rest) := by
  unfold signedDigits
  split_ifs with hn
  · simp [readSign, hn]
  · cases hd : Nat.toDigits 10 n.natAbs with
    | nil => exact absurd (hd ▸ Nat.length_toDigits_pos (b := 10) (n := n.natAbs)) (by simp)
    | cons c s =>
      have hc : c.isDigit = true := isDigit_toDigits (n := n.natAbs) (by rw [hd]; simp)
      rw [List.cons_append, readSign_of_isDigit hc, decide_eq_false hn]

theorem withSign_natAbs (n : ℤ) : withSign (decide (n < 0)) n.natAbs = n := by
  unfold withSign
  by_cases hn : n < 0
  · simp only [hn, decide_true, if_true]
    omega
  · simp only [hn, decide_false, Bool.false_eq_true, if_false]
    omega

/-- A number is read back from between spaces and what is no digit. -/
theorem getInt32_written (n old : Int32) (spaces rest : Str)
    (hspaces : ∀ c ∈ spaces, isSpaceChar c = true) (hrest : NoDigit rest) :
    (⟨spaces ++ (signedDigits n.toInt ++ rest), false⟩ : IStream).getInt32 old =
      (n, ⟨rest, false⟩) := by
  obtain ⟨c, s, hcons, hc⟩ := signedDigits_cons n.toInt
  have hdrop : (spaces ++ (signedDigits n.toInt ++ rest)).dropWhile isSpaceChar =
      signedDigits n.toInt ++ rest := by
    rw [List.dropWhile_append_of_pos hspaces, hcons, List.cons_append, List.dropWhile_cons_of_neg]
    simp [hc]
  have hne : (signedDigits n.toInt ++ rest).isEmpty = false := by rw [hcons]; rfl
  have hdigits := takeWhile_digits (s := Nat.toDigits 10 n.toInt.natAbs)
    (fun c hc => isDigit_toDigits hc) hrest
  have hvalue : digitsValue (Nat.toDigits 10 n.toInt.natAbs) = n.toInt.natAbs :=
    Nat.ofDigitChars_ten_toDigits
  have hempty : (Nat.toDigits 10 n.toInt.natAbs).isEmpty = false := by
    cases hd : Nat.toDigits 10 n.toInt.natAbs with
    | nil => exact absurd (hd ▸ Nat.length_toDigits_pos (b := 10) (n := n.toInt.natAbs)) (by simp)
    | cons c s => rfl
  have hrange : max (-2 ^ 31) (min n.toInt (2 ^ 31 - 1)) = n.toInt := by
    have h₁ := Int32.le_toInt n
    have h₂ := Int32.toInt_lt n
    omega
  unfold IStream.getInt32
  simp only [hdrop, hne, Bool.false_or, Bool.false_eq_true, if_false, readSign_signedDigits,
    hdigits.1, hdigits.2, hvalue, withSign_natAbs, hrange, hempty, bne_self_eq_false,
    Int32.ofInt_toInt]

end Assets

/-! ## Prices -/

/-- A price that was written is read with its assets, and its ratio as that is read. -/
theorem ofString_toString {F : FcText} (hF : F.Decimal) (p : Price)
    (hassets : p.baseAssetId < p.quoteAssetId) :
    Price.ofString (p.toString F) =
      .ok { p with
        ratio := .ofNat 128 (p.ratio.toNat / real128Precision % 2 ^ 64 * real128Precision +
          p.ratio.toNat % real128Precision) } := by
  have hspace : NoDigit (' ' :: (signedDigits p.quoteAssetId.toInt ++
      '/' :: signedDigits p.baseAssetId.toInt)) := fun c hc => by
    obtain rfl := Option.some.inj hc
    rfl
  have hslash : NoDigit ('/' :: signedDigits p.baseAssetId.toInt) := fun c hc => by
    obtain rfl := Option.some.inj hc
    rfl
  have htext : p.toString F = p.ratioString F ++ ' ' :: (signedDigits p.quoteAssetId.toInt ++
      '/' :: signedDigits p.baseAssetId.toInt) := by
    simp [Price.toString, hF.toString]
  have hquote := getInt32_written p.quoteAssetId 0 [' '] _ (List.forall_mem_singleton.2 rfl) hslash
  have hbase := getInt32_written p.baseAssetId 0 [] [] (by simp)
    (fun c hc => nomatch hc)
  rw [List.nil_append, List.append_nil] at hbase
  rw [List.cons_append, List.nil_append] at hquote
  rw [Price.ofString, htext, setRatioFromString_written hF p _ hspace, ok_bind]
  simp only [List.drop_left, hquote]
  have hchar : (⟨'/' :: signedDigits p.baseAssetId.toInt, false⟩ : IStream).getChar '/' =
      ('/', ⟨signedDigits p.baseAssetId.toInt, false⟩) := rfl
  simp only [hchar, hbase, hassets, decide_true, ensure_true, ok_bind]
  rfl

/-- A price and its ratio come back just if the whole part of the ratio is a 64-bit number. -/
theorem price_readBack_iff (F : FcText) (hF : F.Decimal) (p : Price)
    (hassets : p.baseAssetId < p.quoteAssetId) :
    (Price.ofString (p.toString F) = .ok p ∧
      ∃ pos, setRatioFromString (p.ratioString F) = .ok (p.ratio, pos)) ↔
      p.ratio.toNat < 2 ^ 64 * real128Precision := by
  have hratio := setRatioFromString_written hF p [] (fun c hc => nomatch hc)
  rw [List.append_nil] at hratio
  rw [ofString_toString hF p hassets, hratio, ← readBack_iff]
  constructor
  · rintro ⟨-, pos, h⟩
    exact (Prod.mk.inj (Except.ok.inj h)).1
  · intro h
    rw [h]
    exact ⟨rfl, _, rfl⟩

theorem comma_notMem_signedDigits (n : ℤ) : ',' ∉ signedDigits n := by
  have hdigits : ',' ∉ Nat.toDigits 10 n.natAbs := fun h => absurd (isDigit_toDigits h) (by decide)
  unfold signedDigits
  split_ifs
  · exact List.not_mem_cons_of_ne_of_not_mem (by decide) hdigits
  · exact hdigits

theorem FcText.decimal_plain : FcText.plain.Decimal where
  toString _ := rfl
  toPrettyString n := by
    refine List.filter_eq_self.2 fun c hc => bne_iff_ne.2 fun h => ?_
    exact comma_notMem_signedDigits n (h ▸ hc)
  uint128String _ := rfl

/-- A price of five and a half. -/
theorem price_readBack_half :
    Price.ofString (Price.toString .plain ⟨5500000000000000000, 0, 3⟩) =
        .ok ⟨5500000000000000000, 0, 3⟩ ∧
      ∃ pos, setRatioFromString (Price.ratioString .plain ⟨5500000000000000000, 0, 3⟩) =
        .ok (5500000000000000000, pos) :=
  (price_readBack_iff .plain FcText.decimal_plain ⟨5500000000000000000, 0, 3⟩ (by decide)).2
    (by decide)

/-- The infinite price comes back as a finite one. -/
theorem infinite_price_lost :
    Price.ofString (Price.toString .plain ⟨-1, 0, 1⟩) =
        .ok ⟨8240973594166534375374607431768211455, 0, 1⟩ ∧
      (8240973594166534375374607431768211455 : BitVec 128) ≠ -1 := by
  refine ⟨?_, by decide⟩
  rw [ofString_toString FcText.decimal_plain ⟨-1, 0, 1⟩ (by decide)]
  decide +kernel

end Achain
