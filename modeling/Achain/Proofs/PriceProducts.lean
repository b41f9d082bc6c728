import Achain.Lib.Result
import Achain.Prices
import Mathlib.Data.Rat.Floor

/-!
# What the product of an asset and a price is

The big integers give the exact product, rounded down. It is refused from 128 bits on and then cut off
to 64 bits, so what is between the largest amount of shares and 128 bits comes out as another amount.
-/

namespace Achain

open Result

/-- The product as a rational number. -/
def exactProduct (a : Asset) (p : Price) : ℚ :=
  if a.assetId = p.baseAssetId.toInt then a.amount.toInt * p.ratio.toNat / real128Precision
  else a.amount.toInt * real128Precision / p.ratio.toNat

def otherAsset (a : Asset) (p : Price) : AssetIdType :=
  if a.assetId = p.baseAssetId.toInt then p.quoteAssetId.toInt else p.baseAssetId.toInt

/-- A product is exact up to its fraction, or refused as the price is zero or no amount of shares is as
large. -/
structure ProductExact (B : Bigint) (a : Asset) (p : Price) : Prop where
  value : ∀ r, a.mulPrice B p = .ok r →
    r.amount.toInt = ⌊exactProduct a p⌋ ∧ r.assetId = otherAsset a p
  throws : (∃ e, a.mulPrice B p = .error e) ↔
    p.ratio = 0 ∨ ¬(-2 ^ 63 ≤ ⌊exactProduct a p⌋ ∧ ⌊exactProduct a p⌋ < 2 ^ 63)

/-- No product of more than 63 bits is taken for one of fewer than 128, and no price is zero, other than
for a division that fails. -/
def NotNarrowed (B : Bigint) (a : Asset) (p : Price) : Prop :=
  if p.ratio = 0 then
    a.assetId ≠ p.baseAssetId.toInt ∧
      ∀ n, B.divZero (a.amount.toUInt64.toNat * real128Precision) = .ok n → 128 ≤ B.log2 n
  else ⌊exactProduct a p⌋ < 2 ^ 63 ∨ 128 ≤ B.log2 ⌊exactProduct a p⌋.toNat

section Products

variable {B : Bigint} {a : Asset} {p : Price}

theorem toNat_amount {x : ShareType} (hx : 0 ≤ x) : (x.toUInt64.toNat : ℤ) = x.toInt := by
  have hpos : 0 ≤ x.toInt := Int64.le_iff_toInt_le.1 hx
  rw [Int64.toNat_toUInt64_of_le hx, ← Int64.toNat_toInt, Int.toNat_of_nonneg hpos]

theorem floor_div (m n : Nat) : ⌊(m : ℚ) / n⌋ = ((m / n : Nat) : ℤ) :=
  (Rat.floor_natCast_div_natCast m n).trans (Int.natCast_div m n).symm

theorem toNat_ratio {x : BitVec 128} (hx : x ≠ 0) : x.toNat ≠ 0 := fun h =>
  hx (BitVec.eq_of_toNat_eq h)

/-- The product of big integers is the exact one, rounded down. -/
theorem mulPrice_eq (hamount : 0 ≤ a.amount)
    (hid : a.assetId = p.baseAssetId.toInt ∨ a.assetId = p.quoteAssetId.toInt)
    (hratio : a.assetId = p.baseAssetId.toInt ∨ p.ratio ≠ 0) :
    0 ≤ ⌊exactProduct a p⌋ ∧
      a.mulPrice B p =
        (B.amount ⌊exactProduct a p⌋.toNat).map fun amount => ⟨amount, otherAsset a p⟩ := by
  have ha := toNat_amount hamount
  unfold Asset.mulPrice exactProduct otherAsset
  by_cases hbase : a.assetId = p.baseAssetId.toInt
  · have hfloor : ⌊(a.amount.toInt : ℚ) * p.ratio.toNat / real128Precision⌋ =
        ((a.amount.toUInt64.toNat * p.ratio.toNat / real128Precision : Nat) : ℤ) := by
      rw [← ha, ← floor_div, Nat.cast_mul]
      rfl
    rw [if_pos hbase, if_pos hbase, if_pos hbase, hfloor, Int.toNat_natCast, Bigint.div,
      if_neg (by decide), ok_bind]
    refine ⟨Int.natCast_nonneg _, ?_⟩
    cases B.amount (a.amount.toUInt64.toNat * p.ratio.toNat / real128Precision) <;> rfl
  · have hquote := hid.resolve_left hbase
    have hfloor : ⌊(a.amount.toInt : ℚ) * real128Precision / p.ratio.toNat⌋ =
        ((a.amount.toUInt64.toNat * real128Precision / p.ratio.toNat : Nat) : ℤ) := by
      rw [← ha, ← floor_div, Nat.cast_mul]
      rfl
    rw [if_neg hbase, if_neg hbase, if_neg hbase, if_pos hquote, hfloor, Int.toNat_natCast, Bigint.div,
      if_neg (toNat_ratio (hratio.resolve_left hbase)), ok_bind]
    refine ⟨Int.natCast_nonneg _, ?_⟩
    cases B.amount (a.amount.toUInt64.toNat * real128Precision / p.ratio.toNat) <;> rfl

/-- An amount is the number that it is made of, and none is as large, just if that is in range or has 128
bits. -/
theorem amount_exact_iff (hlog : ∀ n < 2 ^ 127, B.log2 n < 128) (n : Nat) :
    ((∀ x, B.amount n = .ok x → x.toInt = n) ∧ ((∃ e, B.amount n = .error e) ↔ 2 ^ 63 ≤ n)) ↔
      n < 2 ^ 63 ∨ 128 ≤ B.log2 n := by
  unfold Bigint.amount
  by_cases hbits : 128 ≤ B.log2 n
  · have hlarge : 2 ^ 63 ≤ n := by
      by_contra hsmall
      have := hlog n (by omega)
      omega
    rw [if_pos hbits]
    refine ⟨fun _ => .inr hbits, fun _ => ⟨fun x hx => ?_, fun _ => hlarge, fun _ => ⟨_, rfl⟩⟩⟩
    cases hx
  · rw [if_neg hbits]
    constructor
    · intro ⟨_, hthrows⟩
      refine .inl (Nat.lt_of_not_le fun hlarge => ?_)
      obtain ⟨e, he⟩ := hthrows.2 hlarge
      cases he
    · intro h
      have hsmall : n < 2 ^ 63 := h.resolve_right hbits
      refine ⟨fun x hx => ?_, fun ⟨e, he⟩ => ?_, fun hlarge => absurd hsmall (by omega)⟩
      · obtain rfl := Except.ok.inj hx
        rw [Bigint.toInt64, Int64.toInt_ofNat_of_lt hsmall]
      · cases he

/-- A price other than zero. -/
theorem productExact_iff_of_ne_zero (hlog : ∀ n < 2 ^ 127, B.log2 n < 128) (hamount : 0 ≤ a.amount)
    (hid : a.assetId = p.baseAssetId.toInt ∨ a.assetId = p.quoteAssetId.toInt) (hratio : p.ratio ≠ 0) :
    ProductExact B a p ↔ ⌊exactProduct a p⌋ < 2 ^ 63 ∨ 128 ≤ B.log2 ⌊exactProduct a p⌋.toNat := by
  obtain ⟨hnonneg, heq⟩ := mulPrice_eq (B := B) hamount hid (.inr hratio)
  obtain ⟨n, hn⟩ := Int.eq_ofNat_of_zero_le hnonneg
  rw [hn, Int.toNat_natCast] at heq
  have hthrows : (∃ e, a.mulPrice B p = .error e) ↔ ∃ e, B.amount n = .error e := by
    rw [heq]
    cases B.amount n <;> simp [Except.map]
  have hrange : (p.ratio = 0 ∨ ¬(-2 ^ 63 ≤ ⌊exactProduct a p⌋ ∧ ⌊exactProduct a p⌋ < 2 ^ 63)) ↔
      2 ^ 63 ≤ n := by
    rw [hn, or_iff_right hratio]
    omega
  have hvalue : (∀ r, a.mulPrice B p = .ok r → r.amount.toInt = ⌊exactProduct a p⌋ ∧
      r.assetId = otherAsset a p) ↔ ∀ x, B.amount n = .ok x → x.toInt = n := by
    rw [heq, hn]
    constructor
    · intro h x hx
      exact (h ⟨x, otherAsset a p⟩ (by rw [hx]; rfl)).1
    · intro h r hr
      cases hx : B.amount n with
      | error e => simp [hx, Except.map] at hr
      | ok x =>
        rw [hx] at hr
        obtain rfl := Except.ok.inj hr
        exact ⟨h x hx, rfl⟩
  have hiff := amount_exact_iff hlog n
  rw [← hvalue, ← hthrows, ← hrange] at hiff
  rw [hn, Int.toNat_natCast]
  exact ⟨fun ⟨hv, ht⟩ => (hiff.1 ⟨hv, ht⟩).imp_left (by omega),
    fun h => have h := hiff.2 (h.imp_left (by omega)); ⟨h.1, h.2⟩⟩

theorem ProductExact.of_error {e : PriceExn} (h : a.mulPrice B p = .error e) (hratio : p.ratio = 0) :
    ProductExact B a p := by
  refine ⟨fun r hr => ?_, fun _ => .inl hratio, fun _ => ⟨e, h⟩⟩
  rw [h] at hr
  cases hr

/-- The price zero, which throws only where it is divided by. -/
theorem productExact_iff_of_zero (hlog : ∀ n < 2 ^ 127, B.log2 n < 128) (hamount : 0 ≤ a.amount)
    (hid : a.assetId = p.baseAssetId.toInt ∨ a.assetId = p.quoteAssetId.toInt) (hratio : p.ratio = 0) :
    ProductExact B a p ↔ a.assetId ≠ p.baseAssetId.toInt ∧
      ∀ n, B.divZero (a.amount.toUInt64.toNat * real128Precision) = .ok n → 128 ≤ B.log2 n := by
  by_cases hbase : a.assetId = p.baseAssetId.toInt
  · refine ⟨fun h => ?_, fun h => absurd hbase h.1⟩
    obtain ⟨e, he⟩ := h.throws.2 (.inl hratio)
    have hzero : exactProduct a p = 0 := by
      rw [exactProduct, if_pos hbase, hratio]
      simp
    have hbits := hlog 0 (by omega)
    rw [(mulPrice_eq hamount hid (.inl hbase)).2, hzero, Int.floor_zero, Int.toNat_zero, Bigint.amount,
      if_neg (by omega)] at he
    cases he
  · have hquote := hid.resolve_left hbase
    have heq : a.mulPrice B p = (B.divZero (a.amount.toUInt64.toNat * real128Precision)).bind fun n =>
        (B.amount n).map fun amount => ⟨amount, p.baseAssetId.toInt⟩ := by
      rw [Asset.mulPrice, if_neg hbase, if_pos hquote, hratio]
      rfl
    cases hdiv : B.divZero (a.amount.toUInt64.toNat * real128Precision) with
    | error e =>
      rw [hdiv] at heq
      refine ⟨fun _ => ⟨hbase, fun n hn => ?_⟩, fun _ => .of_error heq hratio⟩
      cases hn
    | ok n =>
      rw [hdiv] at heq
      change a.mulPrice B p = (B.amount n).map _ at heq
      unfold Bigint.amount at heq
      by_cases hbits : 128 ≤ B.log2 n
      · rw [if_pos hbits] at heq
        refine ⟨fun _ => ⟨hbase, fun m hm => ?_⟩, fun _ => .of_error heq hratio⟩
        obtain rfl := Except.ok.inj hm
        exact hbits
      · rw [if_neg hbits] at heq
        refine ⟨fun h => ?_, fun h => absurd (h.2 n rfl) hbits⟩
        obtain ⟨e, he⟩ := h.throws.2 (.inl hratio)
        rw [heq] at he
        cases he

end Products

/-- A product is exact or refused just if it is not cut off to 64 bits, and no price of zero is taken. -/
theorem productExact_iff (B : Bigint) (hlog : ∀ n < 2 ^ 127, B.log2 n < 128) (a : Asset) (p : Price)
    (hamount : 0 ≤ a.amount)
    (hid : a.assetId = p.baseAssetId.toInt ∨ a.assetId = p.quoteAssetId.toInt) :
    ProductExact B a p ↔ NotNarrowed B a p := by
  unfold NotNarrowed
  split_ifs with hratio
  · exact productExact_iff_of_zero hlog hamount hid hratio
  · exact productExact_iff_of_ne_zero hlog hamount hid hratio

theorem Bigint.log2_plain {n : Nat} (hn : n < 2 ^ 127) : Bigint.plain.log2 n < 128 := by
  rcases Nat.eq_zero_or_pos n with rfl | hpos
  · decide
  · have := (Nat.log2_lt hpos.ne').2 hn
    change (n.log2 : ℤ) + 1 < 128
    omega

/-- Three shares at a price of two. -/
theorem productExact_three :
    ProductExact .plain ⟨3, 1⟩ ⟨2000000000000000000, 1, 2⟩ := by
  refine (productExact_iff .plain (fun _ hn => Bigint.log2_plain hn) ⟨3, 1⟩
    ⟨2000000000000000000, 1, 2⟩ (by decide) (.inl rfl)).2 ?_
  rw [NotNarrowed, if_neg (by decide)]
  have hproduct : exactProduct ⟨3, 1⟩ ⟨2000000000000000000, 1, 2⟩ = 6 := by
    have hamount : (3 : Int64).toInt = 3 := by decide
    have hratio : (2000000000000000000 : BitVec 128).toNat = 2000000000000000000 := by decide
    rw [exactProduct, if_pos (by decide), real128Precision, hamount, hratio]
    norm_num
  rw [hproduct]
  exact .inl (by norm_num)

/-- A price of `2 ^ 63` makes one share into the least of all amounts. -/
theorem narrowed_product :
    Asset.mulPrice .plain ⟨1, 1⟩ ⟨.ofNat 128 (2 ^ 63 * real128Precision), 1, 2⟩ =
        .ok ⟨Int64.minValue, 2⟩ ∧
      ¬ProductExact .plain ⟨1, 1⟩ ⟨.ofNat 128 (2 ^ 63 * real128Precision), 1, 2⟩ := by
  have hproduct : Asset.mulPrice .plain ⟨1, 1⟩ ⟨.ofNat 128 (2 ^ 63 * real128Precision), 1, 2⟩ =
      .ok ⟨Int64.minValue, 2⟩ := by decide +kernel
  refine ⟨hproduct, fun h => ?_⟩
  have hnonneg := (mulPrice_eq (B := .plain) (a := ⟨1, 1⟩)
    (p := ⟨.ofNat 128 (2 ^ 63 * real128Precision), 1, 2⟩) (by decide) (.inl rfl) (.inl rfl)).1
  rw [← (h.value _ hproduct).1] at hnonneg
  exact absurd hnonneg (by decide)

end Achain
