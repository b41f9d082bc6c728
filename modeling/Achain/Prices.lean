import Achain.Types
import Achain.Numerals
import Achain.Lib.Result
import Mathlib.Data.List.DropRight

/-!
# Prices

A price is a ratio of two assets, a decimal fraction of 128 bits. An asset is multiplied by a price in
the big integers of `fc`, of which the library's own code is not part of the program: what it gives for
a logarithm and for a division by zero is left open.

A price is written as its ratio in decimals, without zeros at the end, and the numbers of its assets. It
is read digit by digit: the part before the point in 64 bits, those after it with the power of ten they
come to.
-/

namespace Achain

/-- `FC_REAL128_PRECISION`. -/
def real128Precision : Nat := 1000000 * 1000000 * 1000000

structure Price where
  ratio : BitVec 128
  baseAssetId : Int32
  quoteAssetId : Int32
  deriving DecidableEq

/-- The exceptions of prices, and what `fc::bigint` may throw. -/
inductive PriceExn where
  | additionOverflow | assetTypeMismatch | bigint
  deriving DecidableEq

/-- What `fc::bigint` gives where its arithmetic does not say. -/
structure Bigint where
  log2 : Nat → Int
  divZero : Nat → Except PriceExn Nat

/-- The logarithm counts bits, and a division by zero is not noticed. -/
def Bigint.plain : Bigint := ⟨fun n => n.log2 + 1, fun _ => .ok 0⟩

namespace Bigint

variable (B : Bigint)

/-- `bigint::operator /`. -/
def div (a b : Nat) : Except PriceExn Nat :=
  if b = 0 then B.divZero a else .ok (a / b)

/-- `to_int64`: the low 64 bits. -/
def toInt64 (a : Nat) : Int64 := .ofNat a

end Bigint

/-- The amount of a result of fewer than 128 bits. -/
def Bigint.amount (B : Bigint) (a : Nat) : Except PriceExn ShareType :=
  if 128 ≤ B.log2 a then .error .additionOverflow else .ok (toInt64 a)

/-- `operator *` of an asset and a price. -/
def Asset.mulPrice (B : Bigint) (a : Asset) (p : Price) : Except PriceExn Asset :=
  if a.assetId = p.baseAssetId.toInt then do
    let amnt ← B.div (a.amount.toUInt64.toNat * p.ratio.toNat) real128Precision
    let amount ← B.amount amnt
    return ⟨amount, p.quoteAssetId.toInt⟩
  else if a.assetId = p.quoteAssetId.toInt then do
    let result ← B.div (a.amount.toUInt64.toNat * real128Precision) p.ratio.toNat
    let amount ← B.amount result
    return ⟨amount, p.baseAssetId.toInt⟩
  else .error .assetTypeMismatch

/-! ## Prices as texts -/

open Result

/-- What reading a price ends with other than a price. -/
inductive PriceTextExn where
  | assertion | divisionByZero | quoteNotAboveBase
  deriving DecidableEq

/-- The number a digit stands for. -/
def digitValue (c : Char) : Nat := c.toNat - '0'.toNat

/-- The loop over the digits before the point. -/
def readIntPart (intPart : UInt64) : Str → UInt64 × Str
  | c :: s => if c.isDigit then readIntPart (intPart * 10 + .ofNat (digitValue c)) s else (intPart, c :: s)
  | [] => (intPart, [])

/-- The loop over the digits after the point. -/
def readFracPart (fracPart fracMagnitude : Int64) : Str → Int64 × Int64 × Str
  | c :: s =>
    if c.isDigit then readFracPart (fracPart * 10 + .ofNat (digitValue c)) (fracMagnitude * 10) s
    else (fracPart, fracMagnitude, c :: s)
  | [] => (fracPart, fracMagnitude, [])

/-- The digits before the point, of which there may be none. -/
def readRatioInt (s : Str) : Except PriceTextExn (BitVec 128 × Str) :=
  match s with
  | c :: s =>
    if c.isDigit then
      let (intPart, s) := readIntPart (.ofNat (digitValue c)) s
      .ok (.ofNat 128 intPart.toNat * .ofNat 128 real128Precision, s)
    else if c = '.' then .ok (0, c :: s)
    else .error .assertion
  | [] => .error .assertion

/-- The point and the digits after it, if there are any. -/
def readRatioFrac (ratio : BitVec 128) (s : Str) : Except PriceTextExn (BitVec 128 × Str) :=
  match s with
  | '.' :: c :: s =>
    if c.isDigit then do
      let (fracPart, fracMagnitude, s) := readFracPart (.ofNat (digitValue c)) 10 s
      ensure (fracMagnitude != 0) .divisionByZero
      let scale := UInt64.ofNat real128Precision / fracMagnitude.toUInt64
      return (ratio + .ofInt 128 fracPart.toInt * .ofNat 128 scale.toNat, s)
    else .ok (ratio, c :: s)
  | ['.'] => .ok (ratio, [])
  | s => .ok (ratio, s)

/-- `set_ratio_from_string`: the ratio, and how far it has read. -/
def setRatioFromString (s : Str) : Except PriceTextExn (BitVec 128 × Nat) := do
  let (ratio, rest) ← readRatioInt s
  let (ratio, rest) ← readRatioFrac ratio rest
  return (ratio, s.length - rest.length)

/-- `Price::Price` of a text. -/
def Price.ofString (s : Str) : Except PriceTextExn Price := do
  let (ratio, pos) ← setRatioFromString s
  let (quote, ss) := (⟨s.drop pos, false⟩ : IStream).getInt32 0
  let (_, ss) := ss.getChar '/'
  let (base, _) := ss.getInt32 0
  ensure (base < quote) .quoteNotAboveBase
  return ⟨ratio, base, quote⟩

section Written

variable (F : FcText) (p : Price)

/-- `ratio_string`. -/
def Price.ratioString : Str :=
  let precision := BitVec.ofNat 128 real128Precision
  let number := F.uint128String (p.ratio / precision) ++ ['.'] ++
    (F.uint128String (p.ratio % precision + precision)).drop 1
  number.rdropWhile (· == '0')

/-- `operator string` of a price. -/
def Price.toString : Str :=
  p.ratioString F ++ [' '] ++ F.toString p.quoteAssetId.toInt ++ ['/'] ++
    F.toString p.baseAssetId.toInt

end Written

end Achain
