import Achain.Types
import Achain.Lib.Result

/-!
# Numbers in texts

What `fc` writes for a number, of which its own code is not part of the program, and how the standard
library reads one: spaces, a sign and digits.

An asset reads an amount as a whole part, times its precision, and a fraction, which is scaled to as many
digits as the precision has zeros. The scaling compares 32 bits of the fraction.
-/

namespace Achain

/-- The texts of `fc` for 64-bit numbers, with separators between the thousands or without them, and for
those of 128 bits. -/
structure FcText where
  toString : Int → Str
  toPrettyString : Int → Str
  uint128String : BitVec 128 → Str

/-- A number in digits, behind a sign if it is negative. -/
def signedDigits (n : Int) : Str :=
  if n < 0 then '-' :: Nat.toDigits 10 n.natAbs else Nat.toDigits 10 n.natAbs

/-- The texts are numbers in digits, apart from the separators. -/
structure FcText.Decimal (F : FcText) : Prop where
  toString : ∀ n, F.toString n = signedDigits n
  toPrettyString : ∀ n, (F.toPrettyString n).filter (· != ',') = signedDigits n
  uint128String : ∀ n, F.uint128String n = Nat.toDigits 10 n.toNat

/-- Numbers without separators. -/
def FcText.plain : FcText := ⟨signedDigits, signedDigits, fun n => Nat.toDigits 10 n.toNat⟩

/-- `isspace`. -/
def isSpaceChar (c : Char) : Bool :=
  c == ' ' || 9 ≤ c.toNat && c.toNat ≤ 13

/-- A sign is read, if there is one, and whether it is a minus. -/
def readSign : Str → Bool × Str
  | '-' :: s => (true, s)
  | '+' :: s => (false, s)
  | s => (false, s)

def digitsValue (s : Str) : Nat := Nat.ofDigitChars 10 s 0

def withSign (negative : Bool) (n : Nat) : Int := if negative then -n else n

/-- A text that numbers are read from, as long as nothing has failed. -/
structure IStream where
  rest : Str
  fail : Bool

namespace IStream

variable (s : IStream)

/-- `operator >>` of a 32-bit integer: one out of range is the nearest in it. -/
def getInt32 (old : Int32) : Int32 × IStream :=
  let text := s.rest.dropWhile isSpaceChar
  if s.fail || text.isEmpty then (old, ⟨text, true⟩)
  else
    let (negative, text) := readSign text
    let digits := text.takeWhile Char.isDigit
    let n := withSign negative (digitsValue digits)
    let value := max (-2 ^ 31) (min n (2 ^ 31 - 1))
    (.ofInt value, ⟨text.dropWhile Char.isDigit, digits.isEmpty || n != value⟩)

/-- `operator >>` of a character. -/
def getChar (old : Char) : Char × IStream :=
  match s.fail, s.rest.dropWhile isSpaceChar with
  | false, c :: text => (c, ⟨text, false⟩)
  | _, text => (old, ⟨text, true⟩)

end IStream

/-! ## Amounts -/

open Result

/-- What reading an amount may come to other than an amount: what the language leaves undefined, as the
overflow of a signed number is, or a loop without an end. -/
inductive AmountFault where
  | undefined | endless
  deriving DecidableEq

/-- `atoll`, which is defined on what a 64-bit integer holds. -/
def atoll (s : Str) : Except AmountFault Int :=
  let (negative, s) := readSign (s.dropWhile isSpaceChar)
  let n := withSign negative (digitsValue (s.takeWhile Char.isDigit))
  if -2 ^ 63 ≤ n ∧ n < 2 ^ 63 then .ok n else .error .undefined

/-- `while (static_cast<uint32_t>(fraction) < precision) fraction *= 10`. -/
def scaleUp (precision fraction : Nat) : Except AmountFault Nat :=
  if fraction % 2 ^ 32 < precision then
    if fraction = 0 then .error .endless
    else if fraction * 10 < 2 ^ 63 then scaleUp precision (fraction * 10)
    else .error .undefined
  else .ok fraction
termination_by 2 ^ 63 - fraction

/-- `while (static_cast<uint32_t>(fraction) >= precision) fraction /= 10`. -/
def scaleDown (precision fraction : Nat) : Except AmountFault Nat :=
  if precision ≤ fraction % 2 ^ 32 then
    if fraction = 0 then .error .endless
    else scaleDown precision (fraction / 10)
  else .ok fraction
termination_by fraction

/-- A digit less for every zero that the text of the fraction begins with. -/
def dropZeros (fraction : Nat) : Str → Nat
  | c :: s => if c = '0' then dropZeros (fraction / 10) s else fraction
  | [] => fraction

/-- The three loops over a fraction above zero. -/
def scaleFraction (precision fraction : Nat) (fractionString : Str) : Except AmountFault Nat := do
  let fraction ← scaleUp precision fraction
  let fraction ← scaleDown precision fraction
  return dropZeros fraction fractionString

namespace AssetEntry

variable (a : AssetEntry)

/-- `asset_from_string`. The whole part is multiplied as an unsigned number, which wraps. -/
def assetFromString (amount : Str) : Except AmountFault Asset := do
  let whole ← atoll (amount.takeWhile (· != '.'))
  let uglyAsset : Int64 := .ofInt whole * .ofNat a.precision
  match amount.dropWhile (· != '.') with
  | [] => return ⟨uglyAsset, a.id⟩
  | _ :: fractionString => do
    let fraction ← atoll fractionString
    if fractionString.isEmpty || fraction ≤ 0 then return ⟨uglyAsset, a.id⟩
    else do
      let fraction ← scaleFraction a.precision fraction.toNat fractionString
      let shares ← orThrow
        (if 0 ≤ uglyAsset then Checked.add? uglyAsset (.ofNat fraction)
          else Checked.sub? uglyAsset (.ofNat fraction)) .undefined
      return ⟨shares, a.id⟩

/-- `amount_to_string`, of an asset whose precision is not zero. -/
def amountToString (F : FcText) (amount : ShareType) (appendSymbol : Bool) : Str :=
  let shares := if 0 ≤ amount then amount else -amount
  let precision := UInt64.ofNat a.precision
  let decimal := (F.toString (precision + shares.toUInt64 % precision).toNat).set 0 '.'
  let str := F.toPrettyString (shares.toUInt64 / precision).toInt64.toInt ++ decimal
  let str := if appendSymbol then str ++ [' '] ++ a.symbol else str
  if amount < 0 then '-' :: str else str

end AssetEntry

end Achain
