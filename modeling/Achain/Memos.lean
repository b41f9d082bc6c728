import Achain.Types
import Achain.Lib.Result
import Mathlib.Data.Vector.Basic

/-!
# Memos of deposits

What a deposit tells its receiver, encrypted with the secret shared by the receiver's key and a one-time
key. Keys, digests and the cipher are those of `fc`.
-/

namespace Achain.Memos

abbrev Bytes := List UInt8

/-- The words of an `fc::sha256`. -/
abbrev Sha256 := Fin 4 → UInt64

/-- The words of an `fc::sha512`. -/
abbrev Sha512 := Fin 8 → UInt64

/-- `fc::ecc::public_key_data`, zero by default. -/
abbrev PublicKeyData := List.Vector UInt8 33

def nullKeyData : PublicKeyData := List.Vector.replicate 33 0

/-- What `fc` does with keys, digests and bytes. `aesDecrypt` throws an `aes_exception` or returns. -/
structure Crypto (PrivateKey PublicKey : Type) where
  nullKey : PrivateKey
  getPublicKey : PrivateKey → PublicKey
  serialize : PublicKey → PublicKeyData
  ofData : PublicKeyData → PublicKey
  getSharedSecret : PrivateKey → PublicKey → Sha512
  add : PublicKey → Sha256 → PublicKey
  generateFromSeed : PrivateKey → Sha256 → PrivateKey
  sha256 : Sha512 → Sha256
  sha512 : PublicKeyData → Sha256 → Sha256 → Sha512
  aesEncrypt : Sha512 → Bytes → Bytes
  aesDecrypt : Sha512 → Bytes → Option Bytes
  address : PublicKeyData → Address

/-! ## Derived keys -/

/-- The first half of the words. -/
def left (d : Sha512) : Sha256 := fun i => d (i.castLE (by decide))

/-- The second half of the words. -/
def right (d : Sha512) : Sha256 := fun i => d (i.natAdd 4)

structure ExtendedPublicKey (PublicKey : Type) where
  pubKey : PublicKey
  chainCode : Sha256

structure ExtendedPrivateKey (PrivateKey : Type) where
  privKey : PrivateKey
  chainCode : Sha256

section Derivation

variable {PrivateKey PublicKey : Type} (c : Crypto PrivateKey PublicKey)

def ExtendedPublicKey.child (k : ExtendedPublicKey PublicKey) (childIdx : Sha256) :
    ExtendedPublicKey PublicKey :=
  let ikey := c.sha512 (c.serialize k.pubKey) childIdx k.chainCode
  ⟨c.add k.pubKey (left ikey), right ikey⟩

/-- `child` with `public_derivation`. -/
def ExtendedPrivateKey.child (k : ExtendedPrivateKey PrivateKey) (childIdx : Sha256) :
    ExtendedPrivateKey PrivateKey :=
  let ikey := c.sha512 (c.serialize (c.getPublicKey k.privKey)) childIdx k.chainCode
  ⟨c.generateFromSeed k.privKey (left ikey), right ikey⟩

end Derivation

/-! ## Records -/

def maxMemoSize : Nat := 19
def extendedMemoSize : Nat := 32

inductive MemoFlagsEnum where
  | fromMemo | toMemo
  deriving DecidableEq

/-- The byte an `enum_type<uint8_t, MemoFlagsEnum>` is packed as. -/
def MemoFlagsEnum.value : MemoFlagsEnum → UInt8
  | .fromMemo => 0
  | .toMemo => 1

structure MemoData where
  «from» : PublicKeyData
  fromSignature : UInt64
  message : List.Vector UInt8 maxMemoSize
  memoFlags : UInt8

structure ExtendedMemoData where
  «from» : PublicKeyData
  fromSignature : UInt64
  message : List.Vector UInt8 maxMemoSize
  memoFlags : UInt8
  extraMemo : List.Vector UInt8 extendedMemoSize

/-- The size of a `struct` with members of some sizes and alignments, the greatest of which is its own. -/
def structSize (align : Nat) (members : List (Nat × Nat)) : Nat :=
  let roundUp := fun n a => (n + a - 1) / a * a
  roundUp (members.foldl (fun offset m => roundUp offset m.2 + m.1) 0) align

/-- `sizeof(MemoData)`: a key, a word, the message and an `enum`. -/
def sizeofMemoData : Nat := structSize 8 [(33, 1), (8, 8), (maxMemoSize, 1), (4, 4)]

/-- The errors of reading and writing memos. -/
inductive MemoException where
  | assert | aes | outOfRange
  deriving DecidableEq

/-- A buffer of zeros into which bytes are copied. -/
def copied (n : Nat) (bytes : Bytes) : List.Vector UInt8 n :=
  ⟨(bytes ++ List.replicate n 0).take n, by simp⟩

/-- `MemoData::set_message`, of a record whose message is zero. -/
def setMessage (messageStr : Bytes) : Except MemoException (List.Vector UInt8 maxMemoSize) :=
  if messageStr = [] then .ok (copied _ [])
  else if messageStr.length ≤ maxMemoSize then .ok (copied _ messageStr)
  else .error .assert

/-- `ExtendedMemoData::set_message`, of a record whose messages are zero. -/
def setExtendedMessage (messageStr : Bytes) :
    Except MemoException (List.Vector UInt8 maxMemoSize × List.Vector UInt8 extendedMemoSize) :=
  if messageStr = [] then .ok (copied _ [], copied _ [])
  else if messageStr.length ≤ maxMemoSize + extendedMemoSize then
    if messageStr.length ≤ maxMemoSize then .ok (copied _ messageStr, copied _ [])
    else .ok (copied _ (messageStr.take maxMemoSize), copied _ (messageStr.drop maxMemoSize))
  else .error .assert

/-- The bytes before the first zero. -/
def cString (bytes : Bytes) : Bytes := bytes.takeWhile (· ≠ 0)

def ExtendedMemoData.getMessage (m : ExtendedMemoData) : Bytes :=
  cString (m.message.toList ++ m.extraMemo.toList)

/-! ## Packing -/

/-- A `uint64_t`, least significant byte first. -/
def packWord (w : UInt64) : Bytes := (List.range 8).map fun i => UInt8.ofNat (w.toNat / 256 ^ i % 256)

def unpackWord (bytes : Bytes) : UInt64 :=
  UInt64.ofNat (bytes.foldr (fun b n => b.toNat + 256 * n) 0)

/-- Reads a buffer, or throws at the end of the data. -/
def readBytes (n : Nat) (bytes : Bytes) : Except MemoException (List.Vector UInt8 n × Bytes) :=
  if h : n ≤ bytes.length then .ok (⟨bytes.take n, by simpa using h⟩, bytes.drop n)
  else .error .outOfRange

def MemoData.pack (m : MemoData) : Bytes :=
  m.from.toList ++ packWord m.fromSignature ++ m.message.toList ++ [m.memoFlags]

def ExtendedMemoData.pack (m : ExtendedMemoData) : Bytes :=
  m.from.toList ++ packWord m.fromSignature ++ m.message.toList ++ [m.memoFlags] ++ m.extraMemo.toList

def MemoData.unpack (bytes : Bytes) : Except MemoException MemoData := do
  let («from», bytes) ← readBytes 33 bytes
  let (word, bytes) ← readBytes 8 bytes
  let (message, bytes) ← readBytes maxMemoSize bytes
  let (memoFlags, _) ← readBytes 1 bytes
  return ⟨«from», unpackWord word.toList, message, memoFlags.head⟩

def ExtendedMemoData.unpack (bytes : Bytes) : Except MemoException ExtendedMemoData := do
  let («from», bytes) ← readBytes 33 bytes
  let (word, bytes) ← readBytes 8 bytes
  let (message, bytes) ← readBytes maxMemoSize bytes
  let (memoFlags, bytes) ← readBytes 1 bytes
  let (extraMemo, _) ← readBytes extendedMemoSize bytes
  return ⟨«from», unpackWord word.toList, message, memoFlags.head, extraMemo⟩

/-! ## Conditions with a memo -/

structure TransferMemo where
  oneTimeKey : PublicKeyData
  encryptedMemoData : Bytes

structure WithdrawWithSignature where
  owner : Address
  memo : Option TransferMemo

/-- `MemoStatus`, which extends the memo. -/
structure MemoStatus (PrivateKey : Type) where
  memo : ExtendedMemoData
  hasValidSignature : Bool
  ownerPrivateKey : PrivateKey

namespace WithdrawWithSignature

variable {PrivateKey PublicKey : Type} [DecidableEq PrivateKey] (c : Crypto PrivateKey PublicKey)

/-- `decrypt_memo_data` with the shared secret. -/
def decryptMemo (secret : Sha512) (memo : TransferMemo) : Except MemoException ExtendedMemoData := do
  let plain := c.aesDecrypt secret memo.encryptedMemoData
  let bytes ← plain.elim (.error .aes) .ok
  if sizeofMemoData < memo.encryptedMemoData.length then ExtendedMemoData.unpack bytes
  else
    let dmemo ← MemoData.unpack bytes
    return ⟨dmemo.from, dmemo.fromSignature, dmemo.message, dmemo.memoFlags, copied _ []⟩

/-- The private key of the receiver that belongs to a deposit. -/
def secretPrivateKey (receiverKey : PrivateKey) (secret : Sha512) : PrivateKey :=
  (ExtendedPrivateKey.child c ⟨receiverKey, fun _ => 0⟩ (c.sha256 secret)).privKey

/-- Whether the sender of a memo made its signature. -/
def validSignature (secretPrivateKey : PrivateKey) (memo : ExtendedMemoData) : Bool :=
  if memo.memoFlags = MemoFlagsEnum.fromMemo.value &&
      !(memo.from = nullKeyData && memo.fromSignature = 0) then
    c.getSharedSecret secretPrivateKey (c.ofData memo.from) 0 == memo.fromSignature
  else true

/-- `decrypt_memo_data`. An `aes_exception` is caught. -/
def decryptMemoData (w : WithdrawWithSignature) (receiverKey : PrivateKey) (ignoreOwner : Bool) :
    Except MemoException (Option (MemoStatus PrivateKey)) :=
  match w.memo with
  | none => .error .assert
  | some memo =>
    let secret := c.getSharedSecret receiverKey (c.ofData memo.oneTimeKey)
    let secretKey := secretPrivateKey c receiverKey secret
    if !ignoreOwner && w.owner != c.address (c.serialize (c.getPublicKey secretKey)) then .ok none
    else
      match decryptMemo c secret memo with
      | .error .aes => .ok none
      | .error e => .error e
      | .ok memo => .ok (some ⟨memo, validSignature c secretKey memo, secretKey⟩)

/-- The word by which the receiver can check who the sender is. -/
def checkWord (fromPrivateKey : PrivateKey) (secretPublicKey : PublicKey) : UInt64 :=
  if fromPrivateKey ≠ c.nullKey then c.getSharedSecret fromPrivateKey secretPublicKey 0 else 0

/-- `encrypt_memo_data`, with the key it returns. -/
def encryptMemoData (oneTimePrivateKey : PrivateKey) (toPublicKey : PublicKey)
    (fromPrivateKey : PrivateKey) (memoMessage : Bytes) (memoPubKey : PublicKey)
    (memoType : MemoFlagsEnum) (useStealthAddress : Bool) :
    Except MemoException (WithdrawWithSignature × PublicKey) := do
  let secret := c.getSharedSecret oneTimePrivateKey toPublicKey
  let secretExtPublicKey := ExtendedPublicKey.child c ⟨toPublicKey, fun _ => 0⟩ (c.sha256 secret)
  let secretPublicKey := if useStealthAddress then secretExtPublicKey.pubKey else toPublicKey
  let owner := c.address (c.serialize secretPublicKey)
  let word := checkWord c fromPrivateKey secretPublicKey
  let oneTimeKey := c.serialize (c.getPublicKey oneTimePrivateKey)
  if memoMessage.length ≤ maxMemoSize then
    let message ← setMessage memoMessage
    let content : MemoData := ⟨c.serialize memoPubKey, word, message, memoType.value⟩
    return (⟨owner, some ⟨oneTimeKey, c.aesEncrypt secret content.pack⟩⟩, secretPublicKey)
  else
    let (message, extraMemo) ← setExtendedMessage memoMessage
    let content : ExtendedMemoData :=
      ⟨c.serialize memoPubKey, word, message, memoType.value, extraMemo⟩
    return (⟨owner, some ⟨oneTimeKey, c.aesEncrypt secret content.pack⟩⟩, secretPublicKey)

/-- The condition of the deposit that `deposit_to_account` adds, with the key it returns. The memo is made
for the plain address whatever the last argument is. -/
def depositToAccount (receiverKey : PublicKey) (fromKey : PrivateKey) (memoMessage : Bytes)
    (memoPubKey : PublicKey) (oneTimePrivateKey : PrivateKey) (memoType : MemoFlagsEnum)
    (_useStealthAddress : Bool) : Except MemoException (WithdrawWithSignature × PublicKey) :=
  encryptMemoData c oneTimePrivateKey receiverKey fromKey memoMessage memoPubKey memoType false

end WithdrawWithSignature

end Achain.Memos
