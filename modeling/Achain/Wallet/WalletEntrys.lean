import Achain.Primitives

/-!
# The entries of the wallet

What the wallet keeps in its file: the master key and the private keys are encrypted with the password.
The cipher, the packing of keys and the derivation of child keys are those of `fc`.
-/

namespace Achain.Wallets

open Table

abbrev Bytes := List UInt8

/-- The `fc::sha512` of what the user types, zero by default. -/
abbrev Password := Nat

/-- The keys and the cipher. A wrong password throws or yields a different key, an address belongs to one
key, and the addresses of other chains are none of this one. -/
structure Crypto (PrivateKey ExtendedPrivateKey : Type) extends Primitives where
  aesEncrypt : Password → Bytes → Bytes
  aesDecrypt : Password → Bytes → Option Bytes
  hash : Password → DigestType
  pack : PrivateKey → Bytes
  unpack : Bytes → Option PrivateKey
  packExtended : ExtendedPrivateKey → Bytes
  unpackExtended : Bytes → Option ExtendedPrivateKey
  getPublicKey : PrivateKey → PublicKeyType
  walletChild : ExtendedPrivateKey → Nat → PrivateKey
  accountChild : PrivateKey → Nat → PrivateKey
  decrypt_encrypt : ∀ p b, aesDecrypt p (aesEncrypt p b) = some b
  encrypt_ne_nil : ∀ p b, aesEncrypt p b ≠ []
  unpack_pack : ∀ k, unpack (pack k) = some k
  unpackExtended_pack : ∀ k, unpackExtended (packExtended k) = some k
  unique_password : ∀ p q b k, (aesDecrypt p b).bind unpack = some k →
    (aesDecrypt q b).bind unpack = some k → p = q
  unique_extended_password : ∀ p q b k, (aesDecrypt p b).bind unpackExtended = some k →
    (aesDecrypt q b).bind unpackExtended = some k → p = q
  getPublicKey_injective : Function.Injective getPublicKey
  address_injective : Function.Injective address
  ptsAddress_ne : ∀ key compressed version key', ptsAddress key compressed version ≠ address key'

/-- The exceptions of the wallet's database. -/
inductive WalletExn where
  | fcAssert | aes | levelMapFailure | callDepth
  deriving DecidableEq

/-! ## What the entries hold -/

inductive PropertyEnum where
  | version | nextEntryNumber | nextChildKeyIndex | automaticBackups | transactionScanning
  | lastUnlockedScannedBlockNumber | defaultTransactionPriorityFee | transactionExpirationSec
  | transactionMinImessageSoftLength | transactionMinImessageFeeCoe
  | lastScannedBlockNumberForThinkyoung
  deriving DecidableEq

/-- A property. Its value is a number, or null. -/
structure WalletProperty where
  key : PropertyEnum
  value : Option Int
  deriving DecidableEq

structure MasterKey where
  encryptedKey : Bytes
  checksum : DigestType
  deriving DecidableEq

structure AccountData extends AccountEntry where
  isMyAccount : Bool
  approved : Int
  isFavorite : Bool
  blockProductionEnabled : Bool
  lastUsedGenSequence : Nat
  privateData : Variant

structure KeyData where
  accountAddress : Address
  publicKey : PublicKeyType
  encryptedPrivateKey : Bytes
  validFromSignature : Bool
  memo : Option Str
  genSeqNumber : Nat
  deriving DecidableEq

structure ContactData where
  contactType : Nat
  data : Str
  label : Str
  favorite : Bool
  deriving DecidableEq

structure LedgerEntry where
  fromAccount : Option PublicKeyType
  toAccount : Option PublicKeyType
  fromContractBalance : Option BalanceIdType
  toContractBalance : Option BalanceIdType
  amount : Asset
  memo : Str
  memoFromAccount : Option PublicKeyType
  deriving DecidableEq

structure TransactionData where
  entryId : TransactionIdType
  blockNum : Nat
  isVirtual : Bool
  isConfirmed : Bool
  isMarket : Bool
  trx : SignedTransaction
  ledgerEntries : List LedgerEntry
  fee : Asset
  createdTime : TimePointSec
  receivedTime : TimePointSec
  extraAddresses : List Address

structure Setting where
  name : Str
  value : Variant
  deriving DecidableEq

/-- A property under a key that is not in `PropertyEnum`. -/
structure OldProperty where
  key : Str
  value : Int
  deriving DecidableEq

/-! ## Entries -/

structure WalletEntry (Data : Type) where
  walletEntryIndex : Int
  data : Data
  deriving DecidableEq

abbrev WalletPropertyEntry := WalletEntry WalletProperty
abbrev WalletMasterKeyEntry := WalletEntry MasterKey
abbrev WalletAccountEntry := WalletEntry AccountData
abbrev WalletKeyEntry := WalletEntry KeyData
abbrev WalletContactEntry := WalletEntry ContactData
abbrev WalletTransactionEntry := WalletEntry TransactionData
abbrev WalletSettingEntry := WalletEntry Setting
abbrev WalletContractEntry := WalletEntry ContractEntry

inductive WalletEntryTypeEnum where
  | masterKey | account | key | transaction | contact | property | setting | contract
  deriving DecidableEq

inductive GenericWalletEntry where
  | masterKey (e : WalletMasterKeyEntry)
  | account (e : WalletAccountEntry)
  | key (e : WalletKeyEntry)
  | transaction (e : WalletTransactionEntry)
  | contact (e : WalletContactEntry)
  | property (e : WalletPropertyEntry)
  | oldProperty (e : WalletEntry OldProperty)
  | setting (e : WalletSettingEntry)
  | contract (e : WalletContractEntry)

namespace GenericWalletEntry

def getWalletEntryIndex : GenericWalletEntry → Int
  | masterKey e => e.walletEntryIndex
  | account e => e.walletEntryIndex
  | key e => e.walletEntryIndex
  | transaction e => e.walletEntryIndex
  | contact e => e.walletEntryIndex
  | property e => e.walletEntryIndex
  | oldProperty e => e.walletEntryIndex
  | setting e => e.walletEntryIndex
  | contract e => e.walletEntryIndex

def type : GenericWalletEntry → WalletEntryTypeEnum
  | masterKey _ => .masterKey
  | account _ => .account
  | key _ => .key
  | transaction _ => .transaction
  | contact _ => .contact
  | property _ | oldProperty _ => .property
  | setting _ => .setting
  | contract _ => .contract

end GenericWalletEntry

/-! ## Encrypted keys -/

section Keys

variable {PrivateKey ExtendedPrivateKey : Type} (c : Crypto PrivateKey ExtendedPrivateKey)

namespace MasterKey

/-- `decrypt_key`, which throws without a password, without a key and where the bytes do not decrypt. -/
def decryptKey (m : MasterKey) (password : Password) : Option ExtendedPrivateKey :=
  if password = 0 ∨ m.encryptedKey = [] then none
  else (c.aesDecrypt password m.encryptedKey).bind c.unpackExtended

/-- `encrypt_key` of a new master key, with the check that it decrypts. -/
def encryptKey [DecidableEq ExtendedPrivateKey] (password : Password) (k : ExtendedPrivateKey) :
    Option MasterKey :=
  let m : MasterKey := ⟨c.aesEncrypt password (c.packExtended k), c.hash password⟩
  if password ≠ 0 ∧ m.decryptKey c password = some k then some m else none

end MasterKey

namespace KeyData

/-- A default constructed `KeyData`. -/
def empty : KeyData := ⟨0, 0, [], false, none, 0⟩

def getAddress (key : KeyData) : Address := c.address key.publicKey

def hasPrivateKey (key : KeyData) : Bool := !key.encryptedPrivateKey.isEmpty

def decryptPrivateKey (key : KeyData) (password : Password) : Option PrivateKey :=
  if password = 0 then none else (c.aesDecrypt password key.encryptedPrivateKey).bind c.unpack

/-- `encrypt_private_key`, which also sets the public key and checks that the private key decrypts. -/
def encryptPrivateKey [DecidableEq PrivateKey] (key : KeyData) (password : Password)
    (keyToEncrypt : PrivateKey) : Option KeyData :=
  let key := { key with publicKey := c.getPublicKey keyToEncrypt
                        encryptedPrivateKey := c.aesEncrypt password (c.pack keyToEncrypt) }
  if password ≠ 0 ∧ key.decryptPrivateKey c password = some keyToEncrypt then some key else none

end KeyData

end Keys

namespace AccountData

variable {PrivateKey ExtendedPrivateKey : Type} (c : Crypto PrivateKey ExtendedPrivateKey)

def ownerAddress (a : AccountData) : Address := c.address a.ownerKey
def activeAddress (a : AccountData) : Address := c.address a.activeKey

/-- The keys in `signing_key_history`. -/
def signingKeys (a : AccountData) : List PublicKeyType :=
  a.delegateInfo.elim [] fun d => d.signingKeyHistory.keys

/-- `signing_key` of a delegate. -/
def signingKey (a : AccountData) : Option PublicKeyType :=
  a.delegateInfo.map fun d => d.signingKeyHistory.last

/-- The owner key and all active and signing keys there have been. -/
def allKeys (a : AccountData) : List PublicKeyType :=
  a.ownerKey :: (a.activeKeyHistory.keys ++ a.signingKeys)

end AccountData

end Achain.Wallets
