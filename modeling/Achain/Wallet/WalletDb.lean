import Achain.Wallet.WalletEntrys
import Achain.Lib.Stateful
import Mathlib.Data.Finset.Sort

/-!
# The wallet's database

The entries of the wallet's file, and the maps in memory that are loaded from them. A call that throws
leaves what it has changed until then.
-/

namespace Achain.Wallets

open Table

/-- The database: the file with what is in it, which of the coming writes it refuses, and the maps. -/
structure WalletDb where
  entrysOpen : Bool
  entrys : Tab Int GenericWalletEntry
  refused : Nat → Bool
  properties : Tab PropertyEnum WalletPropertyEntry
  walletMasterKey : Option WalletMasterKeyEntry
  accounts : Tab Int WalletAccountEntry
  keys : Tab Address WalletKeyEntry
  contacts : Tab Str WalletContactEntry
  transactions : Tab TransactionIdType WalletTransactionEntry
  settings : Tab Str WalletSettingEntry
  addressToAccountWalletEntryIndex : Tab Address Int
  nameToAccountWalletEntryIndex : Tab Str Int
  accountIdToWalletEntryIndex : Tab AccountIdType Int
  btcToAlpAddress : Tab Address Address
  labelToAccountOrContact : Tab Str Str
  idToTransactionEntryIndex : Tab TransactionIdType TransactionIdType
  contractsOfWallet : Tab Address (List WalletContractEntry)
  idToEntryForContract : Tab ContractIdType WalletContractEntry

/-- A call on the database. -/
abbrev Db (α : Type) := EStateM WalletExn WalletDb α

/-- `FC_ASSERT`. -/
def fcAssert (p : Prop) [Decidable p] : Db Unit := if p then pure () else throw .fcAssert

/-- What a function of `fc` returns, where it does not throw. -/
def returned {α : Type} : Option α → Db α
  | some a => pure a
  | none => throw .aes

namespace WalletDb

variable {PrivateKey ExtendedPrivateKey : Type} (c : Crypto PrivateKey ExtendedPrivateKey)

def isOpen (w : WalletDb) : Bool := w.entrysOpen && w.walletMasterKey.isSome

/-! ## Loading -/

section Load

variable (w : WalletDb)

def loadPropertyEntry (e : WalletPropertyEntry) : WalletDb :=
  { w with properties := w.properties.insert e.data.key e }

def loadMasterKeyEntry (key : WalletMasterKeyEntry) : WalletDb := { w with walletMasterKey := some key }

/-- The keys but for the null key, each mapped to the index of its account. -/
def cacheAddresses (index : Int) (addresses : Tab Address Int) (keys : List PublicKeyType) :
    Tab Address Int :=
  keys.foldl (fun t key => if key = 0 then t else t.insert (c.address key) index) addresses

def loadAccountEntry (e : WalletAccountEntry) : WalletDb :=
  let index := e.walletEntryIndex
  let addresses := w.addressToAccountWalletEntryIndex.insert (e.data.ownerAddress c) index
  let addresses := cacheAddresses c index addresses e.data.activeKeyHistory.keys
  let ids := w.accountIdToWalletEntryIndex
  { w with
    accounts := w.accounts.insert index e
    addressToAccountWalletEntryIndex := cacheAddresses c index addresses e.data.signingKeys
    nameToAccountWalletEntryIndex := w.nameToAccountWalletEntryIndex.insert e.data.name index
    accountIdToWalletEntryIndex := if e.data.id ≠ 0 then ids.insert e.data.id index else ids }

def loadContractEntry (e : WalletContractEntry) : WalletDb :=
  let owner := c.address e.data.owner
  { w with
    contractsOfWallet := w.contractsOfWallet.insert owner
      ((w.contractsOfWallet.lookup owner).getD [] ++ [e])
    idToEntryForContract := w.idToEntryForContract.insert e.data.id e }

/-- The addresses under which a key is looked up. -/
def derivedAddresses (key : PublicKeyType) : List Address :=
  [c.address key, c.ptsAddress key false 0, c.ptsAddress key true 0, c.ptsAddress key false 56,
    c.ptsAddress key true 56]

def loadKeyEntry (e : WalletKeyEntry) : WalletDb :=
  let address := e.data.getAddress c
  { w with
    keys := w.keys.insert address e
    btcToAlpAddress := (derivedAddresses c e.data.publicKey).foldl (fun t a => t.insert a address)
      w.btcToAlpAddress }

def loadContactEntry (e : WalletContactEntry) : WalletDb :=
  { w with
    contacts := w.contacts.insert e.data.data e
    labelToAccountOrContact := w.labelToAccountOrContact.insert e.data.label e.data.data }

def loadTransactionEntry (e : WalletTransactionEntry) : WalletDb :=
  let ids := w.idToTransactionEntryIndex.insert e.data.entryId e.data.entryId
  let id := c.id e.data.trx
  { w with
    transactions := w.transactions.insert e.data.entryId e
    idToTransactionEntryIndex := if id ≠ c.id .empty then ids.insert id e.data.entryId else ids }

def loadSettingEntry (e : WalletSettingEntry) : WalletDb :=
  { w with settings := w.settings.insert e.data.name e }

/-- `load_generic_entry`. A property under an unknown key is not loaded. -/
def loadGenericEntry : GenericWalletEntry → WalletDb
  | .masterKey e => w.loadMasterKeyEntry e
  | .account e => w.loadAccountEntry c e
  | .key e => w.loadKeyEntry c e
  | .transaction e => w.loadTransactionEntry c e
  | .contact e => w.loadContactEntry e
  | .property e => w.loadPropertyEntry e
  | .oldProperty _ => w
  | .setting e => w.loadSettingEntry e
  | .contract e => w.loadContractEntry c e

end Load

/-! ## The file -/

/-- A write into the file, which throws where the file is not open or refuses the write. -/
def write (f : Tab Int GenericWalletEntry → Tab Int GenericWalletEntry) : Db Unit := do
  let w ← get
  fcAssert (w.entrysOpen = true)
  set { w with refused := fun n => w.refused (n + 1) }
  if w.refused 0 then throw .levelMapFailure
  modify fun w => { w with entrys := f w.entrys }

def storeAndReloadGenericEntry (e : GenericWalletEntry) : Db Unit := do
  fcAssert (e.getWalletEntryIndex ≠ 0)
  write (·.insert e.getWalletEntryIndex e)
  modify fun w => w.loadGenericEntry c e

def removeGenericWalletEntry (e : GenericWalletEntry) : Db Unit := write (·.erase e.getWalletEntryIndex)

/-! ## Indexes -/

def getProperty (w : WalletDb) (id : PropertyEnum) : Option Int :=
  (w.properties.lookup id).bind fun e => e.data.value

/-- A number as an `int32_t`. -/
def toInt32 (n : Int) : Int := n.bmod (2 ^ 32)

/-- The value of the first `next_record_number` in the order of the file. -/
def oldNextNumber (entrys : Tab Int GenericWalletEntry) : Option Int :=
  entrys.keys.sort.findSome? fun index =>
    match entrys.lookup index with
    | some (.oldProperty e) => if e.data.key = "next_record_number".toList then some e.data.value else none
    | _ => none

/-- The indexes of the transactions. -/
def transactionIndexes (entrys : Tab Int GenericWalletEntry) : List Int :=
  entrys.keys.sort.filter fun index =>
    (entrys.lookup index).any fun e => e.type = .transaction

/-- The first index of a wallet without the property: that of an old file, whose transactions go. -/
def firstIndex : Db Int := do
  let w ← get
  match oldNextNumber w.entrys with
  | none => return 2
  | some number =>
    (transactionIndexes w.entrys).forM fun index => write (·.erase index)
    modify fun w => { w with transactions := ∅, idToTransactionEntryIndex := ∅ }
    return toInt32 number

/-- `set_property` for `next_entry_number`, whose entry has an index of its own. -/
def setNextEntryNumber (v : Int) : Db Unit := do
  let w ← get
  let old := w.properties.lookup .nextEntryNumber
  let index := old.elim 1 fun e => e.walletEntryIndex
  storeAndReloadGenericEntry c (.property ⟨index, ⟨.nextEntryNumber, some v⟩⟩)

def newWalletEntryIndex : Db Int := do
  let w ← get
  let number ← match w.getProperty .nextEntryNumber with
    | none => firstIndex
    | some v => pure (toInt32 v)
  setNextEntryNumber c (toInt32 (number + 1))
  return number

/-- `store_and_reload_entry`, which returns the entry with its index. -/
def storeAndReloadEntry {Data : Type} (make : WalletEntry Data → GenericWalletEntry)
    (e : WalletEntry Data) : Db (WalletEntry Data) := do
  let index ← if e.walletEntryIndex = 0 then newWalletEntryIndex c else pure e.walletEntryIndex
  let e := { e with walletEntryIndex := index }
  storeAndReloadGenericEntry c (make e)
  return e

/-- `set_property` for the other properties. -/
def setProperty (id : PropertyEnum) (v : Int) : Db Unit := do
  let w ← get
  let index ← match w.properties.lookup id with
    | some e => pure e.walletEntryIndex
    | none => newWalletEntryIndex c
  let _ ← storeAndReloadEntry c .property ⟨index, ⟨id, some v⟩⟩

/-! ## Lookups -/

section Lookup

variable (w : WalletDb)

def accountAt (index : Option Int) : Option WalletAccountEntry := index.bind fun i => w.accounts.lookup i

def accountOf (address : Address) : Option WalletAccountEntry :=
  w.accountAt (w.addressToAccountWalletEntryIndex.lookup address)

def accountNamed (name : Str) : Option WalletAccountEntry :=
  w.accountAt (w.nameToAccountWalletEntryIndex.lookup name)

def keyAt (derivedAddress : Address) : Option WalletKeyEntry :=
  (w.btcToAlpAddress.lookup derivedAddress).bind fun address => w.keys.lookup address

end Lookup

/-- What is looked up in an open wallet. -/
def lookupOpen {α : Type} (f : WalletDb → α) : Db α := do
  let w ← get
  fcAssert (w.isOpen = true)
  return f w

/-- `lookup_account` by address. -/
def lookupAccount (address : Address) : Db (Option WalletAccountEntry) := lookupOpen (·.accountOf address)

/-- `lookup_account` by name. -/
def lookupAccountName (name : Str) : Db (Option WalletAccountEntry) := lookupOpen (·.accountNamed name)

def lookupKey (derivedAddress : Address) : Db (Option WalletKeyEntry) := lookupOpen (·.keyAt derivedAddress)

end WalletDb

end Achain.Wallets
