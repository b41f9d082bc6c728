import Achain.Primitives

/-!
# The database interfaces and the store and remove hooks of the entries

Every entry type is stored and removed through a static hook that keeps the secondary indexes of
the database it works on. The hooks are written once, over the operations a database offers for
each table, and are used both for the pending state and for the chain database.
-/

namespace Achain

open Table

class PropertyDbInterface (σ : Type) where
  propertyLookupById : σ → PropertyIdType → Option PropertyValue
  propertyInsertIntoIdMap : σ → PropertyIdType → PropertyValue → σ
  propertyEraseFromIdMap : σ → PropertyIdType → σ

class AccountDbInterface (σ : Type) where
  accountLookupById : σ → AccountIdType → Option AccountEntry
  accountInsertIntoIdMap : σ → AccountIdType → AccountEntry → σ
  accountInsertIntoNameMap : σ → Str → AccountIdType → σ
  accountInsertIntoAddressMap : σ → Address → AccountIdType → σ
  accountInsertIntoVoteSet : σ → VoteDel → σ
  accountEraseFromIdMap : σ → AccountIdType → σ
  accountEraseFromNameMap : σ → Str → σ
  accountEraseFromAddressMap : σ → Address → σ
  accountEraseFromVoteSet : σ → VoteDel → σ

class AssetDbInterface (σ : Type) where
  assetLookupById : σ → AssetIdType → Option AssetEntry
  assetInsertIntoIdMap : σ → AssetIdType → AssetEntry → σ
  assetInsertIntoSymbolMap : σ → Str → AssetIdType → σ
  assetEraseFromIdMap : σ → AssetIdType → σ
  assetEraseFromSymbolMap : σ → Str → σ

class SlateDbInterface (σ : Type) where
  slateLookupById : σ → SlateIdType → Option SlateEntry
  slateInsertIntoIdMap : σ → SlateIdType → SlateEntry → σ
  slateEraseFromIdMap : σ → SlateIdType → σ

class BalanceDbInterface (σ : Type) where
  balanceLookupById : σ → BalanceIdType → Option BalanceEntry
  balanceInsertIntoIdMap : σ → BalanceIdType → BalanceEntry → σ
  balanceEraseFromIdMap : σ → BalanceIdType → σ

class TransactionDbInterface (σ : Type) where
  transactionLookupById : σ → TransactionIdType → Option TransactionEntry
  transactionInsertIntoIdMap : σ → TransactionIdType → TransactionEntry → σ
  transactionInsertIntoUniqueSet : Primitives → σ → SignedTransaction → σ
  transactionEraseFromIdMap : σ → TransactionIdType → σ
  transactionEraseFromUniqueSet : Primitives → σ → SignedTransaction → σ

class SlotDbInterface (σ : Type) where
  statisticsEnabled : σ → Bool
  slotLookupByIndex : σ → SlotIndex → Option SlotEntry
  slotInsertIntoIndexMap : σ → SlotIndex → SlotEntry → σ
  slotInsertIntoTimestampMap : σ → TimePointSec → AccountIdType → σ
  slotEraseFromIndexMap : σ → SlotIndex → σ
  slotEraseFromTimestampMap : σ → TimePointSec → σ

class ContractDbInterface (σ : Type) where
  contractLookupById : σ → ContractIdType → Option ContractEntry
  contractstorageLookupById : σ → ContractIdType → Option ContractStorageEntry
  contractInsertIntoIdMap : σ → ContractIdType → ContractEntry → σ
  contractInsertIntoNameMap : σ → Str → ContractIdType → σ
  contractstorageInsertIntoIdMap : σ → ContractIdType → ContractStorageEntry → σ
  contractStoreResultidByReqestid : σ → TransactionIdType → TransactionIdType → σ
  contractStoreRequestidByResultid : σ → TransactionIdType → TransactionIdType → σ
  contractStoreContractidByTrxid : σ → TransactionIdType → ContractIdType → σ
  contractStoreTrxidByContractid : σ → ContractIdType → TransactionIdType → σ
  contractEraseFromIdMap : σ → ContractIdType → σ
  contractstorageEraseFromIdMap : σ → ContractIdType → σ
  contractEraseResultidByReqestid : σ → TransactionIdType → σ
  contractEraseRequestidByResultid : σ → TransactionIdType → σ
  contractEraseTrxidByContractId : σ → ContractIdType → σ
  contractEraseContractidByTrxid : σ → TransactionIdType → σ

section Hooks

variable {σ : Type}

section Property

variable [PropertyDbInterface σ]
open PropertyDbInterface

def PropertyEntry.store (db : σ) (id : PropertyIdType) (entry : PropertyValue) : σ :=
  propertyInsertIntoIdMap db id entry

def PropertyEntry.remove (db : σ) (id : PropertyIdType) : σ :=
  match propertyLookupById db id with
  | some _ => propertyEraseFromIdMap db id
  | none => db

end Property

section Account

variable [AccountDbInterface σ] (P : Primitives)
open AccountDbInterface

/-- Erases the addresses of a list of keys from the address map. -/
def eraseKeyAddresses (db : σ) (keys : List PublicKeyType) : σ :=
  keys.foldl (fun db key => accountEraseFromAddressMap db (P.address key)) db

/-- Maps the addresses of the keys that are not null to the account. -/
def insertKeyAddresses (db : σ) (keys : List PublicKeyType) (id : AccountIdType) : σ :=
  keys.foldl (fun db key =>
    if key ≠ 0 then accountInsertIntoAddressMap db (P.address key) id else db) db

namespace AccountEntry

/-- What `AccountEntry::store` erases of the entry it replaces. -/
def storeErase (db : σ) (prev entry : AccountEntry) : σ :=
  let db := if prev.name ≠ entry.name then accountEraseFromNameMap db prev.name else db
  let db :=
    if P.address prev.ownerKey ≠ P.address entry.ownerKey then
      accountEraseFromAddressMap db (P.address prev.ownerKey)
    else db
  let db :=
    if prev.activeKey ≠ entry.activeKey then
      eraseKeyAddresses P db prev.activeKeyHistory.keys
    else db
  match prev.delegateInfo with
  | none => db
  | some d =>
    let db :=
      match entry.delegateInfo with
      | none => eraseKeyAddresses P db d.signingKeyHistory.keys
      | some e =>
        if d.signingKeyHistory.last ≠ e.signingKeyHistory.last then
          eraseKeyAddresses P db d.signingKeyHistory.keys
        else db
    if !prev.isRetracted &&
        (entry.isRetracted || !entry.isDelegate || prev.netVotes != entry.netVotes) then
      accountEraseFromVoteSet db ⟨prev.netVotes, prev.id⟩
    else db

/-- What `AccountEntry::store` inserts. -/
def storeInsert (db : σ) (id : AccountIdType) (entry : AccountEntry) : σ :=
  let db := accountInsertIntoIdMap db id entry
  let db := accountInsertIntoNameMap db entry.name id
  let db := accountInsertIntoAddressMap db (P.address entry.ownerKey) id
  let db := insertKeyAddresses P db entry.activeKeyHistory.keys id
  match entry.delegateInfo with
  | none => db
  | some d =>
    let db := insertKeyAddresses P db d.signingKeyHistory.keys id
    if !entry.isRetracted then accountInsertIntoVoteSet db ⟨entry.netVotes, id⟩ else db

def store (db : σ) (id : AccountIdType) (entry : AccountEntry) : σ :=
  let db :=
    match accountLookupById db id with
    | some prev => storeErase P db prev entry
    | none => db
  storeInsert P db id entry

def remove (db : σ) (id : AccountIdType) : σ :=
  match accountLookupById db id with
  | none => db
  | some prev =>
    let db := accountEraseFromIdMap db id
    let db := accountEraseFromNameMap db prev.name
    let db := accountEraseFromAddressMap db (P.address prev.ownerKey)
    let db := eraseKeyAddresses P db prev.activeKeyHistory.keys
    match prev.delegateInfo with
    | none => db
    | some d =>
      let db := eraseKeyAddresses P db d.signingKeyHistory.keys
      if !prev.isRetracted then accountEraseFromVoteSet db ⟨prev.netVotes, prev.id⟩ else db

end AccountEntry

end Account

section AssetHooks

variable [AssetDbInterface σ]
open AssetDbInterface

def AssetEntry.store (db : σ) (id : AssetIdType) (entry : AssetEntry) : σ :=
  let db :=
    match assetLookupById db id with
    | some prev =>
      if prev.symbol ≠ entry.symbol then assetEraseFromSymbolMap db prev.symbol else db
    | none => db
  assetInsertIntoSymbolMap (assetInsertIntoIdMap db id entry) entry.symbol id

def AssetEntry.remove (db : σ) (id : AssetIdType) : σ :=
  match assetLookupById db id with
  | some prev => assetEraseFromSymbolMap (assetEraseFromIdMap db id) prev.symbol
  | none => db

end AssetHooks

section Slate

variable [SlateDbInterface σ]
open SlateDbInterface

def SlateEntry.store (db : σ) (id : SlateIdType) (entry : SlateEntry) : σ :=
  slateInsertIntoIdMap db id entry

def SlateEntry.remove (db : σ) (id : SlateIdType) : σ :=
  match slateLookupById db id with
  | some _ => slateEraseFromIdMap db id
  | none => db

end Slate

section Balance

variable [BalanceDbInterface σ]
open BalanceDbInterface

def BalanceEntry.store (db : σ) (id : BalanceIdType) (entry : BalanceEntry) : σ :=
  balanceInsertIntoIdMap db id entry

def BalanceEntry.remove (db : σ) (id : BalanceIdType) : σ :=
  match balanceLookupById db id with
  | some _ => balanceEraseFromIdMap db id
  | none => db

end Balance

section Transaction

variable [TransactionDbInterface σ] (P : Primitives)
open TransactionDbInterface

def TransactionEntry.store (db : σ) (id : TransactionIdType) (entry : TransactionEntry) : σ :=
  transactionInsertIntoUniqueSet P (transactionInsertIntoIdMap db id entry) entry.trx

def TransactionEntry.remove (db : σ) (id : TransactionIdType) : σ :=
  match transactionLookupById db id with
  | some prev => transactionEraseFromUniqueSet P (transactionEraseFromIdMap db id) prev.trx
  | none => db

end Transaction

section Slot

variable [SlotDbInterface σ]
open SlotDbInterface

def SlotEntry.store (db : σ) (index : SlotIndex) (entry : SlotEntry) : σ :=
  if !statisticsEnabled db then db
  else
    let db :=
      match slotLookupByIndex db index with
      | some prev =>
        if prev.index.timestamp ≠ index.timestamp then
          slotEraseFromTimestampMap db prev.index.timestamp
        else db
      | none => db
    slotInsertIntoTimestampMap (slotInsertIntoIndexMap db index entry) index.timestamp
      index.delegateId

def SlotEntry.remove (db : σ) (index : SlotIndex) : σ :=
  if !statisticsEnabled db then db
  else
    match slotLookupByIndex db index with
    | some prev => slotEraseFromTimestampMap (slotEraseFromIndexMap db index) prev.index.timestamp
    | none => db

end Slot

section Contract

variable [ContractDbInterface σ]
open ContractDbInterface

def isNameStart (c : Char) : Bool :=
  ('A' ≤ c && c ≤ 'Z') || ('a' ≤ c && c ≤ 'z') || c == '_'

def isNameChar (c : Char) : Bool := isNameStart c || ('0' ≤ c && c ≤ '9')

/-- `is_valid_contract_name`. -/
def isValidContractName : Str → Bool
  | [] => false
  | c :: cs => (c :: cs).length ≤ contractMaxNameSize && isNameStart c && cs.all isNameChar

def isValidContractDescription (desc : Str) : Bool :=
  desc ≠ [] && desc.length ≤ contractMaxDescriptionSize

/-- `ContractEntry::store` maps a valid name to the contract; the name the contract had before is
not erased. -/
def ContractEntry.store (db : σ) (id : ContractIdType) (entry : ContractEntry) : σ :=
  let db := contractInsertIntoIdMap db id entry
  if isValidContractName entry.contractName then
    contractInsertIntoNameMap db entry.contractName id
  else db

def ContractEntry.remove (db : σ) (id : ContractIdType) : σ :=
  match contractLookupById db id with
  | some _ => contractEraseFromIdMap db id
  | none => db

def ContractStorageEntry.store (db : σ) (id : ContractIdType) (entry : ContractStorageEntry) :
    σ :=
  contractstorageInsertIntoIdMap db id entry

def ContractStorageEntry.remove (db : σ) (id : ContractIdType) : σ :=
  match contractstorageLookupById db id with
  | some _ => contractstorageEraseFromIdMap db id
  | none => db

end Contract

end Hooks

end Achain
