import Achain.ChainInterface

/-!
# The pending chain state

An overlay over a chain interface that is only read: each table keeps the entries stored and the
keys removed. The tables other than the transactions form the `Ledger`, the part operations work
on; the transactions and their digests are kept beside it.
-/

namespace Achain

open Table

/-- The lookups of the chain interface below a pending state, other than the transactions. -/
structure LedgerView where
  property : PropertyIdType → Option PropertyValue
  accountById : AccountIdType → Option AccountEntry
  accountByName : Str → Option AccountEntry
  accountByAddress : Address → Option AccountEntry
  assetById : AssetIdType → Option AssetEntry
  assetBySymbol : Str → Option AssetEntry
  slate : SlateIdType → Option SlateEntry
  balance : BalanceIdType → Option BalanceEntry
  slotByIndex : SlotIndex → Option SlotEntry
  slotByTimestamp : TimePointSec → Option SlotEntry
  contractById : ContractIdType → Option ContractEntry
  contractByName : Str → Option ContractEntry
  storage : ContractIdType → Option ContractStorageEntry
  resultIdByRequestId : TransactionIdType → Option TransactionIdType
  requestIdByResultId : TransactionIdType → Option TransactionIdType
  contractIdByTrxId : TransactionIdType → Option ContractIdType
  trxIdByContractId : ContractIdType → Option TransactionIdType
  headBlockNum : Nat
  headBlockTimestamp : TimePointSec
  now : TimePointSec
  statisticsEnabled : Bool
  blockIdByNum : Nat → Option BlockIdType

/-- A chain without entries. -/
def LedgerView.empty : LedgerView where
  property _ := none
  accountById _ := none
  accountByName _ := none
  accountByAddress _ := none
  assetById _ := none
  assetBySymbol _ := none
  slate _ := none
  balance _ := none
  slotByIndex _ := none
  slotByTimestamp _ := none
  contractById _ := none
  contractByName _ := none
  storage _ := none
  resultIdByRequestId _ := none
  requestIdByResultId _ := none
  contractIdByTrxId _ := none
  trxIdByContractId _ := none
  headBlockNum := 0
  headBlockTimestamp := 0
  now := 0
  statisticsEnabled := false
  blockIdByNum _ := none

/-- The tables of `PendingChainState` other than the transactions. Storages have no removed set of
their own: a lookup of one consults the removed contracts. -/
structure Ledger where
  prev : LedgerView
  property : Overlay PropertyIdType PropertyValue
  account : Overlay AccountIdType AccountEntry
  accountNameToId : Map Str AccountIdType
  accountAddressToId : Map Address AccountIdType
  asset : Overlay AssetIdType AssetEntry
  assetSymbolToId : Map Str AssetIdType
  slate : Overlay SlateIdType SlateEntry
  balance : Overlay BalanceIdType BalanceEntry
  slot : Overlay SlotIndex SlotEntry
  slotTimestampToDelegate : Map TimePointSec AccountIdType
  contract : Overlay ContractIdType ContractEntry
  contractNameToId : Map Str ContractIdType
  contractIdToStorage : Map ContractIdType ContractStorageEntry
  requestIdToResultId : Overlay TransactionIdType TransactionIdType
  resultIdToRequestId : Overlay TransactionIdType TransactionIdType
  trxToContractId : Overlay TransactionIdType ContractIdType
  contractToTrxId : Overlay ContractIdType TransactionIdType

namespace Ledger

def ofView (v : LedgerView) : Ledger where
  prev := v
  property := ∅
  account := ∅
  accountNameToId := ∅
  accountAddressToId := ∅
  asset := ∅
  assetSymbolToId := ∅
  slate := ∅
  balance := ∅
  slot := ∅
  slotTimestampToDelegate := ∅
  contract := ∅
  contractNameToId := ∅
  contractIdToStorage := ∅
  requestIdToResultId := ∅
  resultIdToRequestId := ∅
  trxToContractId := ∅
  contractToTrxId := ∅

variable (l : Ledger)

def getProperty (id : PropertyIdType) : Option PropertyValue :=
  l.property.lookup l.prev.property id

def getAccount (id : AccountIdType) : Option AccountEntry :=
  l.account.lookup l.prev.accountById id

/-- Lookup through a secondary index: an entry of the overlay, else the entry below unless its id
was removed. -/
def getAccountByName (name : Str) : Option AccountEntry :=
  match l.accountNameToId.lookup name with
  | some id => l.account.stored.lookup id
  | none => (l.prev.accountByName name).filter fun e => e.id ∉ l.account.removed

def getAccountByAddress (addr : Address) : Option AccountEntry :=
  match l.accountAddressToId.lookup addr with
  | some id => l.account.stored.lookup id
  | none => (l.prev.accountByAddress addr).filter fun e => e.id ∉ l.account.removed

def getAsset (id : AssetIdType) : Option AssetEntry := l.asset.lookup l.prev.assetById id

def getAssetBySymbol (symbol : Str) : Option AssetEntry :=
  match l.assetSymbolToId.lookup symbol with
  | some id => l.asset.stored.lookup id
  | none => (l.prev.assetBySymbol symbol).filter fun e => e.id ∉ l.asset.removed

def getSlate (id : SlateIdType) : Option SlateEntry := l.slate.lookup l.prev.slate id

def getBalance (id : BalanceIdType) : Option BalanceEntry := l.balance.lookup l.prev.balance id

def getSlot (index : SlotIndex) : Option SlotEntry := l.slot.lookup l.prev.slotByIndex index

def getSlotByTimestamp (timestamp : TimePointSec) : Option SlotEntry :=
  match l.slotTimestampToDelegate.lookup timestamp with
  | some delegateId => l.slot.stored.lookup ⟨delegateId, timestamp⟩
  | none => (l.prev.slotByTimestamp timestamp).filter fun e => e.index ∉ l.slot.removed

def getContract (id : ContractIdType) : Option ContractEntry :=
  l.contract.lookup l.prev.contractById id

def getContractByName (name : Str) : Option ContractEntry :=
  match l.contractNameToId.lookup name with
  | some id => l.getContract id
  | none => (l.prev.contractByName name).filter fun e => e.id ∉ l.contract.removed

def getStorage (id : ContractIdType) : Option ContractStorageEntry :=
  match l.contractIdToStorage.lookup id with
  | some s => some s
  | none => (l.prev.storage id).filter fun _ => id ∉ l.contract.removed

def getResultId (req : TransactionIdType) : Option TransactionIdType :=
  l.requestIdToResultId.lookup l.prev.resultIdByRequestId req

def getRequestId (res : TransactionIdType) : Option TransactionIdType :=
  l.resultIdToRequestId.lookup l.prev.requestIdByResultId res

def getContractIdByTrx (id : TransactionIdType) : Option ContractIdType :=
  l.trxToContractId.lookup l.prev.contractIdByTrxId id

def getTrxIdByContract (id : ContractIdType) : Option TransactionIdType :=
  l.contractToTrxId.lookup l.prev.trxIdByContractId id

/-- The ledger as the interface below another pending state. -/
def toView : LedgerView where
  property := l.getProperty
  accountById := l.getAccount
  accountByName := l.getAccountByName
  accountByAddress := l.getAccountByAddress
  assetById := l.getAsset
  assetBySymbol := l.getAssetBySymbol
  slate := l.getSlate
  balance := l.getBalance
  slotByIndex := l.getSlot
  slotByTimestamp := l.getSlotByTimestamp
  contractById := l.getContract
  contractByName := l.getContractByName
  storage := l.getStorage
  resultIdByRequestId := l.getResultId
  requestIdByResultId := l.getRequestId
  contractIdByTrxId := l.getContractIdByTrx
  trxIdByContractId := l.getTrxIdByContract
  headBlockNum := l.prev.headBlockNum
  headBlockTimestamp := l.prev.headBlockTimestamp
  now := l.prev.now
  statisticsEnabled := l.prev.statisticsEnabled
  blockIdByNum := l.prev.blockIdByNum

end Ledger

instance : PropertyDbInterface Ledger where
  propertyLookupById := Ledger.getProperty
  propertyInsertIntoIdMap l id v := { l with property := l.property.insert id v }
  propertyEraseFromIdMap l id := { l with property := l.property.erase id }

instance : AccountDbInterface Ledger where
  accountLookupById := Ledger.getAccount
  accountInsertIntoIdMap l id e := { l with account := l.account.insert id e }
  accountInsertIntoNameMap l name id :=
    { l with accountNameToId := l.accountNameToId.insert name id }
  accountInsertIntoAddressMap l addr id :=
    { l with accountAddressToId := l.accountAddressToId.insert addr id }
  accountInsertIntoVoteSet l _ := l
  accountEraseFromIdMap l id := { l with account := l.account.erase id }
  accountEraseFromNameMap l name := { l with accountNameToId := l.accountNameToId.erase name }
  accountEraseFromAddressMap l addr :=
    { l with accountAddressToId := l.accountAddressToId.erase addr }
  accountEraseFromVoteSet l _ := l

instance : AssetDbInterface Ledger where
  assetLookupById := Ledger.getAsset
  assetInsertIntoIdMap l id e := { l with asset := l.asset.insert id e }
  assetInsertIntoSymbolMap l symbol id :=
    { l with assetSymbolToId := l.assetSymbolToId.insert symbol id }
  assetEraseFromIdMap l id := { l with asset := l.asset.erase id }
  assetEraseFromSymbolMap l symbol :=
    { l with assetSymbolToId := l.assetSymbolToId.erase symbol }

instance : SlateDbInterface Ledger where
  slateLookupById := Ledger.getSlate
  slateInsertIntoIdMap l id e := { l with slate := l.slate.insert id e }
  slateEraseFromIdMap l id := { l with slate := l.slate.erase id }

instance : BalanceDbInterface Ledger where
  balanceLookupById := Ledger.getBalance
  balanceInsertIntoIdMap l id e := { l with balance := l.balance.insert id e }
  balanceEraseFromIdMap l id := { l with balance := l.balance.erase id }

instance : SlotDbInterface Ledger where
  statisticsEnabled l := l.prev.statisticsEnabled
  slotLookupByIndex := Ledger.getSlot
  slotInsertIntoIndexMap l index e := { l with slot := l.slot.insert index e }
  slotInsertIntoTimestampMap l t id :=
    { l with slotTimestampToDelegate := l.slotTimestampToDelegate.insert t id }
  slotEraseFromIndexMap l index := { l with slot := l.slot.erase index }
  slotEraseFromTimestampMap l t :=
    { l with slotTimestampToDelegate := l.slotTimestampToDelegate.erase t }

instance : ContractDbInterface Ledger where
  contractLookupById := Ledger.getContract
  contractstorageLookupById := Ledger.getStorage
  contractInsertIntoIdMap l id e := { l with contract := l.contract.insert id e }
  contractInsertIntoNameMap l name id :=
    { l with contractNameToId := l.contractNameToId.insert name id }
  contractstorageInsertIntoIdMap l id e :=
    { l with contractIdToStorage := l.contractIdToStorage.insert id e }
  contractStoreResultidByReqestid l req res :=
    { l with requestIdToResultId := l.requestIdToResultId.insert req res }
  contractStoreRequestidByResultid l res req :=
    { l with resultIdToRequestId := l.resultIdToRequestId.insert res req }
  contractStoreContractidByTrxid l tid cid :=
    { l with trxToContractId := l.trxToContractId.insert tid cid }
  contractStoreTrxidByContractid l cid tid :=
    { l with contractToTrxId := l.contractToTrxId.insert cid tid }
  contractEraseFromIdMap l id := { l with contract := l.contract.erase id }
  contractstorageEraseFromIdMap l id :=
    { l with contractIdToStorage := l.contractIdToStorage.erase id }
  contractEraseResultidByReqestid l req :=
    { l with requestIdToResultId := l.requestIdToResultId.erase req }
  contractEraseRequestidByResultid l res :=
    { l with resultIdToRequestId := l.resultIdToRequestId.erase res }
  contractEraseTrxidByContractId l id :=
    { l with contractToTrxId := l.contractToTrxId.erase id }
  contractEraseContractidByTrxid l id :=
    { l with trxToContractId := l.trxToContractId.erase id }

/-- The transaction table of `PendingChainState` with the lookups of the interface below it. -/
structure PendingTransactions where
  prevTransaction : TransactionIdType → Option TransactionEntry
  prevKnown : UniqueTransactionKey → Bool
  table : Overlay TransactionIdType TransactionEntry
  digests : List DigestType

namespace PendingTransactions

def getTransaction (p : PendingTransactions) (id : TransactionIdType) : Option TransactionEntry :=
  p.table.lookup p.prevTransaction id

/-- `is_known_transaction`: the overlay knows digests, the chain below digests with the
expiration. -/
def isKnownTransaction (P : Primitives) (p : PendingTransactions) (t : SignedTransaction) :
    Bool :=
  P.digest t ∈ p.digests || p.prevKnown (P.uniqueKey t)

end PendingTransactions

instance : TransactionDbInterface PendingTransactions where
  transactionLookupById := PendingTransactions.getTransaction
  transactionInsertIntoIdMap p id e := { p with table := p.table.insert id e }
  transactionInsertIntoUniqueSet P p t := { p with digests := p.digests.insert (P.digest t) }
  transactionEraseFromIdMap p id := { p with table := p.table.erase id }
  transactionEraseFromUniqueSet P p t := { p with digests := p.digests.erase (P.digest t) }

structure PendingChainState where
  ledger : Ledger
  transactions : PendingTransactions

namespace PendingChainState

/-- An empty pending state over a chain without transactions. -/
def ofView (v : LedgerView) : PendingChainState where
  ledger := .ofView v
  transactions := ⟨fun _ => none, fun _ => false, ∅, []⟩

/-- An empty pending state over another one. -/
def overlay (p : PendingChainState) : PendingChainState where
  ledger := .ofView p.ledger.toView
  transactions :=
    { prevTransaction := p.transactions.getTransaction
      prevKnown := fun key =>
        key.digest ∈ p.transactions.digests || p.transactions.prevKnown key
      table := ∅
      digests := [] }

end PendingChainState

end Achain
