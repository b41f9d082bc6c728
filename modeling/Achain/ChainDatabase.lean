import Achain.ApplyTransactions
import Mathlib.Data.Finset.Insert
import Mathlib.Data.List.Sort
import Mathlib.Data.Prod.Lex

/-!
# The chain database

The tables of the chain with their secondary indexes, the blocks and forks known, and the two
directions in which a pending state and the tables are connected: `applyChanges` writes a pending
state through the hooks of the entries, `getUndoState` builds from it the pending state that writes
the old entries back.
-/

namespace Achain

open Table Result

/-! ## Blocks -/

structure SignedBlockHeader where
  previous : BlockIdType
  blockNum : Nat
  timestamp : TimePointSec
  transactionDigest : DigestType
  nextSecretHash : DigestType
  previousSecret : DigestType
  delegateSignature : Signature
  deriving DecidableEq

/-- A default constructed header, the head of a chain without blocks. -/
def SignedBlockHeader.empty : SignedBlockHeader := ⟨0, 0, 0, 0, 0, 0, 0⟩

structure FullBlock extends SignedBlockHeader where
  userTransactions : List SignedTransaction

/-- The hashes and signatures of blocks. -/
structure BlockPrimitives where
  id : SignedBlockHeader → BlockIdType
  signee : SignedBlockHeader → Option PublicKeyType
  transactionDigest : List TransactionIdType → DigestType
  secretHash : DigestType → DigestType
  seedHash : DigestType → Nat → Nat
  shuffleHash : Nat → Nat → Nat

/-- Hashes of blocks small enough to evaluate: the signature is the key of the signee, and the
shuffle leaves every delegate in its place. -/
def BlockPrimitives.plain : BlockPrimitives where
  id h := (h.previous + 1) * 1000 + h.timestamp
  signee h := some h.delegateSignature
  transactionDigest ids := ids.length
  secretHash s := s
  seedHash s n := s + n
  shuffleHash _ _ := 0

/-! ## Tables -/

theorem VoteDel.key_injective :
    Function.Injective fun v : VoteDel => toLex (-v.votes.toInt, v.delegateId) := by
  intro a b h
  obtain ⟨v, i⟩ := a
  obtain ⟨w, j⟩ := b
  have h := toLex.injective h
  simp only [Prod.mk.injEq, neg_inj] at h
  rw [VoteDel.mk.injEq]
  exact ⟨Int64.toInt_inj.1 h.1, h.2⟩

/-- Most votes first, and the lowest id first among equals. -/
instance : LinearOrder VoteDel := LinearOrder.lift' _ VoteDel.key_injective

/-- The votes in order, as a set iterates over them. -/
def VoteDel.inOrder (votes : Finset VoteDel) : List VoteDel :=
  Quot.liftOn votes.val (List.insertionSort (· ≤ ·)) fun l₁ l₂ h =>
    List.Perm.eq_of_pairwise' (List.pairwise_insertionSort _ l₁) (List.pairwise_insertionSort _ l₂)
      ((List.perm_insertionSort _ l₁).trans (h.trans (List.perm_insertionSort _ l₂).symm))

/-- The primary tables and the secondary indexes. `statisticsEnabled` is read once and kept for the
life of the process. -/
structure ChainTables where
  propertyIdToEntry : Tab PropertyIdType PropertyValue
  accountIdToEntry : Tab AccountIdType AccountEntry
  accountNameToId : Tab Str AccountIdType
  accountAddressToId : Tab Address AccountIdType
  delegateVotes : Finset VoteDel
  assetIdToEntry : Tab AssetIdType AssetEntry
  assetSymbolToId : Tab Str AssetIdType
  slateIdToEntry : Tab SlateIdType SlateEntry
  balanceIdToEntry : Tab BalanceIdType BalanceEntry
  transactionIdToEntry : Tab TransactionIdType TransactionEntry
  uniqueTransactions : Finset UniqueTransactionKey
  slotIndexToEntry : Tab SlotIndex SlotEntry
  slotTimestampToDelegate : Tab TimePointSec AccountIdType
  contractIdToEntry : Tab ContractIdType ContractEntry
  contractIdToStorage : Tab ContractIdType ContractStorageEntry
  contractNameToId : Tab Str ContractIdType
  requestToResultId : Tab TransactionIdType TransactionIdType
  resultToRequestId : Tab TransactionIdType TransactionIdType
  trxToContractId : Tab TransactionIdType ContractIdType
  contractToTrxId : Tab ContractIdType TransactionIdType
  statisticsEnabled : Bool

namespace ChainTables

def empty (statisticsEnabled : Bool) : ChainTables where
  propertyIdToEntry := ∅
  accountIdToEntry := ∅
  accountNameToId := ∅
  accountAddressToId := ∅
  delegateVotes := ∅
  assetIdToEntry := ∅
  assetSymbolToId := ∅
  slateIdToEntry := ∅
  balanceIdToEntry := ∅
  transactionIdToEntry := ∅
  uniqueTransactions := ∅
  slotIndexToEntry := ∅
  slotTimestampToDelegate := ∅
  contractIdToEntry := ∅
  contractIdToStorage := ∅
  contractNameToId := ∅
  requestToResultId := ∅
  resultToRequestId := ∅
  trxToContractId := ∅
  contractToTrxId := ∅
  statisticsEnabled := statisticsEnabled

variable (c : ChainTables)

def accountLookupByName (name : Str) : Option AccountEntry :=
  (c.accountNameToId.lookup name).bind c.accountIdToEntry.lookup

def accountLookupByAddress (addr : Address) : Option AccountEntry :=
  (c.accountAddressToId.lookup addr).bind c.accountIdToEntry.lookup

def assetLookupBySymbol (symbol : Str) : Option AssetEntry :=
  (c.assetSymbolToId.lookup symbol).bind c.assetIdToEntry.lookup

def slotLookupByTimestamp (timestamp : TimePointSec) : Option SlotEntry :=
  (c.slotTimestampToDelegate.lookup timestamp).bind fun id =>
    c.slotIndexToEntry.lookup ⟨id, timestamp⟩

def contractLookupByName (name : Str) : Option ContractEntry :=
  (c.contractNameToId.lookup name).bind c.contractIdToEntry.lookup

/-- `next_round_active_delegates`: the delegates with the most votes. -/
def nextRoundActiveDelegates : List AccountIdType :=
  ((VoteDel.inOrder c.delegateVotes).take numDelegates).map VoteDel.delegateId

end ChainTables

instance : PropertyDbInterface ChainTables where
  propertyLookupById c id := c.propertyIdToEntry.lookup id
  propertyInsertIntoIdMap c id v :=
    { c with propertyIdToEntry := c.propertyIdToEntry.insert id v }
  propertyEraseFromIdMap c id := { c with propertyIdToEntry := c.propertyIdToEntry.erase id }

instance : AccountDbInterface ChainTables where
  accountLookupById c id := c.accountIdToEntry.lookup id
  accountInsertIntoIdMap c id e := { c with accountIdToEntry := c.accountIdToEntry.insert id e }
  accountInsertIntoNameMap c name id :=
    { c with accountNameToId := c.accountNameToId.insert name id }
  accountInsertIntoAddressMap c addr id :=
    { c with accountAddressToId := c.accountAddressToId.insert addr id }
  accountInsertIntoVoteSet c vote := { c with delegateVotes := insert vote c.delegateVotes }
  accountEraseFromIdMap c id := { c with accountIdToEntry := c.accountIdToEntry.erase id }
  accountEraseFromNameMap c name := { c with accountNameToId := c.accountNameToId.erase name }
  accountEraseFromAddressMap c addr :=
    { c with accountAddressToId := c.accountAddressToId.erase addr }
  accountEraseFromVoteSet c vote := { c with delegateVotes := c.delegateVotes.erase vote }

instance : AssetDbInterface ChainTables where
  assetLookupById c id := c.assetIdToEntry.lookup id
  assetInsertIntoIdMap c id e := { c with assetIdToEntry := c.assetIdToEntry.insert id e }
  assetInsertIntoSymbolMap c symbol id :=
    { c with assetSymbolToId := c.assetSymbolToId.insert symbol id }
  assetEraseFromIdMap c id := { c with assetIdToEntry := c.assetIdToEntry.erase id }
  assetEraseFromSymbolMap c symbol :=
    { c with assetSymbolToId := c.assetSymbolToId.erase symbol }

instance : SlateDbInterface ChainTables where
  slateLookupById c id := c.slateIdToEntry.lookup id
  slateInsertIntoIdMap c id e := { c with slateIdToEntry := c.slateIdToEntry.insert id e }
  slateEraseFromIdMap c id := { c with slateIdToEntry := c.slateIdToEntry.erase id }

instance : BalanceDbInterface ChainTables where
  balanceLookupById c id := c.balanceIdToEntry.lookup id
  balanceInsertIntoIdMap c id e := { c with balanceIdToEntry := c.balanceIdToEntry.insert id e }
  balanceEraseFromIdMap c id := { c with balanceIdToEntry := c.balanceIdToEntry.erase id }

instance : TransactionDbInterface ChainTables where
  transactionLookupById c id := c.transactionIdToEntry.lookup id
  transactionInsertIntoIdMap c id e :=
    { c with transactionIdToEntry := c.transactionIdToEntry.insert id e }
  transactionInsertIntoUniqueSet P c t :=
    { c with uniqueTransactions := insert (P.uniqueKey t) c.uniqueTransactions }
  transactionEraseFromIdMap c id :=
    { c with transactionIdToEntry := c.transactionIdToEntry.erase id }
  transactionEraseFromUniqueSet P c t :=
    { c with uniqueTransactions := c.uniqueTransactions.erase (P.uniqueKey t) }

instance : SlotDbInterface ChainTables where
  statisticsEnabled c := c.statisticsEnabled
  slotLookupByIndex c index := c.slotIndexToEntry.lookup index
  slotInsertIntoIndexMap c index e :=
    { c with slotIndexToEntry := c.slotIndexToEntry.insert index e }
  slotInsertIntoTimestampMap c t id :=
    { c with slotTimestampToDelegate := c.slotTimestampToDelegate.insert t id }
  slotEraseFromIndexMap c index := { c with slotIndexToEntry := c.slotIndexToEntry.erase index }
  slotEraseFromTimestampMap c t :=
    { c with slotTimestampToDelegate := c.slotTimestampToDelegate.erase t }

instance : ContractDbInterface ChainTables where
  contractLookupById c id := c.contractIdToEntry.lookup id
  contractstorageLookupById c id := c.contractIdToStorage.lookup id
  contractInsertIntoIdMap c id e := { c with contractIdToEntry := c.contractIdToEntry.insert id e }
  contractInsertIntoNameMap c name id :=
    { c with contractNameToId := c.contractNameToId.insert name id }
  contractstorageInsertIntoIdMap c id e :=
    { c with contractIdToStorage := c.contractIdToStorage.insert id e }
  contractStoreResultidByReqestid c req res :=
    { c with requestToResultId := c.requestToResultId.insert req res }
  contractStoreRequestidByResultid c res req :=
    { c with resultToRequestId := c.resultToRequestId.insert res req }
  contractStoreContractidByTrxid c tid cid :=
    { c with trxToContractId := c.trxToContractId.insert tid cid }
  contractStoreTrxidByContractid c cid tid :=
    { c with contractToTrxId := c.contractToTrxId.insert cid tid }
  contractEraseFromIdMap c id := { c with contractIdToEntry := c.contractIdToEntry.erase id }
  contractstorageEraseFromIdMap c id :=
    { c with contractIdToStorage := c.contractIdToStorage.erase id }
  contractEraseResultidByReqestid c req :=
    { c with requestToResultId := c.requestToResultId.erase req }
  contractEraseRequestidByResultid c res :=
    { c with resultToRequestId := c.resultToRequestId.erase res }
  contractEraseTrxidByContractId c id := { c with contractToTrxId := c.contractToTrxId.erase id }
  contractEraseContractidByTrxid c id := { c with trxToContractId := c.trxToContractId.erase id }

/-! ## Writing a pending state, and undoing it -/

section Changes

variable (P : Primitives)

/-- `apply_entrys`: removes the keys of a table of a pending state and stores its entries, each in
the order its container is iterated. -/
def applyEntries {σ K V : Type} (remove : σ → K → σ) (store : σ → K → V → σ) (stored : Map K V)
    (removed : List K) (db : σ) : σ :=
  (P.order.order (mapItems stored)).foldl (fun db e => store db e.1 e.2)
    ((P.order.order removed).foldl remove db)

/-- `populate_undo_state`: the entries the previous state has at the keys removed and stored, and
the removal of those it does not have. -/
def populateUndoState {σ K V : Type} (prev : K → Option V) (remove : σ → K → σ)
    (store : σ → K → V → σ) (stored : Map K V) (removed : List K) (undo : σ) : σ :=
  let undo := (P.order.order removed).foldl (fun undo k =>
    match prev k with
    | some v => store undo k v
    | none => undo) undo
  (P.order.order (mapItems stored)).foldl (fun undo e =>
    match prev e.1 with
    | some v => store undo e.1 v
    | none => remove undo e.1) undo

section Apply

variable {σ : Type} [PropertyDbInterface σ] [AccountDbInterface σ] [AssetDbInterface σ]
  [SlateDbInterface σ] [BalanceDbInterface σ] [SlotDbInterface σ] [ContractDbInterface σ]

open ContractDbInterface in
/-- `PendingChainState::apply_changes`, for the tables other than the transactions. The storages are
removed by the removed contracts. -/
def Ledger.applyChanges (l : Ledger) (db : σ) : σ :=
  let db := applyEntries P PropertyEntry.remove PropertyEntry.store l.property.stored
    l.property.removed db
  let db := applyEntries P (AccountEntry.remove P) (AccountEntry.store P) l.account.stored
    l.account.removed db
  let db := applyEntries P AssetEntry.remove AssetEntry.store l.asset.stored l.asset.removed db
  let db := applyEntries P SlateEntry.remove SlateEntry.store l.slate.stored l.slate.removed db
  let db := applyEntries P BalanceEntry.remove BalanceEntry.store l.balance.stored
    l.balance.removed db
  let db := applyEntries P SlotEntry.remove SlotEntry.store l.slot.stored l.slot.removed db
  let db := applyEntries P ContractEntry.remove ContractEntry.store l.contract.stored
    l.contract.removed db
  let db := applyEntries P ContractStorageEntry.remove ContractStorageEntry.store
    l.contractIdToStorage l.contract.removed db
  let db := applyEntries P contractEraseResultidByReqestid contractStoreResultidByReqestid
    l.requestIdToResultId.stored l.requestIdToResultId.removed db
  let db := applyEntries P contractEraseRequestidByResultid contractStoreRequestidByResultid
    l.resultIdToRequestId.stored l.resultIdToRequestId.removed db
  let db := applyEntries P contractEraseContractidByTrxid contractStoreContractidByTrxid
    l.trxToContractId.stored l.trxToContractId.removed db
  applyEntries P contractEraseTrxidByContractId contractStoreTrxidByContractid
    l.contractToTrxId.stored l.contractToTrxId.removed db

end Apply

/-- `apply_changes`, for the transactions. -/
def PendingTransactions.applyChanges {σ : Type} [TransactionDbInterface σ]
    (p : PendingTransactions) (db : σ) : σ :=
  applyEntries P (TransactionEntry.remove P) (TransactionEntry.store P) p.table.stored
    p.table.removed db

/-- `apply_changes` on the database. -/
def ChainTables.applyChanges (c : ChainTables) (p : PendingChainState) : ChainTables :=
  p.transactions.applyChanges P (p.ledger.applyChanges P c)

/-- `apply_changes` on another pending state. -/
def PendingChainState.applyChanges (q p : PendingChainState) : PendingChainState where
  ledger := p.ledger.applyChanges P q.ledger
  transactions := p.transactions.applyChanges P q.transactions

open ContractDbInterface in
/-- The ledger part of `PendingChainState::get_undo_state`. -/
def Ledger.getUndoState (l : Ledger) (undo : Ledger) : Ledger :=
  let v := l.prev
  let undo := populateUndoState P v.property PropertyEntry.remove PropertyEntry.store
    l.property.stored l.property.removed undo
  let undo := populateUndoState P v.accountById (AccountEntry.remove P) (AccountEntry.store P)
    l.account.stored l.account.removed undo
  let undo := populateUndoState P v.assetById AssetEntry.remove AssetEntry.store l.asset.stored
    l.asset.removed undo
  let undo := populateUndoState P v.slate SlateEntry.remove SlateEntry.store l.slate.stored
    l.slate.removed undo
  let undo := populateUndoState P v.balance BalanceEntry.remove BalanceEntry.store
    l.balance.stored l.balance.removed undo
  let undo := populateUndoState P v.slotByIndex SlotEntry.remove SlotEntry.store l.slot.stored
    l.slot.removed undo
  let undo := populateUndoState P v.contractById ContractEntry.remove ContractEntry.store
    l.contract.stored l.contract.removed undo
  let undo := populateUndoState P v.storage ContractStorageEntry.remove ContractStorageEntry.store
    l.contractIdToStorage l.contract.removed undo
  let undo := populateUndoState P v.resultIdByRequestId contractEraseResultidByReqestid
    contractStoreResultidByReqestid l.requestIdToResultId.stored l.requestIdToResultId.removed undo
  let undo := populateUndoState P v.requestIdByResultId contractEraseRequestidByResultid
    contractStoreRequestidByResultid l.resultIdToRequestId.stored l.resultIdToRequestId.removed
    undo
  let undo := populateUndoState P v.contractIdByTrxId contractEraseContractidByTrxid
    contractStoreContractidByTrxid l.trxToContractId.stored l.trxToContractId.removed undo
  populateUndoState P v.trxIdByContractId contractEraseTrxidByContractId
    contractStoreTrxidByContractid l.contractToTrxId.stored l.contractToTrxId.removed undo

/-- `get_undo_state` into a new pending state over this one. -/
def PendingChainState.getUndoState (p : PendingChainState) : PendingChainState where
  ledger := p.ledger.getUndoState P p.overlay.ledger
  transactions := populateUndoState P p.transactions.prevTransaction (TransactionEntry.remove P)
    (TransactionEntry.store P) p.transactions.table.stored p.transactions.table.removed
    p.overlay.transactions

end Changes

/-! ## Storing a pending state -/

/-- The members of `PendingChainState` in its `FC_REFLECT` list, in its order. The two maps between
contracts and the transactions that registered them, with their removed sets, are not in it. -/
structure ReflectedState where
  property : Overlay PropertyIdType PropertyValue
  account : Overlay AccountIdType AccountEntry
  accountNameToId : Map Str AccountIdType
  accountAddressToId : Map Address AccountIdType
  asset : Overlay AssetIdType AssetEntry
  assetSymbolToId : Map Str AssetIdType
  slate : Overlay SlateIdType SlateEntry
  balance : Overlay BalanceIdType BalanceEntry
  transaction : Overlay TransactionIdType TransactionEntry
  transactionDigests : List DigestType
  slot : Overlay SlotIndex SlotEntry
  slotTimestampToDelegate : Map TimePointSec AccountIdType
  contract : Overlay ContractIdType ContractEntry
  contractNameToId : Map Str ContractIdType
  contractIdToStorage : Map ContractIdType ContractStorageEntry
  requestIdToResultId : Overlay TransactionIdType TransactionIdType
  resultIdToRequestId : Overlay TransactionIdType TransactionIdType

namespace PendingChainState

/-- What `fc::raw::pack` writes of a pending state. -/
def pack (p : PendingChainState) : ReflectedState where
  property := p.ledger.property
  account := p.ledger.account
  accountNameToId := p.ledger.accountNameToId
  accountAddressToId := p.ledger.accountAddressToId
  asset := p.ledger.asset
  assetSymbolToId := p.ledger.assetSymbolToId
  slate := p.ledger.slate
  balance := p.ledger.balance
  transaction := p.transactions.table
  transactionDigests := p.transactions.digests
  slot := p.ledger.slot
  slotTimestampToDelegate := p.ledger.slotTimestampToDelegate
  contract := p.ledger.contract
  contractNameToId := p.ledger.contractNameToId
  contractIdToStorage := p.ledger.contractIdToStorage
  requestIdToResultId := p.ledger.requestIdToResultId
  resultIdToRequestId := p.ledger.resultIdToRequestId

/-- What `fc::raw::unpack` reads into a default constructed pending state, which has no previous
state. -/
def unpack (r : ReflectedState) : PendingChainState where
  ledger := { Ledger.ofView .empty with
    property := r.property
    account := r.account
    accountNameToId := r.accountNameToId
    accountAddressToId := r.accountAddressToId
    asset := r.asset
    assetSymbolToId := r.assetSymbolToId
    slate := r.slate
    balance := r.balance
    slot := r.slot
    slotTimestampToDelegate := r.slotTimestampToDelegate
    contract := r.contract
    contractNameToId := r.contractNameToId
    contractIdToStorage := r.contractIdToStorage
    requestIdToResultId := r.requestIdToResultId
    resultIdToRequestId := r.resultIdToRequestId }
  transactions := ⟨fun _ => none, fun _ => false, r.transaction, r.transactionDigests⟩

end PendingChainState

/-! ## The database -/

/-- `BlockForkData`; the reason of an invalid block is left out. -/
structure BlockForkData where
  nextBlocks : List BlockIdType
  isLinked : Bool
  isValid : Option Bool
  isIncluded : Bool
  isKnown : Bool
  deriving DecidableEq

namespace BlockForkData

def empty : BlockForkData := ⟨[], false, none, false, false⟩
def invalid (f : BlockForkData) : Bool := f.isValid == some false
def canLink (f : BlockForkData) : Bool := f.isLinked && !f.invalid

end BlockForkData

structure ChainDatabase where
  tables : ChainTables
  verifyTransactionSignatures : Bool
  generatingBlock : Bool
  headBlockId : BlockIdType
  headBlockHeader : SignedBlockHeader
  blockIdToFullBlock : Tab BlockIdType FullBlock
  blockIdToUndoState : Tab BlockIdType PendingChainState
  blockNumToId : Tab Nat BlockIdType
  forkDb : Tab BlockIdType BlockForkData
  forkNumberDb : Tab Nat (List BlockIdType)
  futureBlocks : List BlockIdType

/-- What a node is started with and reads but never changes: the checkpoints, and the first block
an undo state is saved for. -/
structure NodeConfig where
  lastCheckpointBlockNum : Nat
  checkpoints : Map Nat BlockIdType
  minUndoBlock : Nat

/-- `get_slot_number`. -/
def slotNumber (timestamp : TimePointSec) : Nat := timestamp / blockIntervalSec

namespace ChainDatabase

variable (db : ChainDatabase)

/-- `ChainDatabase::now`: the time of the head block, or of the slot before the clock's. -/
def now (clock : TimePointSec) : TimePointSec :=
  if db.headBlockHeader.blockNum = 0 then (slotNumber clock - 1) * blockIntervalSec
  else db.headBlockHeader.timestamp

/-- The database as the interface below a pending state. -/
def toView (clock : TimePointSec) : LedgerView where
  property := db.tables.propertyIdToEntry.lookup
  accountById := db.tables.accountIdToEntry.lookup
  accountByName := db.tables.accountLookupByName
  accountByAddress := db.tables.accountLookupByAddress
  assetById := db.tables.assetIdToEntry.lookup
  assetBySymbol := db.tables.assetLookupBySymbol
  slate := db.tables.slateIdToEntry.lookup
  balance := db.tables.balanceIdToEntry.lookup
  slotByIndex := db.tables.slotIndexToEntry.lookup
  slotByTimestamp := db.tables.slotLookupByTimestamp
  contractById := db.tables.contractIdToEntry.lookup
  contractByName := db.tables.contractLookupByName
  storage := db.tables.contractIdToStorage.lookup
  resultIdByRequestId := db.tables.requestToResultId.lookup
  requestIdByResultId := db.tables.resultToRequestId.lookup
  contractIdByTrxId := db.tables.trxToContractId.lookup
  trxIdByContractId := db.tables.contractToTrxId.lookup
  headBlockNum := db.headBlockHeader.blockNum
  headBlockTimestamp := db.headBlockHeader.timestamp
  now := db.now clock
  statisticsEnabled := db.tables.statisticsEnabled
  blockIdByNum := db.blockNumToId.lookup

/-- An empty pending state over the database. -/
def pending (clock : TimePointSec) : PendingChainState where
  ledger := .ofView (db.toView clock)
  transactions :=
    { prevTransaction := db.tables.transactionIdToEntry.lookup
      prevKnown := fun key => key ∈ db.tables.uniqueTransactions
      table := ∅
      digests := [] }

/-- `calculate_supply`. -/
def calculateSupply (id : AssetIdType) : Except Exn ShareType := do
  let entry ← orThrow (db.tables.assetIdToEntry.lookup id) .fcAssert
  let balances := total (fun b : BalanceEntry => if b.assetId = id then b.balance else 0)
    db.tables.balanceIdToEntry
  let pay := if id = 0 then total AccountEntry.payBalance db.tables.accountIdToEntry else 0
  return entry.collectedFees + balances + pay

end ChainDatabase

end Achain
