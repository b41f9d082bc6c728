import Achain.ChainDatabase

/-!
# Extending and shortening the chain

`extend_chain` verifies a block and applies it to a pending state: the production statistics, the
transactions, the delegate's pay, the delegate list and the random seed. The undo state is saved
and the pending state written into the tables. `pop_block` writes the undo state of the head back.
-/

namespace Achain

open Table Result

/-- A node: the black boxes it computes with and what it was started with. -/
structure Node where
  P : Primitives
  V : Vm
  B : BlockPrimitives
  config : NodeConfig

/-- A node over hashes that can be evaluated, with no checkpoints and a history from the start. -/
def Node.plain : Node := ⟨.plain, .idle, .plain, ⟨0, ∅, 0⟩⟩

namespace Ledger

variable (l : Ledger)

/-- `get_current_random_seed`. -/
def currentRandomSeed : Nat :=
  match l.getProperty .lastRandomSeedId with
  | some (.seed n) => n
  | _ => 0

end Ledger

namespace ChainDatabase

variable (db : ChainDatabase)

def activeDelegates : Except Exn (List AccountIdType) :=
  match db.tables.propertyIdToEntry.lookup .activeDelegateListId with
  | some (.delegates l) => .ok l
  | _ => .error .fcAssert

def nodeVmEnabled : Except Exn Bool :=
  match db.tables.propertyIdToEntry.lookup .nodeVmEnabled with
  | some (.flag b) => .ok b
  | _ => .error .fcAssert

def requiredConfirmations : Nat :=
  match db.tables.propertyIdToEntry.lookup .confirmationRequirement with
  | some (.number n) => n
  | _ => numDelegates * 3

/-- `get_slot_signee`: the delegate whose turn a time is, with its statistics. -/
def slotSignee (timestamp : TimePointSec) (delegates : List AccountIdType) :
    Except Exn (AccountEntry × DelegateStats) := do
  let id ← orThrow (delegates[slotNumber timestamp % numDelegates]?) .fcAssert
  let entry ← orThrow (db.tables.accountIdToEntry.lookup id) .fcAssert
  let stats ← orThrow entry.delegateInfo .fcAssert
  return (entry, stats)

/-- `get_delegate_entry_for_signee`. -/
def delegateForSignee (P : Primitives) (signee : PublicKeyType) : Except Exn AccountEntry := do
  let entry ← orThrow (db.tables.accountLookupByAddress (P.address signee)) .fcAssert
  ensure entry.isDelegate .fcAssert
  return entry

end ChainDatabase

/-- A delegate's account in a pending state, with its statistics. -/
def Ledger.delegate (l : Ledger) (id : AccountIdType) :
    Except Exn (AccountEntry × DelegateStats) := do
  let entry ← orThrow (l.getAccount id) .fcAssert
  let stats ← orThrow entry.delegateInfo .fcAssert
  return (entry, stats)

section Block

variable (N : Node) (db : ChainDatabase) (clock : TimePointSec)

/-! ## The header -/

/-- `verify_header`. Neither the number nor the time is compared with those of the head for a block
numbered `0` or `1`. -/
def verifyHeader (b : FullBlock) (signee : PublicKeyType) : Except Exn Unit := do
  ensure (b.blockNum ≤ 1 || b.blockNum == db.headBlockHeader.blockNum + 1)
    .blockNumbersNotSequential
  ensure (b.previous == db.headBlockId) .invalidPreviousBlockId
  ensure (b.timestamp % blockIntervalSec == 0) .invalidTime
  ensure (b.blockNum ≤ 1 || db.headBlockHeader.timestamp < b.timestamp) .timeInPast
  ensure (b.timestamp ≤ clock + blockIntervalSec * 2) .timeInFuture
  let ids := b.userTransactions.map N.P.id
  ensure (b.transactionDigest == N.B.transactionDigest ids) .invalidBlockDigest
  ensure ids.Nodup .fcAssert
  let delegates ← db.activeDelegates
  let (_, stats) ← db.slotSignee b.timestamp delegates
  ensure (signee == stats.signingKeyHistory.last) .invalidDelegateSignee

/-- The signee of a block; up to the last checkpoint the delegate whose turn it was. -/
def blockSignee (b : FullBlock) : Except Exn PublicKeyType :=
  if N.config.lastCheckpointBlockNum < b.blockNum then
    orThrow (N.B.signee b.toSignedBlockHeader) .invalidDelegateSignee
  else do
    let id := N.B.id b.toSignedBlockHeader
    ensure ((N.config.checkpoints.lookup b.blockNum).all (· == id)) .failedCheckpoint
    let delegates ← db.activeDelegates
    let (_, stats) ← db.slotSignee b.timestamp delegates
    return stats.signingKeyHistory.last

/-! ## The delegates -/

/-- The slots without a block between the head and a new block. -/
def missedSlots (b : FullBlock) : List TimePointSec :=
  let start :=
    if 0 < db.headBlockHeader.blockNum then db.headBlockHeader.timestamp + blockIntervalSec
    else b.timestamp
  (List.range ((b.timestamp - start + (blockIntervalSec - 1)) / blockIntervalSec)).map fun i =>
    start + blockIntervalSec * i

/-- One slot missed: its delegate's count goes up. -/
def missSlot (delegates : List AccountIdType) (l : Ledger) (timestamp : TimePointSec) :
    Except Exn Ledger := do
  let (signee, _) ← db.slotSignee timestamp delegates
  let (entry, stats) ← l.delegate signee.id
  let l := l.storeAccount N.P
    { entry with delegateInfo := some { stats with blocksMissed := stats.blocksMissed + 1 } }
  return if db.tables.statisticsEnabled then l.storeSlot ⟨⟨signee.id, timestamp⟩, none⟩ else l

/-- `required_confirmations -= 1` on 64 bits, kept between one and three rounds. -/
def nextConfirmations (required missed : Nat) : Nat :=
  max 1 (min ((required + 2 * missed + 2 ^ 64 - 1) % 2 ^ 64) (numDelegates * 3))

/-- `update_delegate_production_info`. -/
def updateDelegateProductionInfo (b : FullBlock) (signee : PublicKeyType) (l : Ledger) :
    Except Exn Ledger := do
  let delegate ← db.delegateForSignee N.P signee
  let (entry, stats) ← l.delegate delegate.id
  ensure (stats.nextSecretHash.all (· == N.B.secretHash b.previousSecret)) .fcAssert
  let l := l.storeAccount N.P
    { entry with
      delegateInfo := some { stats with
        blocksProduced := stats.blocksProduced + 1
        nextSecretHash := some b.nextSecretHash
        lastBlockNumProduced := b.blockNum } }
  let l := if db.tables.statisticsEnabled then
      l.storeSlot ⟨⟨delegate.id, b.timestamp⟩, some (N.B.id b.toSignedBlockHeader)⟩
    else l
  let delegates ← db.activeDelegates
  let missed := missedSlots db b
  let l ← missed.foldlM (missSlot N db delegates) l
  return l.storeProperty .confirmationRequirement
    (.number (nextConfirmations db.requiredConfirmations missed.length))

/-- What a block pays its delegate: new shares and a part of the fees, of which the rest is
destroyed. -/
structure Paycheck where
  issued : ShareType
  collected : ShareType
  accepted : ShareType
  deriving DecidableEq

def Paycheck.destroyed (p : Paycheck) : ShareType := p.collected - p.accepted
def Paycheck.amount (p : Paycheck) : ShareType := p.issued + p.accepted

def paycheck (headBlockNum payRate : Nat) (collectedFees : ShareType) : Paycheck :=
  let rate := Int64.ofNat payRate
  let collected := collectedFees / Int64.ofNat (14 * blocksPerDay)
  ⟨maxDelegatePayIssuedPerBlock headBlockNum * rate / 100, collected, collected * rate / 100⟩

/-- `pay_delegate`. The delegate is looked up in the database and read from the pending state. -/
def payDelegate (signee : PublicKeyType) (l : Ledger) : Except Exn Ledger := do
  let base ← orThrow (l.getAsset 0) .fcAssert
  let delegate ← orThrow (db.tables.accountLookupByAddress (N.P.address signee)) .fcAssert
  let (entry, stats) ← l.delegate delegate.id
  ensure (stats.payRate ≤ 100) .fcAssert
  let pay := paycheck db.headBlockHeader.blockNum stats.payRate base.collectedFees
  ensure (0 ≤ pay.collected && 0 ≤ pay.accepted && 0 ≤ pay.destroyed) .fcAssert
  ensure (0 ≤ pay.amount) .fcAssert
  let l := l.storeAccount N.P
    { entry with
      delegateInfo := some { stats with
        votesFor := stats.votesFor + pay.amount
        payBalance := stats.payBalance + pay.amount
        totalPaid := stats.totalPaid + pay.amount } }
  return l.storeAsset
    { base with
      currentShareSupply := base.currentShareSupply + pay.issued - pay.destroyed
      collectedFees := base.collectedFees - pay.collected }

/-- Exchanges two elements. -/
def swapAt (l : List AccountIdType) (i j : Nat) : List AccountIdType :=
  match l[i]?, l[j]? with
  | some a, some b => (l.set i b).set j a
  | _, _ => l

/-- The shuffle of `update_active_delegate_list`. -/
def shuffle (word : Nat → Nat) (l : List AccountIdType) : List AccountIdType :=
  (List.range l.length).foldl (fun a i => swapAt a i (word i % (l.length - i) + i)) l

/-- `update_active_delegate_list`, once in a round. -/
def updateActiveDelegateList (blockNum : Nat) (l : Ledger) : Ledger :=
  if blockNum % numDelegates = 0 then
    l.storeProperty .activeDelegateListId
      (.delegates (shuffle (N.B.shuffleHash l.currentRandomSeed)
        db.tables.nextRoundActiveDelegates))
  else l

def updateRandomSeed (secret : DigestType) (l : Ledger) : Ledger :=
  l.storeProperty .lastRandomSeedId (.seed (N.B.seedHash secret l.currentRandomSeed))

/-! ## The block -/

/-- What `apply_transactions` reads of the database. -/
def ChainDatabase.applyConfig (blockNum : Nat) : ApplyConfig where
  blockNum := blockNum
  verifyTransactionSignatures := db.verifyTransactionSignatures
  generatingBlock := db.generatingBlock
  nodeVmEnabled := db.nodeVmEnabled

/-- The pending state a block leads to. -/
def evaluateBlock (b : FullBlock) : Except Exn PendingChainState := do
  let signee ← blockSignee N db b
  verifyHeader N db clock b signee
  let p := db.pending clock
  let l ← updateDelegateProductionInfo N db b signee p.ledger
  let p ← applyTransactions N.P N.V (db.applyConfig b.blockNum) b.userTransactions
    { p with ledger := l }
  let l ← payDelegate N db signee p.ledger
  let l := updateActiveDelegateList N db b.blockNum l
  return { p with ledger := updateRandomSeed N b.previousSecret l }

/-- The undo states without the one that falls out of the history kept. -/
def ChainDatabase.recentUndoStates (blockNum : Nat) :
    Except Exn (Tab BlockIdType PendingChainState) :=
  if maxUndoHistory < blockNum then do
    let old ← orThrow (db.blockNumToId.lookup (blockNum - maxUndoHistory)) .unknownBlock
    return db.blockIdToUndoState.erase old
  else .ok db.blockIdToUndoState

/-- `save_undo_state`. -/
def saveUndoState (b : FullBlock) (p : PendingChainState) :
    Except Exn (Tab BlockIdType PendingChainState) :=
  if b.blockNum < N.config.minUndoBlock then .ok db.blockIdToUndoState
  else do
    let undo ← db.recentUndoStates b.blockNum
    return undo.insert (N.B.id b.toSignedBlockHeader) (p.getUndoState N.P)

/-- `mark_included`. -/
def markIncluded (id : BlockIdType) (included : Bool) :
    Except Exn (Tab BlockIdType BlockForkData) := do
  let data ← orThrow (db.forkDb.lookup id) .unknownBlock
  return db.forkDb.insert id
    { data with
      isIncluded := included
      isValid := if included then some true else data.isValid }

/-- The purge of expired transactions from the unique set. -/
def ChainTables.purge (c : ChainTables) (now : TimePointSec) : ChainTables :=
  { c with uniqueTransactions := c.uniqueTransactions.filter fun key => now < key.expiration }

/-- `extend_chain`. -/
def extendChain (b : FullBlock) : Except Exn ChainDatabase := do
  let id := N.B.id b.toSignedBlockHeader
  let p ← evaluateBlock N db clock b
  let undo ← saveUndoState N db b p
  let forkDb ← markIncluded db id true
  let db := { db with
    tables := db.tables.applyChanges N.P p
    blockIdToUndoState := undo
    forkDb := forkDb
    headBlockId := id
    headBlockHeader := b.toSignedBlockHeader
    blockNumToId := db.blockNumToId.insert b.blockNum id }
  return { db with tables := db.tables.purge (db.now clock) }

/-- The header of a block, or of a chain without blocks. -/
def ChainDatabase.headerOf (id : BlockIdType) : Except Exn SignedBlockHeader :=
  if id = 0 then .ok .empty
  else do
    let b ← orThrow (db.blockIdToFullBlock.lookup id) .unknownBlock
    return b.toSignedBlockHeader

/-- `pop_block`. -/
def popBlock : Except Exn ChainDatabase :=
  if db.headBlockHeader.blockNum = 0 then .ok db
  else do
    let forkDb ← markIncluded db db.headBlockId false
    let undo ← orThrow (db.blockIdToUndoState.lookup db.headBlockId) .fcAssert
    let previous := db.headBlockHeader.previous
    let header ← db.headerOf previous
    return { db with
      forkDb := forkDb
      blockNumToId := db.blockNumToId.erase db.headBlockHeader.blockNum
      tables := db.tables.applyChanges N.P undo
      headBlockId := previous
      headBlockHeader := header }

end Block

end Achain
