import Achain.PushBlock

/-!
# The writes of a block, one by one

`extend_chain` and `pop_block` with every write where the source makes it. Beside the chain itself
`extend_chain` writes two members of the database: what the last block paid its delegate, noted
before the pay is checked, and the block being applied with how far it got.
-/

namespace Achain

open Table Result

/-- The database with the members that are written while a block is applied. -/
structure ChainMembers where
  db : ChainDatabase
  blockPerAccountRewordAmount : ShareType
  blockExtendStatus : Option (BlockIdType × Nat)

abbrev MemberM := EStateM Exn ChainMembers

namespace MemberM

/-- A computation on the database alone. -/
def onDatabase {α : Type} (x : DbM α) : MemberM α := fun m =>
  match x m.db with
  | .ok a db => .ok a { m with db := db }
  | .error e db => .error e { m with db := db }

/-- A computation that only reads the database. -/
def reads {α : Type} (f : ChainDatabase → Except Exn α) : MemberM α := fun m =>
  match f m.db with
  | .ok a => .ok a m
  | .error e => .error e m

/-- `store_extend_status`. -/
def storeExtendStatus (id : BlockIdType) (version : Nat) : MemberM Unit :=
  modify fun m => { m with blockExtendStatus := some (id, version) }

end MemberM

section Steps

open MemberM

variable (N : Node) (clock : TimePointSec)

/-- `pay_delegate`, with the note of what is paid. -/
def payDelegateSteps (signee : PublicKeyType) (l : Ledger) : MemberM Ledger := do
  let base ← reads fun _ => orThrow (l.getAsset 0) .fcAssert
  let delegate ← reads fun db =>
    orThrow (db.tables.accountLookupByAddress (N.P.address signee)) .fcAssert
  let (entry, stats) ← reads fun _ => l.delegate delegate.id
  reads fun _ => ensure (stats.payRate ≤ 100) .fcAssert
  let num := (← get).db.headBlockHeader.blockNum
  let pay := paycheck num stats.payRate base.collectedFees
  reads fun _ => ensure (0 ≤ pay.collected && 0 ≤ pay.accepted && 0 ≤ pay.destroyed) .fcAssert
  modify fun m => { m with blockPerAccountRewordAmount := pay.amount }
  reads fun _ => ensure (0 ≤ pay.amount) .fcAssert
  let l := l.storeAccount N.P
    { entry with
      delegateInfo := some { stats with
        votesFor := stats.votesFor + pay.amount
        payBalance := stats.payBalance + pay.amount
        totalPaid := stats.totalPaid + pay.amount } }
  return l.storeAsset
    { base with
      currentShareSupply := base.currentShareSupply + pay.issued - pay.destroyed
      collectedFees := base.collectedFees - pay.collected }

/-- `save_undo_state`, with the removal of the state that falls out of the history before the new
one is stored. -/
def saveUndoStateSteps (b : FullBlock) (p : PendingChainState) : DbM Unit := do
  if b.blockNum < N.config.minUndoBlock then return
  else do
    let undo := p.getUndoState N.P
    if maxUndoHistory < b.blockNum then
      match (← get).blockNumToId.lookup (b.blockNum - maxUndoHistory) with
      | none => throw .unknownBlock
      | some old =>
        modify fun db => { db with blockIdToUndoState := db.blockIdToUndoState.erase old }
    modify fun db => { db with
      blockIdToUndoState :=
        db.blockIdToUndoState.insert (N.B.id b.toSignedBlockHeader) undo }

/-- The pending state a block leads to. -/
def evaluateBlockSteps (b : FullBlock) : MemberM PendingChainState := do
  let signee ← reads fun db => blockSignee N db b
  reads fun db => verifyHeader N db clock b signee
  let p := (← get).db.pending clock
  let l ← reads fun db => updateDelegateProductionInfo N db b signee p.ledger
  let p ← reads fun db => applyTransactions N.P N.V (db.applyConfig b.blockNum) b.userTransactions
    { p with ledger := l }
  let l ← payDelegateSteps N signee p.ledger
  let tables := (← get).db
  let l := updateActiveDelegateList N tables b.blockNum l
  return { p with ledger := updateRandomSeed N b.previousSecret l }

/-- What `extend_chain` does before it writes into the tables. -/
def validateBlock (b : FullBlock) : MemberM PendingChainState := do
  let p ← evaluateBlockSteps N clock b
  onDatabase (saveUndoStateSteps N b p)
  storeExtendStatus (N.B.id b.toSignedBlockHeader) 1
  return p

/-- What `extend_chain` writes once the block is found valid. -/
def commitBlock (b : FullBlock) (p : PendingChainState) : DbM Unit := do
  let id := N.B.id b.toSignedBlockHeader
  modify fun db => { db with tables := db.tables.applyChanges N.P p }
  DbM.ofExcept fun db => do
    let forkDb ← markIncluded db id true
    return { db with forkDb := forkDb }
  modify fun db => { db with headBlockHeader := b.toSignedBlockHeader, headBlockId := id }
  modify fun db => { db with blockNumToId := db.blockNumToId.insert b.blockNum id }

/-- `extend_chain`. -/
def extendChainSteps (b : FullBlock) : MemberM Unit := do
  let id := N.B.id b.toSignedBlockHeader
  tryCatch (do
      let p ← validateBlock N clock b
      onDatabase (commitBlock N b p)
      storeExtendStatus id 2) fun e => do
    onDatabase (markInvalid id)
    storeExtendStatus id 2
    throw e
  onDatabase (modify fun db => { db with tables := db.tables.purge (db.now clock) })

/-- `pop_block`. -/
def popBlockSteps : DbM Unit := do
  let db ← get
  if db.headBlockHeader.blockNum = 0 then return
  else do
    DbM.ofExcept fun db => do
      let forkDb ← markIncluded db db.headBlockId false
      return { db with forkDb := forkDb }
    modify fun db => { db with
      blockNumToId := db.blockNumToId.erase db.headBlockHeader.blockNum }
    let previous := db.headBlockHeader.previous
    match (← get).blockIdToUndoState.lookup db.headBlockId with
    | none => throw .fcAssert
    | some undo =>
      modify fun db => { db with tables := db.tables.applyChanges N.P undo }
      modify fun db => { db with headBlockId := previous }
      DbM.ofExcept fun db => do
        let header ← db.headerOf previous
        return { db with headBlockHeader := header }

end Steps

end Achain
