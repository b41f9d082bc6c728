import Achain.Genesis

/-!
# The block tree

`push_block` places a block in the tree of all blocks known and switches to the highest fork that
may be valid: blocks are popped down to the fork point and the blocks of the fork applied. An
exception leaves the database as it was when it was thrown, so these functions run in a monad that
keeps the state.
-/

namespace Achain

open Table Result

/-- Computations that change the database and may throw. -/
abbrev DbM := EStateM Exn ChainDatabase

/-- Runs a computation on the database that changes it only if it returns. -/
def DbM.ofExcept (f : ChainDatabase → Except Exn ChainDatabase) : DbM Unit := fun db =>
  match f db with
  | .ok db' => .ok () db'
  | .error e => .error e db

/-- `_fork_db.fetch`. -/
def fetchFork (id : BlockIdType) : DbM BlockForkData := do
  let db ← get
  match db.forkDb.lookup id with
  | some data => return data
  | none => throw .unknownBlock

def fetchBlock (id : BlockIdType) : DbM FullBlock := do
  let db ← get
  match db.blockIdToFullBlock.lookup id with
  | some b => return b
  | none => throw .unknownBlock

def storeFork (id : BlockIdType) (data : BlockForkData) : DbM Unit :=
  modify fun db => { db with forkDb := db.forkDb.insert id data }

/-- Changes the fork data of a set of blocks and of everything after them, level by level. The
levels are those of a tree of the blocks known, so there are no more of them than blocks. -/
def markDescendants (change : BlockForkData → BlockForkData) : Nat → List BlockIdType → DbM Unit
  | 0, _ => return
  | _, [] => return
  | fuel + 1, ids => do
    let next ← ids.foldlM (fun next id => do
      let data ← fetchFork id
      storeFork id (change data)
      return next ++ data.nextBlocks) []
    markDescendants change fuel next.dedup

/-- The number of levels `markDescendants` may have to go down. -/
def ChainDatabase.forkDepth (db : ChainDatabase) : Nat := db.forkDb.keys.card

def markInvalidFrom (ids : List BlockIdType) : DbM Unit := do
  markDescendants (fun data => { data with isValid := some false }) (← get).forkDepth ids

/-- `recursive_mark_as_linked`: marks the blocks and returns the highest of them. -/
def recursiveMarkAsLinked : Nat → List BlockIdType → Nat × BlockIdType × BlockForkData →
    DbM (Nat × BlockIdType × BlockForkData)
  | 0, _, best => return best
  | _, [], best => return best
  | fuel + 1, ids, best => do
    let (best, next) ← ids.foldlM (fun (acc : (Nat × BlockIdType × BlockForkData) × _) id => do
      let data ← fetchFork id
      let data := { data with isLinked := true }
      storeFork id data
      let b ← fetchBlock id
      let best := if acc.1.1 < b.blockNum then (b.blockNum, id, data) else acc.1
      return (best, acc.2 ++ data.nextBlocks)) (best, [])
    recursiveMarkAsLinked fuel next.dedup best

/-- The fork data of a block just received: a placeholder made before or a new one, linked and
invalid as the previous block is. -/
def BlockForkData.received (data prev : BlockForkData) : BlockForkData :=
  { data with
    isKnown := true
    isLinked := prev.isLinked || data.isLinked
    isValid := if prev.isLinked && prev.invalid then some false else data.isValid }

/-- `store_and_index`: the block to try to switch to, with its fork data. -/
def storeAndIndex (id : BlockIdType) (b : FullBlock) : DbM (BlockIdType × BlockForkData) := do
  modify fun db => { db with
    blockIdToFullBlock := db.blockIdToFullBlock.insert id b
    forkNumberDb := db.forkNumberDb.insert b.blockNum
      ((db.forkNumberDb.lookup b.blockNum).getD [] ++ [id]) }
  let db ← get
  let prev := (db.forkDb.lookup b.previous).getD .empty
  let prev := { prev with nextBlocks := prev.nextBlocks.insert id }
  storeFork b.previous prev
  let db ← get
  match db.forkDb.lookup id with
  | some placeholder =>
    let data := placeholder.received prev
    storeFork id data
    if !prev.isLinked then return (id, data)
    else if prev.invalid then do
      markInvalidFrom data.nextBlocks
      return (id, data)
    else do
      let (_, longest) ← recursiveMarkAsLinked (← get).forkDepth data.nextBlocks (0, 0, .empty)
      return longest
  | none =>
    let data : BlockForkData :=
      ⟨[], prev.isLinked, if prev.invalid then some false else none, false, true⟩
    storeFork id data
    return (id, data)

/-- `mark_invalid`. -/
def markInvalid (id : BlockIdType) : DbM Unit := do
  let data ← fetchFork id
  storeFork id { data with isValid := some false }
  markInvalidFrom data.nextBlocks

/-- `mark_as_unchecked`. -/
def markAsUnchecked (id : BlockIdType) : DbM Unit := do
  let data ← fetchFork id
  let unchecked := fun data : BlockForkData => { data with isValid := none }
  storeFork id (unchecked data)
  markDescendants unchecked (← get).forkDepth data.nextBlocks

/-- Two days, after which a block from the future is given up. -/
def futureBlockLifetime : Nat := 2 * 24 * 60 * 60

/-- `clear_invalidation_of_future_blocks`. -/
def clearInvalidationOfFutureBlocks (clock : TimePointSec) : DbM Unit := do
  let db ← get
  let keep ← db.futureBlocks.filterM fun id => do
    let b ← fetchBlock id
    return !(futureBlockLifetime < clock - b.timestamp)
  modify fun db => { db with futureBlocks := keep }
  keep.forM markAsUnchecked

section Switch

variable (N : Node) (clock : TimePointSec)

/-- `extend_chain`, which marks a block that throws as invalid. -/
def extendChainM (b : FullBlock) : DbM Unit :=
  tryCatch (DbM.ofExcept fun db => extendChain N db clock b) fun e => do
    markInvalid (N.B.id b.toSignedBlockHeader)
    throw e

/-- `pop_block`. Where there is no undo state, the head is already marked as not included. -/
def popBlockM : DbM Unit := fun db =>
  match popBlock N db with
  | .ok db' => .ok () db'
  | .error e =>
    match markIncluded db db.headBlockId false with
    | .ok forkDb => .error e { db with
        forkDb := forkDb
        blockNumToId := db.blockNumToId.erase db.headBlockHeader.blockNum }
    | .error _ => .error e db

/-- `get_fork_history`: the ids from a block back to the first one that is included. -/
def forkHistory : Nat → BlockIdType → DbM (List BlockIdType)
  | 0, _ => throw .unknownBlock
  | fuel + 1, id => do
    let b ← fetchBlock id
    if b.previous = 0 then return [id, 0]
    else do
      let data ← fetchFork b.previous
      if !data.isLinked then throw .fcAssert
      else if data.isIncluded then return [id, b.previous]
      else do
        let rest ← forkHistory fuel b.previous
        return id :: rest

/-- Pops blocks until the fork point is the head. -/
def popUntil (id : BlockIdType) : Nat → DbM Unit
  | 0 => throw .unknownBlock
  | fuel + 1 => do
    if (← get).headBlockId = id then return
    else do
      popBlockM N
      popUntil id fuel

/-- `switch_to_fork`. -/
def switchToFork (id : BlockIdType) : DbM Unit := do
  let db ← get
  if id = db.headBlockId then return
  else do
    let history ← forkHistory (db.forkDepth + 1) id
    popUntil N (history.getLastD 0) (db.forkDepth + 1)
    (history.dropLast.reverse).forM fun id => do
      let b ← fetchBlock id
      extendChainM N clock b

/-- Tries to switch to each of the blocks of one number in turn; `true` once a switch has
succeeded. -/
def tryForks (pushed : BlockIdType) : List BlockIdType → DbM Bool
  | [] => return false
  | id :: ids => do
    let data ← fetchFork id
    if !data.canLink then tryForks pushed ids
    else do
      let done ← tryCatch (do switchToFork N clock id; return true) fun e => do
        if e = .timeInFuture then
          modify fun db => { db with futureBlocks := db.futureBlocks.insert pushed }
        return false
      if done then return true else tryForks pushed ids

/-- The blocks of every number from the given one down. -/
def tryNumbers (pushed : BlockIdType) : Nat → DbM Unit
  | 0 => return
  | num + 1 => do
    let db ← get
    let done ← tryForks N clock pushed ((db.forkNumberDb.lookup (num + 1)).getD [])
    if done then return else tryNumbers pushed num

/-- `push_block`. -/
def pushBlock (b : FullBlock) : DbM Unit := do
  let db ← get
  let headBlockNum := db.headBlockHeader.blockNum
  let id := N.B.id b.toSignedBlockHeader
  if maxUndoHistory < headBlockNum ∧ b.blockNum ≤ headBlockNum - maxUndoHistory then
    throw .fcAssert
  else if (db.forkDb.lookup id).any BlockForkData.isKnown then return
  else do
    let (longestId, longest) ← storeAndIndex id b
    if longest.canLink then do
      let longestBlock ← fetchBlock longestId
      if headBlockNum < longestBlock.blockNum then tryNumbers N clock id longestBlock.blockNum
      else return
    else clearInvalidationOfFutureBlocks clock

end Switch

end Achain
