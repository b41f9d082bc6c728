import Achain.Net.Peer
import Achain.PushBlock

/-!
# Synopses of a chain

To find out where the chains of two nodes part, a node sends a synopsis of its chain, with ever more
blocks towards its end, and is answered with the ids of the blocks after the last one of them that
the other node has on its chain.
-/

namespace Achain.Net

open Table

/-- What a synopsis can end in: an exception, an index outside of a list, or a loop without end. -/
inductive SynopsisError where
  | thrown (e : Exn) | outside | unending
  deriving DecidableEq

def blocksPerYear : Nat := 60 * 60 / 10 * 24 * 365

/-- `_blockchain_synopsis_size_limit`. -/
def blockchainSynopsisSizeLimit : Nat := Nat.log2 (blocksPerYear * 20)

variable (N : Node) (db : ChainDatabase)

/-! ## The database -/

/-- `get_block_num`. -/
def getBlockNum (id : BlockIdType) : Except Exn Nat :=
  if id = 0 then .ok 0
  else match db.blockIdToFullBlock.lookup id with
    | some b => .ok b.blockNum
    | none => .error .unknownBlock

def isIncludedBlock (id : BlockIdType) : Bool := (db.forkDb.lookup id).any BlockForkData.isIncluded

/-- `get_block(block_num).id()`. -/
def getBlockIdOfNum (n : Nat) : Except Exn BlockIdType :=
  match db.blockNumToId.lookup n with
  | none => .error .unknownBlock
  | some id => match db.blockIdToFullBlock.lookup id with
    | none => .error .unknownBlock
    | some b => .ok (N.B.id b.toSignedBlockHeader)

def getForkHistory (id : BlockIdType) : Except Exn (List BlockIdType) :=
  match forkHistory (db.forkDepth + 1) id db with
  | .ok history _ => .ok history
  | .error e _ => .error e

/-! ## The synopsis -/

def nextLow (trueHigh low : UInt32) : UInt32 := low + (trueHigh - low + 2) / 2

/-- The loop through the blocks of a synopsis. -/
def synopsisLoop (pick : UInt32 → Except SynopsisError (List BlockIdType)) (trueHigh high : UInt32) :
    Nat → UInt32 → Except SynopsisError (List BlockIdType)
  | 0, _ => .error .unending
  | fuel + 1, low => do
    let ids ← pick low
    let low := nextLow trueHigh low
    if low ≤ high then do
      let rest ← synopsisLoop pick trueHigh high fuel low
      return ids ++ rest
    else return ids

def pickIndex (ids : List BlockIdType) (i : UInt32) : Except SynopsisError (List BlockIdType) :=
  match ids[i.toNat]? with
  | some id => .ok [id]
  | none => .error .outside

/-- The number of the last block to summarise, that of the last of them on the main chain, and the
blocks after that one. There is nothing to summarise without blocks. -/
def synopsisRange (referencePoint : BlockIdType) :
    Except Exn (Option (UInt32 × UInt32 × List BlockIdType)) :=
  if referencePoint ≠ 0 then
    if isIncludedBlock db referencePoint then do
      let n ← getBlockNum db referencePoint
      return some (.ofNat n, .ofNat n, [])
    else do
      let history ← getForkHistory db referencePoint
      let lastNonForkBlock := history.getLastD 0
      let forkHistory := history.dropLast.reverse
      let nonForkHigh : UInt32 := match getBlockNum db lastNonForkBlock with
        | .ok n => .ofNat n
        | .error _ => 0
      return some (nonForkHigh + .ofNat forkHistory.length, nonForkHigh, forkHistory)
  else
    let head := db.headBlockHeader.blockNum
    if head = 0 then .ok none else .ok (some (.ofNat head, .ofNat head, []))

/-- Where a block of the synopsis is taken from: the main chain or the blocks after it. -/
def synopsisPick (nonForkHigh : UInt32) (forkHistory : List BlockIdType) (low : UInt32) :
    Except SynopsisError (List BlockIdType) :=
  if low ≤ nonForkHigh then
    match getBlockIdOfNum N db low.toNat with
    | .ok id => .ok [id]
    | .error e => .error (.thrown e)
  else pickIndex forkHistory (low - nonForkHigh - 1)

/-- `get_blockchain_synopsis`. A reference point that is not known has an empty synopsis. -/
def getBlockchainSynopsis (fuel : Nat) (referencePoint : BlockIdType)
    (numberOfBlocksAfterReferencePoint : UInt32) : Except SynopsisError (List BlockIdType) :=
  match synopsisRange db referencePoint with
  | .error .unknownBlock => .ok []
  | .error e => .error (.thrown e)
  | .ok none => .ok []
  | .ok (some (high, nonForkHigh, forkHistory)) =>
    synopsisLoop (synopsisPick N db nonForkHigh forkHistory)
      (high + numberOfBlocksAfterReferencePoint) high fuel 1

/-- A block after the last one the peer has told us about. -/
def pickToGet (idsOfItemsToGet : List BlockIdType) (referencePointBlockNum low : UInt32) :
    Except SynopsisError (List BlockIdType) :=
  if low > referencePointBlockNum then pickIndex idsOfItemsToGet (low - referencePointBlockNum - 1)
  else .ok []

/-- `create_blockchain_synopsis_for_peer`: the client's synopsis up to the last block the peer has
told us about, and then the blocks still to get. -/
def createBlockchainSynopsisForPeer (fuel : Nat) (peer : PeerConnection) :
    Except SynopsisError (List BlockIdType) := do
  let referencePoint := peer.lastBlockDelegateHasSeen
  let referencePointBlockNum : UInt32 := .ofNat peer.lastBlockNumberDelegateHasSeen
  let after : UInt32 := .ofNat peer.idsOfItemsToGet.length
  let synopsis ← getBlockchainSynopsis N db fuel referencePoint after
  let synopsis ← if referencePoint ≠ 0 ∧ synopsis = [] then
      getBlockchainSynopsis N db fuel referencePoint after
    else .ok synopsis
  if after ≠ 0 then do
    let trueHigh := referencePointBlockNum + after
    let rest ← synopsisLoop (pickToGet peer.idsOfItemsToGet referencePointBlockNum) trueHigh
      trueHigh fuel 1
    return synopsis ++ rest
  else return synopsis

/-! ## The answer -/

/-- The number of a block on the main chain. -/
def includedBlockNum (id : BlockIdType) : Option Nat :=
  match getBlockNum db id with
  | .ok n => if isIncludedBlock db id then some n else none
  | .error _ => none

/-- The number of the last block of a synopsis that is on the main chain, or else the first one. -/
def lastSeenBlockNum (blockchainSynopsis : List BlockIdType) : Nat :=
  (blockchainSynopsis.reverse.findSome? (includedBlockNum db)).getD 1

/-- `get_item_ids`, with the number of items that remain after those returned. -/
def getItemIds (blockchainSynopsis : List BlockIdType) (limit : Nat) :
    Except Exn (List BlockIdType × Nat) :=
  if blockchainSynopsisSizeLimit < blockchainSynopsis.length then .error .fcAssert
  else
    let head := db.headBlockHeader.blockNum
    if head = 0 then .ok ([], 0)
    else
      let lastSeen := min (lastSeenBlockNum db blockchainSynopsis) head
      let remaining := head - lastSeen + 1
      let items := min limit remaining
      match (List.range items).mapM fun i => db.blockNumToId.lookup (lastSeen + i) with
      | none => .ok ([], 0)
      | some hashes => .ok (hashes, remaining - items)

end Achain.Net
