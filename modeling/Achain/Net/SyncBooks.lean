import Achain.Net.Node
import Mathlib.Data.UInt

/-!
# The books of the sync blocks

A node with its count of the items left to fetch, and with the normal blocks that its client is
handling while other events take place. The history is written down for the sake of what is said about
it: nothing reads it.
-/

namespace Achain.Net

/-- What happens to a sync block, and to the count of the items left to fetch. -/
inductive SyncRecord where
  | received (msg : BlockMessage)
  | handedOver (msg : BlockMessage)
  | foundAccepted (msg : BlockMessage)
  | counted (items : UInt32)
  | countedDown (before : UInt32)
  deriving DecidableEq

/-- The history starts with what happened last. -/
structure SyncNode where
  node : NodeImpl
  totalNumberOfUnfetchedItems : UInt32
  normalCalls : List (BlockMessage × MessageHashType)
  history : List SyncRecord

/-- An event of the node, or one half of the handling of a normal block. -/
inductive SyncEvent where
  | node (e : Event)
  | normalBlock (now : TimePointSec) (p : PeerId) (msg : BlockMessage) (hash : MessageHashType)
  | normalBlockHandled (now : TimePointSec) (msg : BlockMessage) (hash : MessageHashType)
      (handled : Handled)

namespace NodeImpl

variable (config : NetConfig) (s : NodeImpl)

/-- `calculate_unsynced_block_count_from_all_peers`. -/
def calculateUnsyncedBlockCountFromAllPeers : UInt32 :=
  s.activeConnections.foldl (fun maximum p =>
    let peer := s.peer p
    max maximum
      (UInt32.ofNat peer.idsOfItemsToGet.length + UInt32.ofNat peer.numberOfUnfetchedItemIds)) 0

/-- What `on_blockchain_item_ids_inventory_message` counts. An exception and a peer that offers too
many blocks keep it from counting. -/
def itemsCounted (p : PeerId) (itemHashesAvailable : List ItemHashType)
    (totalRemainingItemCount : Nat) : Option UInt32 :=
  if !(s.peer p).itemIdsRequestedFromPeer then none
  else
    let peer := { s.peer p with itemIdsRequestedFromPeer := false }
    if s.upToDate peer itemHashesAvailable totalRemainingItemCount then
      let s := s.modifyPeer p fun _ => { peer with weNeedSyncItemsFromPeer := false }
      some s.calculateUnsyncedBlockCountFromAllPeers
    else
      let extended := s.extendItemsToGet p itemHashesAvailable
        { peer with numberOfUnfetchedItemIds := totalRemainingItemCount }
      let s := s.modifyPeer p fun _ => extended.2
      if extended.1 && !s.offersImplausibleBlocks p totalRemainingItemCount then
        some s.calculateUnsyncedBlockCountFromAllPeers
      else none

/-- What happens to the sync blocks in the loop of `process_backlog_of_sync_blocks`. -/
def backlogRecords : Nat → NodeImpl → List SyncRecord
  | 0, _ => []
  | fuel + 1, s =>
    let s := s.collectReceivedSyncItems
    match s.receivedSyncItems.find? fun msg => s.isNextBlock msg.blockId with
    | none => []
    | some msg =>
      let s := s.takeNextBlock msg.blockId
      if s.mostRecentBlocksAccepted.contains msg.blockId then [.foundAccepted msg]
      else
        let s := s.handOver msg
        if s.handlesMaximum config then [.handedOver msg]
        else backlogRecords fuel s ++ [.handedOver msg]

def processBacklogRecords : List SyncRecord :=
  if s.handlesMaximum config then []
  else backlogRecords config (s.receivedSyncItems.length + s.newReceivedSyncItems.length + 1)
    { s with suspendFetchingSyncBlocks := false }

/-- Whether `process_block_message` takes a block for one requested while synchronising. -/
def receivesSyncBlock (p : PeerId) (msg : BlockMessage) (hash : MessageHashType) : Bool :=
  msg.blockSize ≤ maxBlockSize && ⟨.blockMessageType, hash⟩ ∉ (s.peer p).itemsRequestedFromPeer &&
    ⟨.blockMessageType, msg.blockId⟩ ∈ (s.peer p).syncItemsRequestedFromPeer

/-- `process_block_during_normal_operation`, from where the block is accepted. -/
def normalBlockAccepted (now : TimePointSec) (msg : BlockMessage) (hash : MessageHashType) :
    NodeImpl :=
  let s := s.activeConnections.foldl (fun s p =>
    s.modifyPeer p fun peer => peer.acceptBlock now msg hash) s
  let s := s.broadcast config hash msg
  (s.activeConnections.filter fun p => config.outdated (s.peer p) msg.blockNum).foldl
    disconnectFromPeer s

/-- `process_block_during_normal_operation`, from where the client has thrown. -/
def normalBlockRejected (msg : BlockMessage) : NodeImpl :=
  (s.activeConnections.filter fun p =>
    (s.peer p).idsOfItemsToGet.head? == some msg.blockId).foldl disconnectFromPeer s

end NodeImpl

namespace SyncNode

variable (config : NetConfig) (s : SyncNode)

/-- A node that has just been started on its head block. -/
def start (delegate : NodeDelegate) (head : ItemHashType) : SyncNode where
  node := .start delegate head
  totalNumberOfUnfetchedItems := 0
  normalCalls := []
  history := []

def record (records : List SyncRecord) : SyncNode := { s with history := records ++ s.history }

/-- What `on_blockchain_item_ids_inventory_message` and `send_sync_block_to_node_delegate` make of the
count, with what happens to sync blocks. -/
def keepBooks : Event → SyncNode
  | .itemIdsInventory p ids n =>
    match s.node.itemsCounted p ids n with
    | none => s
    | some items => { s with totalNumberOfUnfetchedItems := items }.record [.counted items]
  | .syncBlockHandled _ .accepted =>
    { s with totalNumberOfUnfetchedItems := s.totalNumberOfUnfetchedItems - 1 }.record
      [.countedDown s.totalNumberOfUnfetchedItems]
  | .blockMessage _ p msg hash _ =>
    if s.node.receivesSyncBlock p msg hash then s.record [.received msg] else s
  | .processBacklog => s.record (s.node.processBacklogRecords config)
  | _ => s

/-- `process_block_message` for a block requested in normal operation. The client is given the block
unless it was accepted before. -/
def normalBlock (now : TimePointSec) (p : PeerId) (msg : BlockMessage) (hash : MessageHashType) :
    SyncNode :=
  if maxBlockSize < msg.blockSize then s
  else
    let node := s.node.modifyPeer p fun peer => { peer with
      itemsRequestedFromPeer := peer.itemsRequestedFromPeer.erase ⟨.blockMessageType, hash⟩ }
    if node.mostRecentBlocksAccepted.contains msg.blockId then
      { s with node := node.normalBlockAccepted config now msg hash }
    else { s with
      node := node
      normalCalls := s.normalCalls ++ [(msg, hash)] }

/-- `process_block_during_normal_operation`, from where the client has handled the block. -/
def normalBlockHandled (now : TimePointSec) (msg : BlockMessage) (hash : MessageHashType)
    (handled : Handled) : SyncNode :=
  let s := { s with normalCalls := s.normalCalls.erase (msg, hash) }
  match handled with
  | .accepted => { s with
      node := (s.node.pushRecent config msg.blockId).normalBlockAccepted config now msg hash }
  | .olderThanUndoHistory | .rejected => { s with node := s.node.normalBlockRejected msg }

def step : SyncEvent → SyncNode
  | .node e => { s.keepBooks config e with node := s.node.step config e }
  | .normalBlock now p msg hash => s.normalBlock config now p msg hash
  | .normalBlockHandled now msg hash handled => s.normalBlockHandled config now msg hash handled

/-- When an event can take place. The client may also handle a normal block at once, which is an event
of the node. -/
def Possible : SyncEvent → Prop
  | .node e => s.node.Possible e
  | .normalBlock _ p _ hash => p ∈ s.node.connected ∧
      ⟨.blockMessageType, hash⟩ ∈ (s.node.peer p).itemsRequestedFromPeer
  | .normalBlockHandled _ msg hash _ => (msg, hash) ∈ s.normalCalls

end SyncNode

end Achain.Net
