import Achain.Net.Peer
import Mathlib.Data.List.DropRight

/-!
# Synchronisation

The handlers by which a node finds out which blocks its peers have, requests them and passes them to
the client.
-/

namespace Achain.Net

namespace NodeImpl

variable (config : NetConfig) (s : NodeImpl)

/-! ## Requesting blocks -/

/-- `request_sync_items_from_peer`. The message is only put into the peer's queue. -/
def requestSyncItemsFromPeer (p : PeerId) (items : List ItemHashType) : NodeImpl :=
  items.foldl (fun s item =>
    let s := { s with activeSyncRequests := insert item s.activeSyncRequests }
    let itemId : ItemId := ⟨.blockMessageType, item⟩
    s.modifyPeer p fun peer => { peer with
      syncItemsRequestedFromPeer := insert itemId peer.syncItemsRequestedFromPeer }) s

/-- The items of a peer to request, after some of them, with `taken` for what is requested from
others. -/
def chooseSyncItems (taken : List ItemHashType) : List ItemHashType → List ItemHashType →
    List ItemHashType
  | [], chosen => chosen
  | item :: items, chosen =>
    if !s.haveAlreadyReceivedSyncItem item && !(taken ++ chosen).contains item &&
        item ∉ s.activeSyncRequests then
      let chosen := chosen ++ [item]
      if config.maximumBlocksPerPeerDuringSyncing ≤ chosen.length then chosen
      else chooseSyncItems taken items chosen
    else chooseSyncItems taken items chosen

/-- What is requested from each of some peers. -/
def scheduleSyncItems (taken : List ItemHashType) : List PeerId → List (PeerId × List ItemHashType)
  | [] => []
  | p :: peers =>
    let peer := s.peer p
    if peer.weNeedSyncItemsFromPeer && peer.idle && !peer.inhibitFetchingSyncBlocks then
      let chosen := s.chooseSyncItems config taken peer.idsOfItemsToGet []
      (p, chosen) :: scheduleSyncItems (taken ++ chosen) peers
    else scheduleSyncItems taken peers

/-- An iteration of `fetch_sync_items_loop`, which goes through the active peers in some order. -/
def fetchSyncItemsLoop (order : List PeerId) : NodeImpl :=
  let s := { s with syncItemsToFetchUpdated := false }
  if s.suspendFetchingSyncBlocks then s
  else (s.scheduleSyncItems config [] order).foldl (fun s request =>
    if request.2.isEmpty then s else s.requestSyncItemsFromPeer request.1 request.2) s

/-! ## Requesting the ids of blocks -/

/-- `create_blockchain_synopsis_for_peer` throws when the client does. -/
def fetchNextBatchOfItemIdsFromPeer (p : PeerId) : NodeImpl :=
  let peer := s.peer p
  match s.delegate.getBlockchainSynopsis peer.lastBlockDelegateHasSeen
      peer.idsOfItemsToGet.length with
  | none => s
  | some _ => s.modifyPeer p fun peer => { peer with itemIdsRequestedFromPeer := true }

def startSynchronizingWithPeer (p : PeerId) : NodeImpl :=
  (s.modifyPeer p fun peer => { peer with
    idsOfItemsToGet := []
    numberOfUnfetchedItemIds := 0
    weNeedSyncItemsFromPeer := true
    lastBlockDelegateHasSeen := 0
    lastBlockNumberDelegateHasSeen := 0
    lastBlockTimeDelegateHasSeen := s.delegate.getBlockTime 0
    inhibitFetchingSyncBlocks := false }).fetchNextBatchOfItemIdsFromPeer p

def startSynchronizing (order : List PeerId) : NodeImpl :=
  order.foldl (fun s p => s.startSynchronizingWithPeer p) s

/-- The items received that the client has are taken off the front, and counted. -/
def popKnownItems (delegate : NodeDelegate) : List ItemHashType → PeerConnection →
    List ItemHashType × PeerConnection
  | [], peer => ([], peer)
  | item :: items, peer =>
    if delegate.hasItem item then
      popKnownItems delegate items { peer with
        lastBlockDelegateHasSeen := item
        lastBlockNumberDelegateHasSeen := peer.lastBlockNumberDelegateHasSeen + 1
        lastBlockTimeDelegateHasSeen := delegate.getBlockTime item }
    else (item :: items, peer)

/-- Whether another peer's list starts with an item. -/
def isFirstItemForOtherPeer (p : PeerId) (item : ItemHashType) : Bool :=
  s.activeConnections.any fun q => q != p && (s.peer q).idsOfItemsToGet.head? == some item

/-- What is left of a list whose last items are taken off until one is the given one. -/
def popUntil (item : ItemHashType) (items : List ItemHashType) : List ItemHashType :=
  items.rdropWhile (· != item)

/-- A new list of items is put after the list of the peer. An exception leaves the peer with the
last block changed and its number as it was. -/
def extendItemsToGet (p : PeerId) : List ItemHashType → PeerConnection →
    Bool × PeerConnection
  | [], peer => (true, peer)
  | item :: items, peer =>
    if peer.idsOfItemsToGet.isEmpty then
      if s.isFirstItemForOtherPeer p item then
        (true, { peer with idsOfItemsToGet := item :: items })
      else
        let (items, peer) := popKnownItems s.delegate (item :: items) peer
        (true, { peer with idsOfItemsToGet := items })
    else
      let kept := popUntil item peer.idsOfItemsToGet
      let peer := { peer with idsOfItemsToGet := kept.dropLast }
      if kept.isEmpty then
        let peer := { peer with lastBlockDelegateHasSeen := item }
        match s.delegate.getBlockNumber item with
        | none => (false, peer)
        | some n => (true, { peer with
            lastBlockNumberDelegateHasSeen := n
            lastBlockTimeDelegateHasSeen := s.delegate.getBlockTime item
            idsOfItemsToGet := items })
      else (true, { peer with idsOfItemsToGet := kept.dropLast ++ item :: items })

/-- Whether the last block that a peer offers would be one of the future. -/
def offersImplausibleBlocks (p : PeerId) (totalRemainingItemCount : Nat) : Bool :=
  addSeconds s.delegate.getBlockchainNow netFutureSyncBlocksGracePeriodSec <
    addSeconds (s.peer p).lastBlockTimeDelegateHasSeen (totalRemainingItemCount * blockIntervalSec)

/-- What `on_blockchain_item_ids_inventory_message` does once the list of the peer is extended: too
many blocks disconnect the peer, and otherwise more ids or the blocks are requested. -/
def continueWithPeer (p : PeerId) (totalRemainingItemCount : Nat) : NodeImpl :=
  let peer := s.peer p
  if s.offersImplausibleBlocks p totalRemainingItemCount then s.disconnectFromPeer p
  else if totalRemainingItemCount != 0 then
    if netMinBlockIdsToPrefetch < peer.idsOfItemsToGet.length then s.triggerFetchSyncItemsLoop
    else s.fetchNextBatchOfItemIdsFromPeer p
  else if !peer.idsOfItemsToGet.isEmpty then s.triggerFetchSyncItemsLoop
  else s.fetchNextBatchOfItemIdsFromPeer p

/-- Whether the peer's answer says that it has no blocks but those the client has. -/
def upToDate (peer : PeerConnection) (itemHashesAvailable : List ItemHashType)
    (totalRemainingItemCount : Nat) : Bool :=
  totalRemainingItemCount == 0 && (itemHashesAvailable.isEmpty ||
    (itemHashesAvailable.length == 1 && itemHashesAvailable.all s.delegate.hasItem)) &&
    peer.idsOfItemsToGet.isEmpty && peer.numberOfUnfetchedItemIds == 0

/-- `on_blockchain_item_ids_inventory_message`. -/
def onBlockchainItemIdsInventoryMessage (p : PeerId) (itemHashesAvailable : List ItemHashType)
    (totalRemainingItemCount : Nat) : NodeImpl :=
  if !(s.peer p).itemIdsRequestedFromPeer then s
  else
    let peer := { s.peer p with itemIdsRequestedFromPeer := false }
    if s.upToDate peer itemHashesAvailable totalRemainingItemCount then
      s.modifyPeer p fun _ => { peer with weNeedSyncItemsFromPeer := false }
    else
      let extended := s.extendItemsToGet p itemHashesAvailable
        { peer with numberOfUnfetchedItemIds := totalRemainingItemCount }
      let s := s.modifyPeer p fun _ => extended.2
      if extended.1 then s.continueWithPeer p totalRemainingItemCount else s

/-- `on_fetch_blockchain_item_ids_message`, with what the client's `get_item_ids` answers. -/
def onFetchBlockchainItemIdsMessage (p : PeerId) (blockchainSynopsis : List ItemHashType)
    (itemHashesAvailable : List ItemHashType) (inbound : Bool) : NodeImpl :=
  let inSync := itemHashesAvailable.isEmpty || (!blockchainSynopsis.isEmpty &&
    itemHashesAvailable.length == 1 && itemHashesAvailable.all blockchainSynopsis.contains)
  let s := s.modifyPeer p fun peer => { peer with peerNeedsSyncItemsFromUs := !inSync }
  let unseen := blockchainSynopsis.getLast?.any fun item => !s.delegate.hasItem item
  let s' := if !(s.peer p).weNeedSyncItemsFromPeer && unseen then s.startSynchronizingWithPeer p
    else s
  if inSync && !itemHashesAvailable.isEmpty && (s.peer p).inhibitFetchingSyncBlocks then
    s'.disconnectFromPeer p
  else if inbound && s'.handshakingConnections.contains p then
    (s'.movePeerToActiveList p).startSynchronizingWithPeer p
  else s'

/-! ## Blocks received -/

/-- Whether a block received is the next one of an active peer, for which it is then taken off. -/
def isNextBlock (id : ItemHashType) : Bool :=
  s.activeConnections.any fun p => (s.peer p).idsOfItemsToGet.head? == some id

def takeNextBlock (id : ItemHashType) : NodeImpl :=
  s.activeConnections.foldl (fun s p =>
    if (s.peer p).idsOfItemsToGet.head? == some id then
      s.modifyPeer p fun peer => { peer with
        idsOfItemsToGet := peer.idsOfItemsToGet.tail
        idsOfItemsBeingProcessed := insert id peer.idsOfItemsBeingProcessed }
    else s) s

def handlesMaximum : Bool :=
  config.maximumNumberOfBlocksToHandleAtOneTime ≤ s.handleMessageCallsInProgress.length

/-- No more blocks are fetched when too many are handled and too many wait. -/
def suspendIfFull : NodeImpl :=
  if s.handlesMaximum config &&
      config.maximumNumberOfSyncBlocksToPrefetch ≤ s.receivedSyncItems.length then
    { s with suspendFetchingSyncBlocks := true }
  else s

def collectReceivedSyncItems : NodeImpl :=
  { s with
    receivedSyncItems := s.newReceivedSyncItems.reverse ++ s.receivedSyncItems
    newReceivedSyncItems := [] }

def handOver (msg : BlockMessage) : NodeImpl :=
  { s with
    receivedSyncItems := s.receivedSyncItems.erase msg
    handleMessageCallsInProgress := s.handleMessageCallsInProgress ++ [msg] }

/-- The loop of `process_backlog_of_sync_blocks`, which takes a block off the ones received in every
iteration but the last one. -/
def processBacklogLoop : Nat → NodeImpl → NodeImpl
  | 0, s => s
  | fuel + 1, s =>
    let s := s.collectReceivedSyncItems
    match s.receivedSyncItems.find? fun msg => s.isNextBlock msg.blockId with
    | none => s.suspendIfFull config
    | some msg =>
      let s := s.takeNextBlock msg.blockId
      if s.mostRecentBlocksAccepted.contains msg.blockId then s.suspendIfFull config
      else
        let s := s.handOver msg
        if s.handlesMaximum config then s.suspendIfFull config else processBacklogLoop fuel s

def processBacklogOfSyncBlocks : NodeImpl :=
  if s.handlesMaximum config then s
  else
    let s := { s with suspendFetchingSyncBlocks := false }
    let s := processBacklogLoop config
      (s.receivedSyncItems.length + s.newReceivedSyncItems.length + 1) s
    if !s.suspendFetchingSyncBlocks then s.triggerFetchSyncItemsLoop else s

end NodeImpl

/-- How the client's `handle_message` ends. -/
inductive Handled where
  | accepted | olderThanUndoHistory | rejected
  deriving DecidableEq

namespace PeerConnection

variable (peer : PeerConnection)

/-- What an accepted sync block changes for a peer. -/
def acceptSyncBlock (msg : BlockMessage) : PeerConnection :=
  if msg.blockId ∈ peer.idsOfItemsBeingProcessed then { peer with
    lastBlockDelegateHasSeen := msg.blockId
    lastBlockNumberDelegateHasSeen := msg.blockNum
    lastBlockTimeDelegateHasSeen := msg.timestamp
    idsOfItemsBeingProcessed := peer.idsOfItemsBeingProcessed.erase msg.blockId }
  else peer

def exhausted : Bool := peer.idsOfItemsToGet.isEmpty && peer.idsOfItemsBeingProcessed = ∅

/-- What an accepted block changes for a peer, which may have advertised it. -/
def acceptBlock (now : TimePointSec) (msg : BlockMessage) (hash : MessageHashType) :
    PeerConnection :=
  let peer := if peer.inventoryPeerAdvertisedToUs.any (·.1 == ⟨.blockMessageType, hash⟩) then
      { peer with
        lastBlockDelegateHasSeen := msg.blockId
        lastBlockNumberDelegateHasSeen := msg.blockNum
        lastBlockTimeDelegateHasSeen := msg.timestamp }
    else peer
  peer.clearOldInventory now

end PeerConnection

namespace NodeImpl

variable (config : NetConfig) (s : NodeImpl)

/-- `send_sync_block_to_node_delegate`, from where the client has handled the block. -/
def sendSyncBlockToNodeDelegate (msg : BlockMessage) (handled : Handled) : NodeImpl :=
  let s := { s with handleMessageCallsInProgress := s.handleMessageCallsInProgress.erase msg }
  match handled with
  | .accepted =>
    let s := s.pushRecent config msg.blockId
    let outdated := s.activeConnections.filter fun p => config.outdated (s.peer p) msg.blockNum
    let others := s.activeConnections.filter fun p => !config.outdated (s.peer p) msg.blockNum
    let restarted := others.filter fun p => (s.peer p).exhausted &&
      !(s.peer p).peerNeedsSyncItemsFromUs && !(s.peer p).weNeedSyncItemsFromPeer
    let updated := others.filter fun p => !(s.peer p).exhausted
    let before := s
    let s := updated.foldl (fun s p => s.modifyPeer p fun peer => peer.acceptSyncBlock msg) s
    let emptied := updated.filter fun p =>
      msg.blockId ∈ (before.peer p).idsOfItemsBeingProcessed && (s.peer p).exhausted &&
        (s.peer p).numberOfUnfetchedItemIds == 0
    let s := outdated.foldl disconnectFromPeer s
    let s := emptied.foldl fetchNextBatchOfItemIdsFromPeer s
    restarted.foldl startSynchronizingWithPeer s
  | .olderThanUndoHistory =>
    s.activeConnections.foldl (fun s p =>
      if msg.blockId ∈ (s.peer p).idsOfItemsBeingProcessed then
        s.modifyPeer p fun peer => { peer with inhibitFetchingSyncBlocks := true }
      else s) s
  | .rejected =>
    (s.activeConnections.filter fun p =>
      msg.blockId ∈ (s.peer p).idsOfItemsBeingProcessed).foldl disconnectFromPeer s

/-- `process_block_during_sync`: the block is passed on by `process_backlog_of_sync_blocks`. -/
def processBlockDuringSync (msg : BlockMessage) : NodeImpl :=
  { s with newReceivedSyncItems := msg :: s.newReceivedSyncItems }

/-- `process_block_during_normal_operation`. The client handles the block unless it was accepted
before. -/
def processBlockDuringNormalOperation (now : TimePointSec) (msg : BlockMessage)
    (hash : MessageHashType) (handled : Handled) : NodeImpl :=
  let accepted := s.mostRecentBlocksAccepted.contains msg.blockId
  if accepted || handled == .accepted then
    let s := if accepted then s else s.pushRecent config msg.blockId
    let s := s.activeConnections.foldl (fun s p =>
      s.modifyPeer p fun peer => peer.acceptBlock now msg hash) s
    let s := s.broadcast config hash msg
    (s.activeConnections.filter fun p => config.outdated (s.peer p) msg.blockNum).foldl
      disconnectFromPeer s
  else
    (s.activeConnections.filter fun p =>
      (s.peer p).idsOfItemsToGet.head? == some msg.blockId).foldl disconnectFromPeer s

/-- `process_block_message`. -/
def processBlockMessage (now : TimePointSec) (p : PeerId) (msg : BlockMessage)
    (hash : MessageHashType) (handled : Handled) : NodeImpl :=
  if maxBlockSize < msg.blockSize then s
  else if ⟨.blockMessageType, hash⟩ ∈ (s.peer p).itemsRequestedFromPeer then
    let s := s.modifyPeer p fun peer => { peer with
      itemsRequestedFromPeer := peer.itemsRequestedFromPeer.erase ⟨.blockMessageType, hash⟩ }
    s.processBlockDuringNormalOperation config now msg hash handled
  else if ⟨.blockMessageType, msg.blockId⟩ ∈ (s.peer p).syncItemsRequestedFromPeer then
    let item : ItemId := ⟨.blockMessageType, msg.blockId⟩
    let s := s.modifyPeer p fun peer => { peer with
      syncItemsRequestedFromPeer := peer.syncItemsRequestedFromPeer.erase item }
    let s := { s with activeSyncRequests := s.activeSyncRequests.erase msg.blockId }
    let s := s.processBlockDuringSync msg
    let peer := s.peer p
    if !peer.idle then s
    else if 0 < peer.numberOfUnfetchedItemIds &&
        peer.idsOfItemsToGet.length < netMinBlockIdsToPrefetch then
      s.fetchNextBatchOfItemIdsFromPeer p
    else s.triggerFetchSyncItemsLoop
  else s.disconnectFromPeer p

/-! ## Items that are not delivered -/

/-- `on_item_not_available_message`. -/
def onItemNotAvailableMessage (p : PeerId) (requestedItem : ItemId) : NodeImpl :=
  if requestedItem ∈ (s.peer p).itemsRequestedFromPeer then
    s.modifyPeer p fun peer => { peer with
      itemsRequestedFromPeer := peer.itemsRequestedFromPeer.erase requestedItem
      inventoryPeerAdvertisedToUs :=
        peer.inventoryPeerAdvertisedToUs.filter (·.1 != requestedItem) }
  else if requestedItem ∈ (s.peer p).syncItemsRequestedFromPeer then
    let s := s.modifyPeer p fun peer => { peer with
      syncItemsRequestedFromPeer := peer.syncItemsRequestedFromPeer.erase requestedItem }
    let s := if (s.peer p).peerNeedsSyncItemsFromUs then
        s.modifyPeer p fun peer => { peer with inhibitFetchingSyncBlocks := true }
      else s.disconnectFromPeer p
    s.triggerFetchSyncItemsLoop
  else s

/-- `on_connection_closed`. -/
def onConnectionClosed (p : PeerId) : NodeImpl :=
  let s := s.removeConnection p
  if (s.peer p).syncItemsRequestedFromPeer = ∅ then s
  else
    let s := { s with activeSyncRequests := s.activeSyncRequests \
      (s.peer p).syncItemsRequestedFromPeer.image ItemId.itemHash }
    s.triggerFetchSyncItemsLoop

/-! ## Items the peers ask for -/

/-- The message for an item: from the cache or from the client. -/
def messageForItem (item : ItemHashType) : Option BlockMessage :=
  match s.messageCache.find? (·.1 == item) with
  | some entry => some entry.2
  | none => s.delegate.getItem item

/-- `on_fetch_items_message` for blocks: the peer has seen the last block sent. -/
def onFetchItemsMessage (p : PeerId) (itemsToFetch : List ItemHashType) : NodeImpl :=
  match (itemsToFetch.filterMap s.messageForItem).getLast? with
  | none => s
  | some block =>
    let s := s.modifyPeer p fun peer => { peer with lastBlockDelegateHasSeen := block.blockId }
    match s.delegate.getBlockNumber block.blockId with
    | none => s
    | some n => s.modifyPeer p fun peer => { peer with
        lastBlockNumberDelegateHasSeen := n
        lastBlockTimeDelegateHasSeen := s.delegate.getBlockTime block.blockId }

end NodeImpl

end Achain.Net
