import Achain.Net.Sync

/-!
# Runs of a node

The events a node takes part in: messages of its peers, connections that come and go, and what its
own loops and its client do. The handlers do not interrupt each other, and a sync block is handled by
the client while other events take place.
-/

namespace Achain.Net

inductive Event where
  | connect (p : PeerId) (lastKnownForkBlockNumber : Nat)
  | newPeer (p : PeerId)
  | startSynchronizing (order : List PeerId)
  | fetchSyncItems (order : List PeerId)
  | itemIdsInventory (p : PeerId) (itemHashesAvailable : List ItemHashType) (remaining : Nat)
  | fetchBlockchainItemIds (p : PeerId) (synopsis available : List ItemHashType) (inbound : Bool)
  | blockMessage (now : TimePointSec) (p : PeerId) (msg : BlockMessage) (hash : MessageHashType)
      (handled : Handled)
  | processBacklog
  | syncBlockHandled (msg : BlockMessage) (handled : Handled)
  | itemNotAvailable (p : PeerId) (item : ItemId)
  | fetchItems (p : PeerId) (items : List ItemHashType)
  | advertised (p : PeerId) (item : ItemId) (now : TimePointSec)
  | itemRequested (p : PeerId) (item : ItemId)
  | broadcastBlock (hash : MessageHashType) (msg : BlockMessage)
  | cacheExpired (kept : List (MessageHashType × BlockMessage))
  | disconnect (p : PeerId)
  | terminate (p : PeerId)
  | connectionClosed (p : PeerId)
  | delegateChanges (delegate : NodeDelegate)

namespace NodeImpl

variable (config : NetConfig)

/-- What a node does in an event. -/
def step (s : NodeImpl) : Event → NodeImpl
  | .connect p n => { s.modifyPeer p fun _ => .fresh n with
      handshakingConnections := p :: s.handshakingConnections }
  | .newPeer p => (s.movePeerToActiveList p).startSynchronizingWithPeer p
  | .startSynchronizing order => s.startSynchronizing order
  | .fetchSyncItems order => s.fetchSyncItemsLoop config order
  | .itemIdsInventory p ids n => s.onBlockchainItemIdsInventoryMessage p ids n
  | .fetchBlockchainItemIds p synopsis available inbound =>
    s.onFetchBlockchainItemIdsMessage p synopsis available inbound
  | .blockMessage now p msg hash handled => s.processBlockMessage config now p msg hash handled
  | .processBacklog => s.processBacklogOfSyncBlocks config
  | .syncBlockHandled msg handled => s.sendSyncBlockToNodeDelegate config msg handled
  | .itemNotAvailable p item => s.onItemNotAvailableMessage p item
  | .fetchItems p items => s.onFetchItemsMessage p items
  | .advertised p item now => s.modifyPeer p fun peer => { peer with
      inventoryPeerAdvertisedToUs := peer.inventoryPeerAdvertisedToUs ++ [(item, now)] }
  | .itemRequested p item => s.modifyPeer p fun peer => { peer with
      itemsRequestedFromPeer := insert item peer.itemsRequestedFromPeer }
  | .broadcastBlock hash msg => s.broadcast config hash msg
  | .cacheExpired kept => { s with messageCache := kept }
  | .disconnect p => s.disconnectFromPeer p
  | .terminate p => s.movePeerToTerminatingList p
  | .connectionClosed p => s.onConnectionClosed p
  | .delegateChanges delegate => { s with delegate := delegate }

/-- When an event can take place: messages come from connected peers, the loops go through the active
ones, and the client handles the blocks it was given. -/
def Possible (s : NodeImpl) : Event → Prop
  | .connect p _ => p ∉ s.connected
  | .newPeer p => p ∈ s.handshakingConnections
  | .startSynchronizing order | .fetchSyncItems order => order.Perm s.activeConnections
  | .syncBlockHandled msg _ => msg ∈ s.handleMessageCallsInProgress
  | .cacheExpired kept => kept.Sublist s.messageCache
  | .itemIdsInventory p _ _ | .fetchBlockchainItemIds p _ _ _ | .blockMessage _ p _ _ _
  | .itemNotAvailable p _ | .fetchItems p _ | .advertised p _ _ | .itemRequested p _
  | .disconnect p | .terminate p | .connectionClosed p => p ∈ s.connected
  | .processBacklog | .broadcastBlock _ _ | .delegateChanges _ => True

end NodeImpl

/-- The states of a node over runs in which every event meets a condition. -/
inductive Runs (config : NetConfig) (ok : NodeImpl → Event → Prop) : NodeImpl → Prop
  | start (delegate : NodeDelegate) (head : ItemHashType) : Runs config ok (.start delegate head)
  | step {s : NodeImpl} (e : Event) : Runs config ok s → s.Possible e → ok s e →
      Runs config ok (s.step config e)

/-- What every event keeps holds after every run. -/
theorem Runs.keeps {config : NetConfig} {ok : NodeImpl → Event → Prop} {I : NodeImpl → Prop}
    (hstart : ∀ delegate head, I (.start delegate head))
    (hstep : ∀ s e, I s → s.Possible e → ok s e → I (s.step config e)) {s : NodeImpl}
    (h : Runs config ok s) : I s := by
  induction h with
  | start delegate head => exact hstart delegate head
  | step e _ hpossible hok ih => exact hstep _ e ih hpossible hok

end Achain.Net
