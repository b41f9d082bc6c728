import Achain.Types
import Mathlib.Data.Finset.Image

/-!
# Peers and the node

What a node keeps about each of its peers while it synchronises with them, and what it keeps itself.
The client is behind the node's delegate. A handler that throws leaves the node as it was when the
exception was thrown.
-/

namespace Achain.Net

abbrev ItemHashType := BlockIdType
abbrev MessageHashType := Nat
abbrev PeerId := Nat

inductive ItemType where
  | trxMessageType | blockMessageType
  deriving DecidableEq, Inhabited

structure ItemId where
  itemType : ItemType
  itemHash : ItemHashType
  deriving DecidableEq, Inhabited

structure BlockMessage where
  blockId : BlockIdType
  blockNum : Nat
  timestamp : TimePointSec
  blockSize : Nat
  deriving DecidableEq, Inhabited

/-- The constants a node runs with. -/
structure NetConfig where
  maximumBlocksPerPeerDuringSyncing : Nat
  maximumNumberOfBlocksToHandleAtOneTime : Nat
  maximumNumberOfSyncBlocksToPrefetch : Nat
  maximumNumberOfConnections : Nat
  hardForkBlockNumbers : List Nat

def netMinBlockIdsToPrefetch : Nat := 10000
def netFutureSyncBlocksGracePeriodSec : Nat := 60 * 60
def netMaxInventorySizeInSeconds : Nat := 2 * 60

/-- A time and seconds after it are added in 32 bits. -/
def addSeconds (t : TimePointSec) (seconds : Nat) : TimePointSec := (t + seconds) % 2 ^ 32

/-- What the client answers the node. `none` is an exception. -/
structure NodeDelegate where
  hasItem : ItemHashType → Bool
  getBlockNumber : BlockIdType → Option Nat
  getBlockTime : BlockIdType → TimePointSec
  getBlockchainNow : TimePointSec
  getBlockchainSynopsis : BlockIdType → Nat → Option (List ItemHashType)
  getItem : ItemHashType → Option BlockMessage

structure PeerConnection where
  idsOfItemsToGet : List ItemHashType
  idsOfItemsBeingProcessed : Finset ItemHashType
  numberOfUnfetchedItemIds : Nat
  peerNeedsSyncItemsFromUs : Bool
  weNeedSyncItemsFromPeer : Bool
  itemIdsRequestedFromPeer : Bool
  syncItemsRequestedFromPeer : Finset ItemId
  lastBlockNumberDelegateHasSeen : Nat
  lastBlockDelegateHasSeen : ItemHashType
  lastBlockTimeDelegateHasSeen : TimePointSec
  inhibitFetchingSyncBlocks : Bool
  inventoryPeerAdvertisedToUs : List (ItemId × TimePointSec)
  itemsRequestedFromPeer : Finset ItemId
  lastKnownForkBlockNumber : Nat
  deriving Inhabited

namespace PeerConnection

/-- A peer that has just connected. -/
def fresh (lastKnownForkBlockNumber : Nat) : PeerConnection where
  idsOfItemsToGet := []
  idsOfItemsBeingProcessed := ∅
  numberOfUnfetchedItemIds := 0
  peerNeedsSyncItemsFromUs := true
  weNeedSyncItemsFromPeer := true
  itemIdsRequestedFromPeer := false
  syncItemsRequestedFromPeer := ∅
  lastBlockNumberDelegateHasSeen := 0
  lastBlockDelegateHasSeen := 0
  lastBlockTimeDelegateHasSeen := 0
  inhibitFetchingSyncBlocks := false
  inventoryPeerAdvertisedToUs := []
  itemsRequestedFromPeer := ∅
  lastKnownForkBlockNumber := lastKnownForkBlockNumber

def busy (p : PeerConnection) : Bool :=
  p.itemsRequestedFromPeer ≠ ∅ || p.syncItemsRequestedFromPeer ≠ ∅ || p.itemIdsRequestedFromPeer

def idle (p : PeerConnection) : Bool := !p.busy

def clearOldInventory (p : PeerConnection) (now : TimePointSec) : PeerConnection :=
  { p with inventoryPeerAdvertisedToUs :=
      p.inventoryPeerAdvertisedToUs.filter fun e => now - netMaxInventorySizeInSeconds ≤ e.2 }

end PeerConnection

structure NodeImpl where
  peer : PeerId → PeerConnection
  activeConnections : List PeerId
  handshakingConnections : List PeerId
  closingConnections : List PeerId
  terminatingConnections : List PeerId
  activeSyncRequests : Finset ItemHashType
  receivedSyncItems : List BlockMessage
  newReceivedSyncItems : List BlockMessage
  handleMessageCallsInProgress : List BlockMessage
  mostRecentBlocksAccepted : List ItemHashType
  suspendFetchingSyncBlocks : Bool
  syncItemsToFetchUpdated : Bool
  messageCache : List (MessageHashType × BlockMessage)
  delegate : NodeDelegate

namespace NodeImpl

/-- A node that has just been started on its head block. -/
def start (delegate : NodeDelegate) (head : ItemHashType) : NodeImpl where
  peer _ := .fresh 0
  activeConnections := []
  handshakingConnections := []
  closingConnections := []
  terminatingConnections := []
  activeSyncRequests := ∅
  receivedSyncItems := []
  newReceivedSyncItems := []
  handleMessageCallsInProgress := []
  mostRecentBlocksAccepted := [head]
  suspendFetchingSyncBlocks := false
  syncItemsToFetchUpdated := false
  messageCache := []
  delegate := delegate

variable (s : NodeImpl)

/-- The peers whose connection has not been closed. -/
def connected : List PeerId :=
  s.activeConnections ++ s.handshakingConnections ++ s.closingConnections ++ s.terminatingConnections

def modifyPeer (p : PeerId) (f : PeerConnection → PeerConnection) : NodeImpl :=
  { s with peer := Function.update s.peer p (f (s.peer p)) }

def removeConnection (p : PeerId) : NodeImpl :=
  { s with
    activeConnections := s.activeConnections.filter (· != p)
    handshakingConnections := s.handshakingConnections.filter (· != p)
    closingConnections := s.closingConnections.filter (· != p)
    terminatingConnections := s.terminatingConnections.filter (· != p) }

def movePeerToActiveList (p : PeerId) : NodeImpl :=
  let s := s.removeConnection p
  { s with activeConnections := p :: s.activeConnections }

def movePeerToClosingList (p : PeerId) : NodeImpl :=
  let s := s.removeConnection p
  { s with closingConnections := p :: s.closingConnections }

def movePeerToTerminatingList (p : PeerId) : NodeImpl :=
  let s := s.removeConnection p
  { s with terminatingConnections := p :: s.terminatingConnections }

/-- `disconnect_from_peer`: the connection is closed later. -/
def disconnectFromPeer (p : PeerId) : NodeImpl := s.movePeerToClosingList p

def triggerFetchSyncItemsLoop : NodeImpl := { s with syncItemsToFetchUpdated := true }

/-- A push onto the circular buffer of the blocks accepted last. -/
def pushRecent (config : NetConfig) (id : ItemHashType) : NodeImpl :=
  let recent := s.mostRecentBlocksAccepted ++ [id]
  { s with mostRecentBlocksAccepted :=
      recent.drop (recent.length - config.maximumNumberOfConnections) }

/-- `broadcast` of a block. -/
def broadcast (config : NetConfig) (hash : MessageHashType) (msg : BlockMessage) : NodeImpl :=
  let s := s.pushRecent config msg.blockId
  { s with messageCache := s.messageCache ++ [(hash, msg)] }

def haveAlreadyReceivedSyncItem (id : ItemHashType) : Bool :=
  s.receivedSyncItems.any (·.blockId == id) || s.newReceivedSyncItems.any (·.blockId == id)

end NodeImpl

/-- `get_next_known_hard_fork_block_number`, `0` when there is none. -/
def NetConfig.nextKnownHardForkBlockNumber (config : NetConfig) (blockNumber : Nat) : Nat :=
  (config.hardForkBlockNumbers.find? (blockNumber < ·)).getD 0

/-- Whether a peer's client is too old for the blocks after a hard fork. -/
def NetConfig.outdated (config : NetConfig) (p : PeerConnection) (blockNum : Nat) : Bool :=
  config.hardForkBlockNumbers.contains blockNum && p.lastKnownForkBlockNumber != 0 &&
    config.nextKnownHardForkBlockNumber p.lastKnownForkBlockNumber != 0 &&
    config.nextKnownHardForkBlockNumber p.lastKnownForkBlockNumber ≤ blockNum

end Achain.Net
