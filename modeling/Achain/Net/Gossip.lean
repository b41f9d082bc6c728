import Achain.Net.Sync
import Achain.Lib.Networks
import Achain.Lib.Traces

/-!
# Gossip of transactions

A node that has a transaction advertises it to its peers, and fetches what they advertise to it. Two loops
do this: one advertises the inventory that is new, the other asks idle peers for what is to be fetched.
The client handles a transaction while the node goes on. What was broadcast stays in the message cache for
some blocks, and is given to the peers that ask for it.
-/

namespace Achain.Net.Gossip

open Networks

/-- Microseconds. -/
abbrev TimePoint := Nat

def seconds (n : Nat) : TimePoint := n * 1000000

/-- A point in time in whole seconds. -/
def TimePoint.sec (t : TimePoint) : TimePointSec := t / 1000000

def netMaxItemsPerPeerDuringNormalOperation : Nat := 1
def netInsufficientRelayFeePenaltySec : Nat := 15
def blockchainMaxTrxPerSecond : Nat := 1000
def blockchainBlockIntervalSec : Nat := 10

/-! ## The message cache -/

structure MessageInfo (τ : Type) where
  messageHash : MessageHashType
  messageBody : τ
  blockClockWhenReceived : UInt32

structure BlockchainTiedMessageCache (τ : Type) where
  messageCache : List (MessageInfo τ)
  blockClock : UInt32

namespace BlockchainTiedMessageCache

variable {τ : Type} (c : BlockchainTiedMessageCache τ)

def cacheDurationInBlocks : UInt32 := 2

def blockAccepted : BlockchainTiedMessageCache τ where
  messageCache :=
    if cacheDurationInBlocks < c.blockClock + 1 then c.messageCache.filter fun info =>
      c.blockClock + 1 - cacheDurationInBlocks ≤ info.blockClockWhenReceived
    else c.messageCache
  blockClock := c.blockClock + 1

def contains (hash : MessageHashType) : Bool := c.messageCache.any (·.messageHash == hash)

/-- A message is not cached a second time. -/
def cacheMessage (hash : MessageHashType) (message : τ) : BlockchainTiedMessageCache τ :=
  if c.contains hash then c
  else { c with messageCache := c.messageCache ++ [⟨hash, message, c.blockClock⟩] }

def getMessage (hash : MessageHashType) : Option τ :=
  (c.messageCache.find? (·.messageHash == hash)).map MessageInfo.messageBody

end BlockchainTiedMessageCache

/-! ## What is to be fetched -/

/-- The number of the message type. -/
def itemTypeNumber : ItemType → Nat
  | .trxMessageType => 1000
  | .blockMessageType => 1001

structure PrioritizedItemId where
  item : ItemId
  sequenceNumber : UInt32
  timeStamp : TimePoint

/-- Blocks come before transactions, and what was heard of first before the rest. -/
def PrioritizedItemId.lt (a b : PrioritizedItemId) : Bool :=
  if a.item.itemType ≠ b.item.itemType then
    itemTypeNumber b.item.itemType < itemTypeNumber a.item.itemType
  else 0 < (b.sequenceNumber - a.sequenceNumber).toInt32

/-- `insert` into the items to fetch, of which each is there once, in an order of its own. -/
def insertItem (items : List PrioritizedItemId) (x : PrioritizedItemId) : Option (List PrioritizedItemId) :=
  if items.any fun e => e.item == x.item || !e.lt x && !x.lt e then none
  else some (items.takeWhile (·.lt x) ++ x :: items.dropWhile (·.lt x))

/-- The items of each type, which take a message of their own. -/
def itemsByType (items : List ItemId) : List (ItemType × List ItemHashType) :=
  [ItemType.trxMessageType, .blockMessageType].filterMap fun type =>
    let hashes := (items.filter (·.itemType == type)).map ItemId.itemHash
    if hashes.isEmpty then none else some (type, hashes)

/-! ## Peers -/

structure PeerConnection extends Net.PeerConnection where
  inventoryAdvertisedToPeer : List (ItemId × TimePointSec)
  transactionFetchingInhibitedUntil : TimePoint

namespace PeerConnection

/-- A peer that has just connected. -/
def fresh (lastKnownForkBlockNumber : Nat) : PeerConnection where
  toPeerConnection := .fresh lastKnownForkBlockNumber
  inventoryAdvertisedToPeer := []
  transactionFetchingInhibitedUntil := 0

variable (p : PeerConnection) (now : TimePoint) (item : ItemId)

def advertisedToPeer : Bool := p.inventoryAdvertisedToPeer.any (·.1 == item)

def advertisedToUs : Bool := p.inventoryPeerAdvertisedToUs.any (·.1 == item)

def isTransactionFetchingInhibited : Bool := now < p.transactionFetchingInhibitedUntil

def clearOldInventory : PeerConnection :=
  { p with
    toPeerConnection := p.toPeerConnection.clearOldInventory now.sec
    inventoryAdvertisedToPeer :=
      p.inventoryAdvertisedToPeer.filter fun e => now.sec - netMaxInventorySizeInSeconds ≤ e.2 }

/-- The most items a peer may have advertised of which transactions are still noted. -/
def inventoryLimit : Nat := netMaxInventorySizeInSeconds * blockchainMaxTrxPerSecond

def isInventoryAdvertisedToUsListFullForTransactions : Bool :=
  inventoryLimit < p.inventoryPeerAdvertisedToUs.length

def isInventoryAdvertisedToUsListFull : Bool :=
  inventoryLimit + (netMaxInventorySizeInSeconds + 60) / blockchainBlockIntervalSec <
    p.inventoryPeerAdvertisedToUs.length

/-- What of the new inventory the peer is not known to have. -/
def itemsToAdvertise (items : List ItemId) : List ItemId :=
  items.filter fun item => !p.advertisedToPeer item && !p.advertisedToUs item

/-- The turn of a peer in `advertise_inventory_loop`. -/
def advertise (items : List ItemId) : PeerConnection :=
  if p.peerNeedsSyncItemsFromUs then p.clearOldInventory now
  else ({ p with inventoryAdvertisedToPeer :=
    p.inventoryAdvertisedToPeer ++ (p.itemsToAdvertise items).map fun item => (item, now.sec) } :
      PeerConnection).clearOldInventory now

/-- An item is no longer requested of the peer. -/
def eraseRequest : PeerConnection :=
  { p with itemsRequestedFromPeer := p.itemsRequestedFromPeer.erase item }

/-- A peer advertises an item. -/
def noteAdvertised : PeerConnection :=
  if p.advertisedToUs item then p
  else { p with inventoryPeerAdvertisedToUs := p.inventoryPeerAdvertisedToUs ++ [(item, now.sec)] }

end PeerConnection

/-! ## Messages and nodes -/

inductive Message (τ : Type) where
  | itemIdsInventory (itemType : ItemType) (itemHashesAvailable : List ItemHashType)
  | fetchItems (itemType : ItemType) (itemsToFetch : List ItemHashType)
  | itemNotAvailable (requestedItem : ItemId)
  | trx (trx : τ)

/-- The item of a transaction. -/
def trxItem {τ : Type} (id : τ → MessageHashType) (trx : τ) : ItemId := ⟨.trxMessageType, id trx⟩

/-- How the client's `handle_message` ends for a transaction. -/
inductive Handled where
  | accepted | insufficientRelayFee | rejected
  deriving DecidableEq

/-- Peers of the kind `ν` and transactions of the kind `τ`. -/
structure NodeImpl (ν τ : Type) where
  peer : ν → PeerConnection
  activeConnections : List ν
  itemsToFetch : List PrioritizedItemId
  itemsToFetchSequenceCounter : UInt32
  itemsToFetchUpdated : Bool
  newInventory : Finset ItemId
  messageCache : BlockchainTiedMessageCache τ
  handleMessageCallsInProgress : List (ν × τ)

/-- A peer in `fetch_items_loop` and what it will be asked for. -/
structure PeerAndItems (ν : Type) where
  peer : ν
  itemIds : List ItemId

namespace PeerAndItems

variable {ν : Type}

/-- A peer that has got an item more goes behind those with fewer items and with as many. -/
def requeue (p : PeerAndItems ν) (ps : List (PeerAndItems ν)) : List (PeerAndItems ν) :=
  match ps with
  | [] => [p]
  | q :: _ =>
    if p.itemIds.length ≤ q.itemIds.length then p :: ps
    else ps.takeWhile (·.itemIds.length ≤ p.itemIds.length) ++
      p :: ps.dropWhile (·.itemIds.length ≤ p.itemIds.length)

end PeerAndItems

namespace NodeImpl

variable {ν τ : Type} [DecidableEq ν] (s : NodeImpl ν τ) (now : TimePoint)

def modifyPeer (p : ν) (f : PeerConnection → PeerConnection) : NodeImpl ν τ :=
  { s with peer := Function.update s.peer p (f (s.peer p)) }

/-- `disconnect_from_peer`. -/
def disconnectFromPeer (p : ν) : NodeImpl ν τ :=
  { s with activeConnections := s.activeConnections.filter (· != p) }

omit [DecidableEq ν] in
def isItemInAnyPeersInventory (item : ItemId) : Bool :=
  s.activeConnections.any fun p => (s.peer p).advertisedToUs item

def triggerFetchItemsLoop : NodeImpl ν τ := { s with itemsToFetchUpdated := true }

/-- An item is put among those to fetch, and whether it was not there. -/
def insertItemToFetch (item : ItemId) : NodeImpl ν τ × Bool :=
  let x : PrioritizedItemId := ⟨item, s.itemsToFetchSequenceCounter, now⟩
  let s := { s with itemsToFetchSequenceCounter := s.itemsToFetchSequenceCounter + 1 }
  match insertItem s.itemsToFetch x with
  | none => (s, false)
  | some items => ({ s with itemsToFetch := items }, true)

/-! ### Loops -/

/-- Whether a peer can be asked for an item more. -/
def canAsk (item : ItemId) (p : PeerAndItems ν) : Bool :=
  p.itemIds.length < netMaxItemsPerPeerDuringNormalOperation && (s.peer p.peer).advertisedToUs item &&
    !(item.itemType == .trxMessageType && (s.peer p.peer).isTransactionFetchingInhibited now)

/-- The first peer that can be asked for an item gets it, if there is one. -/
def assignItem (item : ItemId) : List (PeerAndItems ν) → Option (List (PeerAndItems ν))
  | [] => none
  | p :: ps =>
    if s.canAsk now item p then some ({ p with itemIds := p.itemIds ++ [item] }.requeue ps)
    else (assignItem item ps).map (p :: ·)

/-- The items are gone through. Those that are too old are dropped, and some stay. -/
def assignItems : List PrioritizedItemId → List (PeerAndItems ν) →
    List PrioritizedItemId × List (PeerAndItems ν)
  | [], ps => ([], ps)
  | e :: es, ps =>
    if e.timeStamp < now - seconds (10 * 5) then assignItems es ps
    else match s.assignItem now e.item ps with
      | some ps => assignItems es ps
      | none =>
        let rest := assignItems es ps
        (e :: rest.1, rest.2)

/-- The idle peers, in the order in which the loop comes to them. -/
def idlePeers (order : List ν) : List (PeerAndItems ν) :=
  (order.filter fun p => (s.peer p).idle).map fun p => ⟨p, []⟩

/-- A peer's items are requested. -/
def requestItems (s : NodeImpl ν τ) (p : PeerAndItems ν) : NodeImpl ν τ :=
  s.modifyPeer p.peer fun peer => { peer with
    itemsRequestedFromPeer := peer.itemsRequestedFromPeer ∪ p.itemIds.toFinset }

/-- An iteration of `fetch_items_loop`. -/
def fetchItemsLoop (order : List ν) : Outcome ν (NodeImpl ν τ) (Message τ) :=
  let assigned := s.assignItems now s.itemsToFetch (s.idlePeers order)
  let s := { s with itemsToFetchUpdated := false, itemsToFetch := assigned.1 }
  { node := assigned.2.foldl requestItems s
    sent := assigned.2.flatMap fun p =>
      (itemsByType p.itemIds).map fun m => (p.peer, .fetchItems m.1 m.2) }

/-- An iteration of `advertise_inventory_loop`, where `items` is the new inventory in its order. -/
def advertiseInventoryLoop (items : List ItemId) : Outcome ν (NodeImpl ν τ) (Message τ) where
  node := { s with
    newInventory := ∅
    peer := fun p =>
      if p ∈ s.activeConnections then (s.peer p).advertise now items else s.peer p }
  sent := s.activeConnections.flatMap fun p =>
    if (s.peer p).peerNeedsSyncItemsFromUs then []
    else (itemsByType ((s.peer p).itemsToAdvertise items)).map fun m => (p, .itemIdsInventory m.1 m.2)

/-! ### Handlers -/

variable (id : τ → MessageHashType)

/-- `broadcast` of a transaction. -/
def broadcast (trx : τ) : NodeImpl ν τ :=
  { s with
    messageCache := s.messageCache.cacheMessage (id trx) trx
    newInventory := insert (trxItem id trx) s.newInventory }

/-- A peer advertises an item that has not been advertised to any peer. It is fetched unless it has been
requested already. -/
def noteItem (p : ν) (item : ItemId) : NodeImpl ν τ :=
  let requested := s.activeConnections.any fun q => item ∈ (s.peer q).itemsRequestedFromPeer
  let s := s.modifyPeer p fun peer => peer.noteAdvertised now item
  if requested then s
  else
    let inserted := s.insertItemToFetch now item
    if inserted.2 then inserted.1.triggerFetchItemsLoop else inserted.1

/-- The loop of `on_item_ids_inventory_message`. What has been advertised to a peer is here already. -/
def addInventory (p : ν) (itemType : ItemType) (s : NodeImpl ν τ) : List ItemHashType → NodeImpl ν τ
  | [] => s
  | itemHash :: itemHashes =>
    if s.activeConnections.any fun q => (s.peer q).advertisedToPeer ⟨itemType, itemHash⟩ then
      addInventory p itemType s itemHashes
    else if itemType = .trxMessageType ∧ (s.peer p).isInventoryAdvertisedToUsListFullForTransactions ∨
        (s.peer p).isInventoryAdvertisedToUsListFull then s
    else addInventory p itemType (s.noteItem now p ⟨itemType, itemHash⟩) itemHashes

def onItemIdsInventoryMessage (p : ν) (itemType : ItemType) (itemHashes : List ItemHashType) :
    NodeImpl ν τ :=
  (s.modifyPeer p fun peer => peer.clearOldInventory now).addInventory now p itemType itemHashes

/-- What is sent for an item that a peer wants. The client has no transactions to give. -/
def reply (itemType : ItemType) (itemHash : ItemHashType) : Message τ :=
  match s.messageCache.getMessage itemHash with
  | some trx => .trx trx
  | none => .itemNotAvailable ⟨itemType, itemHash⟩

def onFetchItemsMessage (p : ν) (itemType : ItemType) (itemsToFetch : List ItemHashType) :
    Outcome ν (NodeImpl ν τ) (Message τ) where
  node := s
  sent := itemsToFetch.map fun itemHash => (p, s.reply itemType itemHash)

/-- `on_item_not_available_message` for what was asked for by `fetch_items_loop`. -/
def onItemNotAvailableMessage (p : ν) (requestedItem : ItemId) : NodeImpl ν τ :=
  if requestedItem ∈ (s.peer p).itemsRequestedFromPeer then
    let s := s.modifyPeer p fun peer => { peer.eraseRequest requestedItem with
      inventoryPeerAdvertisedToUs := peer.inventoryPeerAdvertisedToUs.filter (·.1 != requestedItem) }
    let s := if s.isItemInAnyPeersInventory requestedItem then (s.insertItemToFetch now requestedItem).1
      else s
    s.triggerFetchItemsLoop
  else s

/-- `process_ordinary_message` until the client handles the transaction. -/
def processOrdinaryMessage (p : ν) (trx : τ) : NodeImpl ν τ :=
  if trxItem id trx ∈ (s.peer p).itemsRequestedFromPeer then
    let s := s.modifyPeer p fun peer => peer.eraseRequest (trxItem id trx)
    let s := if (s.peer p).idle then s.triggerFetchItemsLoop else s
    { s with handleMessageCallsInProgress := s.handleMessageCallsInProgress ++ [(p, trx)] }
  else s.disconnectFromPeer p

def onMessage (p : ν) : Message τ → Outcome ν (NodeImpl ν τ) (Message τ)
  | .itemIdsInventory itemType itemHashes => ⟨s.onItemIdsInventoryMessage now p itemType itemHashes, []⟩
  | .fetchItems itemType itemsToFetch => s.onFetchItemsMessage p itemType itemsToFetch
  | .itemNotAvailable requestedItem => ⟨s.onItemNotAvailableMessage now p requestedItem, []⟩
  | .trx trx => ⟨s.processOrdinaryMessage id p trx, []⟩

/-- `process_ordinary_message` from where the client has handled the transaction. -/
def messageHandled [DecidableEq τ] (p : ν) (trx : τ) (handled : Handled) : NodeImpl ν τ :=
  let s := { s with handleMessageCallsInProgress := s.handleMessageCallsInProgress.erase (p, trx) }
  match handled with
  | .accepted => s.broadcast id trx
  | .insufficientRelayFee => s.modifyPeer p fun peer => { peer with
      transactionFetchingInhibitedUntil := now + seconds netInsufficientRelayFeePenaltySec }
  | .rejected => s

end NodeImpl

/-! ## Runs -/

/-- What a node does by itself: its client broadcasts a transaction, has handled one or has accepted a
block, or one of its loops goes on. -/
inductive Event (ν τ : Type) where
  | broadcast (trx : τ)
  | advertiseInventory (now : TimePoint) (items : List ItemId)
  | fetchItems (now : TimePoint) (order : List ν)
  | messageHandled (now : TimePoint) (p : ν) (trx : τ) (handled : Handled)
  | blockAccepted

section Runs

variable {ν τ : Type} [DecidableEq ν] [DecidableEq τ] (id : τ → MessageHashType)

def NodeImpl.step (s : NodeImpl ν τ) : Event ν τ → Outcome ν (NodeImpl ν τ) (Message τ)
  | .broadcast trx => ⟨s.broadcast id trx, []⟩
  | .advertiseInventory now items => s.advertiseInventoryLoop now items
  | .fetchItems now order => s.fetchItemsLoop now order
  | .messageHandled now p trx handled => ⟨s.messageHandled now id p trx handled, []⟩
  | .blockAccepted => ⟨{ s with messageCache := s.messageCache.blockAccepted }, []⟩

omit [DecidableEq ν] [DecidableEq τ] in
/-- The loops go through the items and the peers in any order. -/
def Event.Possible (s : NodeImpl ν τ) : Event ν τ → Prop
  | .advertiseInventory _ items => items.Nodup ∧ items.toFinset = s.newInventory
  | .fetchItems _ order => order.Perm s.activeConnections
  | .messageHandled _ p trx _ => (p, trx) ∈ s.handleMessageCallsInProgress
  | .broadcast _ | .blockAccepted => True

end Runs

/-! ## A node among peers of any kind

Peers come and go and send what they like, also blocks. Synchronisation goes on with them meanwhile. -/

section Peers

variable {ν τ : Type} [DecidableEq ν]

/-- No peers, and nothing to be done. -/
def NodeImpl.start : NodeImpl ν τ where
  peer _ := .fresh 0
  activeConnections := []
  itemsToFetch := []
  itemsToFetchSequenceCounter := 0
  itemsToFetchUpdated := false
  newInventory := ∅
  messageCache := ⟨[], 0⟩
  handleMessageCallsInProgress := []

variable (s : NodeImpl ν τ) (now : TimePoint) (p : ν)

def NodeImpl.movePeerToActiveList : NodeImpl ν τ :=
  { s with activeConnections := p :: s.activeConnections.filter (· != p) }

/-- What was requested of a peer that is gone is fetched from another that has advertised it. -/
def NodeImpl.rescheduleItem (item : ItemId) : NodeImpl ν τ :=
  if s.isItemInAnyPeersInventory item then (s.insertItemToFetch now item).1 else s

/-- `on_connection_closed`, where `items` is what was requested of the peer, in its order. -/
def NodeImpl.onConnectionClosed (items : List ItemId) : NodeImpl ν τ :=
  let s := s.disconnectFromPeer p
  if items.isEmpty then s
  else (items.foldl (fun s item => s.rescheduleItem now item) s).triggerFetchItemsLoop

/-- `process_block_message` for a block that was requested by `fetch_items_loop`, until the client
handles it. -/
def NodeImpl.processBlockMessage (hash : MessageHashType) : NodeImpl ν τ :=
  if ⟨.blockMessageType, hash⟩ ∈ (s.peer p).itemsRequestedFromPeer then
    let s := s.modifyPeer p fun peer => peer.eraseRequest ⟨.blockMessageType, hash⟩
    if (s.peer p).idle then s.triggerFetchItemsLoop else s
  else s

/-- `process_block_during_normal_operation` from where the client has accepted the block. -/
def NodeImpl.blockHandled (hash : MessageHashType) : NodeImpl ν τ :=
  { s with
    peer := fun p => if p ∈ s.activeConnections then (s.peer p).clearOldInventory now else s.peer p
    newInventory := insert ⟨.blockMessageType, hash⟩ s.newInventory
    messageCache := s.messageCache.blockAccepted }

/-- What a node takes part in. -/
inductive Input (ν τ : Type) where
  | own (e : Event ν τ)
  | received (now : TimePoint) (p : ν) (m : Message τ)
  | blockReceived (p : ν) (hash : MessageHashType)
  | blockHandled (now : TimePoint) (hash : MessageHashType)
  | connected (p : ν) (lastKnownForkBlockNumber : Nat)
  | synchronized (p : ν) (peer : Net.PeerConnection)
  | disconnected (p : ν)
  | connectionClosed (now : TimePoint) (p : ν) (items : List ItemId)

variable [DecidableEq τ] (id : τ → MessageHashType)

def NodeImpl.take (s : NodeImpl ν τ) : Input ν τ → Outcome ν (NodeImpl ν τ) (Message τ)
  | .own e => s.step id e
  | .received now p m => s.onMessage now id p m
  | .blockReceived p hash => ⟨s.processBlockMessage p hash, []⟩
  | .blockHandled now hash => ⟨s.blockHandled now hash, []⟩
  | .connected p n => ⟨(s.modifyPeer p fun _ => .fresh n).movePeerToActiveList p, []⟩
  | .synchronized p peer => ⟨s.modifyPeer p fun old => { old with toPeerConnection := peer }, []⟩
  | .disconnected p => ⟨s.disconnectFromPeer p, []⟩
  | .connectionClosed now p items => ⟨s.onConnectionClosed now p items, []⟩

omit [DecidableEq ν] [DecidableEq τ] in
/-- Synchronisation keeps what was requested in normal operation, and advertises nothing. -/
def Input.Possible (s : NodeImpl ν τ) : Input ν τ → Prop
  | .own e => e.Possible s
  | .connected p _ => p ∉ s.activeConnections
  | .synchronized p peer =>
    peer.itemsRequestedFromPeer = (s.peer p).itemsRequestedFromPeer ∧
      peer.inventoryPeerAdvertisedToUs.Sublist (s.peer p).inventoryPeerAdvertisedToUs
  | .connectionClosed _ p items => items.Nodup ∧ items.toFinset = (s.peer p).itemsRequestedFromPeer
  | .received _ _ _ | .blockReceived _ _ | .blockHandled _ _ | .disconnected _ => True

/-- An entry of the log of a node. -/
inductive Entry (ν τ : Type) where
  | took (i : Input ν τ)
  | sent (p : ν) (m : Message τ)

/-- A node, and all that it has taken and sent. -/
structure Logged (ν τ : Type) where
  node : NodeImpl ν τ
  log : List (Entry ν τ)

def Logged.start : Logged ν τ := ⟨.start, []⟩

def Logged.step (l : Logged ν τ) (i : Input ν τ) : Logged ν τ where
  node := (l.node.take id i).node
  log := l.log ++ .took i :: (l.node.take id i).sent.map fun m => .sent m.1 m.2

/-- A run from the start. -/
def Runs (inputs : List (Input ν τ)) : Prop :=
  Traces.Along (Logged.step id) (fun l i => i.Possible l.node) .start inputs

/-- The node and its log after a run. -/
def after (inputs : List (Input ν τ)) : Logged ν τ := Traces.run (Logged.step id) .start inputs

end Peers

end Achain.Net.Gossip
