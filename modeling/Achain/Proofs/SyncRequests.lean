import Achain.Net.Node

/-!
# Outstanding sync requests

A block is recorded as requested exactly when it has been requested from a connected peer, as long as
no peer answers a request for a sync block by saying that it does not have it: then the request is
dropped from the peer's record only. Apart from the requests themselves, blocks received, answers of
that kind and closed connections, no handler changes what is requested.
-/

namespace Achain.Net

variable {config : NetConfig} {s s' s'' : NodeImpl} {p q : PeerId} {id : ItemHashType}

def blockItem (id : ItemHashType) : ItemId := ⟨.blockMessageType, id⟩

namespace NodeImpl

/-- A peer has been asked for a block. -/
def Requested (s : NodeImpl) (p : PeerId) (id : ItemHashType) : Prop :=
  p ∈ s.connected ∧ blockItem id ∈ (s.peer p).syncItemsRequestedFromPeer

/-- The requests and the connected peers are the same. -/
structure SameRequests (s s' : NodeImpl) : Prop where
  active : s'.activeSyncRequests = s.activeSyncRequests
  peer : ∀ p, (s'.peer p).syncItemsRequestedFromPeer = (s.peer p).syncItemsRequestedFromPeer
  connected : ∀ p, p ∈ s'.connected ↔ p ∈ s.connected

namespace SameRequests

theorem refl (s : NodeImpl) : SameRequests s s := ⟨rfl, fun _ => rfl, fun _ => .rfl⟩

theorem trans (h : SameRequests s s') (h' : SameRequests s' s'') : SameRequests s s'' :=
  ⟨h'.active.trans h.active, fun p => (h'.peer p).trans (h.peer p),
    fun p => (h'.connected p).trans (h.connected p)⟩

/-- A loop through connected peers whose body changes no requests changes none. -/
theorem foldl {f : NodeImpl → PeerId → NodeImpl}
    (hf : ∀ s p, p ∈ s.connected → SameRequests s (f s p)) : ∀ {s : NodeImpl} {l : List PeerId},
    (∀ p ∈ l, p ∈ s.connected) → SameRequests s (l.foldl f s)
  | s, [], _ => .refl s
  | s, p :: l, hl => by
    have hfirst := hf s p (hl p List.mem_cons_self)
    refine hfirst.trans (foldl hf fun q hq => ?_)
    exact (hfirst.connected q).2 (hl q (List.mem_cons_of_mem _ hq))

end SameRequests

theorem mem_connected : p ∈ s.connected ↔ p ∈ s.activeConnections ∨ p ∈ s.handshakingConnections ∨
    p ∈ s.closingConnections ∨ p ∈ s.terminatingConnections := by
  simp [connected]

theorem connected_of_active (h : p ∈ s.activeConnections) : p ∈ s.connected :=
  mem_connected.2 (.inl h)

theorem connected_of_mem_filter {f : PeerId → Bool} (h : p ∈ s.activeConnections.filter f) :
    p ∈ s.connected :=
  connected_of_active (List.mem_of_mem_filter h)

theorem mem_connected_removeConnection : q ∈ (s.removeConnection p).connected ↔
    q ∈ s.connected ∧ q ≠ p := by
  simp only [mem_connected, removeConnection, List.mem_filter, bne_iff_ne]
  tauto

theorem modifyPeer_peer (f : PeerConnection → PeerConnection) :
    (s.modifyPeer p f).peer q = if q = p then f (s.peer p) else s.peer q := by
  unfold modifyPeer
  by_cases h : q = p
  · subst h
    simp
  · simp [h]

@[simp] theorem modifyPeer_peer_self (f : PeerConnection → PeerConnection) :
    (s.modifyPeer p f).peer p = f (s.peer p) := by
  rw [modifyPeer_peer, if_pos rfl]

/-! ## What changes no requests -/

theorem same_modifyPeer {f : PeerConnection → PeerConnection}
    (hf : (f (s.peer p)).syncItemsRequestedFromPeer = (s.peer p).syncItemsRequestedFromPeer) :
    SameRequests s (s.modifyPeer p f) := by
  refine ⟨rfl, fun q => ?_, fun _ => .rfl⟩
  rw [modifyPeer_peer]
  split_ifs with h
  · rw [hf, h]
  · rfl

/-- A connected peer that is moved to another list stays connected. -/
theorem same_moved (h : p ∈ s.connected) (hactive : s'.activeSyncRequests = s.activeSyncRequests)
    (hpeer : s'.peer = s.peer)
    (hconnected : ∀ q, q ∈ s'.connected ↔ q = p ∨ q ∈ (s.removeConnection p).connected) :
    SameRequests s s' := by
  refine ⟨hactive, fun q => by rw [hpeer], fun q => ?_⟩
  rw [hconnected, mem_connected_removeConnection]
  by_cases hq : q = p
  · simp [hq, h]
  · simp [hq]

theorem same_movePeerToActiveList (h : p ∈ s.connected) :
    SameRequests s (s.movePeerToActiveList p) := by
  refine same_moved h rfl rfl fun q => ?_
  simp only [mem_connected, movePeerToActiveList, List.mem_cons]
  tauto

theorem same_disconnectFromPeer (h : p ∈ s.connected) :
    SameRequests s (s.disconnectFromPeer p) := by
  refine same_moved h rfl rfl fun q => ?_
  simp only [mem_connected, disconnectFromPeer, movePeerToClosingList, List.mem_cons]
  tauto

theorem same_movePeerToTerminatingList (h : p ∈ s.connected) :
    SameRequests s (s.movePeerToTerminatingList p) := by
  refine same_moved h rfl rfl fun q => ?_
  simp only [mem_connected, movePeerToTerminatingList, List.mem_cons]
  tauto

theorem same_disconnect_foldl {l : List PeerId} (h : ∀ p ∈ l, p ∈ s.connected) :
    SameRequests s (l.foldl disconnectFromPeer s) :=
  .foldl (fun _ _ => same_disconnectFromPeer) h

theorem same_fetchNextBatchOfItemIdsFromPeer (s : NodeImpl) (p : PeerId) :
    SameRequests s (s.fetchNextBatchOfItemIdsFromPeer p) := by
  unfold fetchNextBatchOfItemIdsFromPeer
  dsimp only
  split
  · exact .refl s
  · exact same_modifyPeer rfl

theorem same_startSynchronizingWithPeer (s : NodeImpl) (p : PeerId) :
    SameRequests s (s.startSynchronizingWithPeer p) := by
  refine .trans ?_ (same_fetchNextBatchOfItemIdsFromPeer _ p)
  exact same_modifyPeer rfl

theorem popKnownItems_sync (d : NodeDelegate) : ∀ (items : List ItemHashType)
    (peer : PeerConnection), (popKnownItems d items peer).2.syncItemsRequestedFromPeer =
      peer.syncItemsRequestedFromPeer
  | [], _ => rfl
  | item :: items, peer => by
    rw [popKnownItems]
    split_ifs
    · exact popKnownItems_sync d items _
    · rfl

theorem extendItemsToGet_sync (items : List ItemHashType) (peer : PeerConnection) :
    (s.extendItemsToGet p items peer).2.syncItemsRequestedFromPeer =
      peer.syncItemsRequestedFromPeer := by
  cases items with
  | nil => rfl
  | cons item items =>
    rw [extendItemsToGet]
    dsimp only
    split_ifs
    · rfl
    · exact popKnownItems_sync s.delegate (item :: items) peer
    · cases s.delegate.getBlockNumber item <;> rfl
    · rfl

theorem same_continueWithPeer (hp : p ∈ s.connected) (n : Nat) :
    SameRequests s (s.continueWithPeer p n) := by
  have htrigger : SameRequests s s.triggerFetchSyncItemsLoop :=
    ⟨rfl, fun _ => rfl, fun _ => .rfl⟩
  unfold continueWithPeer
  dsimp only
  split_ifs
  · exact same_disconnectFromPeer hp
  · exact htrigger
  · exact same_fetchNextBatchOfItemIdsFromPeer s p
  · exact htrigger
  · exact same_fetchNextBatchOfItemIdsFromPeer s p

theorem same_onBlockchainItemIdsInventoryMessage (hp : p ∈ s.connected) (ids : List ItemHashType)
    (n : Nat) : SameRequests s (s.onBlockchainItemIdsInventoryMessage p ids n) := by
  unfold onBlockchainItemIdsInventoryMessage
  dsimp only
  have hextended : SameRequests s (s.modifyPeer p fun _ => (s.extendItemsToGet p ids
      { s.peer p with itemIdsRequestedFromPeer := false, numberOfUnfetchedItemIds := n }).2) :=
    same_modifyPeer (extendItemsToGet_sync ids _)
  split_ifs
  · exact .refl s
  · exact same_modifyPeer rfl
  · refine hextended.trans (same_continueWithPeer ?_ n)
    exact hp
  · exact hextended

theorem same_onFetchBlockchainItemIdsMessage (hp : p ∈ s.connected)
    (synopsis available : List ItemHashType) (inbound : Bool) :
    SameRequests s (s.onFetchBlockchainItemIdsMessage p synopsis available inbound) := by
  unfold onFetchBlockchainItemIdsMessage
  extract_lets inSync s₁ unseen s₂
  have h₁ : SameRequests s s₁ := same_modifyPeer rfl
  have h₂ : SameRequests s s₂ := by
    refine h₁.trans ?_
    unfold s₂
    split_ifs
    · exact same_startSynchronizingWithPeer s₁ p
    · exact .refl s₁
  have hp₂ := (h₂.connected p).2 hp
  split_ifs
  · exact h₂.trans (same_disconnectFromPeer hp₂)
  · exact h₂.trans ((same_movePeerToActiveList hp₂).trans (same_startSynchronizingWithPeer _ p))
  · exact h₂

theorem same_takeNextBlock (s : NodeImpl) (id : ItemHashType) :
    SameRequests s (s.takeNextBlock id) := by
  refine .foldl (fun s p _ => ?_) fun p => connected_of_active
  split_ifs
  · exact same_modifyPeer rfl
  · exact .refl s

theorem same_suspendIfFull (s : NodeImpl) : SameRequests s (s.suspendIfFull config) := by
  unfold suspendIfFull
  split_ifs <;> exact ⟨rfl, fun _ => rfl, fun _ => .rfl⟩

theorem same_processBacklogLoop (config : NetConfig) : ∀ (fuel : Nat) (s : NodeImpl),
    SameRequests s (processBacklogLoop config fuel s)
  | 0, s => .refl s
  | fuel + 1, s => by
    have hcollect : SameRequests s s.collectReceivedSyncItems := ⟨rfl, fun _ => rfl, fun _ => .rfl⟩
    rw [processBacklogLoop]
    refine hcollect.trans ?_
    dsimp only
    split
    · exact same_suspendIfFull _
    · rename_i msg _
      refine (same_takeNextBlock _ msg.blockId).trans ?_
      have hhandOver : ∀ s : NodeImpl, SameRequests s (s.handOver msg) := fun _ =>
        ⟨rfl, fun _ => rfl, fun _ => .rfl⟩
      split_ifs
      · exact same_suspendIfFull _
      · exact (hhandOver _).trans (same_suspendIfFull _)
      · exact (hhandOver _).trans (same_processBacklogLoop config fuel _)

theorem same_processBacklogOfSyncBlocks (s : NodeImpl) :
    SameRequests s (s.processBacklogOfSyncBlocks config) := by
  unfold processBacklogOfSyncBlocks
  dsimp only
  have hresumed : SameRequests s { s with suspendFetchingSyncBlocks := false } :=
    ⟨rfl, fun _ => rfl, fun _ => .rfl⟩
  have hloop := fun fuel => hresumed.trans (same_processBacklogLoop config fuel _)
  split_ifs
  · exact .refl s
  · exact (hloop _).trans ⟨rfl, fun _ => rfl, fun _ => .rfl⟩
  · exact hloop _

theorem same_pushRecent (config : NetConfig) (s : NodeImpl) (id : ItemHashType) :
    SameRequests s (s.pushRecent config id) := ⟨rfl, fun _ => rfl, fun _ => .rfl⟩

theorem acceptSyncBlock_sync (peer : PeerConnection) (msg : BlockMessage) :
    (peer.acceptSyncBlock msg).syncItemsRequestedFromPeer = peer.syncItemsRequestedFromPeer := by
  unfold PeerConnection.acceptSyncBlock
  split_ifs <;> rfl

theorem acceptBlock_sync (peer : PeerConnection) (now : TimePointSec) (msg : BlockMessage)
    (hash : MessageHashType) : (peer.acceptBlock now msg hash).syncItemsRequestedFromPeer =
      peer.syncItemsRequestedFromPeer := by
  unfold PeerConnection.acceptBlock PeerConnection.clearOldInventory
  dsimp only
  split_ifs <;> rfl

theorem same_sendSyncBlockToNodeDelegate (s : NodeImpl) (msg : BlockMessage) (handled : Handled) :
    SameRequests s (s.sendSyncBlockToNodeDelegate config msg handled) := by
  have herased : SameRequests s { s with
      handleMessageCallsInProgress := s.handleMessageCallsInProgress.erase msg } :=
    ⟨rfl, fun _ => rfl, fun _ => .rfl⟩
  unfold sendSyncBlockToNodeDelegate
  refine herased.trans ?_
  generalize { s with handleMessageCallsInProgress := _ } = s
  cases handled with
  | accepted =>
    dsimp only
    refine (same_pushRecent config s msg.blockId).trans ?_
    generalize s.pushRecent config msg.blockId = s
    generalize houtdated : (s.activeConnections.filter fun p =>
      config.outdated (s.peer p) msg.blockNum) = outdated
    generalize hothers : (s.activeConnections.filter fun p =>
      !config.outdated (s.peer p) msg.blockNum) = others
    have hactive : ∀ p ∈ others, p ∈ s.connected := hothers ▸ fun p => connected_of_mem_filter
    have hupdated : ∀ p ∈ others.filter fun p => !(s.peer p).exhausted, p ∈ s.connected :=
      fun p hp => hactive p (List.mem_of_mem_filter hp)
    have h₁ : SameRequests s ((others.filter fun p => !(s.peer p).exhausted).foldl
        (fun s p => s.modifyPeer p fun peer => peer.acceptSyncBlock msg) s) :=
      .foldl (fun s p _ => same_modifyPeer (acceptSyncBlock_sync _ msg)) hupdated
    have h₂ := h₁.trans (same_disconnect_foldl (l := outdated) fun p hp =>
      (h₁.connected p).2 (by rw [← houtdated] at hp; exact connected_of_mem_filter hp))
    refine h₂.trans (.trans (.foldl (fun s p _ => same_fetchNextBatchOfItemIdsFromPeer s p)
      fun p hp => ?_) (.foldl (fun s p _ => same_startSynchronizingWithPeer s p) fun p hp => ?_))
    · exact (h₂.connected p).2 (hupdated p (List.mem_of_mem_filter hp))
    · refine ((SameRequests.foldl (fun s p _ => same_fetchNextBatchOfItemIdsFromPeer s p)
        fun p hp => ?_).connected p).2 ((h₂.connected p).2 (hactive p (List.mem_of_mem_filter hp)))
      exact (h₂.connected p).2 (hupdated p (List.mem_of_mem_filter hp))
  | olderThanUndoHistory =>
    refine .foldl (fun s p _ => ?_) fun p => connected_of_active
    split_ifs
    · exact same_modifyPeer rfl
    · exact .refl s
  | rejected => exact same_disconnect_foldl fun p => connected_of_mem_filter

theorem same_processBlockDuringNormalOperation (s : NodeImpl) (now : TimePointSec)
    (msg : BlockMessage) (hash : MessageHashType) (handled : Handled) :
    SameRequests s (s.processBlockDuringNormalOperation config now msg hash handled) := by
  unfold processBlockDuringNormalOperation
  extract_lets accepted s₁ s₂ s₃
  have h₁ : SameRequests s s₁ := by
    unfold s₁
    split_ifs
    · exact .refl s
    · exact same_pushRecent config s msg.blockId
  have h₂ : SameRequests s s₂ := by
    refine h₁.trans (.foldl (fun s p _ => same_modifyPeer ?_) fun p => connected_of_active)
    exact acceptBlock_sync _ now msg hash
  have h₃ : SameRequests s s₃ := h₂.trans ⟨rfl, fun _ => rfl, fun _ => .rfl⟩
  split_ifs
  · exact h₃.trans (same_disconnect_foldl fun p => connected_of_mem_filter)
  · exact same_disconnect_foldl fun p => connected_of_mem_filter

theorem same_onFetchItemsMessage (s : NodeImpl) (p : PeerId) (items : List ItemHashType) :
    SameRequests s (s.onFetchItemsMessage p items) := by
  unfold onFetchItemsMessage
  dsimp only
  split
  · exact .refl s
  · split
    · exact same_modifyPeer rfl
    · exact .trans (same_modifyPeer rfl) (same_modifyPeer rfl)

/-! ## The requests -/

/-- A block is recorded as requested exactly when a connected peer has been asked for it. -/
def RequestsMatch (s : NodeImpl) : Prop :=
  ∀ id, id ∈ s.activeSyncRequests ↔ ∃ p, s.Requested p id

/-- The requests match, they are for blocks, and no block is requested from two peers. -/
structure RequestInv (s : NodeImpl) : Prop where
  matches' : s.RequestsMatch
  blocks : ∀ p ∈ s.connected, ∀ item ∈ (s.peer p).syncItemsRequestedFromPeer,
    item = blockItem item.itemHash
  unique : ∀ p q id, s.Requested p id → s.Requested q id → p = q

theorem SameRequests.requested_iff (h : SameRequests s s') :
    s'.Requested p id ↔ s.Requested p id := by
  unfold Requested
  rw [h.connected, h.peer]

theorem RequestInv.same (h : RequestInv s) (hsame : SameRequests s s') : RequestInv s' where
  matches' id := by
    simp only [hsame.active, hsame.requested_iff]
    exact h.matches' id
  blocks p hp := by
    rw [hsame.peer]
    exact h.blocks p ((hsame.connected p).1 hp)
  unique p q id hp hq := h.unique p q id (hsame.requested_iff.1 hp) (hsame.requested_iff.1 hq)

theorem requestInv_start (delegate : NodeDelegate) (head : ItemHashType) :
    RequestInv (.start delegate head) := by
  have hnone : ∀ p, p ∉ (NodeImpl.start delegate head).connected := fun p => List.not_mem_nil
  refine ⟨fun id => ⟨fun h => absurd h (Finset.notMem_empty id), ?_⟩, fun p hp => absurd hp (hnone p),
    fun p q id hp => absurd hp.1 (hnone p)⟩
  rintro ⟨p, hp, -⟩
  exact absurd hp (hnone p)

/-- A new peer has been asked for nothing. -/
theorem RequestInv.connect (h : RequestInv s) (hp : p ∉ s.connected) (n : Nat) :
    RequestInv { s.modifyPeer p fun _ => .fresh n with
      handshakingConnections := p :: s.handshakingConnections } := by
  set s' : NodeImpl := { s.modifyPeer p fun _ => .fresh n with
    handshakingConnections := p :: s.handshakingConnections } with hs'
  have hconnected : ∀ q, q ∈ s'.connected ↔ q = p ∨ q ∈ s.connected := by
    intro q
    simp only [mem_connected, hs', modifyPeer, List.mem_cons]
    tauto
  have hpeer : ∀ q, s'.peer q = if q = p then .fresh n else s.peer q :=
    fun q => modifyPeer_peer (s := s) fun _ => .fresh n
  have hrequested : ∀ q id, s'.Requested q id ↔ s.Requested q id := by
    intro q id
    unfold Requested
    rw [hconnected, hpeer]
    by_cases hq : q = p
    · simp [hq, hp, PeerConnection.fresh]
    · simp [hq]
  refine ⟨fun id => ?_, fun q hq item hitem => ?_, fun q r id hq hr => ?_⟩
  · simp only [hrequested]
    exact h.matches' id
  · rw [hpeer] at hitem
    by_cases hqp : q = p
    · rw [if_pos hqp] at hitem
      exact absurd hitem (Finset.notMem_empty item)
    · rw [if_neg hqp] at hitem
      exact h.blocks q (((hconnected q).1 hq).resolve_left hqp) item hitem
  · exact h.unique q r id ((hrequested q id).1 hq) ((hrequested r id).1 hr)

@[simp] theorem onConnectionClosed_peer : (s.onConnectionClosed p).peer = s.peer := by
  unfold onConnectionClosed
  dsimp only
  split_ifs <;> rfl

theorem mem_connected_onConnectionClosed : q ∈ (s.onConnectionClosed p).connected ↔
    q ∈ s.connected ∧ q ≠ p := by
  rw [← mem_connected_removeConnection]
  unfold onConnectionClosed
  dsimp only
  split_ifs <;> exact .rfl

/-- A closed connection takes the requests of the peer with it. -/
theorem RequestInv.onConnectionClosed (h : RequestInv s) (hp : p ∈ s.connected) :
    RequestInv (s.onConnectionClosed p) := by
  have hrequested : ∀ q id, (s.onConnectionClosed p).Requested q id ↔
      s.Requested q id ∧ q ≠ p := by
    intro q id
    unfold Requested
    rw [mem_connected_onConnectionClosed, onConnectionClosed_peer]
    exact and_right_comm
  have hactive : ∀ id, id ∈ (s.onConnectionClosed p).activeSyncRequests ↔
      id ∈ s.activeSyncRequests ∧ ¬ s.Requested p id := by
    intro id
    have hmem : blockItem id ∈ (s.peer p).syncItemsRequestedFromPeer ↔
        id ∈ (s.peer p).syncItemsRequestedFromPeer.image ItemId.itemHash := by
      rw [Finset.mem_image]
      refine ⟨fun hid => ⟨_, hid, rfl⟩, ?_⟩
      rintro ⟨item, hitem, rfl⟩
      rwa [← h.blocks p hp item hitem]
    unfold NodeImpl.onConnectionClosed Requested
    rw [hmem]
    dsimp only
    split_ifs with hempty
    · have hnone : (s.peer p).syncItemsRequestedFromPeer = ∅ := hempty
      rw [hnone]
      simp [removeConnection]
    · simp [removeConnection, triggerFetchSyncItemsLoop, hp]
  refine ⟨fun id => ?_, fun q hq item hitem => ?_, fun q r id hq hr => ?_⟩
  · rw [hactive, h.matches' id]
    constructor
    · rintro ⟨⟨q, hq⟩, hnot⟩
      exact ⟨q, (hrequested q id).2 ⟨hq, fun hqp => hnot (hqp ▸ hq)⟩⟩
    · rintro ⟨q, hq⟩
      obtain ⟨hq, hqp⟩ := (hrequested q id).1 hq
      exact ⟨⟨q, hq⟩, fun hp' => hqp (h.unique q p id hq hp')⟩
  · rw [onConnectionClosed_peer] at hitem
    exact h.blocks q (mem_connected_onConnectionClosed.1 hq).1 item hitem
  · exact h.unique q r id ((hrequested q id).1 hq).1 ((hrequested r id).1 hr).1

/-- A block received is no longer requested, from the peer and altogether. -/
theorem RequestInv.received (h : RequestInv s) (hp : s.Requested p id) :
    RequestInv { s.modifyPeer p fun peer => { peer with
        syncItemsRequestedFromPeer := peer.syncItemsRequestedFromPeer.erase (blockItem id) } with
      activeSyncRequests := s.activeSyncRequests.erase id } := by
  set s' : NodeImpl := { s.modifyPeer p fun peer => { peer with
      syncItemsRequestedFromPeer := peer.syncItemsRequestedFromPeer.erase (blockItem id) } with
    activeSyncRequests := s.activeSyncRequests.erase id } with hs'
  have hsync : ∀ q item, item ∈ (s'.peer q).syncItemsRequestedFromPeer ↔
      item ∈ (s.peer q).syncItemsRequestedFromPeer ∧ ¬ (q = p ∧ item = blockItem id) := by
    intro q item
    have hpeer : s'.peer q = _ := modifyPeer_peer (s := s) (p := p) (q := q) fun peer => { peer with
      syncItemsRequestedFromPeer := peer.syncItemsRequestedFromPeer.erase (blockItem id) }
    rw [hpeer]
    by_cases hq : q = p
    · subst hq
      simp [and_comm]
    · simp [hq]
  have hrequested : ∀ q id', s'.Requested q id' ↔ s.Requested q id' ∧ id' ≠ id := by
    intro q id'
    have hitem : blockItem id' = blockItem id ↔ id' = id := by simp [blockItem]
    unfold Requested
    rw [hsync, hitem, and_assoc]
    refine and_congr_right fun hq => and_congr_right fun hid => ?_
    refine ⟨fun hnot hid' => hnot ⟨?_, hid'⟩, fun hid' hboth => hid' hboth.2⟩
    subst hid'
    exact h.unique q p id' ⟨hq, hid⟩ hp
  refine ⟨fun id' => ?_, fun q hq item hitem => ?_, fun q r id' hq hr => ?_⟩
  · simp only [hrequested]
    rw [exists_and_right, ← h.matches' id', hs', Finset.mem_erase]
    exact and_comm
  · exact h.blocks q hq item ((hsync q item).1 hitem).1
  · exact h.unique q r id' ((hrequested q id').1 hq).1 ((hrequested r id').1 hr).1

/-- What requesting some blocks from a peer changes. -/
structure RequestedMore (s : NodeImpl) (p : PeerId) (items : List ItemHashType) (s' : NodeImpl) :
    Prop where
  active : ∀ id, id ∈ s'.activeSyncRequests ↔ id ∈ items ∨ id ∈ s.activeSyncRequests
  peer : ∀ q item, item ∈ (s'.peer q).syncItemsRequestedFromPeer ↔
    (q = p ∧ item ∈ items.map blockItem) ∨ item ∈ (s.peer q).syncItemsRequestedFromPeer
  connected : s'.connected = s.connected

theorem requestSyncItemsFromPeer_requestedMore : ∀ (items : List ItemHashType) (s : NodeImpl),
    RequestedMore s p items (s.requestSyncItemsFromPeer p items)
  | [], s => ⟨fun _ => by simp [requestSyncItemsFromPeer],
      fun _ _ => by simp [requestSyncItemsFromPeer], rfl⟩
  | item :: items, s => by
    set s₁ : NodeImpl := { s with activeSyncRequests := insert item s.activeSyncRequests } with hs₁
    set s₂ := s₁.modifyPeer p fun peer => { peer with
      syncItemsRequestedFromPeer := insert (blockItem item) peer.syncItemsRequestedFromPeer } with hs₂
    have hrest := requestSyncItemsFromPeer_requestedMore items s₂
    refine ⟨fun id => ?_, fun q i => ?_, hrest.connected⟩
    · refine (hrest.active id).trans ?_
      have hinsert : id ∈ s₂.activeSyncRequests ↔ id = item ∨ id ∈ s.activeSyncRequests :=
        Finset.mem_insert
      rw [hinsert, List.mem_cons]
      tauto
    · refine (hrest.peer q i).trans ?_
      rw [hs₂, modifyPeer_peer, List.map_cons, List.mem_cons]
      by_cases hq : q = p
      · subst hq
        simp only [hs₁, if_true, Finset.mem_insert, true_and]
        tauto
      · simp only [hs₁, hq, if_false, false_and]

theorem RequestedMore.requested_iff {items : List ItemHashType} (hmore : RequestedMore s p items s')
    (hp : p ∈ s.connected) : s'.Requested q id ↔ (q = p ∧ id ∈ items) ∨ s.Requested q id := by
  have hitem : blockItem id ∈ items.map blockItem ↔ id ∈ items :=
    List.mem_map_of_injective fun x y hxy => by simpa [blockItem] using hxy
  unfold Requested
  rw [hmore.peer, hitem, hmore.connected]
  constructor
  · rintro ⟨hq, hqp | hq'⟩
    · exact .inl hqp
    · exact .inr ⟨hq, hq'⟩
  · rintro (⟨rfl, hid⟩ | ⟨hq, hq'⟩)
    · exact ⟨hp, .inl ⟨rfl, hid⟩⟩
    · exact ⟨hq, .inr hq'⟩

/-- Blocks that are not requested may be requested from a peer. -/
theorem RequestInv.request {items : List ItemHashType} (h : RequestInv s) (hp : p ∈ s.connected)
    (hitems : ∀ id ∈ items, id ∉ s.activeSyncRequests) (hmore : RequestedMore s p items s') :
    RequestInv s' := by
  refine ⟨fun id => ?_, fun q hq item hitem => ?_, fun q r id hq hr => ?_⟩
  · rw [hmore.active, h.matches' id]
    simp only [hmore.requested_iff hp, exists_or]
    exact or_congr_left ⟨fun hid => ⟨p, rfl, hid⟩, fun ⟨_, _, hid⟩ => hid⟩
  · rcases (hmore.peer q item).1 hitem with ⟨-, hitem⟩ | hitem
    · obtain ⟨id, -, rfl⟩ := List.mem_map.1 hitem
      rfl
    · exact h.blocks q (hmore.connected ▸ hq) item hitem
  · rw [hmore.requested_iff hp] at hq hr
    rcases hq with ⟨rfl, hid⟩ | hq
    · rcases hr with ⟨rfl, -⟩ | hr
      · rfl
      · exact absurd ((h.matches' id).2 ⟨r, hr⟩) (hitems id hid)
    · rcases hr with ⟨rfl, hid⟩ | hr
      · exact absurd ((h.matches' id).2 ⟨q, hq⟩) (hitems id hid)
      · exact h.unique q r id hq hr

/-! ## Which blocks are requested -/

/-- Whether a block may be chosen. -/
theorem choose_iff {taken chosen : List ItemHashType} {item : ItemHashType} :
    (!s.haveAlreadyReceivedSyncItem item && !(taken ++ chosen).contains item &&
      item ∉ s.activeSyncRequests) = true ↔ s.haveAlreadyReceivedSyncItem item = false ∧
        item ∉ taken ∧ item ∉ chosen ∧ item ∉ s.activeSyncRequests := by
  simp [and_assoc]

theorem subset_chooseSyncItems {taken : List ItemHashType} : ∀ {items chosen : List ItemHashType},
    id ∈ chosen → id ∈ s.chooseSyncItems config taken items chosen
  | [], _, h => h
  | item :: items, chosen, h => by
    rw [chooseSyncItems]
    dsimp only
    split_ifs
    · exact List.mem_append_left _ h
    · exact subset_chooseSyncItems (List.mem_append_left _ h)
    · exact subset_chooseSyncItems h

/-- The blocks chosen from a peer's list, besides those chosen before. -/
theorem mem_chooseSyncItems {taken : List ItemHashType} : ∀ {items chosen : List ItemHashType},
    id ∈ s.chooseSyncItems config taken items chosen →
      id ∈ chosen ∨ id ∉ taken ∧ id ∉ s.activeSyncRequests
  | [], _, h => .inl h
  | item :: items, chosen, h => by
    rw [chooseSyncItems] at h
    dsimp only at h
    have happend : s.haveAlreadyReceivedSyncItem item = false ∧ item ∉ taken ∧ item ∉ chosen ∧
        item ∉ s.activeSyncRequests → id ∈ chosen ++ [item] →
        id ∈ chosen ∨ id ∉ taken ∧ id ∉ s.activeSyncRequests := by
      rintro ⟨-, htaken, -, hactive⟩ hid
      rcases List.mem_append.1 hid with hid | hid
      · exact .inl hid
      · rw [List.mem_singleton.1 hid]
        exact .inr ⟨htaken, hactive⟩
    split_ifs at h with hitem hfull
    · exact happend (choose_iff.1 hitem) h
    · rcases mem_chooseSyncItems h with h | h
      · exact happend (choose_iff.1 hitem) h
      · exact .inr h
    · exact mem_chooseSyncItems h

theorem nodup_chooseSyncItems {taken : List ItemHashType} : ∀ {items chosen : List ItemHashType},
    chosen.Nodup → (s.chooseSyncItems config taken items chosen).Nodup
  | [], _, h => h
  | item :: items, chosen, h => by
    rw [chooseSyncItems]
    dsimp only
    split_ifs with hitem hfull
    · exact h.append (List.nodup_singleton item) (by simpa using (choose_iff.1 hitem).2.2.1)
    · exact nodup_chooseSyncItems
        (h.append (List.nodup_singleton item) (by simpa using (choose_iff.1 hitem).2.2.1))
    · exact nodup_chooseSyncItems h

/-- A block of the list that has not been received is chosen, requested from another peer, or left
out because enough blocks are chosen. -/
theorem chooseSyncItems_complete {taken : List ItemHashType} : ∀ {items chosen : List ItemHashType},
    id ∈ items → s.haveAlreadyReceivedSyncItem id = false →
      id ∈ s.activeSyncRequests ∨ id ∈ taken ∨ id ∈ s.chooseSyncItems config taken items chosen ∨
        config.maximumBlocksPerPeerDuringSyncing ≤
          (s.chooseSyncItems config taken items chosen).length
  | item :: items, chosen, hid, hreceived => by
    rw [chooseSyncItems]
    dsimp only
    split_ifs with hitem hfull
    · exact .inr (.inr (.inr hfull))
    · rcases List.mem_cons.1 hid with rfl | hid
      · exact .inr (.inr (.inl (subset_chooseSyncItems (by simp))))
      · exact chooseSyncItems_complete hid hreceived
    · rcases List.mem_cons.1 hid with rfl | hid
      · by_cases hactive : id ∈ s.activeSyncRequests
        · exact .inl hactive
        by_cases htaken : id ∈ taken
        · exact .inr (.inl htaken)
        by_cases hchosen : id ∈ chosen
        · exact .inr (.inr (.inl (subset_chooseSyncItems hchosen)))
        · exact absurd (choose_iff.2 ⟨hreceived, htaken, hchosen, hactive⟩) hitem
      · exact chooseSyncItems_complete hid hreceived

/-- The requests scheduled are for blocks not requested before, and for different blocks. -/
theorem scheduleSyncItems_new (config : NetConfig) (s : NodeImpl) :
    ∀ (taken : List ItemHashType) (order : List PeerId),
    (∀ r ∈ s.scheduleSyncItems config taken order, r.1 ∈ order ∧ r.2.Nodup ∧
      ∀ id ∈ r.2, id ∉ taken ∧ id ∉ s.activeSyncRequests) ∧
    (s.scheduleSyncItems config taken order).Pairwise fun r r' => ∀ id ∈ r'.2, id ∉ r.2
  | _, [] => ⟨fun _ h => absurd h List.not_mem_nil, .nil⟩
  | taken, p :: order => by
    rw [scheduleSyncItems]
    dsimp only
    split_ifs
    · set chosen := s.chooseSyncItems config taken (s.peer p).idsOfItemsToGet [] with hchosen
      obtain ⟨hrest, hpairs⟩ := scheduleSyncItems_new config s (taken ++ chosen) order
      refine ⟨fun r hr => ?_, .cons (fun r hr id hid => ?_) hpairs⟩
      · rcases List.mem_cons.1 hr with rfl | hr
        · refine ⟨List.mem_cons_self, nodup_chooseSyncItems .nil, fun id hid => ?_⟩
          exact (mem_chooseSyncItems hid).resolve_left List.not_mem_nil
        · obtain ⟨hp, hnodup, hnew⟩ := hrest r hr
          refine ⟨List.mem_cons_of_mem _ hp, hnodup, fun id hid => ?_⟩
          exact ⟨fun htaken => (hnew id hid).1 (List.mem_append_left _ htaken), (hnew id hid).2⟩
      · exact fun hmem => ((hrest r hr).2.2 id hid).1 (List.mem_append_right _ hmem)
    · obtain ⟨hrest, hpairs⟩ := scheduleSyncItems_new config s taken order
      exact ⟨fun r hr => ⟨List.mem_cons_of_mem _ (hrest r hr).1, (hrest r hr).2⟩, hpairs⟩

theorem scheduleSyncItems_complete (config : NetConfig) (s : NodeImpl) {order : List PeerId} :
    ∀ taken : List ItemHashType, q ∈ order → (s.peer q).weNeedSyncItemsFromPeer = true →
      (s.peer q).idle = true → (s.peer q).inhibitFetchingSyncBlocks = false →
      id ∈ (s.peer q).idsOfItemsToGet → s.haveAlreadyReceivedSyncItem id = false →
      id ∈ s.activeSyncRequests ∨ id ∈ taken ∨
        (∃ r ∈ s.scheduleSyncItems config taken order, id ∈ r.2) ∨
        ∃ items, (q, items) ∈ s.scheduleSyncItems config taken order ∧
          config.maximumBlocksPerPeerDuringSyncing ≤ items.length := by
  induction order with
  | nil => exact fun _ hq => absurd hq List.not_mem_nil
  | cons p order ih =>
    intro taken hq hneed hidle hinhibit hid hreceived
    rw [scheduleSyncItems]
    dsimp only
    rcases List.mem_cons.1 hq with rfl | hq
    · rw [if_pos (by simp [hneed, hidle, hinhibit])]
      rcases chooseSyncItems_complete hid hreceived with h | h | h | h
      · exact .inl h
      · exact .inr (.inl h)
      · exact .inr (.inr (.inl ⟨_, List.mem_cons_self, h⟩))
      · exact .inr (.inr (.inr ⟨_, List.mem_cons_self, h⟩))
    · split_ifs
      · rcases ih _ hq hneed hidle hinhibit hid hreceived with h | h | ⟨r, hr, h⟩ | ⟨items, hr, h⟩
        · exact .inl h
        · rcases List.mem_append.1 h with h | h
          · exact .inr (.inl h)
          · exact .inr (.inr (.inl ⟨_, List.mem_cons_self, h⟩))
        · exact .inr (.inr (.inl ⟨r, List.mem_cons_of_mem _ hr, h⟩))
        · exact .inr (.inr (.inr ⟨items, List.mem_cons_of_mem _ hr, h⟩))
      · exact ih _ hq hneed hidle hinhibit hid hreceived

/-! ## The loop of requests -/

/-- One request of the loop; none is sent for no blocks. -/
def sendRequest (s : NodeImpl) (r : PeerId × List ItemHashType) : NodeImpl :=
  if r.2.isEmpty then s else s.requestSyncItemsFromPeer r.1 r.2

theorem sendRequest_requestedMore (s : NodeImpl) (r : PeerId × List ItemHashType) :
    RequestedMore s r.1 r.2 (s.sendRequest r) := by
  unfold sendRequest
  split_ifs with h
  · rw [List.isEmpty_iff.1 h]
    exact requestSyncItemsFromPeer_requestedMore [] s
  · exact requestSyncItemsFromPeer_requestedMore r.2 s

theorem RequestInv.sendRequests : ∀ {rs : List (PeerId × List ItemHashType)} {s : NodeImpl},
    RequestInv s → (∀ r ∈ rs, r.1 ∈ s.connected ∧ ∀ id ∈ r.2, id ∉ s.activeSyncRequests) →
    (rs.Pairwise fun r r' => ∀ id ∈ r'.2, id ∉ r.2) → RequestInv (rs.foldl sendRequest s)
  | [], _, h, _, _ => h
  | r :: rs, s, h, hnew, hpairs => by
    have hmore := sendRequest_requestedMore s r
    obtain ⟨hp, hitems⟩ := hnew r List.mem_cons_self
    rw [List.foldl_cons]
    refine sendRequests (h.request hp hitems hmore) (fun r' hr' => ?_) (List.pairwise_cons.1 hpairs).2
    obtain ⟨hp', hitems'⟩ := hnew r' (List.mem_cons_of_mem _ hr')
    refine ⟨hmore.connected ▸ hp', fun id hid hactive => ?_⟩
    rcases (hmore.active id).1 hactive with hmem | hmem
    · exact (List.pairwise_cons.1 hpairs).1 r' hr' id hid hmem
    · exact hitems' id hid hmem

/-- Everything requested before or scheduled is requested after the loop. -/
theorem sendRequests_requested : ∀ (rs : List (PeerId × List ItemHashType)) (s : NodeImpl),
    (∀ id, id ∈ s.activeSyncRequests ∨ (∃ r ∈ rs, id ∈ r.2) →
      id ∈ (rs.foldl sendRequest s).activeSyncRequests) ∧
    ∀ q item, item ∈ (s.peer q).syncItemsRequestedFromPeer ∨
      (∃ items, (q, items) ∈ rs ∧ item ∈ items.map blockItem) →
      item ∈ ((rs.foldl sendRequest s).peer q).syncItemsRequestedFromPeer
  | [], s => by simp
  | r :: rs, s => by
    have hmore := sendRequest_requestedMore s r
    obtain ⟨hactive, hpeer⟩ := sendRequests_requested rs (s.sendRequest r)
    refine ⟨fun id hid => hactive id ?_, fun q item hitem => hpeer q item ?_⟩
    · rcases hid with hid | ⟨r', hr', hid⟩
      · exact .inl ((hmore.active id).2 (.inr hid))
      · rcases List.mem_cons.1 hr' with rfl | hr'
        · exact .inl ((hmore.active id).2 (.inl hid))
        · exact .inr ⟨r', hr', hid⟩
    · rcases hitem with hitem | ⟨items, hr', hitem⟩
      · exact .inl ((hmore.peer q item).2 (.inr hitem))
      · rcases List.mem_cons.1 hr' with rfl | hr'
        · exact .inl ((hmore.peer q item).2 (.inl ⟨rfl, hitem⟩))
        · exact .inr ⟨items, hr', hitem⟩

theorem fetchSyncItemsLoop_eq (order : List PeerId) : s.fetchSyncItemsLoop config order =
    if s.suspendFetchingSyncBlocks then { s with syncItemsToFetchUpdated := false }
    else (({ s with syncItemsToFetchUpdated := false } : NodeImpl).scheduleSyncItems config []
      order).foldl sendRequest { s with syncItemsToFetchUpdated := false } := rfl

theorem same_started (s : NodeImpl) :
    SameRequests s { s with syncItemsToFetchUpdated := false } :=
  ⟨rfl, fun _ => rfl, fun _ => .rfl⟩

theorem RequestInv.fetchSyncItemsLoop (h : RequestInv s) (config : NetConfig) {order : List PeerId}
    (horder : order.Perm s.activeConnections) : RequestInv (s.fetchSyncItemsLoop config order) := by
  rw [fetchSyncItemsLoop_eq]
  have hstarted := h.same (same_started s)
  split_ifs
  · exact hstarted
  · obtain ⟨hnew, hpairs⟩ := scheduleSyncItems_new config
      { s with syncItemsToFetchUpdated := false } [] order
    refine hstarted.sendRequests (fun r hr => ?_) hpairs
    obtain ⟨hp, -, hids⟩ := hnew r hr
    exact ⟨connected_of_active (horder.mem_iff.1 hp), fun id hid => (hids id hid).2⟩

/-- After an iteration of the loop, a block that an idle peer offers is requested, unless the peer
has been asked for as many others as it may be. -/
theorem fetchSyncItemsLoop_requests (h : RequestInv s) {order : List PeerId}
    (horder : order.Perm s.activeConnections) (hsuspend : s.suspendFetchingSyncBlocks = false)
    (hq : q ∈ s.activeConnections) (hneed : (s.peer q).weNeedSyncItemsFromPeer = true)
    (hidle : (s.peer q).idle = true) (hinhibit : (s.peer q).inhibitFetchingSyncBlocks = false)
    (hid : id ∈ (s.peer q).idsOfItemsToGet) (hreceived : s.haveAlreadyReceivedSyncItem id = false) :
    (∃ p, (s.fetchSyncItemsLoop config order).Requested p id) ∨
      config.maximumBlocksPerPeerDuringSyncing ≤
        ((s.fetchSyncItemsLoop config order).peer q).syncItemsRequestedFromPeer.card := by
  have hinv := h.fetchSyncItemsLoop config horder
  rw [fetchSyncItemsLoop_eq, if_neg (by rw [hsuspend]; exact Bool.false_ne_true)] at hinv ⊢
  set s₁ : NodeImpl := { s with syncItemsToFetchUpdated := false } with hs₁
  obtain ⟨hactive, hpeer⟩ := sendRequests_requested (s₁.scheduleSyncItems config [] order) s₁
  obtain ⟨hnew, -⟩ := scheduleSyncItems_new config s₁ [] order
  have hscheduled := scheduleSyncItems_complete config s₁ []
    (horder.mem_iff.2 hq) hneed hidle hinhibit hid hreceived
  rcases hscheduled with h | h | h | ⟨items, hmem, hlen⟩
  · exact .inl ((hinv.matches' id).1 (hactive id (.inl h)))
  · exact absurd h List.not_mem_nil
  · exact .inl ((hinv.matches' id).1 (hactive id (.inr h)))
  · refine .inr (hlen.trans ?_)
    have hnodup : (items.map blockItem).Nodup :=
      (hnew _ hmem).2.1.map fun x y hxy => by simpa [blockItem] using hxy
    rw [← List.length_map blockItem, ← List.toFinset_card_of_nodup hnodup]
    refine Finset.card_le_card fun item hitem => hpeer q item (.inr ⟨items, hmem, ?_⟩)
    exact List.mem_toFinset.1 hitem

/-! ## Runs -/

/-- No peer says that it does not have a sync block it was asked for. -/
def Delivered (s : NodeImpl) : Event → Prop
  | .itemNotAvailable p item => item ∈ (s.peer p).itemsRequestedFromPeer ∨
      item ∉ (s.peer p).syncItemsRequestedFromPeer
  | _ => True

theorem RequestInv.processBlockMessage (h : RequestInv s) (hp : p ∈ s.connected)
    (now : TimePointSec) (msg : BlockMessage) (hash : MessageHashType) (handled : Handled) :
    RequestInv (s.processBlockMessage config now p msg hash handled) := by
  unfold NodeImpl.processBlockMessage
  split_ifs with hsize hitem hsync
  · exact h
  · exact h.same (.trans (same_modifyPeer rfl)
      (same_processBlockDuringNormalOperation _ now msg hash handled))
  · extract_lets item s₁ s₂ s₃ peer
    have h₂ : RequestInv s₂ := h.received ⟨hp, hsync⟩
    have h₃ : RequestInv s₃ := h₂.same ⟨rfl, fun _ => rfl, fun _ => .rfl⟩
    split_ifs
    · exact h₃
    · exact h₃.same (same_fetchNextBatchOfItemIdsFromPeer s₃ p)
    · exact h₃.same ⟨rfl, fun _ => rfl, fun _ => .rfl⟩
  · exact h.same (same_disconnectFromPeer hp)

theorem RequestInv.step (h : RequestInv s) {e : Event} (hpossible : s.Possible e)
    (hdelivered : s.Delivered e) : RequestInv (s.step config e) := by
  have hsame : ∀ s', s'.activeSyncRequests = s.activeSyncRequests → s'.peer = s.peer →
      s'.connected = s.connected → SameRequests s s' := fun s' hactive hpeer hconnected =>
    ⟨hactive, fun p => by rw [hpeer], fun p => by rw [hconnected]⟩
  cases e with
  | connect p n => exact h.connect hpossible n
  | newPeer p =>
    have hp : p ∈ s.connected := mem_connected.2 (.inr (.inl hpossible))
    exact h.same ((same_movePeerToActiveList hp).trans (same_startSynchronizingWithPeer _ p))
  | startSynchronizing order =>
    refine h.same (.foldl (fun s p _ => same_startSynchronizingWithPeer s p) fun p hp => ?_)
    exact connected_of_active (hpossible.mem_iff.1 hp)
  | fetchSyncItems order => exact h.fetchSyncItemsLoop config hpossible
  | itemIdsInventory p ids n =>
    exact h.same (same_onBlockchainItemIdsInventoryMessage hpossible ids n)
  | fetchBlockchainItemIds p synopsis available inbound =>
    exact h.same (same_onFetchBlockchainItemIdsMessage hpossible synopsis available inbound)
  | blockMessage now p msg hash handled =>
    exact h.processBlockMessage hpossible now msg hash handled
  | processBacklog => exact h.same (same_processBacklogOfSyncBlocks s)
  | syncBlockHandled msg handled => exact h.same (same_sendSyncBlockToNodeDelegate s msg handled)
  | itemNotAvailable p item =>
    show RequestInv (s.onItemNotAvailableMessage p item)
    unfold onItemNotAvailableMessage
    split_ifs with hitem hsync
    · exact h.same (same_modifyPeer rfl)
    · exact absurd hsync (hdelivered.resolve_left hitem)
    · exact h
  | fetchItems p items => exact h.same (same_onFetchItemsMessage s p items)
  | advertised p item now =>
    rw [NodeImpl.step]
    exact h.same (same_modifyPeer rfl)
  | itemRequested p item =>
    rw [NodeImpl.step]
    exact h.same (same_modifyPeer rfl)
  | broadcastBlock hash msg => exact h.same (hsame _ rfl rfl rfl)
  | cacheExpired kept => exact h.same (hsame _ rfl rfl rfl)
  | disconnect p => exact h.same (same_disconnectFromPeer hpossible)
  | terminate p => exact h.same (same_movePeerToTerminatingList hpossible)
  | connectionClosed p => exact h.onConnectionClosed hpossible
  | delegateChanges delegate => exact h.same (hsame _ rfl rfl rfl)

end NodeImpl

theorem Runs.requestInv (h : Runs config NodeImpl.Delivered s) : s.RequestInv :=
  h.keeps NodeImpl.requestInv_start fun _ _ hs hpossible hdelivered => hs.step hpossible hdelivered

/-- After every run in which no peer says that it does not have a sync block it was asked for, a block
is recorded as requested exactly when a connected peer has been asked for it. Then a block whose
provider's connection is closed is no longer requested and the loop of requests is triggered, and
whenever it runs, a block that an idle peer offers is requested, unless that peer is asked for as
many others as it may be. -/
theorem sync_requests_match (config : NetConfig) (s : NodeImpl)
    (h : Runs config NodeImpl.Delivered s) :
    s.RequestsMatch ∧
    (∀ p id, s.Requested p id → id ∉ (s.onConnectionClosed p).activeSyncRequests ∧
      (s.onConnectionClosed p).syncItemsToFetchUpdated = true) ∧
    ∀ order q id, order.Perm s.activeConnections → s.suspendFetchingSyncBlocks = false →
      q ∈ s.activeConnections → (s.peer q).weNeedSyncItemsFromPeer = true →
      (s.peer q).idle = true → (s.peer q).inhibitFetchingSyncBlocks = false →
      id ∈ (s.peer q).idsOfItemsToGet → s.haveAlreadyReceivedSyncItem id = false →
      (∃ p, (s.fetchSyncItemsLoop config order).Requested p id) ∨
        config.maximumBlocksPerPeerDuringSyncing ≤
          ((s.fetchSyncItemsLoop config order).peer q).syncItemsRequestedFromPeer.card := by
  have hinv := h.requestInv
  refine ⟨hinv.matches', fun p id hp => ⟨fun hid => ?_, ?_⟩, ?_⟩
  · obtain ⟨q, hq⟩ := ((hinv.onConnectionClosed hp.1).matches' id).1 hid
    have hq' : s.Requested q id ∧ q ≠ p := by
      unfold NodeImpl.Requested at hq ⊢
      rw [NodeImpl.mem_connected_onConnectionClosed, NodeImpl.onConnectionClosed_peer] at hq
      exact ⟨⟨hq.1.1, hq.2⟩, hq.1.2⟩
    exact hq'.2 (hinv.unique q p id hq'.1 hp)
  · have hne : ((s.removeConnection p).peer p).syncItemsRequestedFromPeer ≠ ∅ :=
      Finset.ne_empty_of_mem hp.2
    unfold NodeImpl.onConnectionClosed
    dsimp only
    rw [if_neg hne]
    rfl
  · intro order q id horder hsuspend hq hneed hidle hinhibit hid hreceived
    exact NodeImpl.fetchSyncItemsLoop_requests hinv horder hsuspend hq hneed hidle hinhibit hid
      hreceived

namespace Example

def netConfig : NetConfig where
  maximumBlocksPerPeerDuringSyncing := 100
  maximumNumberOfBlocksToHandleAtOneTime := 200
  maximumNumberOfSyncBlocksToPrefetch := 2000
  maximumNumberOfConnections := 200
  hardForkBlockNumbers := []

/-- A client that has block 5 only. -/
def oneBlock : NodeDelegate where
  hasItem id := id == 5
  getBlockNumber id := if id == 5 then some 1 else none
  getBlockTime _ := 10
  getBlockchainNow := 100
  getBlockchainSynopsis _ _ := some [5]
  getItem _ := none

/-- A peer connects and offers the block 6 after the block 5. -/
def offer (p : PeerId) : List Event :=
  [.connect p 0, .newPeer p, .itemIdsInventory p [5, 6] 0]

end Example

/-- Events one after the other, from some state. -/
def NodeImpl.steps (config : NetConfig) : NodeImpl → List Event → NodeImpl
  | s, [] => s
  | s, e :: es => (s.step config e).steps config es

/-- All of some events are possible and meet a condition that can be evaluated. -/
def NodeImpl.allOf (config : NetConfig) (ok : NodeImpl → Event → Prop) : NodeImpl → List Event → Prop
  | _, [] => True
  | s, e :: es => s.Possible e ∧ ok s e ∧ (s.step config e).allOf config ok es

theorem Runs.steps {ok : NodeImpl → Event → Prop} : ∀ {es : List Event} {s : NodeImpl},
    Runs config ok s → s.allOf config ok es → Runs config ok (s.steps config es)
  | [], _, h, _ => h
  | e :: _, _, h, hes => by
    rw [NodeImpl.steps]
    exact steps (h.step e hes.1 hes.2.1) hes.2.2

theorem sync_requests_match_at_request :
    ∃ s, Runs Example.netConfig NodeImpl.Delivered s ∧ s.activeSyncRequests = {6} ∧
      s.RequestsMatch := by
  have hrun : Runs Example.netConfig NodeImpl.Delivered ((NodeImpl.start Example.oneBlock 5).steps
      Example.netConfig (Example.offer 1 ++ [.fetchSyncItems [1]])) := by
    refine Runs.steps (.start _ _) ?_
    simp only [NodeImpl.allOf, Example.offer, List.cons_append, List.nil_append, NodeImpl.Possible,
      NodeImpl.Delivered, and_true, true_and]
    decide
  exact ⟨_, hrun, by decide, (sync_requests_match Example.netConfig _ hrun).1⟩

/-- A peer that needs blocks from us does not have the block it offered, and another peer offers it:
the block stays recorded as requested, no peer has been asked for it, and the loop of requests passes
it over. -/
theorem unavailable_stays_requested :
    ∃ s, Runs Example.netConfig (fun _ _ => True) s ∧ ¬ s.RequestsMatch ∧
      2 ∈ s.activeConnections ∧ 6 ∈ (s.peer 2).idsOfItemsToGet ∧ (s.peer 2).idle = true ∧
      ∀ p, ¬ (s.fetchSyncItemsLoop Example.netConfig [2, 1]).Requested p 6 := by
  have hrun : Runs Example.netConfig (fun _ _ => True) ((NodeImpl.start Example.oneBlock 5).steps
      Example.netConfig (Example.offer 1 ++ [.fetchSyncItems [1], .itemNotAvailable 1 (blockItem 6)] ++
        Example.offer 2)) := by
    refine Runs.steps (.start _ _) ?_
    simp only [NodeImpl.allOf, Example.offer, List.cons_append, List.nil_append, NodeImpl.Possible,
      and_true, true_and]
    decide
  refine ⟨_, hrun, fun hmatch => ?_, by decide, by decide, by decide, fun p hp => ?_⟩
  · obtain ⟨p, hp, hitem⟩ := (hmatch 6).1 (by decide)
    revert p
    decide
  · obtain ⟨hmem, hitem⟩ := hp
    revert p
    decide

end Achain.Net
