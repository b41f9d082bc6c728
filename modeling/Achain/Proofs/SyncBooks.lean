import Achain.Lib.Traces
import Achain.Net.SyncBooks
import Achain.Proofs.SyncRequests

/-!
# The books of the sync blocks are kept

Every block an active peer has in process is being handled by the client, every sync block received is
waiting until it is handed over or found to be accepted already, and the count of the items left to
fetch does not go below zero: as long as the backlog meets no block accepted already, no block too old
is still in process when the client is done with it, and fewer blocks are accepted after a count than
were counted.
-/

namespace Achain.Net

open NodeImpl Traces

variable {config : NetConfig} {s s' : NodeImpl} {p q : PeerId} {id : ItemHashType}
  {msg : BlockMessage}

namespace NodeImpl

/-- The sync blocks received that have not gone on. -/
def waiting (s : NodeImpl) : List BlockMessage := s.receivedSyncItems ++ s.newReceivedSyncItems

/-- The client is handling every block that an active peer has in process, and a peer that is
handshaking has none. -/
structure InProgress (s : NodeImpl) : Prop where
  handled : ∀ p ∈ s.activeConnections, ∀ id ∈ (s.peer p).idsOfItemsBeingProcessed,
    ∃ msg ∈ s.handleMessageCallsInProgress, msg.blockId = id
  fresh : ∀ p ∈ s.handshakingConnections, (s.peer p).idsOfItemsBeingProcessed = ∅
  disjoint : s.activeConnections.Disjoint s.handshakingConnections

/-- No sync block goes on, and only peers that were handshaking become active. -/
structure BlocksStay (s s' : NodeImpl) : Prop where
  calls : s'.handleMessageCallsInProgress = s.handleMessageCallsInProgress
  waiting : s'.waiting = s.waiting
  processed : ∀ p, (s'.peer p).idsOfItemsBeingProcessed = (s.peer p).idsOfItemsBeingProcessed
  active : ∀ p ∈ s'.activeConnections, p ∈ s.activeConnections ∨ p ∈ s.handshakingConnections
  handshaking : s'.handshakingConnections ⊆ s.handshakingConnections
  disjoint : s.activeConnections.Disjoint s.handshakingConnections →
    s'.activeConnections.Disjoint s'.handshakingConnections

namespace BlocksStay

theorem refl (s : NodeImpl) : BlocksStay s s :=
  ⟨rfl, rfl, fun _ => rfl, fun _ => .inl, fun _ h => h, fun h => h⟩

theorem trans {t : NodeImpl} (h : BlocksStay s t) (h' : BlocksStay t s') : BlocksStay s s' where
  calls := h'.calls.trans h.calls
  waiting := h'.waiting.trans h.waiting
  processed p := (h'.processed p).trans (h.processed p)
  active p hp := (h'.active p hp).elim (h.active p) fun hp => .inr (h.handshaking hp)
  handshaking _ hp := h.handshaking (h'.handshaking hp)
  disjoint hs := h'.disjoint (h.disjoint hs)

theorem foldl {α : Type} {f : NodeImpl → α → NodeImpl} (hf : ∀ s x, BlocksStay s (f s x)) :
    ∀ {s : NodeImpl} {l : List α}, BlocksStay s (l.foldl f s)
  | s, [] => .refl s
  | s, x :: _ => (hf s x).trans (foldl hf)

/-- Peers may be taken off the lists. -/
theorem of_subset (hcalls : s'.handleMessageCallsInProgress = s.handleMessageCallsInProgress)
    (hwaiting : s'.waiting = s.waiting) (hpeer : s'.peer = s.peer)
    (hactive : s'.activeConnections ⊆ s.activeConnections)
    (hhandshaking : s'.handshakingConnections ⊆ s.handshakingConnections) : BlocksStay s s' where
  calls := hcalls
  waiting := hwaiting
  processed p := by rw [hpeer]
  active p hp := .inl (hactive hp)
  handshaking := hhandshaking
  disjoint h p hp hp' := h (hactive hp) (hhandshaking hp')

theorem of_eq (hcalls : s'.handleMessageCallsInProgress = s.handleMessageCallsInProgress)
    (hwaiting : s'.waiting = s.waiting) (hpeer : s'.peer = s.peer)
    (hactive : s'.activeConnections = s.activeConnections)
    (hhandshaking : s'.handshakingConnections = s.handshakingConnections) : BlocksStay s s' :=
  .of_subset hcalls hwaiting hpeer (hactive ▸ List.Subset.refl _)
    (hhandshaking ▸ List.Subset.refl _)

theorem inProgress (h : BlocksStay s s') (hs : s.InProgress) : s'.InProgress where
  handled p hp id hid := by
    rw [h.processed] at hid
    rw [h.calls]
    rcases h.active p hp with hp | hp
    · exact hs.handled p hp id hid
    · rw [hs.fresh p hp] at hid
      exact absurd hid (Finset.notMem_empty id)
  fresh p hp := by rw [h.processed, hs.fresh p (h.handshaking hp)]
  disjoint := h.disjoint hs.disjoint

end BlocksStay

/-! ## What leaves the sync blocks where they are -/

theorem stay_modifyPeer {f : PeerConnection → PeerConnection}
    (hf : (f (s.peer p)).idsOfItemsBeingProcessed = (s.peer p).idsOfItemsBeingProcessed) :
    BlocksStay s (s.modifyPeer p f) := by
  refine ⟨rfl, rfl, fun q => ?_, fun _ => .inl, fun _ h => h, fun h => h⟩
  rw [modifyPeer_peer]
  split_ifs with h
  · rw [hf, h]
  · rfl

theorem stay_removeConnection (s : NodeImpl) (p : PeerId) : BlocksStay s (s.removeConnection p) :=
  .of_subset rfl rfl rfl (List.filter_subset_self ..) (List.filter_subset_self ..)

theorem stay_disconnectFromPeer (s : NodeImpl) (p : PeerId) :
    BlocksStay s (s.disconnectFromPeer p) :=
  (stay_removeConnection s p).trans (.of_eq rfl rfl rfl rfl rfl)

theorem stay_movePeerToTerminatingList (s : NodeImpl) (p : PeerId) :
    BlocksStay s (s.movePeerToTerminatingList p) :=
  (stay_removeConnection s p).trans (.of_eq rfl rfl rfl rfl rfl)

theorem stay_movePeerToActiveList (hp : p ∈ s.handshakingConnections) :
    BlocksStay s (s.movePeerToActiveList p) where
  calls := rfl
  waiting := rfl
  processed _ := rfl
  active q hq := by
    rcases List.mem_cons.1 hq with rfl | hq
    · exact .inr hp
    · exact .inl (List.mem_of_mem_filter hq)
  handshaking := List.filter_subset_self ..
  disjoint hs q hq hq' := by
    obtain ⟨hq', hne⟩ := List.mem_filter.1 hq'
    rcases List.mem_cons.1 hq with rfl | hq
    · simp at hne
    · exact hs (List.mem_of_mem_filter hq) hq'

theorem stay_fetchNextBatchOfItemIdsFromPeer (s : NodeImpl) (p : PeerId) :
    BlocksStay s (s.fetchNextBatchOfItemIdsFromPeer p) := by
  unfold fetchNextBatchOfItemIdsFromPeer
  dsimp only
  split
  · exact .refl s
  · exact stay_modifyPeer rfl

theorem stay_startSynchronizingWithPeer (s : NodeImpl) (p : PeerId) :
    BlocksStay s (s.startSynchronizingWithPeer p) := by
  refine .trans ?_ (stay_fetchNextBatchOfItemIdsFromPeer _ p)
  exact stay_modifyPeer rfl

theorem stay_sendRequest (s : NodeImpl) (r : PeerId × List ItemHashType) :
    BlocksStay s (s.sendRequest r) := by
  unfold sendRequest requestSyncItemsFromPeer
  split_ifs
  · exact .refl s
  · refine .foldl fun s item => ?_
    refine .trans (t := { s with activeSyncRequests := insert item s.activeSyncRequests })
      (.of_eq rfl rfl rfl rfl rfl) ?_
    exact stay_modifyPeer rfl

theorem stay_fetchSyncItemsLoop (s : NodeImpl) (order : List PeerId) :
    BlocksStay s (s.fetchSyncItemsLoop config order) := by
  rw [fetchSyncItemsLoop_eq]
  split_ifs
  · exact .of_eq rfl rfl rfl rfl rfl
  · exact .trans (t := { s with syncItemsToFetchUpdated := false }) (.of_eq rfl rfl rfl rfl rfl)
      (.foldl fun s r => stay_sendRequest s r)

theorem popKnownItems_processed (d : NodeDelegate) : ∀ (items : List ItemHashType)
    (peer : PeerConnection), (popKnownItems d items peer).2.idsOfItemsBeingProcessed =
      peer.idsOfItemsBeingProcessed
  | [], _ => rfl
  | item :: items, peer => by
    rw [popKnownItems]
    split_ifs
    · exact popKnownItems_processed d items _
    · rfl

theorem extendItemsToGet_processed (items : List ItemHashType) (peer : PeerConnection) :
    (s.extendItemsToGet p items peer).2.idsOfItemsBeingProcessed =
      peer.idsOfItemsBeingProcessed := by
  cases items with
  | nil => rfl
  | cons item items =>
    rw [extendItemsToGet]
    dsimp only
    split_ifs
    · rfl
    · exact popKnownItems_processed s.delegate (item :: items) peer
    · cases s.delegate.getBlockNumber item <;> rfl
    · rfl

theorem stay_continueWithPeer (s : NodeImpl) (p : PeerId) (n : Nat) :
    BlocksStay s (s.continueWithPeer p n) := by
  have htrigger : BlocksStay s s.triggerFetchSyncItemsLoop := .of_eq rfl rfl rfl rfl rfl
  unfold continueWithPeer
  dsimp only
  split_ifs
  · exact stay_disconnectFromPeer s p
  · exact htrigger
  · exact stay_fetchNextBatchOfItemIdsFromPeer s p
  · exact htrigger
  · exact stay_fetchNextBatchOfItemIdsFromPeer s p

theorem stay_onBlockchainItemIdsInventoryMessage (s : NodeImpl) (p : PeerId)
    (ids : List ItemHashType) (n : Nat) :
    BlocksStay s (s.onBlockchainItemIdsInventoryMessage p ids n) := by
  unfold onBlockchainItemIdsInventoryMessage
  dsimp only
  have hextended : BlocksStay s (s.modifyPeer p fun _ => (s.extendItemsToGet p ids
      { s.peer p with itemIdsRequestedFromPeer := false, numberOfUnfetchedItemIds := n }).2) :=
    stay_modifyPeer (extendItemsToGet_processed ids _)
  split_ifs
  · exact .refl s
  · exact stay_modifyPeer rfl
  · exact hextended.trans (stay_continueWithPeer _ p n)
  · exact hextended

theorem stay_onFetchBlockchainItemIdsMessage (s : NodeImpl) (p : PeerId)
    (synopsis available : List ItemHashType) (inbound : Bool) :
    BlocksStay s (s.onFetchBlockchainItemIdsMessage p synopsis available inbound) := by
  unfold onFetchBlockchainItemIdsMessage
  extract_lets inSync s₁ unseen s₂
  have h₁ : BlocksStay s s₁ := stay_modifyPeer rfl
  have h₂ : BlocksStay s s₂ := by
    refine h₁.trans ?_
    unfold s₂
    split_ifs
    · exact stay_startSynchronizingWithPeer s₁ p
    · exact .refl s₁
  split_ifs with _ hhandshaking
  · exact h₂.trans (stay_disconnectFromPeer s₂ p)
  · have hp : p ∈ s₂.handshakingConnections := by simpa using (Bool.and_eq_true_iff.1 hhandshaking).2
    exact h₂.trans ((stay_movePeerToActiveList hp).trans (stay_startSynchronizingWithPeer _ p))
  · exact h₂

theorem acceptBlock_processed (peer : PeerConnection) (now : TimePointSec) (msg : BlockMessage)
    (hash : MessageHashType) : (peer.acceptBlock now msg hash).idsOfItemsBeingProcessed =
      peer.idsOfItemsBeingProcessed := by
  unfold PeerConnection.acceptBlock PeerConnection.clearOldInventory
  dsimp only
  split_ifs <;> rfl

theorem stay_normalBlockAccepted (s : NodeImpl) (now : TimePointSec) (msg : BlockMessage)
    (hash : MessageHashType) : BlocksStay s (s.normalBlockAccepted config now msg hash) := by
  unfold normalBlockAccepted
  extract_lets s₁ s₂
  have h₁ : BlocksStay s s₁ := by
    refine .foldl fun s p => stay_modifyPeer ?_
    exact acceptBlock_processed _ now msg hash
  have h₂ : BlocksStay s s₂ := h₁.trans (.of_eq rfl rfl rfl rfl rfl)
  exact h₂.trans (.foldl stay_disconnectFromPeer)

theorem stay_normalBlockRejected (s : NodeImpl) (msg : BlockMessage) :
    BlocksStay s (s.normalBlockRejected msg) := .foldl stay_disconnectFromPeer

theorem stay_pushRecent (s : NodeImpl) (id : ItemHashType) : BlocksStay s (s.pushRecent config id) :=
  .of_eq rfl rfl rfl rfl rfl

/-- A normal block that the client handles at once goes through the two halves. -/
theorem stay_processBlockDuringNormalOperation (s : NodeImpl) (now : TimePointSec)
    (msg : BlockMessage) (hash : MessageHashType) (handled : Handled) :
    BlocksStay s (s.processBlockDuringNormalOperation config now msg hash handled) := by
  have haccepted : ∀ s : NodeImpl, BlocksStay s (s.normalBlockAccepted config now msg hash) :=
    fun s => stay_normalBlockAccepted s now msg hash
  unfold processBlockDuringNormalOperation
  extract_lets accepted s₁
  split_ifs
  · refine .trans (t := s₁) ?_ (haccepted s₁)
    unfold s₁
    split_ifs
    · exact .refl s
    · exact stay_pushRecent s msg.blockId
  · exact stay_normalBlockRejected s msg

theorem stay_onItemNotAvailableMessage (s : NodeImpl) (p : PeerId) (item : ItemId) :
    BlocksStay s (s.onItemNotAvailableMessage p item) := by
  unfold onItemNotAvailableMessage
  split_ifs
  · exact stay_modifyPeer rfl
  · extract_lets s₁ s₂
    have h₁ : BlocksStay s s₁ := stay_modifyPeer rfl
    have h₂ : BlocksStay s₁ s₂ := by
      unfold s₂
      split_ifs
      · exact stay_modifyPeer rfl
      · exact stay_disconnectFromPeer s₁ p
    exact h₁.trans (h₂.trans (.of_eq rfl rfl rfl rfl rfl))
  · exact .refl s

theorem stay_onFetchItemsMessage (s : NodeImpl) (p : PeerId) (items : List ItemHashType) :
    BlocksStay s (s.onFetchItemsMessage p items) := by
  unfold onFetchItemsMessage
  dsimp only
  split
  · exact .refl s
  · split
    · exact stay_modifyPeer rfl
    · exact .trans (stay_modifyPeer rfl) (stay_modifyPeer rfl)

theorem stay_onConnectionClosed (s : NodeImpl) (p : PeerId) :
    BlocksStay s (s.onConnectionClosed p) := by
  unfold onConnectionClosed
  dsimp only
  refine (stay_removeConnection s p).trans ?_
  split_ifs
  · exact .refl _
  · exact .of_eq rfl rfl rfl rfl rfl

/-! ## What moves them -/

theorem inProgress_connect (config : NetConfig) (hs : s.InProgress) (hp : p ∉ s.connected) (n : Nat) :
    (s.step config (.connect p n)).InProgress := by
  rw [mem_connected, not_or] at hp
  have hother : ∀ q, q ≠ p → (s.step config (.connect p n)).peer q = s.peer q := fun q hq => by
    change (s.modifyPeer p fun _ => .fresh n).peer q = _
    rw [modifyPeer_peer, if_neg hq]
  refine ⟨fun q hq id hid => ?_, fun q hq => ?_, fun q hq hq' => ?_⟩
  · rw [hother q (fun e => hp.1 (e ▸ hq))] at hid
    exact hs.handled q hq id hid
  · by_cases hqp : q = p
    · subst hqp
      change ((s.modifyPeer q fun _ => .fresh n).peer q).idsOfItemsBeingProcessed = _
      rw [modifyPeer_peer_self]
      rfl
    · rw [hother q hqp]
      exact hs.fresh q ((List.mem_cons.1 hq).resolve_left hqp)
  · rcases List.mem_cons.1 hq' with rfl | hq'
    · exact hp.1 hq
    · exact hs.disjoint hq hq'

/-- A loop that changes peers changes nothing else. -/
theorem foldl_modified {f : NodeImpl → PeerId → NodeImpl}
    (hf : ∀ s p, ∃ peer, f s p = { s with peer := peer }) : ∀ (l : List PeerId) (s : NodeImpl),
    ∃ peer, l.foldl f s = { s with peer := peer }
  | [], s => ⟨s.peer, rfl⟩
  | p :: l, s => by
    obtain ⟨peer, hpeer⟩ := hf s p
    obtain ⟨peer', hpeer'⟩ := foldl_modified hf l (f s p)
    exact ⟨peer', by rw [List.foldl_cons, hpeer', hpeer]⟩

theorem takeNextBlock_eq (s : NodeImpl) (id : ItemHashType) :
    ∃ peer, s.takeNextBlock id = { s with peer := peer } := by
  refine foldl_modified (fun s p => ?_) s.activeConnections s
  split_ifs
  · exact ⟨_, rfl⟩
  · exact ⟨s.peer, rfl⟩

/-- A block that is taken gets into process at active peers only. -/
theorem takeNextBlock_processed (s : NodeImpl) (id : ItemHashType) (p : PeerId) :
    ((s.takeNextBlock id).peer p).idsOfItemsBeingProcessed ⊆
        insert id (s.peer p).idsOfItemsBeingProcessed ∧
      (p ∉ s.activeConnections → (s.takeNextBlock id).peer p = s.peer p) := by
  unfold takeNextBlock
  generalize s.activeConnections = l
  induction l generalizing s with
  | nil => exact ⟨Finset.subset_insert _ _, fun _ => rfl⟩
  | cons q l ih =>
    rw [List.foldl_cons]
    split_ifs with hnext
    · refine ⟨(ih _).1.trans ?_, fun hp => ?_⟩
      · rw [modifyPeer_peer]
        split_ifs with hpq
        · subst hpq
          simp
        · rfl
      · obtain ⟨hpq, hp⟩ := not_or.1 (List.mem_cons.not.1 hp)
        rw [(ih _).2 hp, modifyPeer_peer, if_neg hpq]
    · exact ⟨(ih s).1, fun hp => (ih s).2 (List.mem_cons.not.1 hp ∘ .inr)⟩

/-- A block that is taken and handed over is being handled. -/
theorem inProgress_handOver (hs : s.InProgress) (msg : BlockMessage) :
    ((s.takeNextBlock msg.blockId).handOver msg).InProgress := by
  have hprocessed := takeNextBlock_processed s msg.blockId
  obtain ⟨peer, htaken⟩ := takeNextBlock_eq s msg.blockId
  rw [htaken] at hprocessed ⊢
  refine ⟨fun p hp id hid => ?_, fun p hp => ?_, hs.disjoint⟩
  · rcases Finset.mem_insert.1 ((hprocessed p).1 hid) with rfl | hid
    · exact ⟨msg, by simp [handOver], rfl⟩
    · obtain ⟨msg', hmsg', hid'⟩ := hs.handled p hp id hid
      exact ⟨msg', List.mem_append_left _ hmsg', hid'⟩
  · have hpeer := (hprocessed p).2 fun hp' => hs.disjoint hp' hp
    exact (congrArg PeerConnection.idsOfItemsBeingProcessed hpeer).trans (hs.fresh p hp)

/-- The sync blocks of one kind of record, the last one first. -/
def handedOver (records : List SyncRecord) : List BlockMessage :=
  records.filterMap fun | .handedOver msg => some msg | _ => none

def foundAccepted (records : List SyncRecord) : List BlockMessage :=
  records.filterMap fun | .foundAccepted msg => some msg | _ => none

def received (records : List SyncRecord) : List BlockMessage :=
  records.filterMap fun | .received msg => some msg | _ => none

theorem waiting_handOver (hmsg : msg ∈ s.receivedSyncItems) (id : ItemHashType) :
    (msg :: ((s.takeNextBlock id).handOver msg).waiting).Perm s.waiting := by
  obtain ⟨peer, htaken⟩ := takeNextBlock_eq s id
  rw [htaken]
  exact (List.perm_cons_erase hmsg).symm.append_right s.newReceivedSyncItems

theorem waiting_collectReceivedSyncItems (s : NodeImpl) :
    s.collectReceivedSyncItems.waiting.Perm s.waiting := by
  simp only [collectReceivedSyncItems, waiting, List.append_nil]
  exact (List.perm_append_comm).trans ((List.reverse_perm _).append_left _)

theorem stay_suspendIfFull (config : NetConfig) (s : NodeImpl) :
    BlocksStay s (s.suspendIfFull config) := by
  unfold suspendIfFull
  split_ifs <;> exact .of_eq rfl rfl rfl rfl rfl

/-- The backlog, as long as it meets no block that was accepted already. -/
theorem backlog_books (config : NetConfig) : ∀ (fuel : Nat) (s : NodeImpl), s.InProgress →
    foundAccepted (backlogRecords config fuel s) = [] →
      (processBacklogLoop config fuel s).InProgress ∧
        (handedOver (backlogRecords config fuel s) ++
          (processBacklogLoop config fuel s).waiting).Perm s.waiting
  | 0, s, hs, _ => ⟨hs, .refl _⟩
  | fuel + 1, s, hs, hnone => by
    have hcollected : s.collectReceivedSyncItems.InProgress := ⟨hs.handled, hs.fresh, hs.disjoint⟩
    have hwaiting := waiting_collectReceivedSyncItems s
    rw [backlogRecords] at hnone ⊢
    rw [processBacklogLoop]
    generalize s.collectReceivedSyncItems = c at *
    dsimp only at hnone ⊢
    cases hfind : c.receivedSyncItems.find? fun msg => c.isNextBlock msg.blockId with
    | none =>
      have hstay := stay_suspendIfFull config c
      exact ⟨hstay.inProgress hcollected, by
        simpa [handedOver, hstay.waiting] using hwaiting⟩
    | some msg =>
      rw [hfind] at hnone
      dsimp only at hnone ⊢
      have hhanded := inProgress_handOver hcollected msg
      have hmoved := (waiting_handOver (List.mem_of_find?_eq_some hfind) msg.blockId).trans
        hwaiting
      split_ifs at hnone ⊢ with haccepted hfull
      · simp [foundAccepted] at hnone
      · have hstay := stay_suspendIfFull config ((c.takeNextBlock msg.blockId).handOver msg)
        exact ⟨hstay.inProgress hhanded, by simpa [handedOver, hstay.waiting] using hmoved⟩
      · obtain ⟨hrest, hperm⟩ := backlog_books config fuel _ hhanded (by
          simpa [foundAccepted] using hnone)
        refine ⟨hrest, ?_⟩
        have hlast : handedOver (backlogRecords config fuel ((c.takeNextBlock msg.blockId).handOver msg)
            ++ [.handedOver msg]) = handedOver (backlogRecords config fuel
              ((c.takeNextBlock msg.blockId).handOver msg)) ++ [msg] := by simp [handedOver]
        rw [hlast, List.append_assoc]
        exact List.perm_middle.trans ((hperm.cons msg).trans hmoved)

theorem processBacklog_books (hs : s.InProgress)
    (hnone : foundAccepted (s.processBacklogRecords config) = []) :
    (s.processBacklogOfSyncBlocks config).InProgress ∧
      (handedOver (s.processBacklogRecords config) ++
        (s.processBacklogOfSyncBlocks config).waiting).Perm s.waiting := by
  unfold processBacklogRecords at hnone ⊢
  unfold processBacklogOfSyncBlocks
  split_ifs at hnone ⊢ with hfull
  · exact ⟨hs, .refl _⟩
  · extract_lets s₁ s₂
    have hresumed : s₁.InProgress := ⟨hs.handled, hs.fresh, hs.disjoint⟩
    obtain ⟨hloop, hmoved⟩ := backlog_books config _ s₁ hresumed hnone
    have htrigger : BlocksStay s₂ (if !s₂.suspendFetchingSyncBlocks then
        s₂.triggerFetchSyncItemsLoop else s₂) := by
      split_ifs
      · exact .of_eq rfl rfl rfl rfl rfl
      · exact .refl s₂
    refine ⟨htrigger.inProgress hloop, ?_⟩
    rw [htrigger.waiting]
    exact hmoved

/-- The client is done with a block, which only peers have in process for which it is still handling
the same block. -/
theorem InProgress.done (hs : s.InProgress) (msg : BlockMessage)
    (hcalls : s'.handleMessageCallsInProgress = s.handleMessageCallsInProgress.erase msg)
    (hactive : ∀ p ∈ s'.activeConnections, p ∈ s.activeConnections ∧
      ∀ id ∈ (s'.peer p).idsOfItemsBeingProcessed, id ∈ (s.peer p).idsOfItemsBeingProcessed ∧
        (id = msg.blockId → ∃ msg' ∈ s.handleMessageCallsInProgress.erase msg, msg'.blockId = id))
    (hhandshaking : ∀ p ∈ s'.handshakingConnections, p ∈ s.handshakingConnections ∧
      (s'.peer p).idsOfItemsBeingProcessed ⊆ (s.peer p).idsOfItemsBeingProcessed) :
    s'.InProgress where
  handled p hp id hid := by
    obtain ⟨hp, hids⟩ := hactive p hp
    obtain ⟨hid, hsame⟩ := hids id hid
    rw [hcalls]
    by_cases hne : id = msg.blockId
    · exact hsame hne
    · obtain ⟨msg', hmsg', rfl⟩ := hs.handled p hp id hid
      exact ⟨msg', (List.mem_erase_of_ne fun e => hne (by rw [e])).2 hmsg', rfl⟩
  fresh p hp := by
    obtain ⟨hp, hsub⟩ := hhandshaking p hp
    exact Finset.subset_empty.1 (hs.fresh p hp ▸ hsub)
  disjoint p hp hp' := hs.disjoint (hactive p hp).1 (hhandshaking p hp').1

theorem mem_active_disconnect_foldl : ∀ {l : List PeerId} {s : NodeImpl},
    p ∈ (l.foldl disconnectFromPeer s).activeConnections → p ∈ s.activeConnections ∧ p ∉ l
  | [], _, h => ⟨h, List.not_mem_nil⟩
  | q :: l, s, h => by
    obtain ⟨hactive, hl⟩ := mem_active_disconnect_foldl (l := l) h
    obtain ⟨hactive, hne⟩ := List.mem_filter.1 hactive
    exact ⟨hactive, by simpa [hl] using hne⟩

theorem acceptSyncBlock_processed (peer : PeerConnection) (msg : BlockMessage) :
    (peer.acceptSyncBlock msg).idsOfItemsBeingProcessed =
      peer.idsOfItemsBeingProcessed.erase msg.blockId := by
  unfold PeerConnection.acceptSyncBlock
  split_ifs with h
  · rfl
  · exact (Finset.erase_eq_of_notMem h).symm

theorem foldl_acceptSyncBlock_processed (msg : BlockMessage) (p : PeerId) :
    ∀ (l : List PeerId) (s : NodeImpl),
      ((l.foldl (fun s p => s.modifyPeer p fun peer => peer.acceptSyncBlock msg) s).peer
        p).idsOfItemsBeingProcessed =
          if p ∈ l then (s.peer p).idsOfItemsBeingProcessed.erase msg.blockId
          else (s.peer p).idsOfItemsBeingProcessed
  | [], s => by simp
  | q :: l, s => by
    rw [List.foldl_cons, foldl_acceptSyncBlock_processed msg p l, modifyPeer_peer]
    by_cases hpq : p = q
    · subst hpq
      simp [acceptSyncBlock_processed]
    · simp [hpq]

/-- An accepted block is no longer in process at any peer that stays active. -/
theorem inProgress_accepted (hs : s.InProgress) (msg : BlockMessage) :
    (s.sendSyncBlockToNodeDelegate config msg .accepted).InProgress ∧
      (s.sendSyncBlockToNodeDelegate config msg .accepted).waiting = s.waiting := by
  unfold sendSyncBlockToNodeDelegate
  extract_lets s₀ s₁ outdated others restarted updated before s₂ emptied s₃
  obtain ⟨peer, hs₂⟩ : ∃ peer, s₂ = { s₁ with peer := peer } :=
    foldl_modified (f := fun s p => s.modifyPeer p fun peer => peer.acceptSyncBlock msg)
      (fun s p => ⟨_, rfl⟩) updated s₁
  have hprocessed := fun p => foldl_acceptSyncBlock_processed msg p updated s₁
  have hupdated : (List.foldl (fun s p => s.modifyPeer p fun peer => peer.acceptSyncBlock msg) s₁
      updated) = s₂ := rfl
  rw [hupdated] at hprocessed
  have hdisconnected : BlocksStay s₂ s₃ := .foldl stay_disconnectFromPeer
  have hafter : BlocksStay s₃ (restarted.foldl startSynchronizingWithPeer
      (emptied.foldl fetchNextBatchOfItemIdsFromPeer s₃)) :=
    .trans (.foldl stay_fetchNextBatchOfItemIdsFromPeer) (.foldl stay_startSynchronizingWithPeer)
  have hs₃ : s₃.InProgress := by
    refine hs.done msg ?_ (fun p hp => ?_) fun p hp => ?_
    · rw [hdisconnected.calls, hs₂]
      rfl
    · obtain ⟨hp, houtdated⟩ := mem_active_disconnect_foldl hp
      rw [hs₂] at hp
      refine ⟨hp, fun id hid => ?_⟩
      have hothers : p ∈ others := by
        refine List.mem_filter.2 ⟨hp, ?_⟩
        by_contra hnot
        exact houtdated (List.mem_filter.2 ⟨hp, by simpa using hnot⟩)
      rw [hdisconnected.processed, hprocessed] at hid
      split_ifs at hid with hmem
      · obtain ⟨hne, hid⟩ := Finset.mem_erase.1 hid
        exact ⟨hid, fun e => absurd e hne⟩
      · have hexhausted : (s₁.peer p).exhausted = true := by
          by_contra hnot
          exact hmem (List.mem_filter.2 ⟨hothers, by simpa using hnot⟩)
        have hempty : (s₁.peer p).idsOfItemsBeingProcessed = ∅ := by
          simpa using (Bool.and_eq_true_iff.1 hexhausted).2
        rw [hempty] at hid
        exact absurd hid (Finset.notMem_empty id)
    · refine ⟨?_, ?_⟩
      · have hp := hdisconnected.handshaking hp
        rwa [hs₂] at hp
      · rw [hdisconnected.processed, hprocessed]
        split_ifs
        · exact Finset.erase_subset _ _
        · rfl
  refine ⟨hafter.inProgress hs₃, ?_⟩
  rw [hafter.waiting, hdisconnected.waiting, hs₂]
  rfl

/-- A block too old stays in process at the peers that have it. -/
theorem inProgress_olderThanUndoHistory (hs : s.InProgress)
    (hother : ∀ p ∈ s.activeConnections, msg.blockId ∈ (s.peer p).idsOfItemsBeingProcessed →
      ∃ msg' ∈ s.handleMessageCallsInProgress.erase msg, msg'.blockId = msg.blockId) :
    (s.sendSyncBlockToNodeDelegate config msg .olderThanUndoHistory).InProgress ∧
      (s.sendSyncBlockToNodeDelegate config msg .olderThanUndoHistory).waiting = s.waiting := by
  unfold sendSyncBlockToNodeDelegate
  extract_lets s₀
  have hstay : BlocksStay s₀ (s₀.activeConnections.foldl (fun s p =>
      if msg.blockId ∈ (s.peer p).idsOfItemsBeingProcessed then
        s.modifyPeer p fun peer => { peer with inhibitFetchingSyncBlocks := true }
      else s) s₀) := by
    refine .foldl fun s p => ?_
    split_ifs
    · exact stay_modifyPeer rfl
    · exact .refl s
  refine ⟨hstay.inProgress (hs.done msg rfl (fun p hp => ⟨hp, fun id hid => ⟨hid, ?_⟩⟩) fun p hp =>
    ⟨hp, fun _ h => h⟩), hstay.waiting⟩
  rintro rfl
  exact hother p hp hid

/-- The peers that have a rejected block in process are disconnected. -/
theorem inProgress_rejected (hs : s.InProgress) (msg : BlockMessage) :
    (s.sendSyncBlockToNodeDelegate config msg .rejected).InProgress ∧
      (s.sendSyncBlockToNodeDelegate config msg .rejected).waiting = s.waiting := by
  unfold sendSyncBlockToNodeDelegate
  extract_lets s₀
  have hstay : BlocksStay s₀ ((s₀.activeConnections.filter fun p =>
      msg.blockId ∈ (s₀.peer p).idsOfItemsBeingProcessed).foldl disconnectFromPeer s₀) :=
    .foldl stay_disconnectFromPeer
  refine ⟨hs.done msg hstay.calls (fun p hp => ?_) fun p hp => ?_, hstay.waiting⟩
  · obtain ⟨hp, hnot⟩ := mem_active_disconnect_foldl hp
    refine ⟨hp, fun id hid => ?_⟩
    rw [hstay.processed] at hid
    refine ⟨hid, ?_⟩
    rintro rfl
    exact absurd (List.mem_filter.2 ⟨hp, decide_eq_true hid⟩) hnot
  · exact ⟨hstay.handshaking hp, by rw [hstay.processed]⟩

/-- A block received waits, if it was requested while synchronising. -/
theorem books_processBlockMessage (hs : s.InProgress) (now : TimePointSec) (p : PeerId)
    (msg : BlockMessage) (hash : MessageHashType) (handled : Handled) :
    (s.processBlockMessage config now p msg hash handled).InProgress ∧
      (s.processBlockMessage config now p msg hash handled).waiting.Perm
        (if s.receivesSyncBlock p msg hash then msg :: s.waiting else s.waiting) := by
  have hstays : ∀ {s' : NodeImpl}, BlocksStay s s' → s'.InProgress ∧ s'.waiting.Perm s.waiting :=
    fun h => ⟨h.inProgress hs, .of_eq h.waiting⟩
  unfold processBlockMessage
  by_cases hsize : maxBlockSize < msg.blockSize
  · have hnot : s.receivesSyncBlock p msg hash = false := by
      simp [receivesSyncBlock, hsize]
    simpa [hsize, hnot] using hstays (.refl s)
  by_cases hnormal : ⟨.blockMessageType, hash⟩ ∈ (s.peer p).itemsRequestedFromPeer
  · have hnot : s.receivesSyncBlock p msg hash = false := by
      simp [receivesSyncBlock, hnormal]
    rw [if_neg hsize, if_pos hnormal, hnot]
    exact hstays ((stay_modifyPeer rfl).trans (stay_processBlockDuringNormalOperation ..))
  by_cases hsync : ⟨.blockMessageType, msg.blockId⟩ ∈ (s.peer p).syncItemsRequestedFromPeer
  · have hreceives : s.receivesSyncBlock p msg hash = true := by
      simp [receivesSyncBlock, hnormal, hsync, not_lt.1 hsize]
    rw [if_neg hsize, if_neg hnormal, if_pos hsync, hreceives, if_pos rfl]
    extract_lets item s₁ s₂ s₃ peer
    have h₂ : BlocksStay s s₂ :=
      .trans (t := s₁) (stay_modifyPeer rfl) (.of_eq rfl rfl rfl rfl rfl)
    have hs₂ := h₂.inProgress hs
    have hs₃ : s₃.InProgress := ⟨hs₂.handled, hs₂.fresh, hs₂.disjoint⟩
    have hwaiting : s₃.waiting.Perm (msg :: s.waiting) := by
      rw [← h₂.waiting]
      exact List.perm_middle
    have hnext : ∀ {s' : NodeImpl}, BlocksStay s₃ s' →
        s'.InProgress ∧ s'.waiting.Perm (msg :: s.waiting) :=
      fun h => ⟨h.inProgress hs₃, h.waiting ▸ hwaiting⟩
    split_ifs
    · exact hnext (.refl s₃)
    · exact hnext (stay_fetchNextBatchOfItemIdsFromPeer s₃ p)
    · exact hnext (.of_eq rfl rfl rfl rfl rfl)
  · have hnot : s.receivesSyncBlock p msg hash = false := by
      simp [receivesSyncBlock, hsync]
    rw [if_neg hsize, if_neg hnormal, if_neg hsync, hnot]
    exact hstays (stay_disconnectFromPeer s p)

end NodeImpl

/-! ## The history -/

/-- The items counted when they were counted last. -/
def itemsLastCounted : List SyncRecord → Nat
  | [] => 0
  | .counted items :: _ => items.toNat
  | _ :: history => itemsLastCounted history

/-- The sync blocks accepted since the items were counted last. -/
def acceptedSinceCount : List SyncRecord → Nat
  | [] => 0
  | .counted _ :: _ => 0
  | .countedDown _ :: history => acceptedSinceCount history + 1
  | _ :: history => acceptedSinceCount history

/-- A record of a block that goes on. -/
def SyncRecord.GoesOn (r : SyncRecord) : Prop :=
  ∃ msg, r = .handedOver msg ∨ r = .foundAccepted msg

theorem backlogRecords_goesOn (config : NetConfig) : ∀ (fuel : Nat) (s : NodeImpl),
    ∀ r ∈ backlogRecords config fuel s, r.GoesOn
  | 0, _ => fun _ h => (nomatch h)
  | fuel + 1, s => by
    rw [backlogRecords]
    dsimp only
    split
    · exact fun _ h => (nomatch h)
    · rename_i msg _
      split_ifs
      · exact fun r hr => ⟨msg, .inr (List.mem_singleton.1 hr)⟩
      · exact fun r hr => ⟨msg, .inl (List.mem_singleton.1 hr)⟩
      · intro r hr
        rcases List.mem_append.1 hr with hr | hr
        · exact backlogRecords_goesOn config fuel _ r hr
        · exact ⟨msg, .inl (List.mem_singleton.1 hr)⟩

theorem processBacklogRecords_goesOn (config : NetConfig) (s : NodeImpl) :
    ∀ r ∈ s.processBacklogRecords config, r.GoesOn := by
  unfold processBacklogRecords
  split_ifs
  · exact fun _ h => (nomatch h)
  · exact backlogRecords_goesOn config _ _

theorem count_append (history : List SyncRecord) : ∀ {records : List SyncRecord},
    (∀ r ∈ records, r.GoesOn) →
      itemsLastCounted (records ++ history) = itemsLastCounted history ∧
        acceptedSinceCount (records ++ history) = acceptedSinceCount history
  | [], _ => ⟨rfl, rfl⟩
  | r :: records, h => by
    obtain ⟨hitems, haccepted⟩ := count_append history fun r hr => h r (List.mem_cons_of_mem _ hr)
    obtain ⟨msg, rfl | rfl⟩ := h r List.mem_cons_self <;> exact ⟨hitems, haccepted⟩

theorem received_of_goesOn {records : List SyncRecord} (h : ∀ r ∈ records, r.GoesOn) :
    received records = [] := by
  refine List.filterMap_eq_nil_iff.2 fun r hr => ?_
  obtain ⟨msg, rfl | rfl⟩ := h r hr <;> rfl

namespace SyncNode

variable {s : SyncNode}

/-- The backlog meets no block accepted already; the client is done with a block that is too old only
where no active peer has it in process, or another call handles it; and it accepts a block only while
fewer have been accepted than were counted last. -/
def Tracked (config : NetConfig) (s : SyncNode) : SyncEvent → Prop
  | .node .processBacklog => foundAccepted (s.node.processBacklogRecords config) = []
  | .node (.syncBlockHandled msg .olderThanUndoHistory) => ∀ p ∈ s.node.activeConnections,
    msg.blockId ∈ (s.node.peer p).idsOfItemsBeingProcessed →
      ∃ msg' ∈ s.node.handleMessageCallsInProgress.erase msg, msg'.blockId = msg.blockId
  | .node (.syncBlockHandled _ .accepted) =>
    acceptedSinceCount s.history < itemsLastCounted s.history
  | _ => True

structure Booked (s : SyncNode) : Prop where
  inProgress : s.node.InProgress
  blocks : (foundAccepted s.history ++ handedOver s.history ++ s.node.waiting).Perm
    (received s.history)
  total : s.totalNumberOfUnfetchedItems.toNat + acceptedSinceCount s.history =
    itemsLastCounted s.history
  count : .countedDown 0 ∉ s.history

namespace Booked

/-- An event that nothing is written down of, and that leaves the sync blocks where they are. -/
theorem stay (hs : s.Booked) {node : NodeImpl} (h : BlocksStay s.node node)
    (calls : List (BlockMessage × MessageHashType)) :
    { s with node := node, normalCalls := calls }.Booked where
  inProgress := h.inProgress hs.inProgress
  blocks := by rw [h.waiting]; exact hs.blocks
  total := hs.total
  count := hs.count

theorem inventory (hs : s.Booked) (p : PeerId) (ids : List ItemHashType) (n : Nat) :
    (s.step config (.node (.itemIdsInventory p ids n))).Booked := by
  have hstay := stay_onBlockchainItemIdsInventoryMessage s.node p ids n
  simp only [step, keepBooks, NodeImpl.step]
  cases s.node.itemsCounted p ids n with
  | none => exact hs.stay hstay s.normalCalls
  | some items =>
    refine ⟨hstay.inProgress hs.inProgress, ?_, Nat.add_zero _, ?_⟩
    · rw [hstay.waiting]
      exact hs.blocks
    · simpa [record] using hs.count

theorem accepted (hs : s.Booked) (msg : BlockMessage)
    (h : acceptedSinceCount s.history < itemsLastCounted s.history) :
    (s.step config (.node (.syncBlockHandled msg .accepted))).Booked := by
  obtain ⟨hprogress, hwaiting⟩ :
      (s.node.sendSyncBlockToNodeDelegate config msg .accepted).InProgress ∧ _ :=
    inProgress_accepted hs.inProgress msg
  have htotal := hs.total
  have hpos : (1 : UInt32) ≤ s.totalNumberOfUnfetchedItems := by
    rw [UInt32.le_iff_toNat_le]
    exact by simpa using (by omega : 1 ≤ s.totalNumberOfUnfetchedItems.toNat)
  refine ⟨hprogress, ?_, ?_, ?_⟩
  · exact hwaiting ▸ hs.blocks
  · change (s.totalNumberOfUnfetchedItems - 1).toNat + (acceptedSinceCount s.history + 1) = _
    rw [UInt32.toNat_sub_of_le _ _ hpos]
    change _ = itemsLastCounted s.history
    simp only [UInt32.toNat_one]
    omega
  · simp only [step, keepBooks, record, List.singleton_append, List.mem_cons, not_or]
    refine ⟨fun e => ?_, hs.count⟩
    rw [← SyncRecord.countedDown.inj e] at hpos
    exact absurd hpos (by decide)

theorem syncBlockReceived (hs : s.Booked) (now : TimePointSec) (p : PeerId) (msg : BlockMessage)
    (hash : MessageHashType) (handled : Handled) :
    (s.step config (.node (.blockMessage now p msg hash handled))).Booked := by
  obtain ⟨hprogress, hwaiting⟩ :
      (s.node.processBlockMessage config now p msg hash handled).InProgress ∧ _ :=
    books_processBlockMessage hs.inProgress now p msg hash handled
  simp only [step, keepBooks, NodeImpl.step]
  split_ifs at hwaiting ⊢
  · refine ⟨hprogress, ?_, hs.total, by simpa [record] using hs.count⟩
    have hblocks := (hwaiting.append_left _).trans (List.perm_middle.trans (hs.blocks.cons msg))
    exact hblocks
  · exact ⟨hprogress, (hwaiting.append_left _).trans hs.blocks, hs.total, hs.count⟩

theorem backlog (hs : s.Booked)
    (hnone : foundAccepted (s.node.processBacklogRecords config) = []) :
    (s.step config (.node .processBacklog)).Booked := by
  obtain ⟨hprogress, hmoved⟩ := processBacklog_books hs.inProgress hnone
  have hgoesOn := processBacklogRecords_goesOn config s.node
  simp only [step, keepBooks, record, NodeImpl.step]
  generalize s.node.processBacklogRecords config = records at *
  obtain ⟨hitems, haccepted⟩ := count_append s.history hgoesOn
  refine ⟨hprogress, ?_, ?_, ?_⟩
  · have hfound : foundAccepted (records ++ s.history) = foundAccepted s.history := by
      rw [foundAccepted, List.filterMap_append]
      exact (congrArg (· ++ _) hnone).trans (List.nil_append _)
    have hreceived : received (records ++ s.history) = received s.history := by
      rw [received, List.filterMap_append]
      exact (congrArg (· ++ _) (received_of_goesOn hgoesOn)).trans (List.nil_append _)
    have hhanded : handedOver (records ++ s.history) = handedOver records ++ handedOver s.history :=
      List.filterMap_append ..
    rw [hfound, hreceived, hhanded, List.append_assoc, List.append_assoc]
    refine ((List.perm_append_comm_assoc _ _ _).append_left _).trans ?_
    rw [← List.append_assoc]
    exact (hmoved.append_left _).trans hs.blocks
  · rw [hitems, haccepted]
    exact hs.total
  · intro hmem
    rcases List.mem_append.1 hmem with hmem | hmem
    · obtain ⟨msg, h | h⟩ := hgoesOn _ hmem <;> cases h
    · exact hs.count hmem

theorem step (hs : s.Booked) {e : SyncEvent} (hpossible : s.Possible e)
    (htracked : s.Tracked config e) : (s.step config e).Booked := by
  cases e with
  | node e =>
    cases e with
    | connect p n =>
      exact ⟨inProgress_connect config hs.inProgress hpossible n, hs.blocks, hs.total, hs.count⟩
    | newPeer p =>
      exact hs.stay ((stay_movePeerToActiveList hpossible).trans
        (stay_startSynchronizingWithPeer _ p)) s.normalCalls
    | startSynchronizing order =>
      exact hs.stay (.foldl stay_startSynchronizingWithPeer) s.normalCalls
    | fetchSyncItems order => exact hs.stay (stay_fetchSyncItemsLoop s.node order) s.normalCalls
    | itemIdsInventory p ids n => exact hs.inventory p ids n
    | fetchBlockchainItemIds p synopsis available inbound =>
      exact hs.stay (stay_onFetchBlockchainItemIdsMessage s.node p synopsis available inbound)
        s.normalCalls
    | blockMessage now p msg hash handled => exact hs.syncBlockReceived now p msg hash handled
    | processBacklog => exact hs.backlog htracked
    | syncBlockHandled msg handled =>
      cases handled with
      | accepted => exact hs.accepted msg htracked
      | olderThanUndoHistory =>
        obtain ⟨hprogress, hwaiting⟩ :
            (s.node.sendSyncBlockToNodeDelegate config msg .olderThanUndoHistory).InProgress ∧ _ :=
          inProgress_olderThanUndoHistory hs.inProgress htracked
        exact ⟨hprogress, hwaiting ▸ hs.blocks, hs.total, hs.count⟩
      | rejected =>
        obtain ⟨hprogress, hwaiting⟩ :
            (s.node.sendSyncBlockToNodeDelegate config msg .rejected).InProgress ∧ _ :=
          inProgress_rejected hs.inProgress msg
        exact ⟨hprogress, hwaiting ▸ hs.blocks, hs.total, hs.count⟩
    | itemNotAvailable p item =>
      exact hs.stay (stay_onItemNotAvailableMessage s.node p item) s.normalCalls
    | fetchItems p items => exact hs.stay (stay_onFetchItemsMessage s.node p items) s.normalCalls
    | advertised p item now =>
      have hstay : BlocksStay s.node (s.node.step config (.advertised p item now)) := by
        rw [NodeImpl.step]
        exact stay_modifyPeer rfl
      exact hs.stay hstay s.normalCalls
    | itemRequested p item =>
      have hstay : BlocksStay s.node (s.node.step config (.itemRequested p item)) := by
        rw [NodeImpl.step]
        exact stay_modifyPeer rfl
      exact hs.stay hstay s.normalCalls
    | broadcastBlock hash msg =>
      refine hs.stay ?_ s.normalCalls
      exact .of_eq rfl rfl rfl rfl rfl
    | cacheExpired kept =>
      refine hs.stay ?_ s.normalCalls
      exact .of_eq rfl rfl rfl rfl rfl
    | disconnect p => exact hs.stay (stay_disconnectFromPeer s.node p) s.normalCalls
    | terminate p => exact hs.stay (stay_movePeerToTerminatingList s.node p) s.normalCalls
    | connectionClosed p => exact hs.stay (stay_onConnectionClosed s.node p) s.normalCalls
    | delegateChanges delegate =>
      refine hs.stay ?_ s.normalCalls
      exact .of_eq rfl rfl rfl rfl rfl
  | normalBlock now p msg hash =>
    simp only [SyncNode.step, normalBlock]
    split_ifs
    · exact hs
    · exact hs.stay ((stay_modifyPeer rfl).trans (stay_normalBlockAccepted ..)) s.normalCalls
    · exact hs.stay (stay_modifyPeer rfl) (s.normalCalls ++ [(msg, hash)])
  | normalBlockHandled now msg hash handled =>
    cases handled with
    | accepted =>
      exact hs.stay ((stay_pushRecent s.node msg.blockId).trans (stay_normalBlockAccepted ..)) _
    | olderThanUndoHistory => exact hs.stay (stay_normalBlockRejected s.node msg) _
    | rejected => exact hs.stay (stay_normalBlockRejected s.node msg) _

end Booked

end SyncNode

end Achain.Net
