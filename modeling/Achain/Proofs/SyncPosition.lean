import Achain.Proofs.SyncRequests
import Mathlib.Data.List.Chain

/-!
# The sync position of a peer

The number kept with a peer is that of the last block the peer has told us about, and the blocks still
to get are consecutive ones of the chain the peer had when it told us. The number is counted up when
the blocks of an answer are known already, which is right only if the first of them comes right after
the last one; and where a peer has switched forks, the client has to know the block it goes on from.
-/

namespace Achain.Net

/-- The number of every block, and the block before it. -/
structure BlockGraph where
  number : BlockIdType → Nat
  previous : BlockIdType → BlockIdType
  number_zero : number 0 = 0

namespace BlockGraph

variable (G : BlockGraph)

/-- One block comes right after the other. -/
def Next (x y : BlockIdType) : Prop := G.previous y = x ∧ G.number y = G.number x + 1

/-- A chain of blocks, from the first one on. -/
structure Chain (l : List BlockIdType) : Prop where
  linked : l.IsChain G.Next
  first : ∀ x, l.head? = some x → G.previous x = 0
  nonzero : 0 ∉ l

variable {G} {l a items : List BlockIdType} {item : BlockIdType}

theorem chain_nil : G.Chain [] := ⟨.nil, fun _ h => by simp at h, List.not_mem_nil⟩

/-- Of a chain down from a block, a shorter run down from the block is the end. -/
theorem suffix_of_linked : (l ++ [item]).IsChain G.Next → 0 ∉ l → (a ++ [item]).IsChain G.Next →
    (∀ x, (a ++ [item]).head? = some x → G.previous x = 0) → l <:+ a := by
  induction l using List.reverseRecOn generalizing a item with
  | nil => exact fun _ _ _ _ => List.nil_suffix
  | append_singleton l y ih =>
    intro hl hzero ha hfirst
    have hy : G.previous item = y := by
      have hlast := List.isChain_append.1 hl
      exact (hlast.2.2 y (by simp) item (by simp)).1
    rcases List.eq_nil_or_concat a with rfl | ⟨a, z, rfl⟩
    · have hitem := hfirst item rfl
      rw [hitem] at hy
      exact absurd (by simp [hy]) hzero
    · have hz : G.previous item = z := by
        have hlast := List.isChain_append.1 ha
        exact (hlast.2.2 z (by simp) item (by simp)).1
      obtain rfl : y = z := hy.symm.trans hz
      have hrest : l <:+ a := by
        refine ih (List.isChain_append.1 hl).1 (fun h => hzero (List.mem_append_left _ h))
          (by simpa using (List.isChain_append.1 ha).1) fun x hx => hfirst x ?_
        cases a with
        | nil => simpa using hx
        | cons b a => simpa using hx
      rw [List.concat_eq_append]
      exact List.suffix_append_self_iff.2 hrest

/-- A run down from the first block of an answer, and the answer, are a run of the peer's chain. -/
theorem infix_of_linked {chain : List BlockIdType} (hchain : G.Chain chain)
    (hitems : item :: items <:+: chain) (hl : (l ++ [item]).IsChain G.Next) (hzero : 0 ∉ l) :
    l ++ item :: items <:+: chain := by
  obtain ⟨a, b, rfl⟩ := hitems
  have ha : a ++ [item] <+: a ++ item :: items ++ b := ⟨items ++ b, by simp⟩
  obtain ⟨c, rfl⟩ : l <:+ a := by
    refine suffix_of_linked hl hzero ( hchain.linked.prefix ha) fun x hx => hchain.first x ?_
    cases a <;> simpa using hx
  exact ⟨c, b, by simp⟩

end BlockGraph

open NodeImpl

variable {G : BlockGraph} {config : NetConfig} {s s' s'' : NodeImpl} {p q : PeerId}
  {id : ItemHashType} {l : List ItemHashType}

/-! ## What is kept of a peer -/

/-- The number is that of the last block seen, and the blocks to get are consecutive ones of a
chain. -/
structure PeerConnection.Positioned (G : BlockGraph) (l : List ItemHashType)
    (peer : PeerConnection) : Prop where
  number : peer.lastBlockNumberDelegateHasSeen = G.number peer.lastBlockDelegateHasSeen
  run : peer.idsOfItemsToGet <:+: l

/-- The client knows a block. -/
def NodeDelegate.Knows (d : NodeDelegate) (id : BlockIdType) : Prop := (d.getBlockNumber id).isSome

/-- The client gives the blocks their numbers, and has those it returns. -/
structure NodeDelegate.Truthful (G : BlockGraph) (d : NodeDelegate) : Prop where
  number : ∀ id n, d.getBlockNumber id = some n → n = G.number id
  item : ∀ item msg, d.getItem item = some msg → d.Knows msg.blockId

/-- The client knows the blocks accepted last and those in the cache. -/
structure NodeImpl.Backed (s : NodeImpl) : Prop where
  recent : ∀ id ∈ s.mostRecentBlocksAccepted, s.delegate.Knows id
  cache : ∀ e ∈ s.messageCache, s.delegate.Knows e.2.blockId

/-- The positions of the peers, and what the client knows, are as good as they were. -/
structure Follows (G : BlockGraph) (s s' : NodeImpl) : Prop where
  peer : ∀ p l, (s.peer p).Positioned G l → (s'.peer p).Positioned G l
  delegate : s'.delegate = s.delegate
  backed : s.Backed → s'.Backed

namespace Follows

theorem refl (s : NodeImpl) : Follows G s s := ⟨fun _ _ h => h, rfl, fun h => h⟩

theorem trans {t : NodeImpl} (h : Follows G s t) (h' : Follows G t s') : Follows G s s' :=
  ⟨fun p l hp => h'.peer p l (h.peer p l hp), h'.delegate.trans h.delegate,
    fun hb => h'.backed (h.backed hb)⟩

theorem foldl {α : Type} {f : NodeImpl → α → NodeImpl} (hf : ∀ s x, Follows G s (f s x)) :
    ∀ {s : NodeImpl} {l : List α}, Follows G s (l.foldl f s)
  | s, [] => .refl s
  | s, x :: _ => (hf s x).trans (foldl hf)

/-- Peers, client, cache and the blocks accepted last are the same. -/
theorem of_eq (hpeer : s'.peer = s.peer) (hdelegate : s'.delegate = s.delegate)
    (hrecent : s'.mostRecentBlocksAccepted = s.mostRecentBlocksAccepted)
    (hcache : s'.messageCache = s.messageCache) : Follows G s s' := by
  refine ⟨fun p l h => by rwa [hpeer], hdelegate, fun hb => ⟨?_, ?_⟩⟩
  · rw [hrecent, hdelegate]
    exact hb.recent
  · rw [hcache, hdelegate]
    exact hb.cache

theorem modifyPeer {f : PeerConnection → PeerConnection}
    (hf : ∀ l, (s.peer p).Positioned G l → (f (s.peer p)).Positioned G l) :
    Follows G s (s.modifyPeer p f) := by
  refine ⟨fun q l h => ?_, rfl, fun hb => ⟨hb.recent, hb.cache⟩⟩
  rw [modifyPeer_peer]
  split_ifs with hq
  · subst hq
    exact hf l h
  · exact h

end Follows

/-- Nothing of the position of a peer changes. -/
theorem follows_modifyPeer {f : PeerConnection → PeerConnection}
    (hids : (f (s.peer p)).idsOfItemsToGet = (s.peer p).idsOfItemsToGet)
    (hnumber : (f (s.peer p)).lastBlockNumberDelegateHasSeen =
      (s.peer p).lastBlockNumberDelegateHasSeen)
    (hlast : (f (s.peer p)).lastBlockDelegateHasSeen = (s.peer p).lastBlockDelegateHasSeen) :
    Follows G s (s.modifyPeer p f) :=
  .modifyPeer fun l h => ⟨by rw [hnumber, hlast]; exact h.number, by rw [hids]; exact h.run⟩

/-! ## The handlers -/

theorem follows_disconnectFromPeer (s : NodeImpl) (p : PeerId) :
    Follows G s (s.disconnectFromPeer p) := .of_eq rfl rfl rfl rfl

theorem follows_fetchNextBatchOfItemIdsFromPeer (s : NodeImpl) (p : PeerId) :
    Follows G s (s.fetchNextBatchOfItemIdsFromPeer p) := by
  unfold fetchNextBatchOfItemIdsFromPeer
  dsimp only
  split
  · exact .refl s
  · exact follows_modifyPeer rfl rfl rfl

theorem positioned_reset {peer : PeerConnection} (hids : peer.idsOfItemsToGet = [])
    (hnumber : peer.lastBlockNumberDelegateHasSeen = 0) (hlast : peer.lastBlockDelegateHasSeen = 0) :
    peer.Positioned G l :=
  ⟨by rw [hnumber, hlast, G.number_zero], by rw [hids]; exact List.nil_infix⟩

theorem follows_startSynchronizingWithPeer (s : NodeImpl) (p : PeerId) :
    Follows G s (s.startSynchronizingWithPeer p) := by
  refine .trans ?_ (follows_fetchNextBatchOfItemIdsFromPeer _ p)
  exact .modifyPeer fun l _ => positioned_reset rfl rfl rfl

theorem follows_sendRequest (s : NodeImpl) (r : PeerId × List ItemHashType) :
    Follows G s (s.sendRequest r) := by
  unfold sendRequest requestSyncItemsFromPeer
  split_ifs
  · exact .refl s
  · refine .foldl fun s item => ?_
    dsimp only
    refine .trans (t := { s with activeSyncRequests := insert item s.activeSyncRequests })
      (.of_eq rfl rfl rfl rfl) ?_
    exact follows_modifyPeer rfl rfl rfl

theorem follows_fetchSyncItemsLoop (s : NodeImpl) (order : List PeerId) :
    Follows G s (s.fetchSyncItemsLoop config order) := by
  rw [fetchSyncItemsLoop_eq]
  split_ifs
  · exact .of_eq rfl rfl rfl rfl
  · exact .trans (t := { s with syncItemsToFetchUpdated := false }) (.of_eq rfl rfl rfl rfl)
      (.foldl fun s r => follows_sendRequest s r)

theorem follows_onFetchBlockchainItemIdsMessage (s : NodeImpl) (p : PeerId)
    (synopsis available : List ItemHashType) (inbound : Bool) :
    Follows G s (s.onFetchBlockchainItemIdsMessage p synopsis available inbound) := by
  unfold onFetchBlockchainItemIdsMessage
  extract_lets inSync s₁ unseen s₂
  have h₁ : Follows G s s₁ := follows_modifyPeer rfl rfl rfl
  have h₂ : Follows G s s₂ := by
    refine h₁.trans ?_
    unfold s₂
    split_ifs
    · exact follows_startSynchronizingWithPeer s₁ p
    · exact .refl s₁
  split_ifs
  · exact h₂.trans (follows_disconnectFromPeer s₂ p)
  · exact h₂.trans (.trans (t := s₂.movePeerToActiveList p) (.of_eq rfl rfl rfl rfl)
      (follows_startSynchronizingWithPeer _ p))
  · exact h₂

theorem follows_takeNextBlock (s : NodeImpl) (id : ItemHashType) :
    Follows G s (s.takeNextBlock id) := by
  refine .foldl fun s p => ?_
  split_ifs
  · exact .modifyPeer fun l h => ⟨h.number, (List.tail_suffix _).isInfix.trans h.run⟩
  · exact .refl s

theorem follows_suspendIfFull (s : NodeImpl) : Follows G s (s.suspendIfFull config) := by
  unfold suspendIfFull
  split_ifs <;> exact .of_eq rfl rfl rfl rfl

theorem follows_processBacklogLoop (config : NetConfig) : ∀ (fuel : Nat) (s : NodeImpl),
    Follows G s (processBacklogLoop config fuel s)
  | 0, s => .refl s
  | fuel + 1, s => by
    rw [processBacklogLoop]
    refine .trans (t := s.collectReceivedSyncItems) (.of_eq rfl rfl rfl rfl) ?_
    dsimp only
    split
    · exact follows_suspendIfFull _
    · rename_i msg _
      refine (follows_takeNextBlock _ msg.blockId).trans ?_
      have hhandOver : ∀ s : NodeImpl, Follows G s (s.handOver msg) := fun _ =>
        .of_eq rfl rfl rfl rfl
      split_ifs
      · exact follows_suspendIfFull _
      · exact (hhandOver _).trans (follows_suspendIfFull _)
      · exact (hhandOver _).trans (follows_processBacklogLoop config fuel _)

theorem follows_processBacklogOfSyncBlocks (s : NodeImpl) :
    Follows G s (s.processBacklogOfSyncBlocks config) := by
  unfold processBacklogOfSyncBlocks
  dsimp only
  have hresumed : Follows G s { s with suspendFetchingSyncBlocks := false } :=
    .of_eq rfl rfl rfl rfl
  have hloop := fun fuel => hresumed.trans (follows_processBacklogLoop config fuel _)
  split_ifs
  · exact .refl s
  · exact (hloop _).trans (.of_eq rfl rfl rfl rfl)
  · exact hloop _

/-- A message that has the number of its block. -/
def BlockMessage.Numbered (G : BlockGraph) (msg : BlockMessage) : Prop :=
  msg.blockNum = G.number msg.blockId

variable {msg : BlockMessage}

theorem follows_pushRecent (config : NetConfig) (hknown : s.delegate.Knows id) :
    Follows G s (s.pushRecent config id) := by
  refine ⟨fun _ _ h => h, rfl, fun hb => ⟨fun x hx => ?_, hb.cache⟩⟩
  rcases List.mem_append.1 (List.mem_of_mem_drop hx) with hx | hx
  · exact hb.recent x hx
  · rwa [List.mem_singleton.1 hx]

theorem follows_acceptSyncBlock (hmsg : msg.Numbered G) (s : NodeImpl) (p : PeerId) :
    Follows G s (s.modifyPeer p fun peer => peer.acceptSyncBlock msg) := by
  refine .modifyPeer fun l h => ?_
  unfold PeerConnection.acceptSyncBlock
  split_ifs
  · exact ⟨hmsg, h.run⟩
  · exact h

theorem follows_acceptBlock (hmsg : msg.Numbered G) (now : TimePointSec) (hash : MessageHashType)
    (s : NodeImpl) (p : PeerId) :
    Follows G s (s.modifyPeer p fun peer => peer.acceptBlock now msg hash) := by
  refine .modifyPeer fun l h => ?_
  unfold PeerConnection.acceptBlock PeerConnection.clearOldInventory
  dsimp only
  split_ifs
  · exact ⟨hmsg, h.run⟩
  · exact ⟨h.number, h.run⟩

theorem follows_sendSyncBlockToNodeDelegate (hmsg : msg.Numbered G) {handled : Handled}
    (hknown : handled = .accepted → s.delegate.Knows msg.blockId) :
    Follows G s (s.sendSyncBlockToNodeDelegate config msg handled) := by
  have herased : Follows G s { s with
      handleMessageCallsInProgress := s.handleMessageCallsInProgress.erase msg } :=
    .of_eq rfl rfl rfl rfl
  unfold sendSyncBlockToNodeDelegate
  refine herased.trans ?_
  cases handled with
  | accepted =>
    have hpushed := follows_pushRecent (G := G)
      (s := { s with handleMessageCallsInProgress := s.handleMessageCallsInProgress.erase msg })
      config (hknown rfl)
    refine hpushed.trans (.trans (.foldl fun s p => ?_) (.trans (.foldl fun s p => ?_)
      (.trans (.foldl fun s p => ?_) (.foldl fun s p => ?_))))
    · exact follows_acceptSyncBlock hmsg s p
    · exact follows_disconnectFromPeer s p
    · exact follows_fetchNextBatchOfItemIdsFromPeer s p
    · exact follows_startSynchronizingWithPeer s p
  | olderThanUndoHistory =>
    refine .foldl fun s p => ?_
    split_ifs
    · exact follows_modifyPeer rfl rfl rfl
    · exact .refl s
  | rejected => exact .foldl fun s p => follows_disconnectFromPeer s p

theorem follows_broadcast (config : NetConfig) (hash : MessageHashType)
    (hknown : s.delegate.Knows msg.blockId) : Follows G s (s.broadcast config hash msg) := by
  refine (follows_pushRecent config hknown).trans ⟨fun _ _ h => h, rfl, fun hb => ⟨hb.recent, ?_⟩⟩
  intro e he
  rcases List.mem_append.1 he with he | he
  · exact hb.cache e he
  · rw [List.mem_singleton.1 he]
    exact hknown

theorem follows_processBlockDuringNormalOperation (hbacked : s.Backed) (hmsg : msg.Numbered G)
    (now : TimePointSec) (hash : MessageHashType) {handled : Handled}
    (hknown : handled = .accepted → s.delegate.Knows msg.blockId) :
    Follows G s (s.processBlockDuringNormalOperation config now msg hash handled) := by
  unfold processBlockDuringNormalOperation
  extract_lets accepted s₁ s₂ s₃
  split_ifs with h
  · have hknows : s.delegate.Knows msg.blockId := by
      rcases Bool.or_eq_true_iff.1 h with h | h
      · exact hbacked.recent _ (by simpa [accepted] using h)
      · exact hknown (by simpa using h)
    have h₁ : Follows G s s₁ := by
      unfold s₁
      split_ifs
      · exact .refl s
      · exact follows_pushRecent config hknows
    have h₂ : Follows G s s₂ := h₁.trans (.foldl fun s p => follows_acceptBlock hmsg now hash s p)
    have h₃ : Follows G s s₃ := by
      refine h₂.trans (follows_broadcast config hash ?_)
      rw [h₂.delegate]
      exact hknows
    exact h₃.trans (.foldl fun s p => follows_disconnectFromPeer s p)
  · exact .foldl fun s p => follows_disconnectFromPeer s p

theorem follows_processBlockMessage (hbacked : s.Backed) (hmsg : msg.Numbered G)
    (now : TimePointSec) (hash : MessageHashType) {handled : Handled}
    (hknown : handled = .accepted → s.delegate.Knows msg.blockId) :
    Follows G s (s.processBlockMessage config now p msg hash handled) := by
  unfold NodeImpl.processBlockMessage
  split_ifs with hsize hitem hsync
  · exact .refl s
  · extract_lets s₁
    have h₁ : Follows G s s₁ := follows_modifyPeer rfl rfl rfl
    exact h₁.trans (follows_processBlockDuringNormalOperation (h₁.backed hbacked) hmsg now hash
      hknown)
  · extract_lets item s₁ s₂ s₃ peer
    have h₁ : Follows G s s₁ := follows_modifyPeer rfl rfl rfl
    have h₃ : Follows G s s₃ := h₁.trans (.of_eq rfl rfl rfl rfl)
    split_ifs
    · exact h₃
    · exact h₃.trans (follows_fetchNextBatchOfItemIdsFromPeer s₃ p)
    · exact h₃.trans (.of_eq rfl rfl rfl rfl)
  · exact follows_disconnectFromPeer s p

theorem follows_onItemNotAvailableMessage (s : NodeImpl) (p : PeerId) (item : ItemId) :
    Follows G s (s.onItemNotAvailableMessage p item) := by
  unfold onItemNotAvailableMessage
  split_ifs with hitem hsync
  · exact follows_modifyPeer rfl rfl rfl
  · extract_lets s₁ s₂
    have h₁ : Follows G s s₁ := follows_modifyPeer rfl rfl rfl
    have h₂ : Follows G s s₂ := by
      refine h₁.trans ?_
      unfold s₂
      split_ifs
      · exact follows_modifyPeer rfl rfl rfl
      · exact follows_disconnectFromPeer s₁ p
    exact h₂.trans (.of_eq rfl rfl rfl rfl)
  · exact .refl s

theorem follows_onConnectionClosed (s : NodeImpl) (p : PeerId) :
    Follows G s (s.onConnectionClosed p) := by
  unfold onConnectionClosed
  dsimp only
  split_ifs <;> exact .of_eq rfl rfl rfl rfl

theorem messageForItem_knows (hbacked : s.Backed) (htrue : s.delegate.Truthful G)
    {item : ItemHashType} (h : s.messageForItem item = some msg) : s.delegate.Knows msg.blockId := by
  unfold messageForItem at h
  split at h
  · rename_i entry hentry
    rw [Option.some_inj] at h
    exact h ▸ hbacked.cache entry (List.mem_of_find?_eq_some hentry)
  · exact htrue.item item msg h

theorem follows_onFetchItemsMessage (hbacked : s.Backed) (htrue : s.delegate.Truthful G)
    (items : List ItemHashType) : Follows G s (s.onFetchItemsMessage p items) := by
  unfold onFetchItemsMessage
  split
  · exact .refl s
  · rename_i block hblock
    obtain ⟨item, -, hitem⟩ := List.mem_filterMap.1 (List.mem_of_getLast? hblock)
    obtain ⟨n, hn⟩ := Option.isSome_iff_exists.1 (messageForItem_knows hbacked htrue hitem)
    have hmodified : ∀ f, (s.modifyPeer p f).delegate = s.delegate := fun _ => rfl
    simp only [hmodified, hn]
    -- The block and its number are set one after the other.
    refine ⟨fun q l h => ?_, rfl, fun hb => ⟨hb.recent, hb.cache⟩⟩
    rw [modifyPeer_peer]
    split_ifs with hq
    · subst hq
      rw [modifyPeer_peer_self]
      exact ⟨htrue.number _ n hn, h.run⟩
    · rw [modifyPeer_peer, if_neg hq]
      exact h

/-! ## Answers -/

/-- What is left of a list up to a block: nothing if the block is not in it. -/
theorem popUntil_cases (item : ItemHashType) (items : List ItemHashType) :
    (popUntil item items = [] ∧ item ∉ items) ∨
      ∃ k, popUntil item items = k ++ [item] ∧ k ++ [item] <+: items := by
  unfold popUntil
  by_cases hnil : items.rdropWhile (· != item) = []
  · refine .inl ⟨hnil, fun hitem => ?_⟩
    have hne := List.rdropWhile_eq_nil_iff.1 hnil item hitem
    simp at hne
  · have hlast := List.rdropWhile_last_not (fun x => x != item) items hnil
    have heq := List.dropLast_append_getLast hnil
    simp only [bne_iff_ne, ne_eq, not_not] at hlast
    rw [hlast] at heq
    refine .inr ⟨_, heq.symm, ?_⟩
    rw [heq]
    exact List.rdropWhile_prefix _ items

/-- The blocks counted off an answer have the numbers counted. -/
theorem popKnownItems_counts (d : NodeDelegate) : ∀ (items : List ItemHashType)
    (peer : PeerConnection), items.IsChain G.Next →
      (∀ item, items.head? = some item → d.hasItem item = true →
        G.number item = peer.lastBlockNumberDelegateHasSeen + 1) →
      peer.lastBlockNumberDelegateHasSeen = G.number peer.lastBlockDelegateHasSeen →
      (popKnownItems d items peer).2.lastBlockNumberDelegateHasSeen =
        G.number (popKnownItems d items peer).2.lastBlockDelegateHasSeen ∧
      (popKnownItems d items peer).1 <:+ items
  | [], _, _, _, hpeer => ⟨hpeer, List.suffix_rfl⟩
  | item :: items, peer, hchain, hfirst, hpeer => by
    rw [popKnownItems]
    split_ifs with hitem
    · have hnumber := hfirst item rfl hitem
      obtain ⟨hcount, hsuffix⟩ := popKnownItems_counts d items { peer with
          lastBlockDelegateHasSeen := item
          lastBlockNumberDelegateHasSeen := peer.lastBlockNumberDelegateHasSeen + 1
          lastBlockTimeDelegateHasSeen := d.getBlockTime item } hchain.tail
        (fun next hnext _ => by
          have hstep := (List.isChain_cons.1 hchain).1 next hnext
          rw [hstep.2, hnumber]) hnumber.symm
      exact ⟨hcount, hsuffix.trans (List.suffix_cons item items)⟩
    · exact ⟨hpeer, List.suffix_rfl⟩

/-- An answer goes on from where the peer is: if its first blocks are counted off, the first of them
comes right after the last one seen, and if none of the blocks to get is in it, the client knows its
first one. -/
def Continues (G : BlockGraph) (s : NodeImpl) (p : PeerId) (ids : List ItemHashType) : Prop :=
  ∀ item, ids.head? = some item →
    ((s.peer p).idsOfItemsToGet = [] → s.isFirstItemForOtherPeer p item = false →
      s.delegate.hasItem item = true →
      G.number item = (s.peer p).lastBlockNumberDelegateHasSeen + 1) ∧
    ((s.peer p).idsOfItemsToGet ≠ [] → item ∉ (s.peer p).idsOfItemsToGet → s.delegate.Knows item)

/-- The answer of an honest peer extends its list to a run of its chain. -/
theorem extendItemsToGet_positioned {ids chain : List ItemHashType} {peer : PeerConnection}
    (hold : G.Chain l) (hchain : G.Chain chain) (htrue : s.delegate.Truthful G)
    (hpeer : peer.Positioned G l) (hids : ids <:+: chain) (hne : ids ≠ [])
    (hitems : peer.idsOfItemsToGet = (s.peer p).idsOfItemsToGet)
    (hnumber : peer.lastBlockNumberDelegateHasSeen = (s.peer p).lastBlockNumberDelegateHasSeen)
    (hcontinues : Continues G s p ids) :
    (s.extendItemsToGet p ids peer).2.Positioned G chain := by
  obtain ⟨item, items, rfl⟩ := List.exists_cons_of_ne_nil hne
  obtain ⟨hcounted, hknown⟩ := hcontinues item rfl
  rw [← hitems] at hcounted hknown
  rw [extendItemsToGet]
  dsimp only
  split_ifs with hempty hother hkept
  · exact ⟨hpeer.number, hids⟩
  · obtain ⟨hcount, hsuffix⟩ := popKnownItems_counts s.delegate _ _ ( hchain.linked.infix hids)
      (fun x hx hhas => by
        obtain rfl : item = x := by simpa using hx
        rw [hnumber]
        exact hcounted (List.isEmpty_iff.1 hempty) (by simpa using hother) hhas) hpeer.number
    exact ⟨hcount, hsuffix.isInfix.trans hids⟩
  · rcases popUntil_cases item peer.idsOfItemsToGet with ⟨-, hnot⟩ | ⟨k, hk, -⟩
    · obtain ⟨n, hn⟩ := Option.isSome_iff_exists.1
        (hknown (fun h => hempty (List.isEmpty_iff.2 h)) hnot)
      rw [hn]
      exact ⟨htrue.number item n hn, (List.suffix_cons item items).isInfix.trans hids⟩
    · rw [hk] at hkept
      simp at hkept
  · rcases popUntil_cases item peer.idsOfItemsToGet with ⟨hnil, -⟩ | ⟨k, hk, hprefix⟩
    · rw [hnil] at hkept
      exact absurd rfl hkept
    · have hrun := hprefix.isInfix.trans hpeer.run
      refine ⟨hpeer.number, ?_⟩
      show (popUntil item peer.idsOfItemsToGet).dropLast ++ item :: items <:+: chain
      rw [hk, List.dropLast_concat]
      refine BlockGraph.infix_of_linked hchain hids ( hold.linked.infix hrun) fun hzero => ?_
      exact hold.nonzero (hrun.subset (List.mem_append_left _ hzero))

theorem follows_continueWithPeer (s : NodeImpl) (p : PeerId) (n : Nat) :
    Follows G s (s.continueWithPeer p n) := by
  unfold continueWithPeer
  dsimp only
  split_ifs
  · exact follows_disconnectFromPeer s p
  · exact .of_eq rfl rfl rfl rfl
  · exact follows_fetchNextBatchOfItemIdsFromPeer s p
  · exact .of_eq rfl rfl rfl rfl
  · exact follows_fetchNextBatchOfItemIdsFromPeer s p

/-! ## Runs with honest peers -/

/-- Peers that tell about their chain and send blocks as they are, and a client that knows the blocks
it accepts. An answer comes with the chain the peer has. -/
def Honest (G : BlockGraph) (s : NodeImpl) (chain : List ItemHashType) : Event → Prop
  | .itemIdsInventory _ ids _ => G.Chain chain ∧ ids <:+: chain
  | .blockMessage _ _ msg _ handled | .syncBlockHandled msg handled =>
    msg.Numbered G ∧ (handled = .accepted → s.delegate.Knows msg.blockId)
  | .broadcastBlock _ msg => s.delegate.Knows msg.blockId
  | .delegateChanges d => d.Truthful G ∧ ∀ id, s.delegate.Knows id → d.Knows id
  | _ => True

/-- The chain each peer had when it last told us about blocks we asked for. -/
def told (s : NodeImpl) (chains : PeerId → List ItemHashType) (chain : List ItemHashType) :
    Event → PeerId → List ItemHashType
  | .itemIdsInventory p ids _ =>
    if (s.peer p).itemIdsRequestedFromPeer = true ∧ ids ≠ [] then Function.update chains p chain
    else chains
  | _ => chains

/-- Every answer asked for goes on from where the peer is. -/
def InPlace (G : BlockGraph) (s : NodeImpl) : Event → Prop
  | .itemIdsInventory p ids n => (s.peer p).itemIdsRequestedFromPeer = true →
      s.upToDate (s.peer p) ids n = false → Continues G s p ids
  | _ => True

structure PositionInv (G : BlockGraph) (s : NodeImpl) (chains : PeerId → List ItemHashType) :
    Prop where
  peer : ∀ p, (s.peer p).Positioned G (chains p)
  chain : ∀ p, G.Chain (chains p)
  truthful : s.delegate.Truthful G
  backed : s.Backed

namespace PositionInv

variable {chains : PeerId → List ItemHashType}

theorem follows (h : PositionInv G s chains) (hf : Follows G s s') : PositionInv G s' chains :=
  ⟨fun p => hf.peer p _ (h.peer p), h.chain, hf.delegate ▸ h.truthful, hf.backed h.backed⟩

theorem start {delegate : NodeDelegate} {head : ItemHashType} (htrue : delegate.Truthful G)
    (hknown : delegate.Knows head) : PositionInv G (.start delegate head) fun _ => [] where
  peer _ := positioned_reset rfl rfl rfl
  chain _ := BlockGraph.chain_nil
  truthful := htrue
  backed := ⟨fun id hid => by rwa [List.mem_singleton.1 hid], fun _ he => absurd he List.not_mem_nil⟩

/-- An answer changes what is kept of one peer. -/
theorem modified (h : PositionInv G s chains) {chains' : PeerId → List ItemHashType}
    (hother : ∀ q, q ≠ p → chains' q = chains q) (hchain : G.Chain (chains' p))
    {peer : PeerConnection} (hpeer : peer.Positioned G (chains' p)) :
    PositionInv G (s.modifyPeer p fun _ => peer) chains' := by
  refine ⟨fun q => ?_, fun q => ?_, h.truthful, ⟨h.backed.recent, h.backed.cache⟩⟩
  · rw [modifyPeer_peer]
    split_ifs with hq
    · rwa [hq]
    · rw [hother q hq]
      exact h.peer q
  · by_cases hq : q = p
    · rwa [hq]
    · rw [hother q hq]
      exact h.chain q

theorem answered (h : PositionInv G s chains) {chains' : PeerId → List ItemHashType}
    {ids : List ItemHashType} {n : Nat} (hasked : (s.peer p).itemIdsRequestedFromPeer = true)
    (hother : ∀ q, q ≠ p → chains' q = chains q) (hchain : G.Chain (chains' p))
    (hextended : s.upToDate (s.peer p) ids n = false → (s.extendItemsToGet p ids { s.peer p with
      itemIdsRequestedFromPeer := false, numberOfUnfetchedItemIds := n }).2.Positioned G
        (chains' p)) :
    PositionInv G (s.onBlockchainItemIdsInventoryMessage p ids n) chains' := by
  unfold onBlockchainItemIdsInventoryMessage
  rw [hasked, if_neg (by decide)]
  dsimp only
  have hsame : s.upToDate { s.peer p with itemIdsRequestedFromPeer := false } ids n =
      s.upToDate (s.peer p) ids n := rfl
  split_ifs with hup hdone
  · refine h.modified hother hchain ⟨(h.peer p).number, ?_⟩
    have hempty : (s.peer p).idsOfItemsToGet = [] := by
      unfold upToDate at hup
      simp only [Bool.and_eq_true, List.isEmpty_iff] at hup
      exact hup.1.2
    show (s.peer p).idsOfItemsToGet <:+: _
    rw [hempty]
    exact List.nil_infix
  · refine (h.modified hother hchain (hextended ?_)).follows (follows_continueWithPeer _ p n)
    rw [← hsame]
    exact Bool.eq_false_iff.2 hup
  · refine h.modified hother hchain (hextended ?_)
    rw [← hsame]
    exact Bool.eq_false_iff.2 hup

theorem itemIdsInventory (h : PositionInv G s chains) {ids chain : List ItemHashType} {n : Nat}
    (hchain : G.Chain chain) (hids : ids <:+: chain)
    (hplace : InPlace G s (.itemIdsInventory p ids n)) :
    PositionInv G (s.onBlockchainItemIdsInventoryMessage p ids n)
      (told s chains chain (.itemIdsInventory p ids n)) := by
  rw [told]
  cases hasked : (s.peer p).itemIdsRequestedFromPeer with
  | false =>
    unfold onBlockchainItemIdsInventoryMessage
    simpa [hasked] using h
  | true =>
    split_ifs with hne
    · refine h.answered hasked (fun q hq => Function.update_of_ne hq chain chains) ?_ fun hup => ?_
      · rwa [Function.update_self]
      · rw [Function.update_self]
        exact extendItemsToGet_positioned (h.chain p) hchain h.truthful
          ⟨(h.peer p).number, (h.peer p).run⟩ hids hne.2 rfl rfl (hplace hasked hup)
    · -- An empty answer leaves the list of the peer as it is.
      obtain rfl : ids = [] := by simpa [hasked] using hne
      exact h.answered hasked (fun _ _ => rfl) (h.chain p) fun _ =>
        ⟨(h.peer p).number, (h.peer p).run⟩

theorem step (h : PositionInv G s chains) {e : Event} {chain : List ItemHashType}
    (hhonest : Honest G s chain e) (hpossible : s.Possible e) (hplace : InPlace G s e) :
    PositionInv G (s.step config e) (told s chains chain e) := by
  cases e with
  | connect p n =>
    refine h.follows (.trans (t := s.modifyPeer p fun _ => .fresh n)
      (.modifyPeer fun l _ => positioned_reset rfl rfl rfl) (.of_eq rfl rfl rfl rfl))
  | newPeer p =>
    exact h.follows (.trans (t := s.movePeerToActiveList p) (.of_eq rfl rfl rfl rfl)
      (follows_startSynchronizingWithPeer _ p))
  | startSynchronizing order =>
    exact h.follows (.foldl fun s p => follows_startSynchronizingWithPeer s p)
  | fetchSyncItems order => exact h.follows (follows_fetchSyncItemsLoop s order)
  | itemIdsInventory p ids n => exact h.itemIdsInventory hhonest.1 hhonest.2 hplace
  | fetchBlockchainItemIds p synopsis available inbound =>
    exact h.follows (follows_onFetchBlockchainItemIdsMessage s p synopsis available inbound)
  | blockMessage now p msg hash handled =>
    exact h.follows (follows_processBlockMessage h.backed hhonest.1 now hash hhonest.2)
  | processBacklog => exact h.follows (follows_processBacklogOfSyncBlocks s)
  | syncBlockHandled msg handled =>
    exact h.follows (follows_sendSyncBlockToNodeDelegate hhonest.1 hhonest.2)
  | itemNotAvailable p item => exact h.follows (follows_onItemNotAvailableMessage s p item)
  | fetchItems p items => exact h.follows (follows_onFetchItemsMessage h.backed h.truthful items)
  | advertised p item now =>
    rw [NodeImpl.step]
    exact h.follows (follows_modifyPeer rfl rfl rfl)
  | itemRequested p item =>
    rw [NodeImpl.step]
    exact h.follows (follows_modifyPeer rfl rfl rfl)
  | broadcastBlock hash msg => exact h.follows (follows_broadcast config hash hhonest)
  | cacheExpired kept =>
    exact ⟨h.peer, h.chain, h.truthful, h.backed.recent,
      fun e he => h.backed.cache e (hpossible.subset he)⟩
  | disconnect p => exact h.follows (follows_disconnectFromPeer s p)
  | terminate p => exact h.follows (.of_eq rfl rfl rfl rfl)
  | connectionClosed p => exact h.follows (follows_onConnectionClosed s p)
  | delegateChanges delegate =>
    exact ⟨h.peer, h.chain, hhonest.1, fun id hid => hhonest.2 id (h.backed.recent id hid),
      fun e he => hhonest.2 _ (h.backed.cache e he)⟩

end PositionInv

namespace Example

/-- A chain of blocks 1, 2 and so on. -/
def line : BlockGraph where
  number id := id
  previous id := id - 1
  number_zero := rfl

end Example

end Achain.Net
