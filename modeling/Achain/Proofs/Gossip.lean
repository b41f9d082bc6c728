import Achain.Lib.Flooding
import Achain.Net.Gossip

/-!
# Transactions reach every node

Of one transaction the nodes do what flooding says. Within the time that a node remembers what it heard
of, and as long as nobody refuses a transaction that is not there already, every step of a node is some
steps of flooding, or none. So when nothing is on its way and no loop has anything to do, a transaction
is in the message caches of all nodes that are connected with one that has it.
-/

namespace Achain.Net.Gossip

open Networks Relation

variable {ν τ : Type}

/-! ## What is assigned in one iteration -/

section Assigned

/-- The peers that an item is assigned to. -/
def assignedTo (i : ItemId) (ps : List (PeerAndItems ν)) : List ν :=
  ps.flatMap fun p => (p.itemIds.filter (· = i)).map fun _ => p.peer

variable (s : NodeImpl ν τ) (now : TimePoint) {i item : ItemId} {p : PeerAndItems ν}
  {ps ps' : List (PeerAndItems ν)}

theorem mem_assignedTo {v : ν} :
    v ∈ assignedTo i ps ↔ ∃ p ∈ ps, i ∈ p.itemIds ∧ v = p.peer := by
  simp [assignedTo]

theorem requeue_perm : (p.requeue ps).Perm (p :: ps) := by
  unfold PeerAndItems.requeue
  cases ps with
  | nil => exact .refl _
  | cons q ps =>
    dsimp only
    split_ifs
    · exact .refl _
    · refine List.perm_middle.trans (List.Perm.cons p ?_)
      rw [List.takeWhile_append_dropWhile]

/-- An item goes to one peer, which has advertised it. -/
theorem assignItem_eq_some (h : s.assignItem now item ps = some ps') :
    ∃ v, v ∈ ps.map PeerAndItems.peer ∧ (s.peer v).advertisedToUs item ∧
      (ps'.map PeerAndItems.peer).Perm (ps.map PeerAndItems.peer) ∧
      ∀ i, (assignedTo i ps').Perm (if i = item then v :: assignedTo i ps else assignedTo i ps) := by
  induction ps generalizing ps' with
  | nil => cases h
  | cons p ps ih =>
    rw [NodeImpl.assignItem] at h
    split_ifs at h with hask
    · obtain rfl := Option.some.inj h
      refine ⟨p.peer, by simp, ?_, requeue_perm.map _, fun i => ?_⟩
      · simp only [NodeImpl.canAsk, Bool.and_eq_true] at hask
        exact hask.1.2
      · refine (requeue_perm.flatMap_right _).trans ?_
        simp only [assignedTo, List.flatMap_cons, List.filter_append, List.map_append]
        split_ifs with hi
        · subst hi
          rw [List.append_assoc]
          simp [List.perm_middle]
        · simp [Ne.symm hi]
    · obtain ⟨qs, hqs, rfl⟩ := Option.map_eq_some_iff.1 h
      obtain ⟨v, hv, hadvertised, hpeers, hassigned⟩ := ih hqs
      refine ⟨v, List.mem_cons_of_mem _ hv, hadvertised, hpeers.cons _, fun i => ?_⟩
      have hi := hassigned i
      simp only [assignedTo, List.flatMap_cons] at hi ⊢
      split_ifs at hi ⊢
      · exact (hi.append_left _).trans List.perm_middle
      · exact hi.append_left _

theorem assignItem_eq_none (h : s.assignItem now item ps = none) : ∀ p ∈ ps, ¬s.canAsk now item p := by
  induction ps with
  | nil => exact fun p hp => absurd hp List.not_mem_nil
  | cons p ps ih =>
    rw [NodeImpl.assignItem] at h
    split_ifs at h with hask
    rw [Option.map_eq_none_iff] at h
    exact List.forall_mem_cons.2 ⟨hask, ih h⟩

variable {e : PrioritizedItemId} {es : List PrioritizedItemId}

theorem assignItems_cons_some (he : ¬e.timeStamp < now - seconds (10 * 5))
    (h : s.assignItem now e.item ps = some ps') :
    s.assignItems now (e :: es) ps = s.assignItems now es ps' := by
  rw [NodeImpl.assignItems, if_neg he, h]

theorem assignItems_cons_none (he : ¬e.timeStamp < now - seconds (10 * 5))
    (h : s.assignItem now e.item ps = none) : s.assignItems now (e :: es) ps =
      (e :: (s.assignItems now es ps).1, (s.assignItems now es ps).2) := by
  rw [NodeImpl.assignItems, if_neg he, h]

/-- What an iteration assigns of items that are not too old. Each item is assigned to one peer more, or
stays; and then all peers that have advertised it have something to do. -/
structure Assigns (es : List PrioritizedItemId) (ps : List (PeerAndItems ν))
    (r : List PrioritizedItemId × List (PeerAndItems ν)) : Prop where
  sublist : r.1.Sublist es
  peers : (r.2.map PeerAndItems.peer).Perm (ps.map PeerAndItems.peer)
  grows : ∀ i v, v ∈ assignedTo i ps → v ∈ assignedTo i r.2
  stays : ∀ i, (assignedTo i r.2).Perm (assignedTo i ps) ∧ (∀ e ∈ es, e.item = i → e ∈ r.1) ∨
    ∃ v ∈ ps.map PeerAndItems.peer, (s.peer v).advertisedToUs i ∧
      (assignedTo i r.2).Perm (v :: assignedTo i ps) ∧ (∃ e ∈ es, e.item = i) ∧ ∀ e ∈ r.1, e.item ≠ i
  waits : ∀ e ∈ r.1, ∀ v ∈ ps.map PeerAndItems.peer, (s.peer v).advertisedToUs e.item →
    ¬(s.peer v).isTransactionFetchingInhibited now → ∃ i, v ∈ assignedTo i r.2

theorem assigns_nil : Assigns s now [] ps ([], ps) where
  sublist := .slnil
  peers := .refl _
  grows _ _ h := h
  stays _ := .inl ⟨.refl _, by simp⟩
  waits := by simp

theorem Assigns.cons_some {r : List PrioritizedItemId × List (PeerAndItems ν)}
    (h : Assigns s now es ps' r) (hsome : s.assignItem now e.item ps = some ps')
    (hnew : ∀ e' ∈ es, e'.item ≠ e.item) : Assigns s now (e :: es) ps r := by
  obtain ⟨v, hv, hadvertised, hpeers, hassigned⟩ := assignItem_eq_some s now hsome
  refine ⟨h.sublist.cons e, h.peers.trans hpeers, fun i w hw => h.grows i w ?_, fun i => ?_, ?_⟩
  · rw [(hassigned i).mem_iff]
    split_ifs
    · exact List.mem_cons_of_mem _ hw
    · exact hw
  · have hi := hassigned i
    obtain ⟨hperm, hstays⟩ | ⟨w, hw, hw', hperm, hmem, hgone⟩ := h.stays i
    · by_cases heq : i = e.item
      · rw [if_pos heq] at hi
        subst heq
        exact .inr ⟨v, hv, hadvertised, hperm.trans hi, ⟨e, List.mem_cons_self, rfl⟩,
          fun e' he' => hnew e' (h.sublist.subset he')⟩
      · rw [if_neg heq] at hi
        refine .inl ⟨hperm.trans hi, List.forall_mem_cons.2 ⟨fun he => absurd he.symm heq, hstays⟩⟩
    · obtain ⟨e', he', rfl⟩ := hmem
      rw [if_neg (hnew e' he')] at hi
      exact .inr ⟨w, hpeers.mem_iff.1 hw, hw', hperm.trans (hi.cons w),
        ⟨e', List.mem_cons_of_mem _ he', rfl⟩, hgone⟩
  · intro e' he' w hw
    exact h.waits e' he' w (hpeers.mem_iff.2 hw)

theorem Assigns.cons_none {r : List PrioritizedItemId × List (PeerAndItems ν)}
    (h : Assigns s now es ps r) (hnone : s.assignItem now e.item ps = none)
    (hnew : ∀ e' ∈ es, e'.item ≠ e.item) : Assigns s now (e :: es) ps (e :: r.1, r.2) where
  sublist := h.sublist.cons_cons e
  peers := h.peers
  grows := h.grows
  stays i := by
    obtain ⟨hperm, hstays⟩ | ⟨w, hw, hw', hperm, hmem, hgone⟩ := h.stays i
    · exact .inl ⟨hperm, List.forall_mem_cons.2 ⟨fun _ => List.mem_cons_self,
        fun e' he' hi => List.mem_cons_of_mem _ (hstays e' he' hi)⟩⟩
    · obtain ⟨e', he', rfl⟩ := hmem
      exact .inr ⟨w, hw, hw', hperm, ⟨e', List.mem_cons_of_mem _ he', rfl⟩,
        List.forall_mem_cons.2 ⟨(hnew e' he').symm, hgone⟩⟩
  waits := by
    refine List.forall_mem_cons.2 ⟨fun v hv hadvertised hinhibited => ?_, h.waits⟩
    obtain ⟨p, hp, rfl⟩ := List.mem_map.1 hv
    have hask := assignItem_eq_none s now hnone p hp
    -- the peer has an item already
    have hitems : p.itemIds ≠ [] := by
      rintro hnil
      simp [NodeImpl.canAsk, hnil, hadvertised, hinhibited, netMaxItemsPerPeerDuringNormalOperation] at hask
    obtain ⟨i, hi⟩ := List.exists_mem_of_ne_nil _ hitems
    exact ⟨i, h.grows i _ (mem_assignedTo.2 ⟨p, hp, hi, rfl⟩)⟩

theorem assigns_assignItems (hold : ∀ e ∈ es, ¬e.timeStamp < now - seconds (10 * 5))
    (hnodup : (es.map PrioritizedItemId.item).Nodup) : Assigns s now es ps (s.assignItems now es ps) := by
  induction es generalizing ps with
  | nil => exact assigns_nil s now
  | cons e es ih =>
    rw [List.forall_mem_cons] at hold
    rw [List.map_cons, List.nodup_cons] at hnodup
    have hnew : ∀ e' ∈ es, e'.item ≠ e.item := fun e' he' heq =>
      hnodup.1 (heq ▸ List.mem_map_of_mem he')
    cases hassign : s.assignItem now e.item ps with
    | some ps' =>
      rw [assignItems_cons_some s now hold.1 hassign]
      exact (ih hold.2 hnodup.2).cons_some s now hassign hnew
    | none =>
      rw [assignItems_cons_none s now hold.1 hassign]
      exact (ih hold.2 hnodup.2).cons_none s now hassign hnew

end Assigned

/-! ## What the nodes know of one item -/

section About

variable (id : τ → MessageHashType) (i : ItemId)

/-- A node as far as it is about one item. -/
def NodeImpl.about (s : NodeImpl ν τ) : Flooding.Local ν where
  has := i.itemType = .trxMessageType ∧ s.messageCache.contains i.itemHash
  fresh := i ∈ s.newInventory
  wanted := ∃ e ∈ s.itemsToFetch, e.item = i
  checking := s.handleMessageCallsInProgress.countP fun call => trxItem id call.2 = i
  told := {p | (s.peer p).advertisedToPeer i}
  heard := {p | (s.peer p).advertisedToUs i}
  asked := {p | i ∈ (s.peer p).itemsRequestedFromPeer}

/-- Each of the hashes that is the item's. -/
def mentions {α : Type} (m : α) (itemType : ItemType) (itemHashes : List ItemHashType) : List α :=
  itemHashes.filterMap fun itemHash => if (⟨itemType, itemHash⟩ : ItemId) = i then some m else none

def Message.about : Message τ → List Flooding.Message
  | .itemIdsInventory itemType itemHashes => mentions i .offer itemType itemHashes
  | .fetchItems itemType itemHashes => mentions i .request itemType itemHashes
  | .itemNotAvailable _ => []
  | .trx t => if trxItem id t = i then [.item] else []

/-- What a node comes to, as far as it is about one item. -/
abbrev view (o : Outcome ν (NodeImpl ν τ) (Message τ)) : Outcome ν (Flooding.Local ν) Flooding.Message :=
  o.map (NodeImpl.about id i) (Message.about id i)

end About

variable {id : τ → MessageHashType} {i : ItemId}

theorem mentions_cons {α : Type} (m : α) (itemType : ItemType) (itemHash : ItemHashType)
    (itemHashes : List ItemHashType) : mentions i m itemType (itemHash :: itemHashes) =
      if (⟨itemType, itemHash⟩ : ItemId) = i then m :: mentions i m itemType itemHashes
      else mentions i m itemType itemHashes := by
  unfold mentions
  rw [List.filterMap_cons]
  split_ifs <;> rfl

theorem mentions_hashes {α : Type} (m : α) (itemType : ItemType) (items : List ItemId) :
    mentions i m itemType ((items.filter (·.itemType == itemType)).map ItemId.itemHash) =
      if i.itemType = itemType then (items.filter (· = i)).map fun _ => m else [] := by
  induction items with
  | nil => simp [mentions]
  | cons j items ih =>
    unfold mentions at ih ⊢
    obtain ⟨jtype, jhash⟩ := j
    obtain ⟨itype, ihash⟩ := i
    grind

/-- The messages of the different types mention an item as often as it is there. -/
theorem mentions_itemsByType {α : Type} (m : α) (items : List ItemId) :
    (itemsByType items).flatMap (fun g => mentions i m g.1 g.2) =
      (items.filter (· = i)).map fun _ => m := by
  have hgroup : ∀ type hashes, ((if hashes.isEmpty then none else some (type, hashes)) :
      Option (ItemType × List ItemHashType)).toList.flatMap (fun g => mentions i m g.1 g.2) =
        mentions i m type hashes := by
    intro type hashes
    cases hashes with
    | nil => rfl
    | cons => exact List.flatMap_singleton ..
  rw [itemsByType, List.filterMap_eq_flatMap_toList, List.flatMap_assoc]
  simp only [hgroup, mentions_hashes]
  cases i.itemType <;> simp

/-! ## Calm -/

/-- Within the time that a node tries to fetch what it has heard of, and remembers what it advertised. -/
def Within (start now : TimePoint) : Prop := start ≤ now ∧ now ≤ start + seconds (10 * 5)

/-- There is room for so many items more of those a peer has advertised, and numbers for them. -/
def Room (s : NodeImpl ν τ) (p : ν) (n : Nat) : Prop :=
  (s.peer p).inventoryPeerAdvertisedToUs.length + n ≤ PeerConnection.inventoryLimit ∧
    s.itemsToFetchSequenceCounter.toNat + n < 2 ^ 31

section Calm

variable [DecidableEq τ] (id : τ → MessageHashType) (start : TimePoint)

/-- The client refuses only what is there, or is being handled a second time, and the blocks it accepts
are so few that the message cache keeps what it has. -/
def Event.Calm (s : NodeImpl ν τ) : Event ν τ → Prop
  | .broadcast _ => True
  | .advertiseInventory now _ | .fetchItems now _ => Within start now
  | .messageHandled _ _ trx handled => handled = .accepted ∨ handled = .rejected ∧
    (s.messageCache.contains (id trx) ∨
      1 < s.handleMessageCallsInProgress.countP fun call => trxItem id call.2 = trxItem id trx)
  | .blockAccepted => s.messageCache.blockAccepted.messageCache = s.messageCache.messageCache

/-- There is room for what is advertised. -/
def Message.Calm (s : NodeImpl ν τ) (p : ν) : Message τ → Prop
  | .itemIdsInventory _ itemHashes => Room s p itemHashes.length
  | .fetchItems _ _ | .itemNotAvailable _ | .trx _ => True

variable [DecidableEq ν]

/-- What nodes do in calm times. -/
def calmGossip : Protocol ν (NodeImpl ν τ) (Message τ) where
  acts _ s o := ∃ e : Event ν τ, e.Possible s ∧ e.Calm id start s ∧ o = s.step id e
  receives _ p m s o := ∃ now, Within start now ∧ m.Calm s p ∧ o = s.onMessage now id p m

end Calm

/-- What holds of a node in calm times: it is in sync with its peers, it has heard of nothing and asked
for nothing before `start`, and what it waits for it has heard of from a peer that is busy. -/
structure Steady (start : TimePoint) (conns : List ν) (s : NodeImpl ν τ) : Prop where
  active : s.activeConnections = conns
  inSync : ∀ p, (s.peer p).peerNeedsSyncItemsFromUs = false
  notSyncing : ∀ p, (s.peer p).syncItemsRequestedFromPeer = ∅ ∧
    (s.peer p).itemIdsRequestedFromPeer = false
  unblocked : ∀ p, (s.peer p).transactionFetchingInhibitedUntil ≤ start
  told : ∀ p, ∀ e ∈ (s.peer p).inventoryAdvertisedToPeer, start.sec ≤ e.2 ∧ p ∈ conns
  heard : ∀ p, ∀ e ∈ (s.peer p).inventoryPeerAdvertisedToUs, start.sec ≤ e.2 ∧ p ∈ conns
  asked : ∀ p, ∀ i ∈ (s.peer p).itemsRequestedFromPeer, p ∈ conns
  items : (s.itemsToFetch.map PrioritizedItemId.item).Nodup
  fetch : ∀ e ∈ s.itemsToFetch, start ≤ e.timeStamp ∧ e.sequenceNumber < s.itemsToFetchSequenceCounter ∧
    ∃ p, (s.peer p).advertisedToUs e.item
  waiting : s.itemsToFetchUpdated = false → ∀ e ∈ s.itemsToFetch, ∃ p,
    (s.peer p).advertisedToUs e.item ∧ ∃ i, i ∈ (s.peer p).itemsRequestedFromPeer

section Clients

variable {s : NodeImpl ν τ} {start : TimePoint} {conns : List ν} {trx : τ}

theorem contains_cacheMessage {c : BlockchainTiedMessageCache τ} {h h' : MessageHashType} :
    (c.cacheMessage h trx).contains h' ↔ h = h' ∨ c.contains h' := by
  unfold BlockchainTiedMessageCache.cacheMessage
  split_ifs with hc
  · exact ⟨.inr, fun hor => hor.elim (fun heq => heq ▸ hc) fun h => h⟩
  · simp [BlockchainTiedMessageCache.contains, or_comm]

theorem about_broadcast : (s.broadcast id trx).about id i =
    if trxItem id trx = i then { s.about id i with has := True, fresh := True } else s.about id i := by
  obtain ⟨type, hash⟩ := i
  have hhas : (type = .trxMessageType ∧ (s.broadcast id trx).messageCache.contains hash) ↔
      trxItem id trx = ⟨type, hash⟩ ∨ type = .trxMessageType ∧ s.messageCache.contains hash := by
    rw [NodeImpl.broadcast, contains_cacheMessage, trxItem, ItemId.mk.injEq]
    grind
  have hfresh : (⟨type, hash⟩ : ItemId) ∈ (s.broadcast id trx).newInventory ↔
      trxItem id trx = ⟨type, hash⟩ ∨ (⟨type, hash⟩ : ItemId) ∈ s.newInventory := by
    rw [NodeImpl.broadcast, Finset.mem_insert, trxItem, eq_comm]
  split_ifs with hi
  · simp only [NodeImpl.about, hhas, hfresh, hi, true_or]
    rfl
  · simp only [NodeImpl.about, hhas, hfresh, hi, false_or]
    rfl

theorem Steady.congr {s' : NodeImpl ν τ} (h : Steady start conns s) (hpeer : s'.peer = s.peer)
    (hactive : s'.activeConnections = s.activeConnections) (hitems : s'.itemsToFetch = s.itemsToFetch)
    (hcounter : s'.itemsToFetchSequenceCounter = s.itemsToFetchSequenceCounter)
    (hupdated : s'.itemsToFetchUpdated = s.itemsToFetchUpdated) : Steady start conns s' := by
  obtain ⟨h1, h2, h3, h4, h5, h6, h7, h8, h9, h10⟩ := h
  rw [← hactive] at h1
  rw [← hpeer] at h2 h3 h4 h5 h6 h7 h9 h10
  rw [← hitems] at h8 h9 h10
  rw [← hcounter] at h9
  rw [← hupdated] at h10
  exact ⟨h1, h2, h3, h4, h5, h6, h7, h8, h9, h10⟩

variable {adj : ν → ν → Prop} {u : ν}

theorem works_broadcast : (Flooding.flooding adj).Works u u [] (s.about id i)
    (view id i ⟨s.broadcast id trx, []⟩) := by
  show Protocol.Works _ u u [] _ ⟨(s.broadcast id trx).about id i, []⟩
  rw [about_broadcast]
  split_ifs
  · exact .one_act .announce
  · exact .done _

theorem works_blockAccepted
    (h : s.messageCache.blockAccepted.messageCache = s.messageCache.messageCache) :
    (Flooding.flooding adj).Works u u [] (s.about id i)
      (view id i ⟨{ s with messageCache := s.messageCache.blockAccepted }, []⟩) := by
  have habout : ({ s with messageCache := s.messageCache.blockAccepted } : NodeImpl ν τ).about id i =
      s.about id i := by
    simp only [NodeImpl.about, BlockchainTiedMessageCache.contains, h]
  show Protocol.Works _ u u [] _ ⟨_, []⟩
  rw [habout]
  exact .done _

variable [DecidableEq ν] [DecidableEq τ] {now : TimePoint} {p : ν} {handled : Handled}

variable (id i) in
theorem about_erase (hcall : (p, trx) ∈ s.handleMessageCallsInProgress) :
    ({ s with handleMessageCallsInProgress := s.handleMessageCallsInProgress.erase (p, trx) } :
      NodeImpl ν τ).about id i =
    if trxItem id trx = i then { s.about id i with checking := (s.about id i).checking - 1 }
    else s.about id i := by
  have hcount := List.countP_erase (fun call => decide (trxItem id call.2 = i)) (p, trx)
    (l := s.handleMessageCallsInProgress)
  split_ifs with hi
  · simp only [NodeImpl.about, hcount, hcall, hi]
    simp
  · simp only [NodeImpl.about, hcount, hi]
    simp

theorem works_messageHandled (hcall : (p, trx) ∈ s.handleMessageCallsInProgress)
    (h : handled = .accepted ∨ handled = .rejected ∧ (s.messageCache.contains (id trx) ∨
      1 < s.handleMessageCallsInProgress.countP fun call => trxItem id call.2 = trxItem id trx)) :
    (Flooding.flooding adj).Works u u [] (s.about id i)
      (view id i ⟨s.messageHandled now id p trx handled, []⟩) := by
  have herase := about_erase id i hcall
  have hone : trxItem id trx = i → 0 < (s.about id i).checking := fun hi =>
    List.countP_pos_iff.2 ⟨_, hcall, by simpa using hi⟩
  obtain rfl | ⟨rfl, hother⟩ := h
  · show Protocol.Works _ u u [] _ ⟨(NodeImpl.broadcast _ id trx).about id i, []⟩
    rw [about_broadcast, herase]
    split_ifs with hi
    · exact .one_act (.accept (hone hi))
    · exact .done _
  · show Protocol.Works _ u u [] _ ⟨_, []⟩
    rw [NodeImpl.messageHandled, herase]
    split_ifs with hi
    · subst hi
      exact .one_act (.refuse (hother.elim (fun h => .inr ⟨hone rfl, rfl, h⟩) .inl))
    · exact .done _

theorem Steady.messageHandled (h : Steady start conns s) (hhandled : handled ≠ .insufficientRelayFee) :
    Steady start conns (s.messageHandled now id p trx handled) := by
  cases handled with
  | accepted => exact h.congr rfl rfl rfl rfl rfl
  | insufficientRelayFee => exact absurd rfl hhandled
  | rejected => exact h.congr rfl rfl rfl rfl rfl

end Clients

/-! ## The loops -/

section Loops

variable {s : NodeImpl ν τ} {start now : TimePoint} {conns : List ν} {p : ν} {items : List ItemId}

/-- The messages of a loop mention an item as often as it is sent to a peer. -/
theorem about_sent {β : Type} (mk : ItemType → List ItemHashType → Message τ) {m : Flooding.Message}
    (hmk : ∀ type hashes, (mk type hashes).about id i = mentions i m type hashes) (l : List β)
    (peer : β → ν) (F : β → List ItemId) :
    (l.flatMap fun b => (itemsByType (F b)).map fun g => (peer b, mk g.1 g.2)).flatMap
        (fun x => (x.2.about id i).map fun m' => (x.1, m')) =
      l.flatMap fun b => ((F b).filter (· = i)).map fun _ => (peer b, m) := by
  rw [List.flatMap_assoc]
  refine congrArg (fun f => l.flatMap f) (funext fun b => ?_)
  rw [List.flatMap_map]
  simp only [hmk]
  rw [← List.map_flatMap, mentions_itemsByType, List.map_map]
  rfl

theorem Within.sec_le (h : Within start now) : now.sec - netMaxInventorySizeInSeconds ≤ start.sec := by
  have hdiv : ∀ a b : Nat, b ≤ a + 10 * 5 * 1000000 → b / 1000000 - 2 * 60 ≤ a / 1000000 := by omega
  exact hdiv start now h.2

theorem Within.le_sec (h : Within start now) : start.sec ≤ now.sec := Nat.div_le_div_right h.1

/-- Nothing is old enough to be forgotten. -/
theorem clearOldInventory_eq {peer : PeerConnection} (hnow : Within start now)
    (htold : ∀ e ∈ peer.inventoryAdvertisedToPeer, start.sec ≤ e.2)
    (hheard : ∀ e ∈ peer.inventoryPeerAdvertisedToUs, start.sec ≤ e.2) :
    peer.clearOldInventory now = peer := by
  have htold' := List.filter_eq_self.2 fun e he =>
    decide_eq_true (hnow.sec_le.trans (htold e he))
  have hheard' := List.filter_eq_self.2 fun e he =>
    decide_eq_true (hnow.sec_le.trans (hheard e he))
  unfold PeerConnection.clearOldInventory Net.PeerConnection.clearOldInventory
  rw [htold', hheard']

theorem Steady.clearOldInventory (h : Steady start conns s) (hnow : Within start now) (p : ν) :
    (s.peer p).clearOldInventory now = s.peer p :=
  clearOldInventory_eq hnow (fun e he => (h.told p e he).1) (fun e he => (h.heard p e he).1)

/-- What is noted of an advertised inventory. -/
theorem Steady.advertise (h : Steady start conns s) (hnow : Within start now) (p : ν) :
    (s.peer p).advertise now items = { s.peer p with
      inventoryAdvertisedToPeer := (s.peer p).inventoryAdvertisedToPeer ++
        ((s.peer p).itemsToAdvertise items).map fun item => (item, now.sec) } := by
  rw [PeerConnection.advertise, if_neg (by simp [h.inSync])]
  refine clearOldInventory_eq hnow (fun e he => ?_) (fun e he => (h.heard p e he).1)
  obtain he | he := List.mem_append.1 he
  · exact (h.told p e he).1
  · obtain ⟨item, -, rfl⟩ := List.mem_map.1 he
    exact hnow.le_sec

variable [DecidableEq ν]

variable (items) in
/-- What each peer is known to have been told after an iteration. -/
theorem Steady.peer_advertiseInventoryLoop (h : Steady start conns s) (hnow : Within start now) (p : ν) :
    (s.advertiseInventoryLoop now items).node.peer p = { s.peer p with
      inventoryAdvertisedToPeer := (s.peer p).inventoryAdvertisedToPeer ++
        if p ∈ conns then ((s.peer p).itemsToAdvertise items).map fun item => (item, now.sec)
        else [] } := by
  show (if p ∈ s.activeConnections then (s.peer p).advertise now items else s.peer p) = _
  rw [h.active, h.advertise hnow]
  split_ifs
  · rfl
  · rw [List.append_nil]

theorem Steady.advertiseInventoryLoop (h : Steady start conns s) (hnow : Within start now) :
    Steady start conns (s.advertiseInventoryLoop now items).node := by
  have hpeer := h.peer_advertiseInventoryLoop items hnow
  constructor
  case active => exact h.active
  case told =>
    intro p e he
    rw [hpeer, List.mem_append] at he
    obtain he | he := he
    · exact h.told p e he
    · split_ifs at he with hp
      · obtain ⟨item, -, rfl⟩ := List.mem_map.1 he
        exact ⟨hnow.le_sec, hp⟩
      · cases he
  case items => exact h.items
  all_goals simp only [hpeer]
  · exact h.inSync
  · exact h.notSyncing
  · exact h.unblocked
  · exact h.heard
  · exact h.asked
  · exact h.fetch
  · exact h.waiting

theorem mem_itemsToAdvertise {peer : PeerConnection} : i ∈ peer.itemsToAdvertise items ↔
    i ∈ items ∧ ¬peer.advertisedToPeer i ∧ ¬peer.advertisedToUs i := by
  simp [PeerConnection.itemsToAdvertise]

omit [DecidableEq ν] in
theorem flatMap_filter_eq {F : ν → List ItemId} (hF : ∀ p, (F p).Nodup) (m : Flooding.Message)
    (l : List ν) : (l.flatMap fun p => ((F p).filter (· = i)).map fun _ => (p, m)) =
      (l.filter fun p => i ∈ F p).map fun p => (p, m) := by
  induction l with
  | nil => rfl
  | cons p l ih =>
    rw [List.flatMap_cons, ih, List.filter_eq, (hF p).count, List.filter_cons]
    by_cases hp : i ∈ F p <;> simp [hp]

/-- Each peer that is not known to have the item is told of it once. -/
theorem sent_advertiseInventoryLoop (h : Steady start conns s) (hitems : items.Nodup) :
    (view id i (s.advertiseInventoryLoop now items)).sent =
      (conns.filter fun p => i ∈ (s.peer p).itemsToAdvertise items).map fun p => (p, .offer) := by
  have hsent : (s.advertiseInventoryLoop now items).sent = conns.flatMap fun p =>
      (itemsByType ((s.peer p).itemsToAdvertise items)).map fun m => (p, .itemIdsInventory m.1 m.2) := by
    simp only [NodeImpl.advertiseInventoryLoop, h.inSync, h.active]
    rfl
  rw [view, Outcome.map, hsent, about_sent Message.itemIdsInventory fun _ _ => rfl]
  exact flatMap_filter_eq (fun p => hitems.filter _) _ conns

theorem works_advertiseInventoryLoop {adj : ν → ν → Prop} {u : ν} (h : Steady start conns s)
    (hnow : Within start now) (hconns : conns.Nodup) (hadj : ∀ v, adj u v ↔ v ∈ conns)
    (hitems : items.Nodup) (hinventory : items.toFinset = s.newInventory) :
    (Flooding.flooding adj).Works u u [] (s.about id i)
      (view id i (s.advertiseInventoryLoop now items)) := by
  let l := conns.filter fun p => i ∈ (s.peer p).itemsToAdvertise items
  have hl : ∀ p, p ∈ l ↔ p ∈ conns ∧ i ∈ items ∧ ¬(s.peer p).advertisedToPeer i ∧
      ¬(s.peer p).advertisedToUs i := fun p => by
    rw [List.mem_filter, decide_eq_true_eq, mem_itemsToAdvertise]
  have hmem : i ∈ s.newInventory ↔ i ∈ items := by rw [← hinventory, List.mem_toFinset]
  have habout : (s.advertiseInventoryLoop now items).node.about id i =
      { s.about id i with fresh := False, told := (s.about id i).told ∪ {p | p ∈ l} } := by
    have hpeer := h.peer_advertiseInventoryLoop items hnow
    have htold : ∀ p, ((s.advertiseInventoryLoop now items).node.peer p).advertisedToPeer i ↔
        (s.peer p).advertisedToPeer i ∨ p ∈ l := by
      intro p
      rw [hpeer, hl, ← mem_itemsToAdvertise]
      unfold PeerConnection.advertisedToPeer
      split_ifs with hp <;> simp [hp]
    unfold NodeImpl.about
    simp only [htold]
    simp only [hpeer]
    congr 1
    exact eq_false (Finset.notMem_empty i)
  have hview : view id i (s.advertiseInventoryLoop now items) = ⟨_, _⟩ :=
    congrArg₂ Outcome.mk habout (sent_advertiseInventoryLoop h hitems)
  rw [hview]
  by_cases hfresh : i ∈ items
  · refine .one_act (.advertise (hmem.2 hfresh) (hconns.filter _) fun v => ?_)
    rw [hl, hadj]
    exact and_congr_right fun _ => and_iff_right hfresh
  · have hnil : l = [] := List.filter_eq_nil_iff.2 fun p _ hp =>
      hfresh (mem_itemsToAdvertise.1 (of_decide_eq_true hp)).1
    have hsame : { s.about id i with fresh := False, told := (s.about id i).told ∪ {p | p ∈ l} } =
        s.about id i := by
      simp only [NodeImpl.about, hmem, hfresh, hnil, List.not_mem_nil, Set.ofPred_false, Set.union_empty]
    rw [hsame]
    have hsent : (conns.filter fun p => decide (i ∈ (s.peer p).itemsToAdvertise items)) = [] := hnil
    rw [hsent]
    exact .done _

/-- What is requested of the peers. -/
theorem foldl_requestItems (ps : List (PeerAndItems ν)) (s : NodeImpl ν τ) :
    ps.foldl NodeImpl.requestItems s = { s with peer := fun p => { s.peer p with
      itemsRequestedFromPeer := (s.peer p).itemsRequestedFromPeer ∪
        ((ps.filter (·.peer = p)).flatMap PeerAndItems.itemIds).toFinset } } := by
  induction ps generalizing s with
  | nil => simp
  | cons q ps ih =>
    rw [List.foldl_cons, ih]
    simp only [NodeImpl.requestItems, NodeImpl.modifyPeer, NodeImpl.mk.injEq, and_true]
    funext p
    by_cases hq : q.peer = p
    · subst hq
      simp [Finset.union_assoc]
    · simp [hq, Function.update_of_ne (Ne.symm hq)]

theorem mem_foldl_requestItems (ps : List (PeerAndItems ν)) {s : NodeImpl ν τ} {p : ν} :
    i ∈ ((ps.foldl NodeImpl.requestItems s).peer p).itemsRequestedFromPeer ↔
      i ∈ (s.peer p).itemsRequestedFromPeer ∨ p ∈ assignedTo i ps := by
  rw [foldl_requestItems, mem_assignedTo, Finset.mem_union, List.mem_toFinset, List.mem_flatMap]
  refine or_congr_right (exists_congr fun q => ?_)
  rw [List.mem_filter, decide_eq_true_eq, and_assoc, and_comm (b := i ∈ q.itemIds), eq_comm]

omit [DecidableEq ν] in
theorem Steady.not_old (h : Steady start conns s) (hnow : Within start now) :
    ∀ e ∈ s.itemsToFetch, ¬e.timeStamp < now - seconds (10 * 5) := by
  intro e he
  have hstart := (h.fetch e he).1
  have hend := hnow.2
  have hold : ∀ a b c d : Nat, a ≤ b → c ≤ a + d → ¬b < c - d := by omega
  exact hold _ _ _ _ hstart hend

/-- A peer is idle where nothing has been requested of it. -/
theorem idle_iff {peer : PeerConnection}
    (h : peer.syncItemsRequestedFromPeer = ∅ ∧ peer.itemIdsRequestedFromPeer = false) :
    peer.idle ↔ ∀ i, i ∉ peer.itemsRequestedFromPeer := by
  rw [← Finset.eq_empty_iff_forall_notMem]
  simp [Net.PeerConnection.idle, Net.PeerConnection.busy, h]

omit [DecidableEq ν] in
theorem Steady.assigns (h : Steady start conns s) (hnow : Within start now) (order : List ν) :
    Assigns s now s.itemsToFetch (s.idlePeers order)
      (s.assignItems now s.itemsToFetch (s.idlePeers order)) :=
  assigns_assignItems s now (h.not_old hnow) h.items

omit [DecidableEq ν] in
theorem map_peer_idlePeers (order : List ν) :
    (s.idlePeers order).map PeerAndItems.peer = order.filter fun p => (s.peer p).idle := by
  rw [NodeImpl.idlePeers, List.map_map]
  exact List.map_id _

omit [DecidableEq ν] in
theorem assignedTo_idlePeers (order : List ν) : assignedTo i (s.idlePeers order) = [] := by
  rw [assignedTo, NodeImpl.idlePeers, List.flatMap_map]
  exact List.flatMap_eq_nil_iff.2 fun p _ => rfl

theorem Steady.fetchItemsLoop {order : List ν} (h : Steady start conns s) (hnow : Within start now)
    (horder : order.Perm s.activeConnections) :
    Steady start conns (s.fetchItemsLoop now order : Outcome ν _ (Message τ)).node := by
  have hassigns := h.assigns hnow order
  have hpeers := map_peer_idlePeers (s := s) order
  simp only [NodeImpl.fetchItemsLoop] at *
  generalize s.assignItems now s.itemsToFetch (s.idlePeers order) = r at *
  have hasked : ∀ i p, p ∈ assignedTo i r.2 → p ∈ conns := by
    intro i p hp
    obtain ⟨q, hq, -, rfl⟩ := mem_assignedTo.1 hp
    have hidle := hassigns.peers.mem_iff.1 (List.mem_map_of_mem hq)
    rw [hpeers] at hidle
    rw [← h.active]
    exact horder.mem_iff.1 (List.mem_of_mem_filter hidle)
  have hrequested := fun p i => mem_foldl_requestItems r.2 (i := i) (p := p)
    (s := { s with itemsToFetchUpdated := false, itemsToFetch := r.1 })
  simp only [foldl_requestItems] at hrequested ⊢
  refine ⟨h.active, h.inSync, h.notSyncing, h.unblocked, h.told, h.heard, fun p i hi => ?_,
    h.items.sublist (hassigns.sublist.map _), fun e he => h.fetch e (hassigns.sublist.subset he),
    fun _ e he => ?_⟩
  · exact ((hrequested p i).1 hi).elim (h.asked p i) (hasked i p)
  · obtain ⟨-, -, p, hp⟩ := h.fetch e (hassigns.sublist.subset he)
    refine ⟨p, hp, ?_⟩
    by_cases hidle : (s.peer p).idle
    · -- a peer that was idle has been asked for something else
      have hconns : p ∈ conns := by
        obtain ⟨x, hx, -⟩ := List.any_eq_true.1 hp
        exact (h.heard p x hx).2
      have hmem : p ∈ (s.idlePeers order).map PeerAndItems.peer := by
        rw [hpeers, List.mem_filter, horder.mem_iff, h.active]
        exact ⟨hconns, hidle⟩
      have hinhibited : ¬(s.peer p).isTransactionFetchingInhibited now := by
        simpa [PeerConnection.isTransactionFetchingInhibited] using (h.unblocked p).trans hnow.1
      obtain ⟨i, hi⟩ := hassigns.waits e he p hmem hp hinhibited
      exact ⟨i, (hrequested p i).2 (.inr hi)⟩
    · rw [idle_iff (h.notSyncing p), not_forall_not] at hidle
      obtain ⟨i, hi⟩ := hidle
      exact ⟨i, (hrequested p i).2 (.inl hi)⟩

theorem works_fetchItemsLoop {adj : ν → ν → Prop} {u : ν} {order : List ν} (h : Steady start conns s)
    (hnow : Within start now) :
    (Flooding.flooding adj).Works u u [] (s.about id i)
      (view id i (s.fetchItemsLoop now order)) := by
  have hassigns := h.assigns hnow order
  have hsent : (view id i (s.fetchItemsLoop now order)).sent =
      (assignedTo i (s.assignItems now s.itemsToFetch (s.idlePeers order)).2).map
        fun p => (p, .request) := by
    rw [view, Outcome.map, NodeImpl.fetchItemsLoop, about_sent Message.fetchItems fun _ _ => rfl,
      assignedTo, List.map_flatMap]
    simp only [List.map_map]
    rfl
  have habout : (s.fetchItemsLoop now order : Outcome ν _ (Message τ)).node.about id i = { s.about id i with
      wanted := ∃ e ∈ (s.assignItems now s.itemsToFetch (s.idlePeers order)).1, e.item = i
      asked := (s.about id i).asked ∪
        {p | p ∈ assignedTo i (s.assignItems now s.itemsToFetch (s.idlePeers order)).2} } := by
    have hasked := fun p => mem_foldl_requestItems (i := i) (p := p)
      (s.assignItems now s.itemsToFetch (s.idlePeers order)).2 (s := { s with
        itemsToFetchUpdated := false
        itemsToFetch := (s.assignItems now s.itemsToFetch (s.idlePeers order)).1 })
    simp only [NodeImpl.about, NodeImpl.fetchItemsLoop, hasked]
    simp only [foldl_requestItems]
    rfl
  have hview : view id i (s.fetchItemsLoop now order) = ⟨_, _⟩ := congrArg₂ Outcome.mk habout hsent
  rw [hview]
  have hstays := hassigns.stays i
  rw [assignedTo_idlePeers] at hstays
  obtain ⟨hnone, hstays⟩ | ⟨v, hv, hadvertised, hone, hmem, hgone⟩ := hstays
  · have hwanted : (∃ e ∈ (s.assignItems now s.itemsToFetch (s.idlePeers order)).1, e.item = i) =
        (s.about id i).wanted := by
      refine propext (exists_congr fun e => and_congr_left fun hi => ?_)
      exact ⟨fun he => hassigns.sublist.subset he, fun he => hstays e he hi⟩
    rw [hnone.eq_nil, hwanted]
    simp only [List.not_mem_nil, Set.ofPred_false, Set.union_empty]
    exact .done _
  · have hwanted : (∃ e ∈ (s.assignItems now s.itemsToFetch (s.idlePeers order)).1, e.item = i) =
        False := by
      refine eq_false (not_exists.2 fun e he => ?_)
      exact hgone e he.1 he.2
    rw [List.perm_singleton.1 hone, hwanted]
    have hinsert : (s.about id i).asked ∪ {p | p ∈ [v]} = insert v (s.about id i).asked := by
      ext p
      simp [or_comm]
    rw [hinsert]
    exact .one_act (.ask hmem hadvertised)

end Loops

/-! ## Messages -/

section Inserting

variable {items : List PrioritizedItemId} {x e : PrioritizedItemId}

theorem pos_toInt32_sub {a b : UInt32} (hab : a < b) (hb : b.toNat < 2 ^ 31) : 0 < (b - a).toInt32 := by
  have hlt : a.toNat < b.toNat := hab
  have hsub : (b - a).toNat = b.toNat - a.toNat := UInt32.toNat_sub_of_le _ _ (UInt32.le_of_lt hab)
  have hint : (b - a).toInt32.toInt = ((b - a).toNat : Int) := by
    refine BitVec.toInt_eq_toNat_of_lt ?_
    show 2 * (b - a).toNat < 2 ^ 32
    omega
  rw [Int32.lt_iff_toInt_lt, hint, hsub, Int32.toInt_zero]
  omega

/-- What was numbered before is in the order somewhere. -/
theorem lt_or_lt (he : e.sequenceNumber < x.sequenceNumber) (hx : x.sequenceNumber.toNat < 2 ^ 31) :
    e.lt x ∨ x.lt e := by
  unfold PrioritizedItemId.lt
  by_cases htype : e.item.itemType = x.item.itemType
  · rw [if_neg (not_not.2 htype)]
    exact .inl (decide_eq_true (pos_toInt32_sub he hx))
  · cases hi : e.item.itemType <;> cases hj : x.item.itemType <;> simp_all [itemTypeNumber]

theorem insertItem_perm {items' : List PrioritizedItemId} (h : insertItem items x = some items') :
    items'.Perm (x :: items) ∧ ∀ e ∈ items, e.item ≠ x.item := by
  unfold insertItem at h
  split_ifs at h with hany
  obtain rfl := Option.some.inj h
  refine ⟨List.perm_middle.trans ?_, fun e he heq => hany (List.any_eq_true.2 ⟨e, he, by simp [heq]⟩)⟩
  rw [List.takeWhile_append_dropWhile]

theorem insertItem_eq_none (hitems : ∀ e ∈ items, e.sequenceNumber < x.sequenceNumber)
    (hx : x.sequenceNumber.toNat < 2 ^ 31) (h : insertItem items x = none) :
    ∃ e ∈ items, e.item = x.item := by
  unfold insertItem at h
  split_ifs at h with hany
  obtain ⟨e, he, heq⟩ := List.any_eq_true.1 hany
  refine ⟨e, he, ?_⟩
  obtain hlt | hlt := lt_or_lt (hitems e he) hx <;> simpa [hlt] using heq

end Inserting

section Receiving

variable [DecidableEq ν] {s : NodeImpl ν τ} {start now : TimePoint} {conns : List ν} {p q : ν}
  {item : ItemId}

theorem advertisedToUs_noteAdvertised {peer : PeerConnection} :
    (peer.noteAdvertised now item).advertisedToUs i ↔ item = i ∨ peer.advertisedToUs i := by
  unfold PeerConnection.noteAdvertised
  split_ifs with h
  · exact ⟨.inr, fun hor => hor.elim (fun heq => heq ▸ h) fun h => h⟩
  · simp [PeerConnection.advertisedToUs, or_comm]

theorem peer_modifyPeer {f : PeerConnection → PeerConnection} :
    (s.modifyPeer p f).peer q = if q = p then f (s.peer q) else s.peer q := by
  show Function.update s.peer p (f (s.peer p)) q = _
  rw [Function.update_apply]
  split_ifs with h
  · rw [h]
  · rfl

/-- What a peer has advertised grows, and nothing else about it changes. -/
theorem peer_noteAdvertised (q : ν) :
    (s.modifyPeer p fun peer => peer.noteAdvertised now item).peer q = { s.peer q with
      inventoryPeerAdvertisedToUs := (s.peer q).inventoryPeerAdvertisedToUs ++
        if q = p ∧ ¬(s.peer q).advertisedToUs item then [(item, now.sec)] else [] } := by
  rw [peer_modifyPeer]
  by_cases hq : q = p
  · subst hq
    rw [if_pos rfl, PeerConnection.noteAdvertised]
    by_cases hadvertised : (s.peer q).advertisedToUs item <;> simp [hadvertised]
  · simp [hq]

theorem advertisedToUs_modifyPeer : ((s.modifyPeer p fun peer =>
    peer.noteAdvertised now item).peer q).advertisedToUs i ↔
      q = p ∧ item = i ∨ (s.peer q).advertisedToUs i := by
  rw [peer_modifyPeer]
  split_ifs with hq
  · rw [advertisedToUs_noteAdvertised, and_iff_right hq]
  · simp [hq]

variable (item) in
theorem Steady.noteAdvertised (h : Steady start conns s) (hnow : Within start now) (hp : p ∈ conns) :
    Steady start conns (s.modifyPeer p fun peer => peer.noteAdvertised now item) := by
  have hheard : ∀ q i, (s.peer q).advertisedToUs i → ((s.modifyPeer p fun peer =>
      peer.noteAdvertised now item).peer q).advertisedToUs i := fun q i hi =>
    advertisedToUs_modifyPeer.2 (.inr hi)
  constructor
  case active => exact h.active
  case items => exact h.items
  case fetch =>
    intro e he
    obtain ⟨htime, hnumber, q, hq⟩ := h.fetch e he
    exact ⟨htime, hnumber, q, hheard q _ hq⟩
  case waiting =>
    intro hupdated e he
    obtain ⟨q, hq, i, hi⟩ := h.waiting hupdated e he
    refine ⟨q, hheard q _ hq, i, ?_⟩
    rwa [peer_noteAdvertised]
  case heard =>
    intro q e he
    rw [peer_noteAdvertised, List.mem_append] at he
    obtain he | he := he
    · exact h.heard q e he
    · split_ifs at he with hq
      · obtain rfl := List.mem_singleton.1 he
        exact ⟨hnow.le_sec, hq.1 ▸ hp⟩
      · cases he
  all_goals simp only [peer_noteAdvertised]
  · exact h.inSync
  · exact h.notSyncing
  · exact h.unblocked
  · exact h.told
  · exact h.asked

theorem about_noteAdvertised :
    (s.modifyPeer p fun peer => peer.noteAdvertised now item).about id i =
      if item = i then { s.about id i with heard := insert p (s.about id i).heard }
      else s.about id i := by
  unfold NodeImpl.about
  simp only [advertisedToUs_modifyPeer]
  simp only [peer_noteAdvertised]
  split_ifs with hi
  · simp only [hi, and_true]
    rfl
  · simp only [hi, and_false, false_or]
    rfl

variable (now item) in
omit [DecidableEq ν] in
/-- An item is inserted with the next number, or is there already. -/
theorem insertItemToFetch_cases (h : Steady start conns s)
    (hcounter : s.itemsToFetchSequenceCounter.toNat + 1 < 2 ^ 31) :
    (∃ e ∈ s.itemsToFetch, e.item = item) ∧ s.insertItemToFetch now item =
        ({ s with itemsToFetchSequenceCounter := s.itemsToFetchSequenceCounter + 1 }, false) ∨
      ∃ items, items.Perm (⟨item, s.itemsToFetchSequenceCounter, now⟩ :: s.itemsToFetch) ∧
        (∀ e ∈ s.itemsToFetch, e.item ≠ item) ∧ s.insertItemToFetch now item = ({ s with
          itemsToFetchSequenceCounter := s.itemsToFetchSequenceCounter + 1
          itemsToFetch := items }, true) := by
  unfold NodeImpl.insertItemToFetch
  dsimp only
  cases hinsert : insertItem s.itemsToFetch ⟨item, s.itemsToFetchSequenceCounter, now⟩ with
  | none =>
    exact .inl ⟨insertItem_eq_none (fun e he => (h.fetch e he).2.1)
      ((Nat.lt_succ_self _).trans hcounter) hinsert, rfl⟩
  | some items =>
    obtain ⟨hperm, hnew⟩ := insertItem_perm hinsert
    exact .inr ⟨items, hperm, hnew, rfl⟩

theorem lt_add_one {a : UInt32} (h : a.toNat + 1 < 2 ^ 31) : a < a + 1 := by
  rw [UInt32.lt_iff_toNat_lt, UInt32.toNat_add]
  show a.toNat < (a.toNat + 1) % 2 ^ 32
  omega

omit [DecidableEq ν] in
theorem Steady.skipNumber (h : Steady start conns s)
    (hcounter : s.itemsToFetchSequenceCounter.toNat + 1 < 2 ^ 31) : Steady start conns
      { s with itemsToFetchSequenceCounter := s.itemsToFetchSequenceCounter + 1 } :=
  { h with fetch := fun e he => ⟨(h.fetch e he).1,
      UInt32.lt_trans (h.fetch e he).2.1 (lt_add_one hcounter), (h.fetch e he).2.2⟩ }

omit [DecidableEq ν] in
theorem Steady.insertItem (h : Steady start conns s) (hnow : Within start now)
    (hcounter : s.itemsToFetchSequenceCounter.toNat + 1 < 2 ^ 31) {items : List PrioritizedItemId}
    (hperm : items.Perm (⟨item, s.itemsToFetchSequenceCounter, now⟩ :: s.itemsToFetch))
    (hnew : ∀ e ∈ s.itemsToFetch, e.item ≠ item) (hadvertised : (s.peer p).advertisedToUs item) :
    Steady start conns { s with
      itemsToFetchSequenceCounter := s.itemsToFetchSequenceCounter + 1
      itemsToFetch := items
      itemsToFetchUpdated := true } where
  active := h.active
  inSync := h.inSync
  notSyncing := h.notSyncing
  unblocked := h.unblocked
  told := h.told
  heard := h.heard
  asked := h.asked
  items := by
    refine ((hperm.map PrioritizedItemId.item).nodup_iff).2 (List.nodup_cons.2 ⟨?_, h.items⟩)
    intro hmem
    obtain ⟨e, he, heq⟩ := List.mem_map.1 hmem
    exact hnew e he heq
  fetch e he := by
    obtain rfl | he := List.mem_cons.1 (hperm.mem_iff.1 he)
    · exact ⟨hnow.1, lt_add_one hcounter, p, hadvertised⟩
    · exact (h.skipNumber hcounter).fetch e he
  waiting hupdated := by cases hupdated

variable (item) in
theorem Steady.noteItem (h : Steady start conns s) (hnow : Within start now) (hp : p ∈ conns)
    (hcounter : s.itemsToFetchSequenceCounter.toNat + 1 < 2 ^ 31) :
    Steady start conns (s.noteItem now p item) := by
  have hnote := h.noteAdvertised item hnow hp
  unfold NodeImpl.noteItem
  dsimp only
  obtain ⟨-, heq⟩ | ⟨items, hperm, hnew, heq⟩ :=
    insertItemToFetch_cases now item hnote hcounter
  · rw [heq]
    simp only [Bool.false_eq_true, if_false]
    split_ifs
    · exact hnote
    · exact hnote.skipNumber hcounter
  · rw [heq]
    simp only [if_true]
    split_ifs
    · exact hnote
    · exact hnote.insertItem hnow hcounter hperm hnew (advertisedToUs_modifyPeer.2 (.inl ⟨rfl, rfl⟩))

omit [DecidableEq ν] in
/-- An item that has been asked for is not asked for again. -/
theorem Steady.requested_iff (h : Steady start conns s) :
    (s.activeConnections.any fun q => item ∈ (s.peer q).itemsRequestedFromPeer) ↔
      ∃ q, item ∈ (s.peer q).itemsRequestedFromPeer := by
  rw [List.any_eq_true]
  constructor
  · rintro ⟨q, -, hq⟩
    exact ⟨q, of_decide_eq_true hq⟩
  · rintro ⟨q, hq⟩
    exact ⟨q, h.active ▸ h.asked q item hq, decide_eq_true hq⟩

omit [DecidableEq ν] in
theorem about_insertItem {items : List PrioritizedItemId} {x : PrioritizedItemId}
    (hperm : items.Perm (x :: s.itemsToFetch)) (n : UInt32) (updated : Bool) :
    ({ s with
        itemsToFetchSequenceCounter := n
        itemsToFetch := items
        itemsToFetchUpdated := updated } : NodeImpl ν τ).about id i =
      { s.about id i with wanted := (s.about id i).wanted ∨ x.item = i } := by
  unfold NodeImpl.about
  simp only [hperm.mem_iff, List.mem_cons, exists_eq_or_imp, or_comm]

/-- An item that is not asked for is to be fetched. -/
theorem wanted_noteItem (h : Steady start conns s) (hnow : Within start now) (hp : p ∈ conns)
    (hcounter : s.itemsToFetchSequenceCounter.toNat + 1 < 2 ^ 31) :
    (s.noteItem now p item).about id i =
      { (s.modifyPeer p fun peer => peer.noteAdvertised now item).about id i with
        wanted := (s.about id i).wanted ∨ item = i ∧ ∀ w, w ∉ (s.about id item).asked } := by
  have hsame : ∀ {W : Prop} {x : Flooding.Local ν}, (W ↔ x.wanted) → x = { x with wanted := W } :=
    fun hW => by rw [propext hW]
  have hasked : (∀ w, w ∉ (s.about id item).asked) ↔
      ¬(s.activeConnections.any fun q => item ∈ (s.peer q).itemsRequestedFromPeer) := by
    rw [h.requested_iff, not_exists]
    rfl
  unfold NodeImpl.noteItem
  dsimp only
  rw [hasked]
  obtain ⟨hmem, heq⟩ | ⟨items, hperm, hnew, heq⟩ :=
    insertItemToFetch_cases now item (h.noteAdvertised item hnow hp) hcounter
  · rw [heq]
    simp only [Bool.false_eq_true, if_false]
    have hwanted : item = i → (s.about id i).wanted := fun hi => hi ▸ hmem
    split_ifs with hif
    · exact hsame (or_iff_left fun hand => hand.2 hif)
    · exact hsame (or_iff_left_of_imp fun hand => hwanted hand.1)
  · rw [heq]
    simp only [if_true]
    split_ifs with hif
    · exact hsame (or_iff_left fun hand => hand.2 hif)
    · refine (about_insertItem hperm _ _).trans ?_
      rw [and_iff_left hif]
      rfl

theorem about_noteItem (h : Steady start conns s) (hnow : Within start now) (hp : p ∈ conns)
    (hcounter : s.itemsToFetchSequenceCounter.toNat + 1 < 2 ^ 31) : (s.noteItem now p item).about id i =
      if item = i then { s.about id i with
        heard := insert p (s.about id i).heard
        wanted := (s.about id i).wanted ∨ ∀ w, w ∉ (s.about id i).asked } else s.about id i := by
  rw [wanted_noteItem h hnow hp hcounter, about_noteAdvertised]
  split_ifs with hi
  · subst hi
    rw [and_iff_right rfl]
  · simp only [hi, false_and, or_false]

variable (s now p item) in
theorem noteItem_fields : (s.noteItem now p item).peer =
      (s.modifyPeer p fun peer => peer.noteAdvertised now item).peer ∧
    ((s.noteItem now p item).itemsToFetchSequenceCounter = s.itemsToFetchSequenceCounter ∨
      (s.noteItem now p item).itemsToFetchSequenceCounter = s.itemsToFetchSequenceCounter + 1) := by
  unfold NodeImpl.noteItem NodeImpl.insertItemToFetch
  dsimp only
  split_ifs
  · exact ⟨rfl, .inl rfl⟩
  all_goals
    split
    · exact ⟨rfl, .inr rfl⟩
    · exact ⟨rfl, .inr rfl⟩

variable {itemType : ItemType} {itemHash : ItemHashType} {itemHashes : List ItemHashType}

theorem Room.noteItem {n : Nat} (h : Room s p (n + 1)) : Room (s.noteItem now p item) p n := by
  obtain ⟨hpeer, hcounter⟩ := noteItem_fields s now p item
  obtain ⟨hlength, hnumbers⟩ := h
  refine ⟨?_, ?_⟩
  · rw [hpeer, peer_noteAdvertised, List.length_append]
    split_ifs <;> simp <;> omega
  · obtain hcounter | hcounter := hcounter <;> rw [hcounter]
    · omega
    · rw [UInt32.toNat_add]
      show (_ + 1) % 2 ^ 32 + n < 2 ^ 31
      omega

theorem addInventory_cons_known
    (h : s.activeConnections.any fun q => (s.peer q).advertisedToPeer ⟨itemType, itemHash⟩) :
    s.addInventory now p itemType (itemHash :: itemHashes) = s.addInventory now p itemType itemHashes := by
  rw [NodeImpl.addInventory, if_pos h]

theorem addInventory_cons_new {n : Nat}
    (h : ¬s.activeConnections.any fun q => (s.peer q).advertisedToPeer ⟨itemType, itemHash⟩)
    (hroom : Room s p n) : s.addInventory now p itemType (itemHash :: itemHashes) =
      (s.noteItem now p ⟨itemType, itemHash⟩).addInventory now p itemType itemHashes := by
  rw [NodeImpl.addInventory, if_neg h, if_neg]
  unfold PeerConnection.isInventoryAdvertisedToUsListFullForTransactions
    PeerConnection.isInventoryAdvertisedToUsListFull
  have hlength := (Nat.le_add_right _ n).trans hroom.1
  simp only [decide_eq_true_eq]
  exact not_or.2 ⟨fun hfull => hlength.not_gt hfull.2,
    fun hfull => (hlength.trans (Nat.le_add_right _ _)).not_gt hfull⟩

omit [DecidableEq ν] in
theorem Room.mono {m n : Nat} (h : Room s p n) (hmn : m ≤ n) : Room s p m :=
  ⟨(Nat.add_le_add_left hmn _).trans h.1, (Nat.add_le_add_left hmn _).trans_lt h.2⟩

theorem Steady.addInventory (h : Steady start conns s) (hnow : Within start now) (hp : p ∈ conns)
    (hroom : Room s p itemHashes.length) :
    Steady start conns (s.addInventory now p itemType itemHashes) := by
  induction itemHashes generalizing s with
  | nil => exact h
  | cons itemHash itemHashes ih =>
    by_cases hknown : s.activeConnections.any fun q => (s.peer q).advertisedToPeer ⟨itemType, itemHash⟩
    · rw [addInventory_cons_known hknown]
      exact ih h (hroom.mono (Nat.le_succ _))
    · rw [addInventory_cons_new hknown hroom]
      exact ih (h.noteItem _ hnow hp (hroom.mono (Nat.le_add_left _ _)).2) hroom.noteItem

omit [DecidableEq ν] in
theorem Steady.advertised_iff (h : Steady start conns s) :
    (s.activeConnections.any fun q => (s.peer q).advertisedToPeer item) ↔
      ∃ w, w ∈ (s.about id item).told := by
  rw [List.any_eq_true]
  constructor
  · rintro ⟨q, -, hq⟩
    exact ⟨q, hq⟩
  · rintro ⟨q, hq⟩
    obtain ⟨e, he, -⟩ := List.any_eq_true.1 hq
    exact ⟨q, h.active ▸ (h.told q e he).2, hq⟩

theorem works_addInventory {adj : ν → ν → Prop} {u : ν} (h : Steady start conns s)
    (hnow : Within start now) (hp : p ∈ conns) (hroom : Room s p itemHashes.length) :
    (Flooding.flooding adj).Works u p (mentions i .offer itemType itemHashes) (s.about id i)
      ⟨(s.addInventory now p itemType itemHashes).about id i, []⟩ := by
  induction itemHashes generalizing s with
  | nil => exact .done _
  | cons itemHash itemHashes ih =>
    rw [mentions_cons]
    by_cases hknown : s.activeConnections.any fun q => (s.peer q).advertisedToPeer ⟨itemType, itemHash⟩
    · have hwork := ih h (hroom.mono (Nat.le_succ _))
      rw [addInventory_cons_known hknown]
      split_ifs with hi
      · exact .receive_silent (Flooding.Receives.known (hi ▸ h.advertised_iff.1 hknown)) hwork
      · exact hwork
    · have hcounter : s.itemsToFetchSequenceCounter.toNat + 1 < 2 ^ 31 :=
        (hroom.mono (Nat.le_add_left _ _)).2
      have hwork := ih (h.noteItem ⟨itemType, itemHash⟩ hnow hp hcounter) hroom.noteItem
      rw [about_noteItem h hnow hp hcounter] at hwork
      rw [addInventory_cons_new hknown hroom]
      split_ifs at hwork ⊢ with hi
      · refine .receive_silent (Flooding.Receives.offer fun w hw => hknown ?_) hwork
        exact h.advertised_iff.2 ⟨w, hi ▸ hw⟩
      · exact hwork

theorem Steady.modifyPeer_clearOldInventory (h : Steady start conns s) (hnow : Within start now) :
    (s.modifyPeer p fun peer => peer.clearOldInventory now) = s := by
  unfold NodeImpl.modifyPeer
  dsimp only
  rw [h.clearOldInventory hnow, Function.update_eq_self]

section Ordinary

variable {trx : τ} (hasked : trxItem id trx ∈ (s.peer p).itemsRequestedFromPeer)

include hasked in
/-- A transaction that was asked for is handed to the client. -/
theorem processOrdinaryMessage_eq : s.processOrdinaryMessage id p trx =
    { s.modifyPeer p fun peer => peer.eraseRequest (trxItem id trx) with
      itemsToFetchUpdated := s.itemsToFetchUpdated || ((s.peer p).eraseRequest (trxItem id trx)).idle
      handleMessageCallsInProgress := s.handleMessageCallsInProgress ++ [(p, trx)] } := by
  unfold NodeImpl.processOrdinaryMessage
  rw [if_pos hasked]
  dsimp only
  rw [peer_modifyPeer, if_pos rfl]
  split_ifs with hidle
  · rw [hidle, Bool.or_true]
    rfl
  · rw [eq_false_of_ne_true hidle, Bool.or_false]
    rfl

theorem mem_eraseRequest {peer : PeerConnection} : i ∈ (peer.eraseRequest item).itemsRequestedFromPeer ↔
    i ≠ item ∧ i ∈ peer.itemsRequestedFromPeer := Finset.mem_erase

include hasked in
theorem Steady.processOrdinaryMessage (h : Steady start conns s) :
    Steady start conns (s.processOrdinaryMessage id p trx) := by
  have hpeer : ∀ q, (s.modifyPeer p fun peer => peer.eraseRequest (trxItem id trx)).peer q =
      { s.peer q with itemsRequestedFromPeer := if q = p then
        (s.peer q).itemsRequestedFromPeer.erase (trxItem id trx)
        else (s.peer q).itemsRequestedFromPeer } := by
    intro q
    rw [peer_modifyPeer]
    split_ifs <;> rfl
  rw [processOrdinaryMessage_eq hasked]
  constructor
  case asked =>
    intro q i hi
    rw [hpeer] at hi
    dsimp only at hi
    split_ifs at hi
    · exact h.asked q i (Finset.mem_of_mem_erase hi)
    · exact h.asked q i hi
  case waiting =>
    -- who waits for this peer is woken up when it is idle
    intro hupdated e he
    obtain ⟨hupdated, hbusy⟩ := Bool.or_eq_false_iff.1 hupdated
    obtain ⟨q, hq, i, hi⟩ := h.waiting hupdated e he
    have hidle : ((s.peer p).eraseRequest (trxItem id trx)).idle ↔
        ∀ i, i ∉ ((s.peer p).eraseRequest (trxItem id trx)).itemsRequestedFromPeer :=
      idle_iff (h.notSyncing p)
    rw [← Bool.not_eq_true, hidle, not_forall_not] at hbusy
    by_cases hqp : q = p
    · subst hqp
      obtain ⟨j, hj⟩ := hbusy
      exact ⟨q, by rw [hpeer]; exact hq, j, by rw [hpeer]; simpa using mem_eraseRequest.1 hj⟩
    · exact ⟨q, by rw [hpeer]; exact hq, i, by rw [hpeer]; simpa [hqp] using hi⟩
  all_goals simp only [hpeer]
  · exact h.active
  · exact h.inSync
  · exact h.notSyncing
  · exact h.unblocked
  · exact h.told
  · exact h.heard
  · exact h.items
  · exact h.fetch

include hasked in
theorem about_processOrdinaryMessage :
    (s.processOrdinaryMessage id p trx).about id i =
      if trxItem id trx = i then { s.about id i with
        asked := (s.about id i).asked \ {p}
        checking := (s.about id i).checking + 1 } else s.about id i := by
  rw [processOrdinaryMessage_eq hasked]
  have hrequested : ∀ q, i ∈ ((s.modifyPeer p fun peer =>
      peer.eraseRequest (trxItem id trx)).peer q).itemsRequestedFromPeer ↔
        i ∈ (s.peer q).itemsRequestedFromPeer ∧ ¬(q = p ∧ trxItem id trx = i) := by
    intro q
    rw [peer_modifyPeer]
    split_ifs with hq
    · rw [mem_eraseRequest, and_iff_right hq, and_comm, ne_comm]
    · simp [hq]
  have htold : ∀ q, ((s.modifyPeer p fun peer =>
      peer.eraseRequest (trxItem id trx)).peer q).advertisedToPeer i = (s.peer q).advertisedToPeer i := by
    intro q
    rw [peer_modifyPeer]
    split_ifs <;> rfl
  have hheard : ∀ q, ((s.modifyPeer p fun peer =>
      peer.eraseRequest (trxItem id trx)).peer q).advertisedToUs i = (s.peer q).advertisedToUs i := by
    intro q
    rw [peer_modifyPeer]
    split_ifs <;> rfl
  unfold NodeImpl.about
  simp only [hrequested, htold, hheard, List.countP_append, List.countP_singleton]
  by_cases hi : trxItem id trx = i
  · simp only [hi, and_true, decide_true, if_true]
    rfl
  · simp only [hi, and_false, not_false_eq_true, and_true, decide_false, Bool.false_eq_true, if_false]
    rfl

end Ordinary

end Receiving

/-! ## The books of a node -/

/-- A node as far as it is not about what is advertised to it and what is to be fetched. -/
structure Books (ν τ : Type) where
  activeConnections : List ν
  newInventory : Finset ItemId
  messageCache : BlockchainTiedMessageCache τ
  handleMessageCallsInProgress : List (ν × τ)
  requested : ν → Finset ItemId

def NodeImpl.books (s : NodeImpl ν τ) : Books ν τ where
  activeConnections := s.activeConnections
  newInventory := s.newInventory
  messageCache := s.messageCache
  handleMessageCallsInProgress := s.handleMessageCallsInProgress
  requested p := (s.peer p).itemsRequestedFromPeer

/-- The client broadcasts or accepts a transaction. -/
def Input.Introduces (trx : τ) : Input ν τ → Prop
  | .own (.broadcast trx') => trx' = trx
  | .own (.messageHandled _ _ trx' .accepted) => trx' = trx
  | _ => False

namespace Books

def broadcast (id : τ → MessageHashType) (b : Books ν τ) (trx : τ) : Books ν τ :=
  { b with
    messageCache := b.messageCache.cacheMessage (id trx) trx
    newInventory := insert (trxItem id trx) b.newInventory }

variable [DecidableEq ν] (b : Books ν τ) (p : ν)

def disconnect : Books ν τ := { b with activeConnections := b.activeConnections.filter (· != p) }

def request (items : Finset ItemId) : Books ν τ :=
  { b with requested := Function.update b.requested p items }

def eraseRequest (item : ItemId) : Books ν τ := b.request p ((b.requested p).erase item)

/-- What becomes of the books. What one of the loops requests, and what synchronisation makes of the
requests, is left open. -/
def take [DecidableEq τ] (id : τ → MessageHashType) (requested : ν → Finset ItemId) :
    Input ν τ → Books ν τ
  | .own (.broadcast trx) => b.broadcast id trx
  | .own (.advertiseInventory _ _) => { b with newInventory := ∅ }
  | .own (.fetchItems _ _) | .synchronized _ _ => { b with requested := requested }
  | .own (.messageHandled _ p trx handled) =>
    let b := { b with handleMessageCallsInProgress := b.handleMessageCallsInProgress.erase (p, trx) }
    match handled with
    | .accepted => b.broadcast id trx
    | .insufficientRelayFee | .rejected => b
  | .own .blockAccepted => { b with messageCache := b.messageCache.blockAccepted }
  | .received _ p (.trx trx) =>
    if trxItem id trx ∈ b.requested p then
      { b.eraseRequest p (trxItem id trx) with
        handleMessageCallsInProgress := b.handleMessageCallsInProgress ++ [(p, trx)] }
    else b.disconnect p
  | .received _ p (.itemNotAvailable item) => b.eraseRequest p item
  | .received _ _ (.itemIdsInventory _ _) | .received _ _ (.fetchItems _ _) => b
  | .blockReceived p hash => b.eraseRequest p ⟨.blockMessageType, hash⟩
  | .blockHandled _ hash => { b with
      newInventory := insert ⟨.blockMessageType, hash⟩ b.newInventory
      messageCache := b.messageCache.blockAccepted }
  | .connected p _ => { (b.disconnect p).request p ∅ with
      activeConnections := p :: (b.disconnect p).activeConnections }
  | .disconnected p | .connectionClosed _ p _ => b.disconnect p

theorem eraseRequest_of_notMem {b : Books ν τ} {p : ν} {item : ItemId} (h : item ∉ b.requested p) :
    b.eraseRequest p item = b := by
  rw [eraseRequest, Finset.erase_eq_of_notMem h]
  exact congrArg (Books.mk _ _ _ _) (Function.update_eq_self p b.requested)

end Books

section Booking

variable [DecidableEq ν] {id : τ → MessageHashType} {s : NodeImpl ν τ} {now : TimePoint} {item : ItemId}
  {p : ν} {itemType : ItemType} {f : PeerConnection → PeerConnection}

omit [DecidableEq ν] in
theorem books_triggerFetchItemsLoop : s.triggerFetchItemsLoop.books = s.books := rfl

variable (s p f) in
theorem books_modifyPeer :
    (s.modifyPeer p f).books = s.books.request p (f (s.peer p)).itemsRequestedFromPeer :=
  congrArg (Books.mk s.activeConnections s.newInventory s.messageCache s.handleMessageCallsInProgress)
    (Function.comp_update (fun peer : PeerConnection => peer.itemsRequestedFromPeer) s.peer p _)

theorem books_modifyPeer_same
    (hf : ∀ peer, (f peer).itemsRequestedFromPeer = peer.itemsRequestedFromPeer) :
    (s.modifyPeer p f).books = s.books := by
  rw [books_modifyPeer, hf]
  exact congrArg (Books.mk _ _ _ _) (Function.update_eq_self p s.books.requested)

omit [DecidableEq ν] in
theorem books_insertItemToFetch : (s.insertItemToFetch now item).1.books = s.books := by
  unfold NodeImpl.insertItemToFetch
  dsimp only
  cases insertItem s.itemsToFetch _ <;> rfl

theorem books_noteItem : (s.noteItem now p item).books = s.books := by
  have hnoted : (s.modifyPeer p fun peer => peer.noteAdvertised now item).books = s.books := by
    refine books_modifyPeer_same fun peer => ?_
    unfold PeerConnection.noteAdvertised
    split_ifs <;> rfl
  unfold NodeImpl.noteItem
  dsimp only
  split_ifs
  · exact hnoted
  · exact books_insertItemToFetch.trans hnoted
  · exact books_insertItemToFetch.trans hnoted

theorem books_addInventory (itemHashes : List ItemHashType) :
    (s.addInventory now p itemType itemHashes).books = s.books := by
  induction itemHashes generalizing s with
  | nil => rfl
  | cons itemHash itemHashes ih =>
    unfold NodeImpl.addInventory
    split_ifs
    · exact ih
    · rfl
    · exact ih.trans books_noteItem

theorem books_onItemNotAvailableMessage :
    (s.onItemNotAvailableMessage now p item).books = s.books.eraseRequest p item := by
  unfold NodeImpl.onItemNotAvailableMessage
  dsimp only
  split_ifs with hitem
  · rw [books_triggerFetchItemsLoop, books_insertItemToFetch, books_modifyPeer]
    rfl
  · rw [books_triggerFetchItemsLoop, books_modifyPeer]
    rfl
  · exact (Books.eraseRequest_of_notMem (b := s.books) hitem).symm

theorem books_processBlockMessage {hash : MessageHashType} :
    (s.processBlockMessage p hash).books = s.books.eraseRequest p ⟨.blockMessageType, hash⟩ := by
  unfold NodeImpl.processBlockMessage
  dsimp only
  split_ifs with hitem
  · rw [books_triggerFetchItemsLoop, books_modifyPeer]
    rfl
  · rw [books_modifyPeer]
    rfl
  · exact (Books.eraseRequest_of_notMem (b := s.books) hitem).symm

omit [DecidableEq ν] in
theorem rescheduleItem_same : (s.rescheduleItem now item).books = s.books ∧
    (s.rescheduleItem now item).peer = s.peer := by
  unfold NodeImpl.rescheduleItem NodeImpl.insertItemToFetch
  dsimp only
  split_ifs
  · cases insertItem s.itemsToFetch _ <;> exact ⟨rfl, rfl⟩
  · exact ⟨rfl, rfl⟩

theorem onConnectionClosed_same (items : List ItemId) :
    (s.onConnectionClosed now p items).books = s.books.disconnect p ∧
      (s.onConnectionClosed now p items).peer = s.peer := by
  have hfold : ∀ s : NodeImpl ν τ,
      (items.foldl (fun s item => s.rescheduleItem now item) s).books = s.books ∧
        (items.foldl (fun s item => s.rescheduleItem now item) s).peer = s.peer := by
    induction items with
    | nil => exact fun _ => ⟨rfl, rfl⟩
    | cons item items ih =>
      intro s
      obtain ⟨hbooks, hpeer⟩ := ih (s.rescheduleItem now item)
      exact ⟨hbooks.trans rescheduleItem_same.1, hpeer.trans rescheduleItem_same.2⟩
  unfold NodeImpl.onConnectionClosed
  dsimp only
  split_ifs
  · exact ⟨rfl, rfl⟩
  · exact hfold _

/-- What a node takes part in does to its books what it does to the books alone. -/
theorem books_take [DecidableEq τ] (id : τ → MessageHashType) (s : NodeImpl ν τ) (i : Input ν τ) :
    (s.take id i).node.books =
      s.books.take id (fun p => ((s.take id i).node.peer p).itemsRequestedFromPeer) i := by
  cases i with
  | own e =>
    cases e with
    | advertiseInventory now items =>
      refine congrArg (Books.mk _ _ _ _) (funext fun p => ?_)
      show (if p ∈ s.activeConnections then _ else _ : PeerConnection).itemsRequestedFromPeer = _
      unfold PeerConnection.advertise
      split_ifs <;> rfl
    | fetchItems now order =>
      simp only [NodeImpl.take, NodeImpl.step, NodeImpl.fetchItemsLoop, foldl_requestItems]
      rfl
    | messageHandled now p trx handled =>
      cases handled with
      | insufficientRelayFee => exact books_modifyPeer_same fun _ => rfl
      | accepted | rejected => rfl
    | broadcast | blockAccepted => rfl
  | received now p m =>
    cases m with
    | itemIdsInventory itemType itemHashes =>
      exact (books_addInventory itemHashes).trans (books_modifyPeer_same fun _ => rfl)
    | fetchItems itemType itemHashes => rfl
    | itemNotAvailable item => exact books_onItemNotAvailableMessage
    | trx trx =>
      show (s.processOrdinaryMessage id p trx).books = if _ then _ else _
      by_cases hitem : trxItem id trx ∈ s.books.requested p
      · rw [processOrdinaryMessage_eq hitem, if_pos hitem]
        exact congrArg (Books.mk _ _ _ _)
          (congrArg Books.requested (books_modifyPeer s p fun peer => peer.eraseRequest (trxItem id trx)))
      · rw [if_neg hitem]
        exact congrArg NodeImpl.books (if_neg hitem)
  | blockReceived p hash => exact books_processBlockMessage
  | blockHandled now hash =>
    refine congrArg (Books.mk _ _ _ _) (funext fun p => ?_)
    show (if p ∈ s.activeConnections then _ else _ : PeerConnection).itemsRequestedFromPeer = _
    split_ifs <;> rfl
  | connected p n =>
    exact congrArg (Books.mk _ _ _ _) (congrArg Books.requested (books_modifyPeer s p fun _ => .fresh n))
  | synchronized | disconnected => rfl
  | connectionClosed now p items => exact (onConnectionClosed_same items).1

end Booking

/-! ## What a node gives -/

section Giving

variable {id : τ → MessageHashType} {b : Books ν τ} {P : τ → Prop}

variable (id) in
/-- What is in the message cache and what is to be advertised are transactions of the kind `P`. -/
structure Gives (P : τ → Prop) (b : Books ν τ) : Prop where
  cached : ∀ info ∈ b.messageCache.messageCache, info.messageHash = id info.messageBody ∧ P info.messageBody
  fresh : ∀ item ∈ b.newInventory, item.itemType = .trxMessageType → ∃ trx, id trx = item.itemHash ∧ P trx

namespace Gives

theorem mono {P' : τ → Prop} (h : Gives id P b) (hP : ∀ trx, P trx → P' trx) : Gives id P' b where
  cached info hinfo := (h.cached info hinfo).imp_right (hP _)
  fresh item hitem htype := by
    obtain ⟨trx, htrx, hgiven⟩ := h.fresh item hitem htype
    exact ⟨trx, htrx, hP trx hgiven⟩

theorem broadcast {trx : τ} (h : Gives id P b) (htrx : P trx) : Gives id P (b.broadcast id trx) where
  cached info hinfo := by
    simp only [Books.broadcast, BlockchainTiedMessageCache.cacheMessage] at hinfo
    split_ifs at hinfo
    · exact h.cached info hinfo
    · obtain hinfo | hinfo := List.mem_append.1 hinfo
      · exact h.cached info hinfo
      · obtain rfl := List.mem_singleton.1 hinfo
        exact ⟨rfl, htrx⟩
  fresh item hitem htype := by
    obtain rfl | hitem := Finset.mem_insert.1 hitem
    · exact ⟨trx, rfl, htrx⟩
    · exact h.fresh item hitem htype

theorem blockAccepted (h : Gives id P b) :
    Gives id P { b with messageCache := b.messageCache.blockAccepted } where
  cached info hinfo := by
    simp only [BlockchainTiedMessageCache.blockAccepted] at hinfo
    split_ifs at hinfo
    · exact h.cached info (List.mem_of_mem_filter hinfo)
    · exact h.cached info hinfo
  fresh := h.fresh

theorem take [DecidableEq ν] [DecidableEq τ] {requested : ν → Finset ItemId} {i : Input ν τ}
    (h : Gives id P b) (hi : ∀ trx, i.Introduces trx → P trx) : Gives id P (b.take id requested i) := by
  cases i with
  | own e =>
    cases e with
    | broadcast trx => exact h.broadcast (hi trx rfl)
    | advertiseInventory => exact ⟨h.cached, fun item hitem => absurd hitem (Finset.notMem_empty item)⟩
    | fetchItems => exact ⟨h.cached, h.fresh⟩
    | messageHandled now p trx handled =>
      have herase : Gives id P { b with
          handleMessageCallsInProgress := b.handleMessageCallsInProgress.erase (p, trx) } :=
        ⟨h.cached, h.fresh⟩
      cases handled with
      | accepted => exact herase.broadcast (hi trx rfl)
      | insufficientRelayFee | rejected => exact herase
    | blockAccepted => exact h.blockAccepted
  | received now p m =>
    cases m with
    | trx trx =>
      simp only [Books.take]
      split_ifs <;> exact ⟨h.cached, h.fresh⟩
    | itemIdsInventory | fetchItems => exact h
    | itemNotAvailable => exact ⟨h.cached, h.fresh⟩
  | blockHandled now hash =>
    refine ⟨h.blockAccepted.cached, fun item hitem htype => ?_⟩
    obtain rfl | hitem := Finset.mem_insert.1 hitem
    · cases htype
    · exact h.fresh item hitem htype
  | blockReceived | connected | synchronized | disconnected | connectionClosed =>
    exact ⟨h.cached, h.fresh⟩

theorem of_getMessage {hash : MessageHashType} {trx : τ} (h : Gives id P b)
    (hget : b.messageCache.getMessage hash = some trx) : id trx = hash ∧ P trx := by
  obtain ⟨info, hfind, rfl⟩ := Option.map_eq_some_iff.1 hget
  have hhash : info.messageHash = hash := by simpa using List.find?_some hfind
  obtain ⟨hid, hgiven⟩ := h.cached info (List.mem_of_find?_eq_some hfind)
  exact ⟨hid.symm.trans hhash, hgiven⟩

end Gives

variable {s : NodeImpl ν τ} {i : ItemId} {p : ν} {itemHash : ItemHashType}
  {itemHashes : List ItemHashType}

/-- The messages of the cache are there under their hashes. -/
abbrev Keyed (id : τ → MessageHashType) (s : NodeImpl ν τ) : Prop := Gives id (fun _ => True) s.books

theorem Keyed.getMessage (h : Keyed id s) (hcached : s.messageCache.contains itemHash) :
    ∃ trx, s.messageCache.getMessage itemHash = some trx ∧ id trx = itemHash := by
  obtain ⟨info, hinfo⟩ := Option.isSome_iff_exists.1 (List.find?_isSome.2 (List.any_eq_true.1 hcached))
  have hget : s.messageCache.getMessage itemHash = some info.messageBody :=
    congrArg (Option.map MessageInfo.messageBody) hinfo
  exact ⟨info.messageBody, hget, (h.of_getMessage hget).1⟩

variable (itemType : ItemType) in
/-- What is in the cache is given to who asks for it. -/
theorem Keyed.reply (h : Keyed id s) (hcached : s.messageCache.contains itemHash) :
    ∃ trx, s.reply itemType itemHash = .trx trx ∧ trxItem id trx = ⟨.trxMessageType, itemHash⟩ := by
  obtain ⟨trx, hget, rfl⟩ := h.getMessage hcached
  exact ⟨trx, by rw [NodeImpl.reply, hget], rfl⟩

theorem Keyed.take [DecidableEq ν] [DecidableEq τ] (i : Input ν τ) (h : Keyed id s) :
    Keyed id (s.take id i).node := by
  rw [Keyed, books_take]
  exact Gives.take h fun _ _ => trivial

theorem works_onFetchItemsMessage {adj : ν → ν → Prop} {u : ν} {itemType : ItemType} (h : Keyed id s)
    (hcached : ∀ itemHash ∈ itemHashes, itemType = .trxMessageType ∧ s.messageCache.contains itemHash) :
    (Flooding.flooding adj).Works u p (mentions i .request itemType itemHashes) (s.about id i)
      (view id i (s.onFetchItemsMessage p itemType itemHashes)) := by
  induction itemHashes with
  | nil => exact .done _
  | cons itemHash itemHashes ih =>
    rw [List.forall_mem_cons] at hcached
    obtain ⟨⟨rfl, hhash⟩, hrest⟩ := hcached
    obtain ⟨trx, hreply, htrx⟩ := h.reply .trxMessageType hhash
    have hwork := ih hrest
    have hview : view id i (s.onFetchItemsMessage p .trxMessageType (itemHash :: itemHashes)) =
        ⟨s.about id i, (if (⟨.trxMessageType, itemHash⟩ : ItemId) = i then [(p, .item)] else []) ++
          (view id i (s.onFetchItemsMessage p .trxMessageType itemHashes)).sent⟩ := by
      unfold view Outcome.map NodeImpl.onFetchItemsMessage
      rw [List.map_cons, List.flatMap_cons, hreply, Message.about, htrx]
      split_ifs <;> rfl
    rw [hview, mentions_cons]
    split_ifs with hi
    · subst hi
      have hreceive : (Flooding.flooding adj).receives u p .request
          (s.about id ⟨.trxMessageType, itemHash⟩)
          ⟨s.about id ⟨.trxMessageType, itemHash⟩, [(p, .item)]⟩ := .request ⟨rfl, hhash⟩
      exact .receive hreceive hwork
    · exact hwork

end Giving

/-! ## Nodes and networks -/

section Networks

variable [DecidableEq ν] [DecidableEq τ] {s : NodeImpl ν τ} {start now : TimePoint} {conns : List ν}
  {p : ν} {m : Message τ} {o : Outcome ν (NodeImpl ν τ) (Message τ)}

/-- What a node may expect of a message: who wants a transaction has heard of it here, and who sends one
has been asked for it. -/
def Expected (id : τ → MessageHashType) (s : NodeImpl ν τ) (p : ν) : Message τ → Prop
  | .itemIdsInventory _ _ => True
  | .fetchItems itemType itemHashes =>
    ∀ itemHash ∈ itemHashes, itemType = .trxMessageType ∧ s.messageCache.contains itemHash
  | .itemNotAvailable _ => False
  | .trx t => trxItem id t ∈ (s.peer p).itemsRequestedFromPeer

theorem works_act {adj : ν → ν → Prop} {u : ν} (h : Steady start conns s) (hconns : conns.Nodup)
    (hadj : ∀ v, adj u v ↔ v ∈ conns) (hact : (calmGossip id start).acts u s o) :
    (Flooding.flooding adj).Works u u [] (s.about id i)
      (view id i o) := by
  obtain ⟨e, hpossible, hcalm, rfl⟩ := hact
  cases e with
  | broadcast trx => exact works_broadcast
  | advertiseInventory now items =>
    exact works_advertiseInventoryLoop h hcalm hconns hadj hpossible.1 hpossible.2
  | fetchItems now order => exact works_fetchItemsLoop h hcalm
  | messageHandled now p trx handled => exact works_messageHandled hpossible hcalm
  | blockAccepted => exact works_blockAccepted hcalm

theorem Steady.act {u : ν} (h : Steady start conns s) (hact : (calmGossip id start).acts u s o) :
    Steady start conns o.node := by
  obtain ⟨e, hpossible, hcalm, rfl⟩ := hact
  cases e with
  | broadcast trx => exact h.congr rfl rfl rfl rfl rfl
  | advertiseInventory now items => exact h.advertiseInventoryLoop hcalm
  | fetchItems now order => exact h.fetchItemsLoop hcalm hpossible
  | messageHandled now p trx handled =>
    refine h.messageHandled ?_
    rintro rfl
    obtain hcalm | ⟨hcalm, -⟩ := hcalm <;> cases hcalm
  | blockAccepted => exact h.congr rfl rfl rfl rfl rfl

theorem works_receive {adj : ν → ν → Prop} {u : ν} (h : Steady start conns s) (hkeyed : Keyed id s)
    (hp : p ∈ conns) (hexpected : Expected id s p m)
    (hreceive : (calmGossip id start).receives u p m s o) :
    (Flooding.flooding adj).Works u p (m.about id i) (s.about id i)
      (view id i o) := by
  obtain ⟨now, hnow, hcalm, rfl⟩ := hreceive
  cases m with
  | itemIdsInventory itemType itemHashes =>
    rw [NodeImpl.onMessage, NodeImpl.onItemIdsInventoryMessage, h.modifyPeer_clearOldInventory hnow]
    exact works_addInventory h hnow hp hcalm
  | fetchItems itemType itemHashes => exact works_onFetchItemsMessage hkeyed hexpected
  | itemNotAvailable requestedItem => exact hexpected.elim
  | trx trx =>
    show Protocol.Works _ u p (if trxItem id trx = i then [Flooding.Message.item] else []) _
      ⟨(s.processOrdinaryMessage id p trx).about id i, []⟩
    rw [about_processOrdinaryMessage hexpected]
    split_ifs with hi
    · subst hi
      exact .one_receive (Flooding.Receives.item hexpected)
    · exact .done _

theorem Steady.receive {u : ν} (h : Steady start conns s) (hp : p ∈ conns)
    (hexpected : Expected id s p m) (hreceive : (calmGossip id start).receives u p m s o) :
    Steady start conns o.node := by
  obtain ⟨now, hnow, hcalm, rfl⟩ := hreceive
  cases m with
  | itemIdsInventory itemType itemHashes =>
    rw [NodeImpl.onMessage, NodeImpl.onItemIdsInventoryMessage, h.modifyPeer_clearOldInventory hnow]
    exact h.addInventory hnow hp hcalm
  | fetchItems itemType itemHashes => exact h
  | itemNotAvailable requestedItem => exact hexpected.elim
  | trx trx => exact h.processOrdinaryMessage hexpected

theorem Keyed.act {u : ν} (h : Keyed id s) (hact : (calmGossip id start).acts u s o) :
    Keyed id o.node := by
  obtain ⟨e, -, -, rfl⟩ := hact
  exact h.take (.own e)

theorem Keyed.receive {u : ν} (h : Keyed id s) (hreceive : (calmGossip id start).receives u p m s o) :
    Keyed id o.node := by
  obtain ⟨now, -, -, rfl⟩ := hreceive
  exact h.take (.received now p m)

/-- What is sent in calm times goes to peers, and no peer is told that an item is not available. -/
def Sends (conns : List ν) (o : Outcome ν (NodeImpl ν τ) (Message τ)) : Prop :=
  ∀ m ∈ o.sent, m.1 ∈ conns ∧ ∀ item, m.2 ≠ .itemNotAvailable item

theorem sends_act {u : ν} (h : Steady start conns s) (hact : (calmGossip id start).acts u s o) :
    Sends conns o := by
  obtain ⟨e, hpossible, hcalm, rfl⟩ := hact
  cases e with
  | advertiseInventory now items =>
    intro m hm
    obtain ⟨p, hp, hm⟩ := List.mem_flatMap.1 hm
    rw [if_neg (by simp [h.inSync])] at hm
    obtain ⟨g, -, rfl⟩ := List.mem_map.1 hm
    exact ⟨h.active ▸ hp, fun item hitem => by cases hitem⟩
  | fetchItems now order =>
    intro m hm
    obtain ⟨p, hp, hm⟩ := List.mem_flatMap.1 hm
    obtain ⟨g, -, rfl⟩ := List.mem_map.1 hm
    have hpeer := (h.assigns hcalm order).peers.mem_iff.1 (List.mem_map_of_mem hp)
    rw [map_peer_idlePeers] at hpeer
    exact ⟨h.active ▸ hpossible.mem_iff.1 (List.mem_of_mem_filter hpeer),
      fun item hitem => by cases hitem⟩
  | broadcast | messageHandled | blockAccepted => exact fun m hm => absurd hm List.not_mem_nil

theorem sends_receive {u : ν} (hkeyed : Keyed id s) (hp : p ∈ conns) (hexpected : Expected id s p m)
    (hreceive : (calmGossip id start).receives u p m s o) : Sends conns o := by
  obtain ⟨now, -, -, rfl⟩ := hreceive
  cases m with
  | fetchItems itemType itemHashes =>
    intro m hm
    obtain ⟨itemHash, hhash, rfl⟩ := List.mem_map.1 hm
    obtain ⟨trx, hreply, -⟩ := hkeyed.reply itemType (hexpected itemHash hhash).2
    exact ⟨hp, fun item hitem => by rw [hreply] at hitem; cases hitem⟩
  | itemIdsInventory | itemNotAvailable | trx => exact fun m hm => absurd hm List.not_mem_nil

end Networks

section Spreading

variable [DecidableEq ν] [DecidableEq τ] (id : τ → MessageHashType) (start : TimePoint)
  (conns : ν → List ν)

/-- Nodes that are in sync with their peers and have heard of nothing yet. -/
structure Fresh (start : TimePoint) (conns : List ν) (s : NodeImpl ν τ) : Prop where
  active : s.activeConnections = conns
  inSync : ∀ p, (s.peer p).peerNeedsSyncItemsFromUs = false
  notSyncing : ∀ p, (s.peer p).syncItemsRequestedFromPeer = ∅ ∧
    (s.peer p).itemIdsRequestedFromPeer = false
  unblocked : ∀ p, (s.peer p).transactionFetchingInhibitedUntil ≤ start
  inventory : ∀ p, (s.peer p).inventoryAdvertisedToPeer = [] ∧
    (s.peer p).inventoryPeerAdvertisedToUs = [] ∧ (s.peer p).itemsRequestedFromPeer = ∅
  node : s.itemsToFetch = [] ∧ s.newInventory = ∅ ∧ s.messageCache.messageCache = [] ∧
    s.handleMessageCallsInProgress = []

/-- No message is on its way, no loop goes on, and no client handles a transaction. -/
structure Quiet (t : Network ν (NodeImpl ν τ) (Message τ)) : Prop where
  link : ∀ u v, t.link u v = []
  newInventory : ∀ u, (t.node u).newInventory = ∅
  itemsToFetchUpdated : ∀ u, (t.node u).itemsToFetchUpdated = false
  handleMessageCallsInProgress : ∀ u, (t.node u).handleMessageCallsInProgress = []

/-- What holds of a network in calm times. -/
structure CalmNetwork (t : Network ν (NodeImpl ν τ) (Message τ)) : Prop where
  steady : ∀ u, Steady start (conns u) (t.node u)
  keyed : ∀ u, Keyed id (t.node u)
  link : ∀ u v, ∀ m ∈ t.link v u, v ∈ conns u ∧ ∀ item, m ≠ .itemNotAvailable item
  flood : ∀ i, Flooding.Inv (fun u v => v ∈ conns u)
    (t.map (NodeImpl.about id i) (Message.about id i))

variable {id start conns} {t t' t₀ : Network ν (NodeImpl ν τ) (Message τ)} {u v : ν}

theorem simulates (hconns : ∀ u, (conns u).Nodup) : Simulates (calmGossip id start)
    (Flooding.flooding fun u v => v ∈ conns u) (NodeImpl.about id i) (Message.about id i)
    (fun u s => Steady start (conns u) s ∧ Keyed id s)
    (fun u v m s => v ∈ conns u ∧ Expected id s v m) where
  acts h hact := works_act h.1 (hconns _) (fun _ => Iff.rfl) hact
  receives h hexpected hreceive := works_receive h.1 h.2 hexpected.1 hexpected.2 hreceive

omit [DecidableEq ν] [DecidableEq τ] in
theorem CalmNetwork.expected (h : CalmNetwork id start conns t) {m : Message τ} {rest : List (Message τ)}
    (hlink : t.link v u = m :: rest) : v ∈ conns u ∧ Expected id (t.node u) v m := by
  have hm : m ∈ t.link v u := by rw [hlink]; exact List.mem_cons_self
  obtain ⟨hv, hitem⟩ := h.link u v m hm
  refine ⟨hv, ?_⟩
  have habout : ∀ {i x}, x ∈ m.about id i →
      x ∈ (t.map (NodeImpl.about id i) (Message.about id i)).link v u := fun hx =>
    List.mem_flatMap.2 ⟨m, hm, hx⟩
  cases m with
  | itemIdsInventory itemType itemHashes => trivial
  | fetchItems itemType itemHashes =>
    intro itemHash hhash
    refine (h.flood ⟨itemType, itemHash⟩).has_of_request (habout ?_)
    exact List.mem_filterMap.2 ⟨itemHash, hhash, if_pos rfl⟩
  | itemNotAvailable requestedItem => exact absurd rfl (hitem requestedItem)
  | trx trx =>
    refine (h.flood (trxItem id trx)).asked_of_item (habout ?_)
    rw [Message.about, if_pos rfl]
    exact List.mem_singleton_self _

omit [DecidableEq τ] in
/-- What a node sends is sent by a peer of those it is sent to. -/
theorem Sends.link {o : Outcome ν (NodeImpl ν τ) (Message τ)} (h : Sends (conns u) o)
    (hsymm : ∀ u v, u ∈ conns v → v ∈ conns u)
    (hlink : ∀ a b, ∀ m ∈ t.link b a, b ∈ conns a ∧ ∀ item, m ≠ .itemNotAvailable item) (a b : ν) :
    ∀ m ∈ (t.perform u o).link b a, b ∈ conns a ∧ ∀ item, m ≠ .itemNotAvailable item := by
  intro m hm
  rw [Network.perform_link] at hm
  split_ifs at hm with hb
  · obtain hm | hm := List.mem_append.1 hm
    · exact hlink a b m hm
    · obtain ⟨ha, hitem⟩ := h _ (mem_sentTo.1 hm)
      exact ⟨hb ▸ hsymm a u ha, hitem⟩
  · exact hlink a b m hm

theorem CalmNetwork.step (h : CalmNetwork id start conns t) (hconns : ∀ u, (conns u).Nodup)
    (hsymm : ∀ u v, u ∈ conns v → v ∈ conns u) (hstep : (calmGossip id start).Step t t') :
    CalmNetwork id start conns t' := by
  have hflood : ∀ i, Flooding.Inv (fun u v => v ∈ conns u)
      (t'.map (NodeImpl.about id i) (Message.about id i)) := fun i =>
    (h.flood i).steps ((simulates hconns).step (fun u => ⟨h.steady u, h.keyed u⟩)
      (fun u v m rest => h.expected) hstep)
  cases hstep with
  | act u hact =>
    have hsends := sends_act (h.steady u) hact
    refine ⟨fun w => ?_, fun w => ?_, hsends.link hsymm h.link, hflood⟩
    all_goals
      rw [Network.perform_node]
      split_ifs with hw
    · exact hw ▸ (h.steady u).act hact
    · exact h.steady w
    · exact (h.keyed u).act hact
    · exact h.keyed w
  | receive u v hlink hreceive =>
    obtain ⟨hv, hexpected⟩ := h.expected hlink
    have hsends := sends_receive (h.keyed u) hv hexpected hreceive
    refine ⟨fun w => ?_, fun w => ?_, hsends.link hsymm fun a b m hm => ?_, hflood⟩
    · rw [Network.perform_node]
      split_ifs with hw
      · exact hw ▸ (h.steady u).receive hv hexpected hreceive
      · exact h.steady w
    · rw [Network.perform_node]
      split_ifs with hw
      · exact (h.keyed u).receive hreceive
      · exact h.keyed w
    · rw [Network.take_link] at hm
      split_ifs at hm with hab
      · refine h.link a b m ?_
        rw [hab.1, hab.2, hlink]
        exact List.mem_cons_of_mem _ hm
      · exact h.link a b m hm

omit [DecidableEq ν] [DecidableEq τ] in
theorem Fresh.steady {s : NodeImpl ν τ} {l : List ν} (h : Fresh start l s) : Steady start l s where
  active := h.active
  inSync := h.inSync
  notSyncing := h.notSyncing
  unblocked := h.unblocked
  told p e he := by
    rw [(h.inventory p).1] at he
    cases he
  heard p e he := by
    rw [(h.inventory p).2.1] at he
    cases he
  asked p i hi := by
    rw [(h.inventory p).2.2] at hi
    exact absurd hi (Finset.notMem_empty i)
  items := by
    rw [h.node.1]
    exact List.nodup_nil
  fetch e he := by
    rw [h.node.1] at he
    cases he
  waiting _ e he := by
    rw [h.node.1] at he
    cases he

omit [DecidableEq ν] [DecidableEq τ] in
theorem Fresh.about {s : NodeImpl ν τ} {l : List ν} (h : Fresh start l s) :
    s.about id i = .empty ν := by
  obtain ⟨hitems, hinventory, hcache, hcalls⟩ := h.node
  simp only [NodeImpl.about, Flooding.Local.empty, BlockchainTiedMessageCache.contains,
    PeerConnection.advertisedToPeer, PeerConnection.advertisedToUs, hitems, hinventory, hcache, hcalls,
    h.inventory]
  simp

omit [DecidableEq ν] [DecidableEq τ] in
theorem calmNetwork_of_fresh (hstart : ∀ u, Fresh start (conns u) (t₀.node u))
    (hlinks : ∀ u v, t₀.link u v = []) : CalmNetwork id start conns t₀ where
  steady u := (hstart u).steady
  keyed u := by
    obtain ⟨-, hinventory, hcache, -⟩ := (hstart u).node
    constructor
    · intro info hinfo
      change info ∈ (t₀.node u).messageCache.messageCache at hinfo
      rw [hcache] at hinfo
      cases hinfo
    · intro item hitem
      change item ∈ (t₀.node u).newInventory at hitem
      rw [hinventory] at hitem
      exact absurd hitem (Finset.notMem_empty item)
  link u v m hm := by
    rw [hlinks] at hm
    cases hm
  flood i := by
    have hempty : t₀.map (NodeImpl.about id i) (Message.about id i) =
        ⟨fun _ => .empty ν, fun _ _ => []⟩ := by
      ext1
      · exact funext fun u => (hstart u).about
      · funext u v
        show (t₀.link u v).flatMap _ = []
        rw [hlinks, List.flatMap_nil]
    rw [hempty]
    exact Flooding.Inv.empty _

theorem CalmNetwork.steps (h : CalmNetwork id start conns t) (hconns : ∀ u, (conns u).Nodup)
    (hsymm : ∀ u v, u ∈ conns v → v ∈ conns u) (hsteps : ReflTransGen (calmGossip id start).Step t t') :
    CalmNetwork id start conns t' ∧ ∀ i, ReflTransGen (Flooding.flooding fun u v => v ∈ conns u).Step
      (t.map (NodeImpl.about id i) (Message.about id i))
      (t'.map (NodeImpl.about id i) (Message.about id i)) := by
  induction hsteps with
  | refl => exact ⟨h, fun i => .refl⟩
  | tail _ hstep ih =>
    obtain ⟨hcalm, hfloods⟩ := ih
    exact ⟨hcalm.step hconns hsymm hstep, fun i => (hfloods i).trans
      ((simulates hconns).step (fun u => ⟨hcalm.steady u, hcalm.keyed u⟩)
        (fun u v m rest => hcalm.expected) hstep)⟩

omit [DecidableEq ν] [DecidableEq τ] in
/-- A node waits only for peers that are busy, and a peer is busy only while a message is on its way. -/
theorem CalmNetwork.quiet (h : CalmNetwork id start conns t) (hquiet : Quiet t) :
    Flooding.Quiet (t.map (NodeImpl.about id i) (Message.about id i)) := by
  have hlink : ∀ i u v, (t.map (NodeImpl.about id i) (Message.about id i)).link u v = [] := by
    intro i u v
    show (t.link u v).flatMap _ = []
    rw [hquiet.link, List.flatMap_nil]
  refine ⟨hlink i, fun u hu => ?_, fun u hu => ?_, fun u => ?_⟩
  · change i ∈ (t.node u).newInventory at hu
    rw [hquiet.newInventory] at hu
    exact Finset.notMem_empty i hu
  · obtain ⟨e, he, -⟩ := hu
    obtain ⟨p, -, j, hj⟩ := (h.steady u).waiting (hquiet.itemsToFetchUpdated u) e he
    exact (h.flood j).not_asked (hlink j) u p hj
  · show (t.node u).handleMessageCallsInProgress.countP _ = 0
    rw [hquiet.handleMessageCallsInProgress, List.countP_nil]

/-- A transaction that was broadcast is in the message caches of all nodes that are connected with the
one that broadcast it, when nothing is on its way any more and no loop has anything to do. -/
theorem everybody_has {t₁ : Network ν (NodeImpl ν τ) (Message τ)} {hash : MessageHashType}
    (hconns : ∀ u, (conns u).Nodup) (hsymm : ∀ u v, u ∈ conns v → v ∈ conns u)
    (hstart : ∀ u, Fresh start (conns u) (t₀.node u)) (hlinks : ∀ u v, t₀.link u v = [])
    (hbefore : ReflTransGen (calmGossip id start).Step t₀ t₁)
    (hhas : (t₁.node u).messageCache.contains hash)
    (hafter : ReflTransGen (calmGossip id start).Step t₁ t) (hquiet : Quiet t)
    (hpath : ReflTransGen (fun a b => b ∈ conns a) u v) :
    ∃ trx, (t.node v).messageCache.getMessage hash = some trx ∧ id trx = hash := by
  have hcalm₁ := ((calmNetwork_of_fresh hstart hlinks).steps hconns hsymm hbefore).1
  obtain ⟨hcalm, hfloods⟩ := hcalm₁.steps hconns hsymm hafter
  let i : ItemId := ⟨.trxMessageType, hash⟩
  have hu := Flooding.has_of_steps (hfloods i) ⟨rfl, hhas⟩
  have hv := (hcalm.flood i).everybody (hcalm.quiet hquiet) hpath hu
  exact (hcalm.keyed v).getMessage hv.2

/-- Two nodes that are peers of each other. -/
def twoNodes : Network Bool (NodeImpl Bool Nat) (Message Nat) where
  node u :=
    { NodeImpl.start with
      peer := fun _ => { PeerConnection.fresh 0 with peerNeedsSyncItemsFromUs := false }
      activeConnections := [!u] }
  link _ _ := []

/-- One of them broadcasts `7`, and the other asks for it, has it handled and has nobody to tell. -/
def exchange : List (Bool × (Event Bool Nat ⊕ Unit)) :=
  [(false, .inl (.advertiseInventory 0 [⟨.trxMessageType, 7⟩])), (true, .inr ()),
    (true, .inl (.fetchItems 0 [false])), (false, .inr ()), (true, .inr ()),
    (true, .inl (.messageHandled 0 false 7 .accepted)),
    (true, .inl (.advertiseInventory 0 [⟨.trxMessageType, 7⟩])), (true, .inl (.fetchItems 0 [false]))]

/-- A node acts, or receives what the other has sent. -/
def exchanged (t : Network Bool (NodeImpl Bool Nat) (Message Nat)) :
    Bool × (Event Bool Nat ⊕ Unit) → Network Bool (NodeImpl Bool Nat) (Message Nat)
  | (u, .inl e) => t.perform u ((t.node u).step (fun n => n) e)
  | (u, .inr ()) =>
    match t.link (!u) u with
    | [] => t
    | m :: rest => (t.take (!u) u rest).perform u ((t.node u).onMessage 0 (fun n => n) (!u) m)

theorem step_act {t : Network Bool (NodeImpl Bool Nat) (Message Nat)} (u : Bool) (e : Event Bool Nat)
    (hpossible : e.Possible (t.node u)) (hcalm : e.Calm (fun n => n) 0 (t.node u)) :
    (calmGossip (fun n => n) 0).Step t (exchanged t (u, .inl e)) :=
  .act u ⟨e, hpossible, hcalm, rfl⟩

theorem step_receive {t : Network Bool (NodeImpl Bool Nat) (Message Nat)} (u : Bool) (m : Message Nat)
    {rest : List (Message Nat)} (hlink : t.link (!u) u = m :: rest) (hcalm : m.Calm (t.node u) (!u)) :
    (calmGossip (fun n => n) 0).Step t (exchanged t (u, .inr ())) := by
  rw [exchanged, hlink]
  exact .receive u (!u) hlink ⟨0, ⟨Nat.le_refl _, Nat.zero_le _⟩, hcalm, rfl⟩

/-- The other node comes to have `7`. -/
theorem everybody_has_exchange : ∃ trx, ((exchange.foldl exchanged (exchanged twoNodes
    (false, .inl (.broadcast 7)))).node true).messageCache.getMessage 7 = some trx ∧ trx = 7 := by
  let conns : Bool → List Bool := fun u => [!u]
  let id : Nat → MessageHashType := fun n => n
  have hnow : Within 0 0 := ⟨Nat.le_refl _, Nat.zero_le _⟩
  have hstart : ∀ u, Fresh 0 (conns u) (twoNodes.node u) := fun u =>
    ⟨rfl, fun _ => rfl, fun _ => ⟨rfl, rfl⟩, fun _ => Nat.le_refl _, fun _ => ⟨rfl, rfl, rfl⟩,
      rfl, rfl, rfl, rfl⟩
  have hbefore : ReflTransGen (calmGossip id 0).Step twoNodes
      (exchanged twoNodes (false, .inl (.broadcast 7))) := .single (step_act false _ trivial trivial)
  have hafter : ReflTransGen (calmGossip id 0).Step (exchanged twoNodes (false, .inl (.broadcast 7)))
      (exchange.foldl exchanged (exchanged twoNodes (false, .inl (.broadcast 7)))) :=
    .head (step_act false (.advertiseInventory 0 [⟨.trxMessageType, 7⟩]) ⟨by decide, by decide⟩ hnow) <|
    .head (step_receive true (.itemIdsInventory .trxMessageType [7]) rfl ⟨by decide, by decide⟩) <|
    .head (step_act true (.fetchItems 0 [false]) (.refl _) hnow) <|
    .head (step_receive false (.fetchItems .trxMessageType [7]) rfl trivial) <|
    .head (step_receive true (.trx 7) rfl trivial) <|
    .head (step_act true (.messageHandled 0 false 7 .accepted) List.mem_cons_self (.inl rfl)) <|
    .head (step_act true (.advertiseInventory 0 [⟨.trxMessageType, 7⟩]) ⟨by decide, by decide⟩ hnow) <|
    .head (step_act true (.fetchItems 0 [false]) (.refl _) hnow) .refl
  have hquiet : Quiet (exchange.foldl exchanged (exchanged twoNodes (false, .inl (.broadcast 7)))) :=
    ⟨by decide, by decide, by decide, by decide⟩
  have hpath : ReflTransGen (fun a b => b ∈ conns a) false true := .single (by decide)
  exact everybody_has (by decide) (by decide) hstart (fun _ _ => rfl) hbefore (by decide) hafter hquiet
    hpath

end Spreading

end Achain.Net.Gossip
