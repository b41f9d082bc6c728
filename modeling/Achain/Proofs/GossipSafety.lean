import Achain.Lib.Requests
import Achain.Proofs.Gossip

/-!
# What a node asks its peers for, and what it gives them

A node asks a peer for one thing at a time, and only for what the peer has advertised: what passes between
them is an exchange of single requests and answers (`Inv.exchanges`). So the client gets a transaction
from a peer at most as often as it was asked for, whatever the peers send. And a node gives away, and
advertises, only what its client has broadcast or accepted.
-/

namespace Achain.Net.Gossip

open Networks Requests Traces

variable {ν τ : Type} [DecidableEq ν]

/-! ## The requests of one iteration -/

section Assigned

variable {s : NodeImpl ν τ} {now : TimePoint} {item : ItemId} {p : ν} {e : PrioritizedItemId}
  {es : List PrioritizedItemId} {ps ps' : List (PeerAndItems ν)}

/-- A peer is to be asked for one thing at most, which it has advertised. -/
def PeerAndItems.Askable (s : NodeImpl ν τ) (p : PeerAndItems ν) : Prop :=
  p.itemIds.length ≤ 1 ∧ ∀ item ∈ p.itemIds, (s.peer p.peer).advertisedToUs item

omit [DecidableEq ν] in
theorem askable_assignItem (h : s.assignItem now item ps = some ps') (hps : ∀ p ∈ ps, p.Askable s) :
    ∀ p ∈ ps', p.Askable s := by
  induction ps generalizing ps' with
  | nil => cases h
  | cons p ps ih =>
    rw [List.forall_mem_cons] at hps
    rw [NodeImpl.assignItem] at h
    split_ifs at h with hask
    · obtain rfl := Option.some.inj h
      simp only [NodeImpl.canAsk, netMaxItemsPerPeerDuringNormalOperation, Bool.and_eq_true,
        decide_eq_true_eq, Nat.lt_one_iff, List.length_eq_zero_iff] at hask
      obtain ⟨⟨hnil, hadvertised⟩, -⟩ := hask
      have hp : ({ p with itemIds := p.itemIds ++ [item] } : PeerAndItems ν).Askable s := by
        simp [PeerAndItems.Askable, hnil, hadvertised]
      intro q hq
      exact (List.mem_cons.1 (requeue_perm.mem_iff.1 hq)).elim (fun heq => heq ▸ hp) (hps.2 q)
    · obtain ⟨qs, hqs, rfl⟩ := Option.map_eq_some_iff.1 h
      exact List.forall_mem_cons.2 ⟨hps.1, ih hqs hps.2⟩

omit [DecidableEq ν] in
theorem askable_assignItems (now : TimePoint) (es : List PrioritizedItemId) (hps : ∀ p ∈ ps, p.Askable s) :
    (∀ p ∈ (s.assignItems now es ps).2, p.Askable s) ∧
      ((s.assignItems now es ps).2.map PeerAndItems.peer).Perm (ps.map PeerAndItems.peer) := by
  induction es generalizing ps with
  | nil => exact ⟨hps, .refl _⟩
  | cons e es ih =>
    by_cases hold : e.timeStamp < now - seconds (10 * 5)
    · rw [NodeImpl.assignItems, if_pos hold]
      exact ih hps
    · cases hassign : s.assignItem now e.item ps with
      | none =>
        rw [assignItems_cons_none s now hold hassign]
        exact ih hps
      | some ps' =>
        rw [assignItems_cons_some s now hold hassign]
        obtain ⟨-, -, -, hpeers, -⟩ := assignItem_eq_some s now hassign
        obtain ⟨haskable, hperm⟩ := ih (askable_assignItem hassign hps)
        exact ⟨haskable, hperm.trans hpeers⟩

theorem filter_peer_of_nodup (h : (ps.map PeerAndItems.peer).Nodup) :
    ps.filter (·.peer = p) = [] ∨ ∃ q ∈ ps, q.peer = p ∧ ps.filter (·.peer = p) = [q] := by
  induction ps with
  | nil => exact .inl rfl
  | cons q ps ih =>
    obtain ⟨hq, hps⟩ := List.nodup_cons.1 h
    by_cases hp : q.peer = p
    · have hrest : ps.filter (·.peer = p) = [] := List.filter_eq_nil_iff.2 fun q' hq' hp' =>
        hq (hp.trans (of_decide_eq_true hp').symm ▸ List.mem_map_of_mem hq')
      exact .inr ⟨q, List.mem_cons_self, hp, by simp [hp, hrest]⟩
    · rw [List.filter_cons_of_neg (by simpa using hp)]
      refine (ih hps).imp id fun hone => ?_
      obtain ⟨q', hq', hone⟩ := hone
      exact ⟨q', List.mem_cons_of_mem _ hq', hone⟩

theorem sentTo_of_peer {β μ : Type} (F : PeerAndItems ν → List β) (f : β → μ)
    (ps : List (PeerAndItems ν)) :
    sentTo p (ps.flatMap fun q => (F q).map fun b => (q.peer, f b)) =
      (ps.filter (·.peer = p)).flatMap fun q => (F q).map f := by
  induction ps with
  | nil => rfl
  | cons q ps ih =>
    have hone : sentTo p ((F q).map fun b => (q.peer, f b)) = if q.peer = p then (F q).map f else [] := by
      induction F q with
      | nil => simp
      | cons b bs ihbs =>
        rw [List.map_cons, sentTo_cons, ihbs]
        split_ifs <;> rfl
    rw [List.flatMap_cons, sentTo_append, ih, hone, List.filter_cons]
    by_cases hp : q.peer = p <;> simp [hp]

/-- In one iteration a peer is asked for one thing at most, if nothing is open, and for what it has
advertised. -/
theorem exists_asked (s : NodeImpl ν τ) (now : TimePoint) {order : List ν} (horder : order.Nodup) (p : ν) :
    ∃ items : List ItemId, items.length ≤ 1 ∧ (items ≠ [] → (s.peer p).itemsRequestedFromPeer = ∅) ∧
      (∀ item ∈ items, (s.peer p).advertisedToUs item) ∧
      ((s.fetchItemsLoop now order).node.peer p).itemsRequestedFromPeer =
        (s.peer p).itemsRequestedFromPeer ∪ items.toFinset ∧
      sentTo p (s.fetchItemsLoop now order).sent =
        (itemsByType items).map fun m => .fetchItems m.1 m.2 := by
  have hidle : ∀ p ∈ s.idlePeers order, p.Askable s := by
    intro p hp
    obtain ⟨q, -, rfl⟩ := List.mem_map.1 hp
    exact ⟨Nat.zero_le 1, by simp⟩
  obtain ⟨haskable, hpeers⟩ := askable_assignItems now s.itemsToFetch hidle
  rw [map_peer_idlePeers] at hpeers
  simp only [NodeImpl.fetchItemsLoop, foldl_requestItems, sentTo_of_peer]
  generalize s.assignItems now s.itemsToFetch (s.idlePeers order) = r at haskable hpeers
  obtain hnone | ⟨q, hq, rfl, hone⟩ :=
    filter_peer_of_nodup (p := p) (hpeers.nodup_iff.2 (horder.filter _))
  · refine ⟨[], Nat.zero_le 1, fun h => absurd rfl h, by simp, ?_, ?_⟩ <;> rw [hnone] <;> rfl
  · have hidle := (List.mem_filter.1 (hpeers.mem_iff.1 (List.mem_map_of_mem hq))).2
    refine ⟨q.itemIds, (haskable q hq).1, fun _ => ?_, (haskable q hq).2, ?_, ?_⟩
    · simp only [Net.PeerConnection.idle, Net.PeerConnection.busy, Bool.not_eq_true',
        Bool.or_eq_false_iff, decide_eq_false_iff_not, not_not] at hidle
      exact hidle.1.1
    · rw [hone, List.flatMap_singleton]
    · rw [hone, List.flatMap_singleton]

end Assigned

/-! ## Requests and answers -/

section Exchanges

variable (id : τ → MessageHashType) (p : ν)

def Message.asks : Message τ → List (Label ItemId)
  | .fetchItems itemType itemsToFetch => itemsToFetch.map fun itemHash => .ask ⟨itemType, itemHash⟩
  | _ => []

/-- What comes from a peer. What it was asked for before it came again is not waited for any more. -/
def Input.labels : Input ν τ → List (Label ItemId)
  | .received _ q (.trx trx) => if q = p then [.answer (trxItem id trx)] else []
  | .received _ q (.itemNotAvailable item) => if q = p then [.answer item] else []
  | .blockReceived q hash => if q = p then [.answer ⟨.blockMessageType, hash⟩] else []
  | .connected q _ => if q = p then [.reset] else []
  | _ => []

def Entry.labels : Entry ν τ → List (Label ItemId)
  | .took i => i.labels id p
  | .sent q m => if q = p then m.asks else []

theorem labels_sent (sent : List (ν × Message τ)) :
    (sent.map fun m => Entry.sent m.1 m.2).flatMap (Entry.labels id p) =
      (sentTo p sent).flatMap Message.asks := by
  induction sent with
  | nil => rfl
  | cons m sent ih =>
    rw [List.map_cons, List.flatMap_cons, ih, sentTo_cons, Entry.labels]
    by_cases hp : m.1 = p <;> simp [hp]

variable {id p} {s : NodeImpl ν τ} {w : Option ItemId} {q : ν} {item : ItemId}

omit [DecidableEq ν] in
/-- Nothing is asked for with messages of other kinds. -/
theorem asks_nil {sent : List (Message τ)} (h : ∀ m ∈ sent, m.asks = []) :
    sent.flatMap Message.asks = [] := List.flatMap_eq_nil_iff.2 h

theorem waitsAfter_answer : waitsAfter w [.answer item] = some (if w = some item then none else w) := rfl

omit [DecidableEq ν] in
theorem erase_toFinset : w.toFinset.erase item = (if w = some item then none else w).toFinset := by
  split_ifs with h
  · rw [h]
    simp
  · refine Finset.erase_eq_of_notMem fun hmem => h ?_
    exact Option.mem_def.1 (Option.mem_toFinset.1 hmem)

theorem waitsAfter_eraseRequest {b : Books ν τ} (hw : b.requested p = w.toFinset) :
    ∃ w', waitsAfter w (if q = p then [.answer item] else []) = some w' ∧
      (b.eraseRequest q item).requested p = w'.toFinset := by
  by_cases hq : q = p
  · subst hq
    rw [if_pos rfl]
    refine ⟨_, waitsAfter_answer, (Function.update_self ..).trans ?_⟩
    rw [hw, erase_toFinset]
  · rw [if_neg hq]
    exact ⟨w, rfl, (Function.update_of_ne (Ne.symm hq) ..).trans hw⟩

theorem itemsByType_eq_map {items : List ItemId} (h : items.length ≤ 1) :
    itemsByType items = items.map fun item => (item.itemType, [item.itemHash]) := by
  cases items with
  | nil => rfl
  | cons item items =>
    obtain rfl : items = [] := List.length_eq_zero_iff.1 (Nat.le_zero.1 (Nat.succ_le_succ_iff.1 h))
    obtain ⟨type, hash⟩ := item
    cases type <;> rfl

omit [DecidableEq ν] in
theorem asks_itemsByType {items : List ItemId} (h : items.length ≤ 1) :
    ((itemsByType items).map fun m => (Message.fetchItems m.1 m.2 : Message τ)).flatMap Message.asks =
      items.map .ask := by
  rw [itemsByType_eq_map h, List.map_map, List.flatMap_map, ← List.flatMap_singleton' (items.map _),
    List.flatMap_map]
  rfl

theorem asks_advertiseInventoryLoop {now : TimePoint} {items : List ItemId} :
    ∀ m ∈ (s.advertiseInventoryLoop now items).sent, m.2.asks = [] := by
  intro m hm
  obtain ⟨q, -, hm⟩ := List.mem_flatMap.1 hm
  split_ifs at hm
  · cases hm
  · obtain ⟨g, -, rfl⟩ := List.mem_map.1 hm
    rfl

omit [DecidableEq ν] in
theorem asks_onFetchItemsMessage {itemType : ItemType} {itemHashes : List ItemHashType} :
    ∀ m ∈ (s.onFetchItemsMessage p itemType itemHashes).sent, m.2.asks = [] := by
  intro m hm
  obtain ⟨itemHash, -, rfl⟩ := List.mem_map.1 hm
  unfold NodeImpl.reply
  cases s.messageCache.getMessage itemHash <;> rfl

/-- A step of the node is one of the exchange with each of its peers. -/
theorem waitsAfter_take [DecidableEq τ] {i : Input ν τ} (hconns : s.activeConnections.Nodup)
    (hpossible : i.Possible s) (hw : (s.peer p).itemsRequestedFromPeer = w.toFinset) :
    ∃ w', waitsAfter w (i.labels id p ++ (sentTo p (s.take id i).sent).flatMap Message.asks) = some w' ∧
      ((s.take id i).node.peer p).itemsRequestedFromPeer = w'.toFinset := by
  have hbooks := congrFun (congrArg Books.requested (books_take id s i)) p
  have hsame : ∀ {r : Finset ItemId} {sent : List (ν × Message τ)}, r = s.books.requested p →
      (∀ m ∈ sent, m.2.asks = []) → ∃ w', waitsAfter w ([] ++ (sentTo p sent).flatMap Message.asks) = some w' ∧
        r = w'.toFinset := by
    intro r sent hr hsent
    rw [asks_nil fun m hm => hsent _ (mem_sentTo.1 hm)]
    exact ⟨w, rfl, hr.trans hw⟩
  have hanswer : ∀ {r : Finset ItemId} (q : ν) (item : ItemId),
      r = (s.books.eraseRequest q item).requested p →
      ∃ w', waitsAfter w ((if q = p then [.answer item] else []) ++ []) = some w' ∧ r = w'.toFinset := by
    rintro _ q item rfl
    rw [List.append_nil]
    exact waitsAfter_eraseRequest hw
  cases i with
  | own e =>
    cases e with
    | advertiseInventory now items => exact hsame hbooks asks_advertiseInventoryLoop
    | fetchItems now order =>
      have horder : order.Nodup := (List.Perm.nodup_iff hpossible).2 hconns
      obtain ⟨items, hlength, hempty, -, hrequested, hsent⟩ := exists_asked s now horder p
      show ∃ w', waitsAfter w ([] ++ (sentTo p (s.fetchItemsLoop now order).sent).flatMap _) = some w' ∧
        ((s.fetchItemsLoop now order).node.peer p).itemsRequestedFromPeer = w'.toFinset
      rw [hsent, asks_itemsByType hlength, hrequested, hw]
      cases items with
      | nil => exact ⟨w, rfl, by simp⟩
      | cons item items =>
        -- the peer was idle, so that nothing was waited for
        obtain rfl : items = [] :=
          List.length_eq_zero_iff.1 (Nat.le_zero.1 (Nat.succ_le_succ_iff.1 hlength))
        have hnone : w.toFinset = ∅ := hw.symm.trans (hempty (List.cons_ne_nil _ _))
        cases w with
        | some i => simp at hnone
        | none => exact ⟨some item, rfl, by simp⟩
    | messageHandled now q trx handled => cases handled <;> exact hsame hbooks (List.forall_mem_nil _)
    | broadcast | blockAccepted => exact hsame hbooks (List.forall_mem_nil _)
  | received now q m =>
    cases m with
    | fetchItems itemType itemHashes => exact hsame hbooks asks_onFetchItemsMessage
    | itemNotAvailable item => exact hanswer q item hbooks
    | trx trx =>
      refine hanswer q (trxItem id trx) (hbooks.trans ?_)
      simp only [Books.take]
      split_ifs with hitem
      · rfl
      · exact congrFun (congrArg Books.requested (Books.eraseRequest_of_notMem hitem).symm) p
    | itemIdsInventory => exact hsame hbooks (List.forall_mem_nil _)
  | blockReceived q hash => exact hanswer q _ hbooks
  | connected q n =>
    by_cases hq : q = p
    · subst hq
      rw [Input.labels, if_pos rfl]
      exact ⟨none, rfl, hbooks.trans (Function.update_self ..)⟩
    · rw [Input.labels, if_neg hq]
      exact ⟨w, rfl, hbooks.trans ((Function.update_of_ne (Ne.symm hq) ..).trans hw)⟩
  | synchronized q peer =>
    refine hsame ?_ (List.forall_mem_nil _)
    simp only [NodeImpl.take, peer_modifyPeer]
    split_ifs with hq
    · exact hpossible.1.trans (congrArg s.books.requested hq.symm)
    · rfl
  | blockHandled | disconnected | connectionClosed => exact hsame hbooks (List.forall_mem_nil _)

/-! ### What the client gets -/

variable (id p) in
/-- How many transactions with a hash that came from a peer the client is handling. -/
def Books.calls (b : Books ν τ) (hash : MessageHashType) : Nat :=
  b.handleMessageCallsInProgress.countP fun call => call.1 = p && id call.2 = hash

variable (id p) in
/-- The client has handled a transaction with a hash that came from a peer. -/
def Entry.handles (hash : MessageHashType) : Entry ν τ → Bool
  | .took (.own (.messageHandled _ q trx _)) => q = p && id trx = hash
  | _ => false

omit [DecidableEq ν] in
theorem got_answer (hw : item ∈ w.toFinset) : got item w [.answer item] = 1 := by
  have hsome : w = some item := Option.mem_def.1 (Option.mem_toFinset.1 hw)
  simp [got, hsome, next]

variable [DecidableEq τ] {hash : MessageHashType}

variable (id hash) in
/-- The client handles what has been waited for. -/
theorem calls_take {i : Input ν τ} (requested : ν → Finset ItemId) (hpossible : i.Possible s)
    (hw : s.books.requested p = w.toFinset) :
    ((Entry.took i).handles id p hash).toNat + (s.books.take id requested i).calls id p hash ≤
      s.books.calls id p hash + got ⟨.trxMessageType, hash⟩ w (i.labels id p) := by
  have hsame : ∀ b : Books ν τ, b.handleMessageCallsInProgress = s.handleMessageCallsInProgress →
      false.toNat + b.calls id p hash ≤ s.books.calls id p hash +
        got ⟨.trxMessageType, hash⟩ w (i.labels id p) := by
    intro b hcalls
    rw [Books.calls, hcalls, Bool.toNat_false, Nat.zero_add]
    exact Nat.le_add_right _ _
  cases i with
  | own e =>
    cases e with
    | messageHandled now q trx handled =>
      have hcalls : (s.books.take id requested
          (.own (.messageHandled now q trx handled))).handleMessageCallsInProgress =
            s.handleMessageCallsInProgress.erase (q, trx) := by
        cases handled <;> rfl
      have hcall : (q, trx) ∈ s.handleMessageCallsInProgress := hpossible
      have hpos : (q = p && id trx = hash) → 0 < s.books.calls id p hash := fun h =>
        List.countP_pos_iff.2 ⟨_, hcall, h⟩
      refine le_trans ?_ (Nat.le_add_right _ _)
      show (q = p && id trx = hash : Bool).toNat + _ ≤ _
      rw [Books.calls, hcalls, List.countP_erase]
      cases hone : (q = p && id trx = hash : Bool) with
      | false => simp [Books.calls, NodeImpl.books]
      | true =>
        have h := hpos hone
        rw [if_pos ⟨hcall, rfl⟩, Bool.toNat_true]
        exact (Nat.add_sub_of_le h).le
    | _ => exact hsame _ rfl
  | received now q m =>
    cases m with
    | trx trx =>
      simp only [Books.take]
      split_ifs with hitem
      · show 0 + (List.countP _ (s.handleMessageCallsInProgress ++ [(q, trx)])) ≤ _
        rw [Nat.zero_add, List.countP_append, List.countP_singleton]
        refine Nat.add_le_add_left ?_ _
        split_ifs with hone
        · obtain ⟨rfl, rfl⟩ : q = p ∧ id trx = hash := by simpa using hone
          rw [Input.labels, if_pos rfl]
          exact (got_answer (hw ▸ hitem)).ge
        · exact Nat.zero_le _
      · exact hsame _ rfl
    | _ => exact hsame _ rfl
  | _ => exact hsame _ rfl

/-- The connections are a set. -/
theorem nodup_take {b : Books ν τ} {requested : ν → Finset ItemId} {i : Input ν τ}
    (h : b.activeConnections.Nodup) : (b.take id requested i).activeConnections.Nodup := by
  cases i with
  | own e =>
    cases e with
    | messageHandled now q trx handled => cases handled <;> exact h
    | _ => exact h
  | received now q m =>
    cases m with
    | trx trx =>
      simp only [Books.take]
      split_ifs
      · exact h
      · exact h.filter _
    | _ => exact h
  | connected q n => exact List.nodup_cons.2 ⟨by simp [Books.disconnect], h.filter _⟩
  | disconnected | connectionClosed => exact h.filter _
  | _ => exact h

end Exchanges

/-! ## What is heard of and what is given -/

section Reasons

variable {id : τ → MessageHashType} {s : NodeImpl ν τ} {p q : ν} {item : ItemId} {now : TimePoint}

omit [DecidableEq ν] in
theorem peer_insertItemToFetch : (s.insertItemToFetch now item).1.peer = s.peer := by
  unfold NodeImpl.insertItemToFetch
  dsimp only
  cases insertItem s.itemsToFetch _ <;> rfl

omit [DecidableEq ν] in
theorem advertisedToUs_of_sublist {peer peer' : PeerConnection}
    (h : peer'.inventoryPeerAdvertisedToUs.Sublist peer.inventoryPeerAdvertisedToUs)
    (hitem : peer'.advertisedToUs item) : peer.advertisedToUs item := by
  obtain ⟨x, hx, heq⟩ := List.any_eq_true.1 hitem
  exact List.any_eq_true.2 ⟨x, h.subset hx, heq⟩

theorem advertisedToUs_addInventory {itemType : ItemType} (itemHashes : List ItemHashType)
    (h : ((s.addInventory now p itemType itemHashes).peer q).advertisedToUs item) :
    (s.peer q).advertisedToUs item ∨ p = q ∧ item.itemType = itemType ∧ item.itemHash ∈ itemHashes := by
  induction itemHashes generalizing s with
  | nil => exact .inl h
  | cons itemHash itemHashes ih =>
    have hcons := List.mem_cons_of_mem itemHash (a := item.itemHash) (l := itemHashes)
    unfold NodeImpl.addInventory at h
    split_ifs at h
    · exact (ih h).imp id fun hnew => ⟨hnew.1, hnew.2.1, hcons hnew.2.2⟩
    · exact .inl h
    · obtain hold | hnew := ih h
      · rw [(noteItem_fields s now p ⟨itemType, itemHash⟩).1, advertisedToUs_modifyPeer] at hold
        refine hold.symm.imp id fun hnew => ⟨hnew.1.symm, ?_⟩
        rw [← hnew.2]
        exact ⟨rfl, List.mem_cons_self⟩
      · exact .inr ⟨hnew.1, hnew.2.1, hcons hnew.2.2⟩

theorem advertisedToUs_modify {f : PeerConnection → PeerConnection}
    (hf : ∀ peer, (f peer).inventoryPeerAdvertisedToUs.Sublist peer.inventoryPeerAdvertisedToUs)
    (h : ((s.modifyPeer p f).peer q).advertisedToUs item) : (s.peer q).advertisedToUs item := by
  rw [peer_modifyPeer] at h
  split_ifs at h
  · exact advertisedToUs_of_sublist (hf _) h
  · exact h

/-- A peer advertises an item. -/
def Input.Advertises (p : ν) (item : ItemId) (i : Input ν τ) : Prop :=
  ∃ now itemHashes, i = .received now p (.itemIdsInventory item.itemType itemHashes) ∧
    item.itemHash ∈ itemHashes

variable [DecidableEq τ]

theorem advertised_take {i : Input ν τ} (hpossible : i.Possible s)
    (h : ((s.take id i).node.peer p).advertisedToUs item) :
    (s.peer p).advertisedToUs item ∨ i.Advertises p item := by
  have hclear : ∀ (peer : PeerConnection) (now : TimePoint),
      (peer.clearOldInventory now).advertisedToUs item → peer.advertisedToUs item :=
    fun peer now => advertisedToUs_of_sublist List.filter_sublist
  have hmodify : ∀ (q : ν) (f : PeerConnection → PeerConnection),
      (∀ peer, (f peer).inventoryPeerAdvertisedToUs.Sublist peer.inventoryPeerAdvertisedToUs) →
      ((s.modifyPeer q f).peer p).advertisedToUs item → (s.peer p).advertisedToUs item :=
    fun q f => advertisedToUs_modify
  have herase := fun q i => hmodify q (fun peer => peer.eraseRequest i) fun _ => .refl _
  cases i with
  | own e =>
    refine .inl ?_
    cases e with
    | broadcast trx => exact h
    | advertiseInventory now items =>
      simp only [NodeImpl.take, NodeImpl.step, NodeImpl.advertiseInventoryLoop] at h
      split_ifs at h
      · unfold PeerConnection.advertise at h
        split_ifs at h
        · exact hclear _ now h
        · exact hclear _ now h
      · exact h
    | fetchItems now order =>
      simp only [NodeImpl.take, NodeImpl.step, NodeImpl.fetchItemsLoop, foldl_requestItems] at h
      exact h
    | messageHandled now q trx handled =>
      cases handled with
      | accepted => exact h
      | insufficientRelayFee =>
        refine hmodify q (fun peer => { peer with transactionFetchingInhibitedUntil := _ }) (fun _ => ?_) h
        exact .refl _
      | rejected => exact h
    | blockAccepted => exact h
  | received now q m =>
    cases m with
    | itemIdsInventory itemType itemHashes =>
      obtain hold | ⟨rfl, rfl, hmem⟩ := advertisedToUs_addInventory itemHashes h
      · exact .inl (advertisedToUs_modify (fun _ => List.filter_sublist) hold)
      · exact .inr ⟨now, itemHashes, rfl, hmem⟩
    | fetchItems itemType itemHashes => exact .inl h
    | itemNotAvailable i =>
      have hunavailable := hmodify q (fun peer => { peer.eraseRequest i with
        inventoryPeerAdvertisedToUs := peer.inventoryPeerAdvertisedToUs.filter (·.1 != i) })
        fun _ => List.filter_sublist
      simp only [NodeImpl.take, NodeImpl.onMessage, NodeImpl.onItemNotAvailableMessage] at h
      split_ifs at h
      · exact .inl (hunavailable (peer_insertItemToFetch ▸ h))
      · exact .inl (hunavailable h)
      · exact .inl h
    | trx trx =>
      simp only [NodeImpl.take, NodeImpl.onMessage, NodeImpl.processOrdinaryMessage] at h
      split_ifs at h
      · exact .inl (herase q _ h)
      · exact .inl (herase q _ h)
      · exact .inl h
  | blockReceived q hash =>
    simp only [NodeImpl.take, NodeImpl.processBlockMessage] at h
    split_ifs at h
    · exact .inl (herase q _ h)
    · exact .inl (herase q _ h)
    · exact .inl h
  | blockHandled now hash =>
    simp only [NodeImpl.take, NodeImpl.blockHandled] at h
    split_ifs at h
    · exact .inl (hclear _ now h)
    · exact .inl h
  | connected q n =>
    refine .inl (hmodify q (fun _ => .fresh n) (fun _ => ?_) h)
    exact List.nil_sublist _
  | synchronized q peer =>
    simp only [NodeImpl.take, peer_modifyPeer] at h
    split_ifs at h with hq
    · exact .inl (advertisedToUs_of_sublist (hq ▸ hpossible.2) h)
    · exact .inl h
  | disconnected q => exact .inl h
  | connectionClosed now q items =>
    have hpeer : (s.onConnectionClosed now q items).peer = s.peer := (onConnectionClosed_same items).2
    exact .inl (congrArg (fun peer => (peer p).advertisedToUs item) hpeer ▸ h)

variable {P : τ → Prop}

theorem mem_itemsByType {items : List ItemId} {g : ItemType × List ItemHashType}
    (hg : g ∈ itemsByType items) {itemHash : ItemHashType} (hmem : itemHash ∈ g.2) :
    ⟨g.1, itemHash⟩ ∈ items := by
  obtain ⟨type, -, hsome⟩ := List.mem_filterMap.1 hg
  dsimp only at hsome
  split_ifs at hsome
  obtain rfl := Option.some.inj hsome
  obtain ⟨item, hitem, rfl⟩ := List.mem_map.1 hmem
  obtain ⟨hitem, htype⟩ := List.mem_filter.1 hitem
  rwa [← beq_iff_eq.1 htype]

/-- Why a message is sent, from what was taken before. -/
def Reason (id : τ → MessageHashType) (P : τ → Prop) (heard : ν → ItemId → Prop) (i : Input ν τ) (p : ν) :
    Message τ → Prop
  | .itemIdsInventory itemType itemHashes =>
    itemType = .trxMessageType → ∀ hash ∈ itemHashes, ∃ trx, id trx = hash ∧ P trx
  | .fetchItems itemType itemHashes => ∃ hash, itemHashes = [hash] ∧ heard p ⟨itemType, hash⟩
  | .itemNotAvailable _ => True
  | .trx trx => P trx ∧ ∃ now itemType itemHashes, i = .received now p (.fetchItems itemType itemHashes) ∧
      id trx ∈ itemHashes

omit [DecidableEq ν] [DecidableEq τ] in
theorem Reason.mono {P' : τ → Prop} {heard heard' : ν → ItemId → Prop} {i : Input ν τ} {m : Message τ}
    (h : Reason id P heard i p m) (hP : ∀ trx, P trx → P' trx)
    (hheard : ∀ item, heard p item → heard' p item) : Reason id P' heard' i p m := by
  cases m with
  | itemIdsInventory itemType itemHashes =>
    intro htype hash hhash
    obtain ⟨trx, htrx, hgiven⟩ := h htype hash hhash
    exact ⟨trx, htrx, hP trx hgiven⟩
  | fetchItems itemType itemHashes =>
    obtain ⟨hash, hone, hadvertised⟩ := h
    exact ⟨hash, hone, hheard _ hadvertised⟩
  | itemNotAvailable item => trivial
  | trx trx => exact ⟨hP trx h.1, h.2⟩

theorem reason_take {i : Input ν τ} {m : Message τ} (h : Gives id P s.books)
    (hconns : s.activeConnections.Nodup) (hpossible : i.Possible s) (hm : (p, m) ∈ (s.take id i).sent) :
    Reason id P (fun p item => (s.peer p).advertisedToUs item) i p m := by
  cases i with
  | own e =>
    cases e with
    | broadcast trx => cases hm
    | advertiseInventory now items =>
      obtain ⟨q, -, hm⟩ := List.mem_flatMap.1 hm
      split_ifs at hm
      · cases hm
      · obtain ⟨g, hg, heq⟩ := List.mem_map.1 hm
        obtain ⟨rfl, rfl⟩ := Prod.mk.inj heq
        intro htype hash hhash
        have hitem := (mem_itemsToAdvertise.1 (mem_itemsByType hg hhash)).1
        exact h.fresh _ (hpossible.2 ▸ List.mem_toFinset.2 hitem) htype
    | fetchItems now order =>
      have horder : order.Nodup := (List.Perm.nodup_iff hpossible).2 hconns
      obtain ⟨items, hlength, -, hadvertised, -, hsent⟩ := exists_asked s now horder p
      have hmem : m ∈ sentTo p (s.fetchItemsLoop now order).sent := mem_sentTo.2 hm
      rw [hsent] at hmem
      rw [itemsByType_eq_map hlength, List.map_map] at hmem
      obtain ⟨item, hitem, rfl⟩ := List.mem_map.1 hmem
      exact ⟨item.itemHash, rfl, hadvertised item hitem⟩
    | messageHandled now q trx handled => cases hm
    | blockAccepted => cases hm
  | received now q m =>
    cases m with
    | itemIdsInventory itemType itemHashes => cases hm
    | fetchItems itemType itemHashes =>
      obtain ⟨itemHash, hmem, heq⟩ := List.mem_map.1 hm
      obtain ⟨rfl, rfl⟩ := Prod.mk.inj heq
      unfold NodeImpl.reply
      cases hget : s.messageCache.getMessage itemHash with
      | none => trivial
      | some trx =>
        obtain ⟨rfl, hgiven⟩ := h.of_getMessage hget
        exact ⟨hgiven, now, itemType, itemHashes, rfl, hmem⟩
    | itemNotAvailable item => cases hm
    | trx trx => cases hm
  | _ => cases hm

end Reasons

/-! ## Runs -/

section Runs

/-- The client has broadcast or accepted a transaction. -/
def Introduced (log : List (Entry ν τ)) (trx : τ) : Prop := ∃ i, .took i ∈ log ∧ i.Introduces trx

/-- A peer has advertised an item. -/
def Advertised (log : List (Entry ν τ)) (p : ν) (item : ItemId) : Prop :=
  ∃ i, .took i ∈ log ∧ i.Advertises p item

variable (id : τ → MessageHashType)

/-- Why there is an entry in a log. -/
def Because (before : List (Entry ν τ)) : Entry ν τ → Prop
  | .took _ => True
  | .sent p m => ∃ i, .took i ∈ before ∧ Reason id (Introduced before) (Advertised before) i p m

/-- What holds of a node and its log. What a peer is asked for and what comes from it is an exchange of
single requests and answers, in which the client has got what it handles. -/
structure Inv (l : Logged ν τ) : Prop where
  nodup : l.node.activeConnections.Nodup
  exchanges : ∀ p, ∃ w, waitsAfter none (l.log.flatMap (Entry.labels id p)) = some w ∧
    (l.node.peer p).itemsRequestedFromPeer = w.toFinset
  got : ∀ p hash, l.log.countP (Entry.handles id p hash) + l.node.books.calls id p hash ≤
    got ⟨.trxMessageType, hash⟩ none (l.log.flatMap (Entry.labels id p))
  gives : Gives id (Introduced l.log) l.node.books
  heard : ∀ p item, (l.node.peer p).advertisedToUs item → Advertised l.log p item
  reasons : Justified (Because id) l.log

theorem Inv.start : Inv id (Logged.start : Logged ν τ) where
  nodup := List.nodup_nil
  exchanges _ := ⟨none, rfl, rfl⟩
  got _ _ := Nat.zero_le _
  gives := ⟨by simp [Logged.start, NodeImpl.start, NodeImpl.books],
    by simp [Logged.start, NodeImpl.start, NodeImpl.books]⟩
  heard p item h := by
    simp [Logged.start, NodeImpl.start, PeerConnection.fresh, PeerConnection.advertisedToUs,
      Net.PeerConnection.fresh] at h
  reasons before e rest h := by simp [Logged.start] at h

variable {id} {l : Logged ν τ} {i : Input ν τ}

omit [DecidableEq ν] in
theorem Introduced.mono {before : List (Entry ν τ)} (more : List (Entry ν τ)) {trx : τ}
    (h : Introduced before trx) : Introduced (before ++ more) trx := by
  obtain ⟨i, hi, hintroduces⟩ := h
  exact ⟨i, List.mem_append_left _ hi, hintroduces⟩

omit [DecidableEq ν] in
theorem Advertised.mono {before : List (Entry ν τ)} (more : List (Entry ν τ)) {p : ν} {item : ItemId}
    (h : Advertised before p item) : Advertised (before ++ more) p item := by
  obtain ⟨i, hi, hadvertises⟩ := h
  exact ⟨i, List.mem_append_left _ hi, hadvertises⟩

omit [DecidableEq ν] in
theorem Because.mono {before : List (Entry ν τ)} (more : List (Entry ν τ)) {e : Entry ν τ}
    (h : Because id before e) : Because id (before ++ more) e := by
  cases e with
  | took i => trivial
  | sent p m =>
    obtain ⟨i, hi, hreason⟩ := h
    exact ⟨i, List.mem_append_left _ hi, hreason.mono (fun _ => .mono more) fun _ => .mono more⟩

theorem countP_handles_sent (hash : MessageHashType) (p : ν) (sent : List (ν × Message τ)) :
    (sent.map fun m => Entry.sent m.1 m.2).countP (Entry.handles id p hash) = 0 := by
  rw [List.countP_map, List.countP_eq_zero]
  exact fun m _ => Bool.false_ne_true

variable [DecidableEq τ]

theorem Inv.step (h : Inv id l) (hpossible : i.Possible l.node) : Inv id (l.step id i) := by
  have hlabels : ∀ p, (l.step id i).log.flatMap (Entry.labels id p) =
      l.log.flatMap (Entry.labels id p) ++
        (i.labels id p ++ (sentTo p (l.node.take id i).sent).flatMap Message.asks) := by
    intro p
    rw [Logged.step, List.flatMap_append, List.flatMap_cons, labels_sent]
    rfl
  have hnew : .took i ∈ (l.step id i).log := List.mem_append_right _ List.mem_cons_self
  obtain ⟨requested, hbooks⟩ : ∃ requested, (l.step id i).node.books = l.node.books.take id requested i :=
    ⟨_, books_take id l.node i⟩
  refine ⟨(congrArg (·.activeConnections.Nodup) hbooks).mpr (nodup_take h.nodup), fun p => ?_,
    fun p hash => ?_, ?_, fun p item hadvertised => ?_, ?_⟩
  · obtain ⟨w, hwaits, hw⟩ := h.exchanges p
    obtain ⟨w', hwaits', hw'⟩ := waitsAfter_take h.nodup hpossible hw
    refine ⟨w', ?_, hw'⟩
    rw [hlabels, waitsAfter_append, hwaits]
    exact hwaits'
  · obtain ⟨w, hwaits, hw⟩ := h.exchanges p
    have hcalls := calls_take id hash requested hpossible hw
    have hgot := h.got p hash
    have hmore := got_le_append ⟨.trxMessageType, hash⟩ w (i.labels id p)
      ((sentTo p (l.node.take id i).sent).flatMap Message.asks)
    have hcount : (l.step id i).log.countP (Entry.handles id p hash) =
        l.log.countP (Entry.handles id p hash) + ((Entry.took i).handles id p hash).toNat := by
      rw [Logged.step, List.countP_append, List.countP_cons, countP_handles_sent, Nat.zero_add]
      cases (Entry.took i).handles id p hash <;> rfl
    rw [hcount, hlabels, got_append hwaits, hbooks]
    omega
  · rw [hbooks]
    exact (h.gives.mono fun _ => .mono _).take fun trx hi => ⟨i, hnew, hi⟩
  · obtain hbefore | hadvertises := advertised_take hpossible hadvertised
    · exact (h.heard p item hbefore).mono _
    · exact ⟨i, hnew, hadvertises⟩
  · have htook : Justified (Because id) (l.log ++ [.took i]) :=
      h.reasons.append (fun _ more _ => .mono more) (by simp [Because])
    have hsplit : (l.step id i).log =
        (l.log ++ [.took i]) ++ (l.node.take id i).sent.map fun m => .sent m.1 m.2 := by
      rw [Logged.step, List.append_assoc]
      rfl
    rw [hsplit]
    refine htook.append (fun _ more _ => .mono more) fun e he => ?_
    obtain ⟨⟨p, m⟩, hm, rfl⟩ := List.mem_map.1 he
    have hreason := reason_take h.gives h.nodup hpossible hm
    exact ⟨i, List.mem_append_right _ List.mem_cons_self,
      hreason.mono (fun _ => .mono _) fun item hadvertised => (h.heard p item hadvertised).mono _⟩

/-- Two peers come. One advertises `7`, is asked for it and gives it, and advertises `8`, for which it is
asked then. The other asks for `7`. -/
def visit : List (Input Bool Nat) :=
  [.connected false 0, .connected true 0, .received 0 false (.itemIdsInventory .trxMessageType [7]),
    .own (.fetchItems 0 [true, false]), .received 0 false (.trx 7),
    .own (.messageHandled 0 false 7 .accepted), .received 0 false (.itemIdsInventory .trxMessageType [8]),
    .own (.fetchItems 0 [true, false]), .received 0 true (.fetchItems .trxMessageType [7])]

end Runs

end Achain.Net.Gossip
