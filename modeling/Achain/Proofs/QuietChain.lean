import Achain.Proofs.AccountIndex
import Achain.Proofs.MainChain
import Mathlib.Data.Int.Interval

/-!
# A fork older than the undo history

A chain without transactions whose delegates all have the same key grows past the undo history. A
block that follows the genesis block but is numbered above the head is not taken for an old one, and
the switch to it pops down to a block without an undo state.
-/

namespace Achain

open Table Result Stateful Levels

/-! ## A quiet chain -/

/-- A node whose blocks have their numbers for ids, with one key for all signatures. -/
def Node.quiet : Node where
  P := .plain
  V := .idle
  B :=
    { id := fun h => h.blockNum
      signee := fun _ => some 1
      transactionDigest := fun _ => 0
      secretHash := fun _ => 0
      seedHash := fun _ _ => 0
      shuffleHash := fun _ _ => 0 }
  config := ⟨0, ∅, 0⟩

/-- One round of delegates with the same key. -/
def GenesisState.quiet : GenesisState :=
  ⟨1, List.replicate numDelegates ⟨[], 1⟩, [], []⟩

/-- The block after the one with the given number. -/
def FullBlock.quiet (n : Nat) : FullBlock where
  previous := n
  blockNum := n + 1
  timestamp := blockIntervalSec * (n + 1)
  transactionDigest := 0
  nextSecretHash := 0
  previousSecret := 0
  delegateSignature := 0
  userTransactions := []

/-- A block with the next number that follows the genesis block. -/
def FullBlock.quietFork (n : Nat) : FullBlock := { FullBlock.quiet n with previous := 0 }

/-- A delegate that signs with the one key and has no secret to reveal. -/
structure AccountEntry.Quiet (a : AccountEntry) (stats : DelegateStats) : Prop where
  delegateInfo : a.delegateInfo = some stats
  ownerKey : a.ownerKey = 1
  retracted : a.isRetracted = false
  signingKey : stats.signingKeyHistory.last = 1
  payRate : stats.payRate = 100
  secret : stats.nextSecretHash.all (· == 0) = true

/-- A round of delegates, all with the one key. -/
structure ChainTables.QuietAccounts (c : ChainTables) : Prop where
  ranked : Ranked c
  delegate : ∀ k a, c.accountIdToEntry.lookup k = some a → ∃ stats, a.Quiet stats
  address : ∃ k, c.accountAddressToId.lookup (Node.quiet.P.address 1) = some k ∧
    k ∈ c.accountIdToEntry
  many : numDelegates ≤ c.accountIdToEntry.keys.card

structure ChainTables.Quiet (c : ChainTables) : Prop extends c.QuietAccounts where
  active : ∃ l, c.propertyIdToEntry.lookup .activeDelegateListId = some (.delegates l) ∧
    l.length = numDelegates ∧ ∀ k ∈ l, k ∈ c.accountIdToEntry
  base : ∃ a, c.assetIdToEntry.lookup 0 = some a ∧ a.id = 0 ∧ a.collectedFees = 0
  statistics : c.statisticsEnabled = false

variable {db : ChainDatabase} {n : Nat} {clock : TimePointSec}

/-- The head of a quiet chain. -/
structure QuietHead (db : ChainDatabase) (n : Nat) : Prop where
  tables : db.tables.Quiet
  id : db.headBlockId = n
  blockNum : db.headBlockHeader.blockNum = n
  timestamp : db.headBlockHeader.timestamp = blockIntervalSec * n

namespace QuietHead

theorem active (h : QuietHead db n) : ∃ l, db.activeDelegates = .ok l ∧ l.length = numDelegates ∧
    ∀ k ∈ l, ∃ a stats, db.tables.accountIdToEntry.lookup k = some a ∧ a.Quiet stats := by
  obtain ⟨l, hl, hlen, hmem⟩ := h.tables.active
  refine ⟨l, by rw [ChainDatabase.activeDelegates, hl], hlen, fun k hk => ?_⟩
  obtain ⟨a, ha⟩ := Finmap.mem_iff.1 (hmem k hk)
  obtain ⟨stats, hstats⟩ := h.tables.delegate k a ha
  exact ⟨a, stats, ha, hstats⟩

theorem slotSignee (timestamp : TimePointSec) {l : List AccountIdType}
    (hlen : l.length = numDelegates)
    (hl : ∀ k ∈ l, ∃ a stats, db.tables.accountIdToEntry.lookup k = some a ∧ a.Quiet stats) :
    ∃ a stats, db.slotSignee timestamp l = .ok (a, stats) ∧ a.Quiet stats := by
  have hlt : slotNumber timestamp % numDelegates < l.length := by
    rw [hlen]
    exact Nat.mod_lt _ (by decide)
  obtain ⟨a, stats, ha, hquiet⟩ := hl _ (List.getElem_mem hlt)
  refine ⟨a, stats, ?_, hquiet⟩
  unfold ChainDatabase.slotSignee
  rw [List.getElem?_eq_getElem hlt]
  simp [orThrow, ha, hquiet.delegateInfo]

theorem verifyHeader (h : QuietHead db n) (hclock : blockIntervalSec * n ≤ clock) :
    verifyHeader .quiet db clock (.quiet n) 1 = .ok () := by
  obtain ⟨l, hactive, hlen, hmem⟩ := h.active
  obtain ⟨a, stats, hsignee, hquiet⟩ := slotSignee (FullBlock.quiet n).timestamp hlen hmem
  simp only [Achain.verifyHeader, bind_eq_ok, ensure_eq_ok, exists_const, Bool.or_eq_true,
    decide_eq_true_eq, beq_iff_eq]
  refine ⟨.inr ?_, h.id.symm, Nat.mul_mod_right _ _, .inr ?_, ?_, rfl, List.nodup_nil, l, hactive,
    (a, stats), hsignee, hquiet.signingKey.symm⟩
  · rw [h.blockNum]
    rfl
  · rw [h.timestamp]
    exact Nat.mul_lt_mul_of_pos_left (Nat.lt_succ_self n) (by decide)
  · show blockIntervalSec * (n + 1) ≤ _
    rw [Nat.mul_add, Nat.mul_one]
    omega

theorem delegateForSignee (h : QuietHead db n) : ∃ k a stats,
    db.tables.accountIdToEntry.lookup k = some a ∧ a.Quiet stats ∧ a.id = k ∧
      db.tables.accountLookupByAddress (Node.quiet.P.address 1) = some a ∧
      db.delegateForSignee Node.quiet.P 1 = .ok a := by
  obtain ⟨k, hk, hmem⟩ := h.tables.address
  obtain ⟨a, ha⟩ := Finmap.mem_iff.1 hmem
  obtain ⟨stats, hquiet⟩ := h.tables.delegate k a ha
  have hlookup : db.tables.accountLookupByAddress (Node.quiet.P.address 1) = some a := by
    rw [ChainTables.accountLookupByAddress, hk]
    exact ha
  refine ⟨k, a, stats, ha, hquiet, h.tables.ranked.keyed k a ha, hlookup, ?_⟩
  unfold ChainDatabase.delegateForSignee AccountEntry.isDelegate
  rw [hlookup, orThrow_some, ok_bind, hquiet.delegateInfo]
  rfl

theorem missedSlots (h : QuietHead db n) : missedSlots db (.quiet n) = [] := by
  have hstart : (if 0 < n then blockIntervalSec * n + blockIntervalSec
      else (FullBlock.quiet n).timestamp) = (FullBlock.quiet n).timestamp := by
    split_ifs
    · rfl
    · rfl
  unfold Achain.missedSlots
  dsimp only
  rw [h.blockNum, h.timestamp, hstart, Nat.sub_self]
  rfl

end QuietHead

/-- A pending state over a quiet chain, with one account stored. -/
structure QuietLedger (db : ChainDatabase) (clock : TimePointSec) (k : AccountIdType) (l : Ledger) :
    Prop where
  prev : l.prev = db.toView clock
  account : ∃ a stats, l.account = (∅ : Overlay _ _).insert k a ∧ a.id = k ∧ a.Quiet stats
  base : ∃ a, l.getAsset 0 = some a ∧ a.id = 0 ∧ a.collectedFees = 0
  active : ∃ delegates, l.getProperty .activeDelegateListId = some (.delegates delegates) ∧
    delegates.length = numDelegates ∧ ∀ k ∈ delegates, k ∈ db.tables.accountIdToEntry

namespace QuietLedger

variable {k : AccountIdType} {l : Ledger} {v : PropertyValue} {id : PropertyIdType}

theorem delegate (h : QuietLedger db clock k l) :
    ∃ a stats, l.delegate k = .ok (a, stats) ∧ a.id = k ∧ a.Quiet stats := by
  obtain ⟨a, stats, ha, hid, hquiet⟩ := h.account
  refine ⟨a, stats, ?_, hid, hquiet⟩
  unfold Ledger.delegate Ledger.getAccount
  rw [ha, Overlay.lookup_insert_self, orThrow_some, ok_bind, hquiet.delegateInfo]
  rfl

theorem stored (h : QuietLedger db clock k l) :
    ∃ a, l.account = (∅ : Overlay _ _).insert k a := by
  obtain ⟨a, -, ha, -⟩ := h.account
  exact ⟨a, ha⟩

theorem storeAsset {e : AssetEntry} (h : QuietLedger db clock k l) (hid : e.id = 0)
    (hfees : e.collectedFees = 0) : QuietLedger db clock k (l.storeAsset e) := by
  refine ⟨?_, ?_, ⟨e, ?_, hid, hfees⟩, ?_⟩
  · rw [Ledger.storeAsset_prev, h.prev]
  · rw [Ledger.storeAsset_account]
    exact h.account
  · rw [Ledger.getAsset_storeAsset, if_pos hid.symm]
  · unfold Ledger.getProperty
    rw [Ledger.storeAsset_property, Ledger.storeAsset_prev]
    exact h.active

theorem storeProperty (h : QuietLedger db clock k l) (hid : id ≠ .activeDelegateListId) :
    QuietLedger db clock k (l.storeProperty id v) := by
  refine ⟨h.prev, h.account, h.base, ?_⟩
  rw [Ledger.getProperty_storeProperty, if_neg hid.symm]
  exact h.active

theorem storeAccount {a : AccountEntry}
    (haccount : l.account = ∅ ∨ ∃ a, l.account = (∅ : Overlay _ _).insert k a)
    (hprev : l.prev = db.toView clock)
    (hbase : ∃ a, l.getAsset 0 = some a ∧ a.id = 0 ∧ a.collectedFees = 0)
    (hactive : ∃ delegates, l.getProperty .activeDelegateListId = some (.delegates delegates) ∧
      delegates.length = numDelegates ∧ ∀ k ∈ delegates, k ∈ db.tables.accountIdToEntry)
    (hid : a.id = k) (hquiet : ∃ stats, a.Quiet stats) :
    QuietLedger db clock k (l.storeAccount Node.quiet.P a) := by
  obtain ⟨stats, hquiet⟩ := hquiet
  refine ⟨?_, ⟨a, stats, ?_, hid, hquiet⟩, ?_, ?_⟩
  · rw [Ledger.storeAccount_prev, hprev]
  · rw [Ledger.storeAccount_account, hid]
    rcases haccount with h | ⟨a', h⟩
    · rw [h]
    · rw [h, Overlay.insert_insert]
  · unfold Ledger.getAsset
    rw [Ledger.storeAccount_asset, Ledger.storeAccount_prev]
    exact hbase
  · unfold Ledger.getProperty
    rw [Ledger.storeAccount_property, Ledger.storeAccount_prev]
    exact hactive

end QuietLedger

namespace QuietHead

/-- The statistics of the block: one account is stored, that of its delegate. -/
theorem production (h : QuietHead db n) (clock : TimePointSec) : ∃ l k a,
    updateDelegateProductionInfo .quiet db (.quiet n) 1 (db.pending clock).ledger = .ok l ∧
      db.tables.accountLookupByAddress (Node.quiet.P.address 1) = some a ∧ a.id = k ∧
      k ∈ db.tables.accountIdToEntry ∧ QuietLedger db clock k l := by
  obtain ⟨k, a, stats, ha, hquiet, hid, haddress, hsignee⟩ := h.delegateForSignee
  obtain ⟨delegates, hactive, -⟩ := h.active
  have hdelegate : (db.pending clock).ledger.delegate a.id = .ok (a, stats) := by
    unfold Ledger.delegate
    rw [hid, show (db.pending clock).ledger.getAccount k = some a from ha, orThrow_some, ok_bind,
      hquiet.delegateInfo]
    rfl
  have hsecret : stats.nextSecretHash.all
      (· == Node.quiet.B.secretHash (FullBlock.quiet n).previousSecret) = true := hquiet.secret
  let a' : AccountEntry :=
    { a with
      delegateInfo := some { stats with
        blocksProduced := stats.blocksProduced + 1
        nextSecretHash := some 0
        lastBlockNumProduced := n + 1 } }
  have hrun : updateDelegateProductionInfo .quiet db (.quiet n) 1 (db.pending clock).ledger =
      .ok (((db.pending clock).ledger.storeAccount Node.quiet.P a').storeProperty
        .confirmationRequirement (.number (nextConfirmations db.requiredConfirmations 0))) := by
    simp only [updateDelegateProductionInfo, hsignee, ok_bind, hdelegate, h.tables.statistics,
      hsecret, ensure_true, Bool.false_eq_true, if_false, hactive, h.missedSlots, List.foldlM_nil]
    rfl
  refine ⟨_, k, a, hrun, haddress, hid, Finmap.mem_of_lookup_eq_some ha, ?_⟩
  refine .storeProperty (.storeAccount (.inl rfl) rfl h.tables.base h.tables.active hid ?_) (by decide)
  exact ⟨_, rfl, hquiet.ownerKey, hquiet.retracted, hquiet.signingKey, hquiet.payRate, rfl⟩

/-- The delegate is paid new shares only: there are no fees. -/
theorem payment (h : QuietHead db n) (hn : n < delegatePayBlockNum) {k : AccountIdType}
    {a : AccountEntry} {l : Ledger} (hl : QuietLedger db clock k l)
    (ha : db.tables.accountLookupByAddress (Node.quiet.P.address 1) = some a) (hid : a.id = k) :
    ∃ l', payDelegate .quiet db 1 l = .ok l' ∧ QuietLedger db clock k l' := by
  obtain ⟨a', stats, hdelegate, hid', hquiet⟩ := hl.delegate
  obtain ⟨base, hbase, hbaseId, hfees⟩ := hl.base
  have hpay : paycheck n 100 0 = ⟨maxDelegatePayPerBlock * Int64.ofNat 100 / 100, 0, 0⟩ := by
    unfold paycheck maxDelegatePayIssuedPerBlock
    rw [if_neg (Nat.not_le.2 hn)]
    rfl
  simp only [payDelegate, hbase, ha, hid, hdelegate, orThrow_some, ok_bind, hquiet.payRate,
    h.blockNum, hfees, hpay]
  refine ⟨_, rfl, .storeAsset (.storeAccount (.inr hl.stored) hl.prev hl.base hl.active hid' ?_)
    hbaseId rfl⟩
  exact ⟨_, rfl, hquiet.ownerKey, hquiet.retracted, hquiet.signingKey, rfl, hquiet.secret⟩

end QuietHead

/-! ## The delegates of a round -/

theorem VoteDel.coe_inOrder (votes : Finset VoteDel) :
    (VoteDel.inOrder votes : Multiset VoteDel) = votes.val := by
  obtain ⟨votes, hnodup⟩ := votes
  induction votes using Quot.induction_on with
  | h l => exact Quot.sound (List.perm_insertionSort _ l)

theorem swapAt_self (l : List AccountIdType) (i : Nat) : swapAt l i i = l := by
  unfold swapAt
  cases h : l[i]? with
  | none => rfl
  | some a =>
    obtain ⟨hi, rfl⟩ := List.getElem?_eq_some_iff.1 h
    simp

/-- Without random words the delegates stay in the order of their votes. -/
theorem shuffle_zero (l : List AccountIdType) : shuffle (fun _ => 0) l = l := by
  unfold shuffle
  generalize List.range l.length = indexes
  induction indexes with
  | nil => rfl
  | cons i indexes ih =>
    rw [List.foldl_cons, Nat.zero_mod, Nat.zero_add, swapAt_self]
    exact ih

namespace ChainTables.QuietAccounts

variable {c : ChainTables}

/-- Every account has a place in the votes. -/
theorem votes (h : c.QuietAccounts) : numDelegates ≤ c.delegateVotes.card := by
  refine h.many.trans ((Finset.card_le_card fun k hk => ?_).trans
    (Finset.card_image_le (s := c.delegateVotes) (f := VoteDel.delegateId)))
  obtain ⟨a, ha⟩ := Finmap.mem_iff.1 (Finmap.mem_keys.1 hk)
  obtain ⟨stats, hquiet⟩ := h.delegate k a ha
  have hballot : (⟨a.netVotes, a.id⟩ : VoteDel) ∈ a.ballots := by
    refine AccountEntry.mem_ballots.2 ⟨?_, hquiet.retracted, rfl⟩
    rw [AccountEntry.isDelegate, hquiet.delegateInfo]
    rfl
  have hrank := (h.ranked.votes _ k).2 ⟨a, ha, hballot⟩
  unfold ChainTables.rank at hrank
  split_ifs at hrank with hmem
  exact Finset.mem_image.2 ⟨_, hmem, Option.some_inj.1 hrank⟩

theorem nextRound (h : c.QuietAccounts) : c.nextRoundActiveDelegates.length = numDelegates ∧
    ∀ k ∈ c.nextRoundActiveDelegates, k ∈ c.accountIdToEntry := by
  have hcoe := VoteDel.coe_inOrder c.delegateVotes
  have hlength : (VoteDel.inOrder c.delegateVotes).length = c.delegateVotes.card :=
    congrArg Multiset.card hcoe
  unfold nextRoundActiveDelegates
  refine ⟨?_, fun k hk => ?_⟩
  · rw [List.length_map, List.length_take, hlength, Nat.min_eq_left h.votes]
  · obtain ⟨v, hv, rfl⟩ := List.mem_map.1 hk
    have hmem : v ∈ c.delegateVotes := by
      have hv := Multiset.mem_coe.2 (List.mem_of_mem_take hv)
      rw [hcoe] at hv
      exact hv
    obtain ⟨a, ha, -⟩ := (h.ranked.votes v v.delegateId).1 (if_pos hmem)
    exact Finmap.mem_of_lookup_eq_some ha

end ChainTables.QuietAccounts

theorem QuietLedger.activeDelegates {k : AccountIdType} {l : Ledger}
    (h : QuietLedger db clock k l) (hc : db.tables.Quiet) (blockNum : Nat) :
    QuietLedger db clock k (updateActiveDelegateList .quiet db blockNum l) := by
  unfold updateActiveDelegateList
  split_ifs
  · refine ⟨h.prev, h.account, h.base, ?_⟩
    rw [Ledger.getProperty_storeProperty, if_pos rfl]
    refine ⟨_, rfl, ?_⟩
    rw [show Node.quiet.B.shuffleHash l.currentRandomSeed = fun _ => 0 from rfl, shuffle_zero]
    exact hc.nextRound
  · exact h

/-- A quiet block is accepted, and stores one account. -/
theorem QuietHead.evaluateBlock (h : QuietHead db n) (hn : n < delegatePayBlockNum)
    (hclock : blockIntervalSec * n ≤ clock) :
    ∃ p k, evaluateBlock .quiet db clock (.quiet n) = .ok p ∧ k ∈ db.tables.accountIdToEntry ∧
      QuietLedger db clock k p.ledger := by
  obtain ⟨l₁, k, a, hproduction, haddress, hid, hmem, hquiet₁⟩ := h.production clock
  obtain ⟨l₂, hpayment, hquiet₂⟩ := h.payment hn hquiet₁ haddress hid
  have hsignee : blockSignee .quiet db (.quiet n) = .ok 1 := rfl
  have happlied : applyTransactions Node.quiet.P Node.quiet.V
      (db.applyConfig (FullBlock.quiet n).blockNum) (FullBlock.quiet n).userTransactions
      { db.pending clock with ledger := l₁ } = .ok { db.pending clock with ledger := l₁ } := rfl
  have hrest : QuietLedger db clock k (updateRandomSeed .quiet (FullBlock.quiet n).previousSecret
      (updateActiveDelegateList .quiet db (FullBlock.quiet n).blockNum l₂)) :=
    (hquiet₂.activeDelegates h.tables _).storeProperty (by decide)
  refine ⟨{ db.pending clock with ledger := _ }, k, ?_, hmem, hrest⟩
  simp only [Achain.evaluateBlock, hsignee, ok_bind, h.verifyHeader hclock, hproduction, happlied,
    hpayment]
  rfl

/-! ## The chain grows -/

namespace ChainTables.Quiet

variable {c c' : ChainTables} {k : AccountIdType} {a : AccountEntry} {stats : DelegateStats}

theorem applyEntries_single {σ K V : Type} [DecidableEq K] (P : Primitives)
    (remove : σ → K → σ) (store : σ → K → V → σ) (k : K) (v : V) (db : σ) :
    applyEntries P remove store ((∅ : Overlay K V).insert k v).stored
      ((∅ : Overlay K V).insert k v).removed db = store db k v := by
  have hstored : P.order.order (mapItems ((∅ : Overlay K V).insert k v).stored) = [(k, v)] :=
    List.perm_singleton.1 (P.order.perm _)
  have hremoved : P.order.order ((∅ : Overlay K V).insert k v).removed = [] :=
    List.perm_nil.1 (P.order.perm _)
  rw [applyEntries, hstored, hremoved]
  rfl

theorem store_address {a : AccountEntry} (howner : a.ownerKey = 1) :
    (AccountEntry.store Node.quiet.P c k a).accountAddressToId.lookup (Node.quiet.P.address 1) =
      some k := by
  have hmem : Node.quiet.P.address 1 ∈ a.addresses Node.quiet.P := by
    rw [AccountEntry.addresses, howner]
    exact List.mem_cons_self
  show (AccountEntry.store Node.quiet.P c k a).accountMaps.address (Node.quiet.P.address 1) = some k
  rw [accountReads.store]
  exact if_pos hmem

theorem ranked_of_accounts (h : Ranked c) (hc : accounts.get c' = accounts.get c) : Ranked c' := by
  simp only [accounts, Prod.mk.injEq] at hc
  obtain ⟨htable, -, -, hvotes⟩ := hc
  refine ⟨fun k a ha => h.keyed k a (htable ▸ ha), fun v k => ?_⟩
  unfold rank accountMaps
  rw [htable, hvotes]
  exact h.votes v k

theorem purge (h : c.Quiet) (now : TimePointSec) : (c.purge now).Quiet :=
  ⟨⟨ranked_of_accounts h.ranked rfl, h.delegate, h.address, h.many⟩, h.active, h.base, h.statistics⟩

/-- Writing one quiet account keeps the accounts quiet. -/
theorem written {p : PendingChainState} (h : c.Quiet)
    (hw : Written Node.quiet.P p c c') (ha : p.ledger.account = (∅ : Overlay _ _).insert k a)
    (hk : k ∈ c.accountIdToEntry) (hid : a.id = k) (hquiet : a.Quiet stats)
    (hbase : ∃ a, p.ledger.asset.lookup c.assetIdToEntry.lookup 0 = some a ∧ a.id = 0 ∧
      a.collectedFees = 0)
    (hactive : ∃ delegates, p.ledger.property.lookup c.propertyIdToEntry.lookup
        .activeDelegateListId = some (.delegates delegates) ∧
      delegates.length = numDelegates ∧ ∀ k ∈ delegates, k ∈ c.accountIdToEntry) :
    c'.Quiet := by
  have hlookup : ∀ k', c'.accountIdToEntry.lookup k' =
      if k' = k then some a else c.accountIdToEntry.lookup k' := by
    intro k'
    rw [hw.lookupAccount, ha, Overlay.lookup_insert, Overlay.lookup_empty]
  have hmem : ∀ k', k' ∈ c'.accountIdToEntry ↔ k' ∈ c.accountIdToEntry := by
    intro k'
    rw [Finmap.mem_iff, Finmap.mem_iff, hlookup]
    split_ifs with hk'
    · rw [hk']
      exact ⟨fun _ => Finmap.mem_iff.1 hk, fun _ => ⟨a, rfl⟩⟩
    · rfl
  obtain ⟨c₀, hc₀, -, hc'⟩ := hw.account
  rw [ha, applyEntries_single] at hc'
  refine
    { ranked := ?_
      delegate := fun k' a' ha' => ?_
      address := ?_
      many := ?_
      active := ?_
      base := ?_
      statistics := ?_ }
  · exact ranked_of_accounts ((ranked_of_accounts h.ranked hc₀).store hid) hc'
  · rw [hlookup] at ha'
    split_ifs at ha' with hk'
    · rw [Option.some_inj] at ha'
      exact ⟨stats, ha' ▸ hquiet⟩
    · exact h.delegate k' a' ha'
  · refine ⟨k, ?_, (hmem k).2 hk⟩
    rw [show c'.accountAddressToId = (AccountEntry.store Node.quiet.P c₀ k a).accountAddressToId from
      congrArg (fun x => x.2.2.1) hc']
    exact store_address hquiet.ownerKey
  · have hkeys : c'.accountIdToEntry.keys = c.accountIdToEntry.keys := by
      ext k'
      rw [Finmap.mem_keys, Finmap.mem_keys, hmem]
    rw [hkeys]
    exact h.many
  · obtain ⟨delegates, hdelegates, hlen, hall⟩ := hactive
    refine ⟨delegates, ?_, hlen, fun k' hk' => (hmem k').2 (hall k' hk')⟩
    rw [hw.lookupProperty]
    exact hdelegates
  · obtain ⟨base, hlookup, hbase⟩ := hbase
    refine ⟨base, ?_, hbase⟩
    rw [hw.lookupAsset]
    exact hlookup
  · rw [hw.statisticsEnabled]
    exact h.statistics

end ChainTables.Quiet

namespace QuietHead

theorem saveUndoState (hold : maxUndoHistory < n + 1 → n + 1 - maxUndoHistory ∈ db.blockNumToId)
    (p : PendingChainState) : ∃ undo, saveUndoState .quiet db (.quiet n) p = .ok undo := by
  obtain ⟨recent, hrecent⟩ : ∃ recent, db.recentUndoStates (n + 1) = .ok recent := by
    unfold ChainDatabase.recentUndoStates
    split_ifs with hlt
    · obtain ⟨old, hlookup⟩ := Finmap.mem_iff.1 (hold hlt)
      rw [hlookup]
      exact ⟨_, rfl⟩
    · exact ⟨_, rfl⟩
  unfold Achain.saveUndoState
  rw [show (FullBlock.quiet n).blockNum = n + 1 from rfl, hrecent]
  exact ⟨_, rfl⟩

/-- The chain grows by a quiet block once the block is known. -/
theorem extendChain (h : QuietHead db n) (hn : n < delegatePayBlockNum)
    (hclock : blockIntervalSec * n ≤ clock) (hknown : n + 1 ∈ db.forkDb)
    (hold : maxUndoHistory < n + 1 → n + 1 - maxUndoHistory ∈ db.blockNumToId) :
    ∃ db', extendChain .quiet db clock (.quiet n) = .ok db' ∧ QuietHead db' (n + 1) := by
  obtain ⟨p, k, hp, hk, hl⟩ := h.evaluateBlock hn hclock
  obtain ⟨undo, hundo⟩ := saveUndoState hold p
  obtain ⟨forkDb, hfork⟩ : ∃ forkDb, markIncluded db (n + 1) true = .ok forkDb := by
    obtain ⟨data, hdata⟩ := Finmap.mem_iff.1 hknown
    unfold markIncluded
    rw [hdata]
    exact ⟨_, rfl⟩
  have htables : (db.tables.applyChanges Node.quiet.P p).Quiet := by
    obtain ⟨a, stats, ha, hid, hquiet⟩ := hl.account
    have hbase := hl.base
    have hactive := hl.active
    unfold Ledger.getAsset at hbase
    unfold Ledger.getProperty at hactive
    rw [hl.prev] at hbase hactive
    exact h.tables.written (ChainTables.written db.tables p) ha hk hid hquiet hbase hactive
  obtain ⟨db', hrun⟩ : ∃ db', Achain.extendChain .quiet db clock (.quiet n) = .ok db' := by
    simp only [Achain.extendChain, hp, hundo, ok_bind,
      show Node.quiet.B.id (FullBlock.quiet n).toSignedBlockHeader = n + 1 from rfl, hfork]
    exact ⟨_, rfl⟩
  obtain ⟨p', hext⟩ := extendChain_ok hrun
  obtain rfl := ok_eq_ok.1 (hp.symm.trans hext.evaluated)
  refine ⟨db', hrun, ?_, hext.headBlockId, ?_, ?_⟩
  · rw [hext.tables]
    exact htables.purge _
  · rw [hext.headBlockHeader]
    rfl
  · rw [hext.headBlockHeader]
    rfl

end QuietHead

theorem BlockForkData.fresh_canLink (prev : BlockForkData) :
    prev.fresh.canLink = prev.canLink := by
  unfold fresh canLink
  cases h : prev.invalid with
  | true => simp [invalid]
  | false => simp [invalid]

/-! ## A run of quiet blocks -/

/-- The state after the given number of quiet blocks. -/
structure QuietChain (db : ChainDatabase) (n : Nat) (path : List BlockIdType) : Prop where
  head : QuietHead db n
  chain : ChainInv .quiet db path
  fresh : ∀ k ∈ db.forkDb, k ≤ n
  linked : ∃ d, db.forkDb.lookup n = some d ∧ d.canLink = true ∧ d.isIncluded = true
  first : 0 < n → db.blockNumToId.lookup 1 = some 1
  erased : maxUndoHistory < n → 1 ∉ db.blockIdToUndoState

namespace QuietChain

variable {path : List BlockIdType} {d : BlockForkData}

theorem length (h : QuietChain db n path) : path.length = n := by
  rw [← h.chain.headPath.header.1, h.head.blockNum]

theorem unknown (h : QuietChain db n path) : db.forkDb.lookup (n + 1) = none := by
  rw [← Option.not_isSome_iff_eq_none, Finmap.lookup_isSome]
  exact fun hmem => Nat.not_succ_le_self n (h.fresh _ hmem)

theorem places (h : QuietChain db n path) {b : FullBlock} (hb : b.blockNum = n + 1) :
    Places .quiet db b := by
  refine ⟨?_, ?_⟩
  · rw [h.head.blockNum, hb]
    omega
  · rw [show Node.quiet.B.id b.toSignedBlockHeader = n + 1 from hb, h.unknown]
    exact Bool.false_ne_true

/-- A block with the next number is placed after a block that may be valid, and is the only one with
its number. -/
theorem placed (h : QuietChain db n path) {b : FullBlock} (hb : b.blockNum = n + 1)
    (hprevious : b.previous ≠ n + 1) (hd : db.forkDb.lookup b.previous = some d)
    (hlink : d.canLink = true) : ∃ data db',
    storeAndIndex (n + 1) b db = .ok (n + 1, data) db' ∧
      Indexed db (n + 1) b (n + 1, data) db' ∧ data.canLink = true ∧
      db' = db.withBlock (n + 1) b data ∧ (db'.forkNumberDb.lookup (n + 1)).getD [] = [n + 1] := by
  have hid : Node.quiet.B.id b.toSignedBlockHeader = n + 1 := hb
  have hunknown : ¬ (db.forkDb.lookup (n + 1)).any BlockForkData.isKnown := hid ▸ (h.places hb).unknown
  obtain ⟨r, db', hrun, hi⟩ := storeAndIndex_indexed h.chain.tree hid hunknown
  have hnone : (db.placed (n + 1) b).forkDb.lookup (n + 1) = none :=
    (Finmap.lookup_insert_of_ne _ hprevious.symm).trans h.unknown
  have hcan : (db.previousData (n + 1) b).fresh.canLink = true := by
    have hprev : (db.previousData (n + 1) b).canLink = d.canLink := by
      unfold ChainDatabase.previousData
      rw [hd]
      rfl
    rw [BlockForkData.fresh_canLink, hprev]
    exact hlink
  have hnumber : (db.forkNumberDb.lookup (n + 1)).getD [] = [] := by
    refine List.eq_nil_iff_forall_not_mem.2 fun k hk => ?_
    obtain ⟨b', hb', hnum⟩ := (h.chain.tree.number _ k).1 hk
    obtain ⟨rfl, -⟩ := h.chain.tree.blockId k b' hb'
    have hmem := h.chain.tree.stored _ (Finmap.mem_of_lookup_eq_some hb')
    rw [show Node.quiet.B.id b'.toSignedBlockHeader = n + 1 from hnum] at hmem
    exact Nat.not_succ_le_self n (h.fresh _ hmem)
  cases hi with
  | fresh _ =>
    refine ⟨_, _, hrun, .fresh hnone, hcan, rfl, ?_⟩
    show ((db.forkNumberDb.insert b.blockNum _).lookup (n + 1)).getD [] = _
    rw [hb, Finmap.lookup_insert, Option.getD_some, hnumber]
    rfl
  | orphan hph =>
    rw [hnone] at hph
    cases hph
  | invalid hph =>
    rw [hnone] at hph
    cases hph
  | linked hph =>
    rw [hnone] at hph
    cases hph

/-- A number up to the head's is indexed. -/
theorem indexed (h : QuietChain db n path) {k : Nat} (hpos : 0 < k) (hle : k ≤ n) :
    k ∈ db.blockNumToId := by
  have hlt : k - 1 < path.reverse.length := by
    rw [List.length_reverse, h.length]
    omega
  obtain ⟨l, q, hpath, hq⟩ := getElem?_reverse_eq_some.1 (List.getElem?_eq_getElem hlt)
  exact Finmap.mem_of_lookup_eq_some ((h.chain.index k _).2 ⟨l, q, hpath, by omega⟩)

/-- The history of a block placed after the head ends at the head. -/
theorem history (hhead : db.forkDb.lookup n = some d) (hlink : d.isLinked = true)
    (hincluded : d.isIncluded = true)
    (hb : db.blockIdToFullBlock.lookup (n + 1) = some (.quiet n)) (fuel : Nat) :
    forkHistory (fuel + 1) (n + 1) db = .ok [n + 1, n] db := by
  by_cases hn : n = 0
  · rw [forkHistory_root hb hn, hn]
  · rw [forkHistory_succ, bind_of_ok (fetchBlock_ok hb),
      if_neg (show (FullBlock.quiet n).previous ≠ 0 from hn),
      bind_of_ok (fetchFork_ok (show db.forkDb.lookup (FullBlock.quiet n).previous = some d from hhead)),
      hlink, hincluded]
    rfl

theorem numbered (n : Nat) : (FullBlock.quiet n).Numbered := by
  intro hle
  have hn : n = 0 := Nat.le_zero.1 (Nat.le_of_succ_le_succ hle)
  rw [hn]
  exact ⟨rfl, rfl⟩

/-- The undo state of the first block falls out of the history kept. -/
theorem erased_of_grown {db' : ChainDatabase} (hg : Grown .quiet db (.quiet n) db')
    (hlt : maxUndoHistory < n + 1) (hfirst : 0 < n → db.blockNumToId.lookup 1 = some 1)
    (herased : maxUndoHistory < n → 1 ∉ db.blockIdToUndoState) : 1 ∉ db'.blockIdToUndoState := by
  have hpos : 0 < n := Nat.lt_of_lt_of_le (by decide : 0 < maxUndoHistory) (Nat.le_of_lt_succ hlt)
  obtain ⟨p, hsaved⟩ := hg.undo
  unfold Achain.saveUndoState at hsaved
  rw [if_neg (show ¬ (FullBlock.quiet n).blockNum < Node.quiet.config.minUndoBlock from
    Nat.not_lt_zero _)] at hsaved
  simp only [bind_eq_ok, pure_eq_ok] at hsaved
  obtain ⟨recent, hrecent, hundo⟩ := hsaved
  unfold ChainDatabase.recentUndoStates at hrecent
  rw [if_pos (show maxUndoHistory < (FullBlock.quiet n).blockNum from hlt)] at hrecent
  simp only [bind_eq_ok, orThrow_eq_ok, pure_eq_ok] at hrecent
  obtain ⟨old, hold, rfl⟩ := hrecent
  rw [← hundo, Finmap.mem_insert, Finmap.mem_erase, not_or, not_and]
  refine ⟨fun heq => hpos.ne (Nat.succ_injective heq), fun hne => ?_⟩
  rcases Nat.lt_or_eq_of_le (Nat.le_of_lt_succ hlt) with hlt' | heq
  · exact herased hlt'
  · have hnum : (FullBlock.quiet n).blockNum - maxUndoHistory = 1 := by
      rw [heq]
      exact Nat.add_sub_cancel_left n 1
    rw [hnum, hfirst hpos, Option.some_inj] at hold
    exact absurd hold hne

/-- The next block is placed after the head and extends the chain. -/
structure Step (clock : TimePointSec) (db : ChainDatabase) (n : Nat) (data : BlockForkData)
    (db' db'' : ChainDatabase) : Prop where
  stored : storeAndIndex (n + 1) (.quiet n) db = .ok (n + 1, data) db'
  indexed : Indexed db (n + 1) (.quiet n) (n + 1, data) db'
  canLink : data.canLink = true
  forkDb : ∀ k, db'.forkDb.lookup k = if k = n + 1 then some data
    else if k = n then some (db.previousData (n + 1) (.quiet n)) else db.forkDb.lookup k
  number : (db'.forkNumberDb.lookup (n + 1)).getD [] = [n + 1]
  history : forkHistory (db'.forkDepth + 1) (n + 1) db' = .ok [n + 1, n] db'
  headBlockId : db'.headBlockId = n
  extended : Achain.extendChain .quiet db' clock (.quiet n) = .ok db''
  quiet : QuietHead db'' (n + 1)

theorem step (h : QuietChain db n path) (hn : n < delegatePayBlockNum)
    (hclock : blockIntervalSec * n ≤ clock) : ∃ data db' db'', Step clock db n data db' db'' := by
  obtain ⟨d, hd, hdlink, hdincluded⟩ := h.linked
  obtain ⟨data, db', hrun, hi, hlink, hdb', hnumber⟩ :=
    h.placed (b := .quiet n) rfl (Nat.succ_ne_self n).symm hd hdlink
  have hfork : ∀ k, db'.forkDb.lookup k = if k = n + 1 then some data
      else if k = n then some (db.previousData (n + 1) (.quiet n)) else db.forkDb.lookup k := by
    intro k
    rw [hdb', withBlock_fork]
    rfl
  have hhead : QuietHead db' n := by
    rw [hdb']
    exact ⟨h.head.tables, h.head.id, h.head.blockNum, h.head.timestamp⟩
  have hdata : db'.forkDb.lookup (n + 1) = some data := by rw [hfork, if_pos rfl]
  obtain ⟨db'', hext, hquiet⟩ := hhead.extendChain hn hclock (Finmap.mem_of_lookup_eq_some hdata)
    fun hlt => by
      have hpos : 0 < maxUndoHistory := by decide
      rw [hi.chain.blockNumToId]
      exact h.indexed (by omega) (by omega)
  have hprev : db'.forkDb.lookup n = some { d with nextBlocks := d.nextBlocks.insert (n + 1) } := by
    rw [hfork, if_neg (Nat.succ_ne_self n).symm, if_pos rfl]
    unfold ChainDatabase.previousData
    rw [show (FullBlock.quiet n).previous = n from rfl, hd]
    rfl
  rw [BlockForkData.canLink, Bool.and_eq_true] at hdlink
  have hhistory := history hprev hdlink.1 hdincluded hi.mem db'.forkDepth
  exact ⟨data, db', db'', hrun, hi, hlink, hfork, hnumber, hhistory, hhead.id, hext, hquiet⟩

namespace Step

variable {data : BlockForkData} {db' db'' : ChainDatabase} (hs : Step clock db n data db' db'')

include hs

theorem data_eq : db'.forkDb.lookup (n + 1) = some data := by
  rw [hs.forkDb, if_pos rfl]

theorem switch : switchToFork .quiet clock (n + 1) db' = .ok () db'' := by
  have hrun : extendChainM .quiet clock (.quiet n) db' = .ok () db'' := by
    rcases extendChainM_cases .quiet db' clock (.quiet n) with ⟨s, hext, hrun⟩ | ⟨e, hext, -⟩
    · rw [hs.extended, Except.ok.injEq] at hext
      rw [hext]
      exact hrun
    · rw [hs.extended] at hext
      cases hext
  have hne : n + 1 ≠ db'.headBlockId := by
    rw [hs.headBlockId]
    exact Nat.succ_ne_self n
  have hpop : popUntil .quiet n (db'.forkDepth + 1) db' = .ok () db' := by
    rw [popUntil_succ, if_pos hs.headBlockId]
  rw [switchToFork_of_history hne hs.history]
  exact (bind_of_ok hpop).trans
    ((applyFork_cons hs.indexed.mem).trans ((bind_of_ok hrun).trans rfl))

theorem push (h : QuietChain db n path) : pushBlock .quiet clock (.quiet n) db = .ok () db'' := by
  have hforks : tryForks .quiet clock (n + 1) ((db'.forkNumberDb.lookup (n + 1)).getD []) db' =
      .ok true db'' := by
    rw [hs.number]
    exact tryForks_done hs.data_eq hs.canLink hs.switch
  have hlt : db.headBlockHeader.blockNum < (FullBlock.quiet n).blockNum := by
    rw [h.head.blockNum]
    exact Nat.lt_succ_self n
  have hsearch : pushBlock .quiet clock (.quiet n) db =
      tryNumbers .quiet clock (n + 1) (n + 1) db' :=
    pushBlock_search (h.places rfl) hs.stored hs.canLink hs.indexed.mem hlt
  rw [hsearch, tryNumbers_succ, bind_of_ok hforks]
  rfl

end Step

/-- One more quiet block. -/
theorem push (h : QuietChain db n path) (hn : n < delegatePayBlockNum)
    (hclock : blockIntervalSec * n ≤ clock) :
    QuietChain (final (pushBlock .quiet clock (.quiet n)) db) (n + 1) ((n + 1) :: path) := by
  obtain ⟨data, db', db'', hs⟩ := h.step hn hclock
  have hi := hs.indexed
  have hgrown := extendChain_grown hs.extended
  have hchain : ChainInv .quiet db' path :=
    h.chain.indexed hi rfl (h.places (b := .quiet n) rfl).unknown (numbered n)
  have hindex : db'.blockNumToId = db.blockNumToId := hi.chain.blockNumToId
  obtain ⟨d', hd', hfork'⟩ := hgrown.forkDb
  rw [final, hs.push h]
  refine
    { head := hs.quiet
      chain := hchain.grown hgrown hi.mem
      fresh := fun k hk => ?_
      linked := ?_
      first := fun _ => ?_
      erased := fun hlt => ?_ }
  · rw [hfork', Finmap.mem_insert] at hk
    rcases hk with rfl | hk
    · exact le_refl _
    · rw [← Finmap.lookup_isSome, hs.forkDb] at hk
      split_ifs at hk with h₁ h₂
      · exact h₁.le
      · exact h₂.le.trans (Nat.le_succ n)
      · exact (h.fresh k (Finmap.lookup_isSome.1 hk)).trans (Nat.le_succ n)
  · refine ⟨_, by rw [hfork']; exact Finmap.lookup_insert _, ?_, rfl⟩
    rw [show Node.quiet.B.id (FullBlock.quiet n).toSignedBlockHeader = n + 1 from rfl, hs.data_eq,
      Option.some_inj] at hd'
    subst hd'
    have hlink := hs.canLink
    rw [BlockForkData.canLink, Bool.and_eq_true] at hlink ⊢
    exact ⟨hlink.1, rfl⟩
  · rw [hgrown.blockNumToId, hindex]
    by_cases hzero : n = 0
    · rw [hzero]
      exact Finmap.lookup_insert _
    · rw [Finmap.lookup_insert_of_ne]
      · exact h.first (Nat.pos_of_ne_zero hzero)
      · exact fun heq => hzero (Nat.succ_injective heq.symm)
  · exact erased_of_grown hgrown hlt (fun heq => hindex ▸ h.first heq) fun hlt' => by
      rw [hi.chain.blockIdToUndoState]
      exact h.erased hlt'

end QuietChain

/-- Popping down below a block without an undo state meets it. -/
theorem ChainInv.popCalled_missing {N : Node} {a x : BlockIdType} {path : List BlockIdType}
    {db : ChainDatabase} (h : ChainInv N db path) (hx : x ∈ path) (ha : a ∉ path)
    (hundo : x ∉ db.blockIdToUndoState) {fuel : Nat} (hle : path.length ≤ fuel) :
    ∃ s, PopCalled N a fuel db s ∧ s.headBlockId ∉ s.blockIdToUndoState := by
  induction path generalizing db fuel with
  | nil => cases hx
  | cons y path ih =>
    obtain ⟨rfl, -⟩ := h.rooted.cons_inv
    obtain ⟨fuel, rfl⟩ : ∃ m, fuel = m + 1 := Nat.exists_eq_add_of_le' (Nat.one_le_iff_ne_zero.2 fun hzero => by
      rw [hzero] at hle
      cases hle)
    have hne : db.headBlockId ≠ a := fun heq => ha (heq ▸ List.mem_cons_self)
    by_cases hhead : db.headBlockId ∈ db.blockIdToUndoState
    · obtain ⟨db', hrun, hp⟩ := h.popBlockM_ok hhead
      have hx' : x ∈ path := by
        rcases List.mem_cons.1 hx with rfl | hx
        · exact absurd hhead hundo
        · exact hx
      obtain ⟨s, hs, hmissing⟩ := ih (h.popped hp) hx' (fun hmem => ha (List.mem_cons_of_mem _ hmem))
        (hp.undoStates ▸ hundo) (Nat.le_of_succ_le_succ hle)
      exact ⟨s, .next hne hrun hs, hmissing⟩
    · exact ⟨db, .here hne, hhead⟩

/-! ## The genesis state -/

/-- The given number of delegates, stored one after the other. -/
structure ChainTables.Delegated (c : ChainTables) (last : Int) : Prop where
  statistics : c.statisticsEnabled = false
  ranked : Ranked c
  delegate : ∀ k a, c.accountIdToEntry.lookup k = some a → ∃ stats, a.Quiet stats
  address : 0 < last → c.accountAddressToId.lookup (Node.quiet.P.address 1) = some last
  keys : ∀ k : Int, k ∈ c.accountIdToEntry ↔ 0 < k ∧ k ≤ last

namespace ChainTables.Delegated

variable {c : ChainTables} {last : Int}

theorem empty : (ChainTables.empty false).Delegated 0 where
  statistics := rfl
  ranked := (AccountIndexed.empty (P := Node.quiet.P) false).ranked
  delegate k a ha := by
    rw [ChainTables.empty, Finmap.lookup_empty] at ha
    cases ha
  address hlt := absurd hlt (lt_irrefl _)
  keys k := by
    constructor
    · exact fun hmem => absurd hmem (Finmap.notMem_empty)
    · rintro ⟨hpos, hle⟩
      exact absurd (hpos.trans_le hle) (lt_irrefl _)

theorem store (h : c.Delegated last) (hlast : 0 ≤ last) :
    (AccountEntry.store Node.quiet.P c (last + 1)
      (GenesisDelegate.entry ⟨[], 1⟩ (last + 1) 1)).Delegated (last + 1) := by
  have hlookup : ∀ k, (AccountEntry.store Node.quiet.P c (last + 1)
      (GenesisDelegate.entry ⟨[], 1⟩ (last + 1) 1)).accountIdToEntry.lookup k =
        if k = last + 1 then some (GenesisDelegate.entry ⟨[], 1⟩ (last + 1) 1)
        else c.accountIdToEntry.lookup k :=
    Ranked.store_table c (last + 1) _
  refine ⟨?_, h.ranked.store rfl, fun k a ha => ?_, fun _ => Quiet.store_address rfl, fun k => ?_⟩
  · obtain ⟨x, hx⟩ := (accountHooks (P := Node.quiet.P)).only_store c (last + 1)
      (GenesisDelegate.entry ⟨[], 1⟩ (last + 1) 1)
    rw [hx]
    exact h.statistics
  · rw [hlookup] at ha
    split_ifs at ha with hk
    · rw [Option.some_inj] at ha
      rw [← ha]
      exact ⟨_, rfl, rfl, rfl, rfl, rfl, rfl⟩
    · exact h.delegate k a ha
  · rw [← Finmap.lookup_isSome, hlookup]
    split_ifs with hk
    · rw [hk]
      exact ⟨fun _ => ⟨by omega, le_refl _⟩, fun _ => rfl⟩
    · rw [Finmap.lookup_isSome, h.keys]
      have hne : (k : Int) ≠ last + 1 := hk
      omega

theorem replicate (m : Nat) {c : ChainTables} {last : Int} (h : c.Delegated last)
    (hlast : 0 ≤ last) :
    (genesisDelegates Node.quiet.P 1 c last (List.replicate m ⟨[], 1⟩)).1.Delegated (last + m) := by
  induction m generalizing c last with
  | zero => simpa [genesisDelegates] using h
  | succ m ih =>
    rw [List.replicate_succ, genesisDelegates]
    have hrest := ih (h.store hlast) (by omega)
    rw [Nat.cast_succ, add_comm (m : Int) 1, ← add_assoc]
    exact hrest

theorem accounts (h : c.Delegated last) (hle : (numDelegates : Int) ≤ last) : c.QuietAccounts where
  ranked := h.ranked
  delegate := h.delegate
  address := by
    have hpos : 0 < last := lt_of_lt_of_le (by decide) hle
    exact ⟨last, h.address hpos, (h.keys last).2 ⟨hpos, le_refl last⟩⟩
  many := by
    have hkeys : c.accountIdToEntry.keys = Finset.Icc 1 last := by
      ext k
      rw [Finmap.mem_keys, h.keys, Finset.mem_Icc]
      rfl
    rw [hkeys, Int.card_Icc]
    omega

end ChainTables.Delegated

/-- After its delegates, a genesis state without balances adds one asset and the properties. -/
theorem genesisTables_delegates (ds : List GenesisDelegate) : ∃ x properties,
    genesisTables Node.quiet.P ⟨1, ds, [], []⟩ false =
      { ChainTables.assets.set (genesisDelegates Node.quiet.P 1 (.empty false) 0 ds).1 x with
        propertyIdToEntry := properties } ∧
      properties.lookup .activeDelegateListId = some (.delegates
        (genesisDelegates Node.quiet.P 1 (.empty false) 0 ds).1.nextRoundActiveDelegates) := by
  unfold genesisTables
  dsimp only
  generalize genesisDelegates Node.quiet.P 1 (.empty false) 0 ds = r
  obtain ⟨x, hx⟩ := ChainTables.assetHooks.only_store r.1 0 (baseAsset 1 0)
  rw [List.foldl_nil, List.foldl_nil, genesisAssets, hx]
  refine ⟨x, _, rfl, ?_⟩
  refine (Finmap.lookup_insert_of_ne _ (by decide)).trans ?_
  exact (Finmap.lookup_insert_of_ne _ (by decide)).trans (Finmap.lookup_insert _)

theorem genesisTables_quiet {ds : List GenesisDelegate} {last : Int}
    (h : (genesisDelegates Node.quiet.P 1 (.empty false) 0 ds).1.Delegated last)
    (hle : (numDelegates : Int) ≤ last) :
    (genesisTables Node.quiet.P ⟨1, ds, [], []⟩ false).Quiet := by
  have haccounts := h.accounts hle
  have hbase := genesisTables_base (P := Node.quiet.P) ⟨1, ds, [], []⟩ false
  obtain ⟨x, properties, htables, hactive⟩ := genesisTables_delegates ds
  rw [htables] at hbase ⊢
  exact ⟨⟨ChainTables.Quiet.ranked_of_accounts haccounts.ranked rfl, haccounts.delegate,
    haccounts.address, haccounts.many⟩, ⟨_, hactive, haccounts.nextRound⟩,
    ⟨_, hbase, rfl, rfl⟩, h.statistics⟩

theorem initializeGenesis_quiet : ∃ db₀, initializeGenesis Node.quiet.P .quiet false = .ok db₀ ∧
    QuietChain db₀ 0 [] := by
  obtain ⟨db₀, h₀⟩ : ∃ db₀, initializeGenesis Node.quiet.P .quiet false = .ok db₀ := by
    unfold initializeGenesis
    rw [GenesisState.quiet, List.length_replicate]
    exact ⟨_, rfl⟩
  have hchain := initializeGenesis_chainInv (N := .quiet) h₀
  have htables : (genesisTables Node.quiet.P .quiet false).Quiet :=
    genesisTables_quiet (ChainTables.Delegated.empty.replicate numDelegates (le_refl 0))
      (by rw [zero_add])
  refine ⟨db₀, h₀, ?_⟩
  simp only [initializeGenesis, bind_eq_ok, ensure_eq_ok, pure_eq_ok, exists_const] at h₀
  obtain ⟨-, -, rfl⟩ := h₀
  generalize genesisTables Node.quiet.P .quiet false = c at hchain htables ⊢
  refine ⟨⟨htables, rfl, rfl, rfl⟩, hchain, fun k hk => ?_, ⟨_, rfl, rfl, rfl⟩,
    fun hlt => absurd hlt (Nat.lt_irrefl 0), fun hlt => absurd hlt (Nat.not_lt_zero _)⟩
  exact ((Finmap.mem_singleton _ _ _).1 hk).le

/-- Quiet blocks pushed one after the other. -/
theorem QuietChain.run {db₀ : ChainDatabase} (h₀ : QuietChain db₀ 0 []) (clock : TimePointSec) (m : Nat)
    (hm : m < delegatePayBlockNum) (hclock : blockIntervalSec * m ≤ clock) :
    ∃ db path, PushRun .quiet (fun _ _ _ => True) db₀ db ∧ QuietChain db m path := by
  induction m with
  | zero => exact ⟨db₀, [], .start, h₀⟩
  | succ m ih =>
    have hle : blockIntervalSec * m ≤ clock :=
      (Nat.mul_le_mul_left _ (Nat.le_succ m)).trans hclock
    obtain ⟨db, path, hrun, h⟩ := ih ((Nat.lt_succ_self m).trans hm) hle
    exact ⟨_, _, .push clock (.quiet m) hrun trivial, h.push ((Nat.lt_succ_self m).trans hm) hle⟩

/-- A block that follows the genesis block but has the next number is switched to over the first
block, which has no undo state. -/
theorem QuietChain.missing {path : List BlockIdType} (h : QuietChain db n path)
    (hn : maxUndoHistory < n) (clock : TimePointSec) : ∃ s,
      PushCalls .quiet clock (.quietFork n) db s .popBlock ∧
        s.headBlockId ∉ s.blockIdToUndoState := by
  obtain ⟨g, hg, hlinked, -, hvalid⟩ := h.chain.tree.genesis
  have hcan : g.canLink = true := by
    unfold BlockForkData.canLink BlockForkData.invalid
    rw [hlinked, hvalid]
    rfl
  obtain ⟨data, db', hrun, hi, hlink, hdb', hnumber⟩ :=
    h.placed (b := .quietFork n) rfl (Nat.succ_ne_zero n).symm hg hcan
  have hpos : 0 < n := (Nat.zero_le _).trans_lt hn
  have hchain : ChainInv .quiet db' path := by
    refine h.chain.indexed hi rfl
      (h.places (b := .quietFork n) rfl).unknown fun hle => ?_
    exact absurd hle (Nat.not_le.2 (Nat.succ_lt_succ hpos))
  obtain ⟨l, q, hpath, -⟩ := (h.chain.index 1 1).1 (h.first hpos)
  have hmem : (1 : BlockIdType) ∈ path := by
    rw [hpath]
    exact List.mem_append_right _ List.mem_cons_self
  have hmissing : (1 : BlockIdType) ∉ db'.blockIdToUndoState := by
    rw [hi.chain.blockIdToUndoState]
    exact h.erased hn
  have hzero : (0 : BlockIdType) ∉ path := fun hmem => (h.chain.rooted.mem_blocks 0 hmem).1 rfl
  have hdepth := hchain.tree.path_length_le hchain.rooted
  obtain ⟨s, hpop, hs⟩ := hchain.popCalled_missing hmem hzero hmissing
    (hdepth.le.trans (Nat.le_succ _))
  have hhead : db'.headBlockId = n := hi.chain.headBlockId.trans h.head.id
  have hblock : db'.blockIdToFullBlock.lookup (n + 1) =
      some (.quietFork n) := hi.mem
  have hcalls : ForkCalls .quiet clock (n + 1) ((db'.forkNumberDb.lookup (n + 1)).getD []) db' s
      .popBlock := by
    rw [hnumber]
    refine .inside ?_ hlink (.pop ?_ (forkHistory_root hblock rfl _) hpop)
    · rw [hdb', withBlock_fork, if_pos rfl]
    · rw [hhead]
      exact Nat.succ_ne_self n
  refine ⟨s, .search (h.places rfl) hrun hlink hblock ?_ (.here hcalls), hs⟩
  rw [h.head.blockNum]
  exact Nat.lt_succ_self n

/-- After 361 blocks the undo state of the first one is erased, and a block numbered 362 that follows
the genesis block has the chain popped down to it. -/
theorem old_fork_pops_without_undo : ∃ db₀ db s,
    initializeGenesis Node.quiet.P .quiet false = .ok db₀ ∧ Node.quiet.config.minUndoBlock = 0 ∧
      PushRun .quiet (fun _ _ _ => True) db₀ db ∧
      PushCalls .quiet 5000 (.quietFork 361) db s .popBlock ∧
      s.headBlockId ∉ s.blockIdToUndoState := by
  obtain ⟨db₀, h₀, hquiet⟩ := initializeGenesis_quiet
  obtain ⟨db, path, hrun, h⟩ := hquiet.run 5000 361 (by decide) (by decide)
  obtain ⟨s, hs, hmissing⟩ := h.missing (by decide) 5000
  exact ⟨db₀, db, s, h₀, rfl, hrun, hs, hmissing⟩

end Achain
