import Achain.ExtendChain
import Achain.Lib.Replay

/-!
# Writing and undoing a pending state, table by table

`apply_changes` leaves every table reading as the pending state did, and the undo state reads, over
the pending state, as the tables before it. So writing a pending state and then its undo state
leaves each table as it was, whatever its indexes do.
-/

namespace Achain

open Table Result

variable {P : Primitives}

/-! ## The two replays -/

section Replay

variable {σ τ K V : Type} {remove : σ → K → σ} {store : σ → K → V → σ} {part : Part σ τ}

theorem applyEntries_only (hremove : ∀ db k, part.Only db (remove db k))
    (hstore : ∀ db k v, part.Only db (store db k v)) (stored : Map K V) (removed : List K) (db : σ) :
    part.Only db (applyEntries P remove store stored removed db) := by
  refine (Part.Only.foldl hremove _ db).trans (Part.Only.foldl (fun db e => ?_) _ _)
  exact hstore db e.1 e.2

theorem populateUndoState_only (hremove : ∀ db k, part.Only db (remove db k))
    (hstore : ∀ db k v, part.Only db (store db k v)) (prev : K → Option V) (stored : Map K V)
    (removed : List K) (db : σ) :
    part.Only db (populateUndoState P prev remove store stored removed db) := by
  refine (Part.Only.foldl (fun db k => ?_) _ db).trans (Part.Only.foldl (fun db e => ?_) _ _)
  · cases prev k with
    | some v => exact hstore db k v
    | none => exact .refl db
  · cases prev e.1 with
    | some v => exact hstore db e.1 v
    | none => exact hremove db e.1

variable [DecidableEq K] {read : σ → K → Option V} {prev : K → Option V} {o : Overlay K V} {db : σ}

/-- Writing stored entries and removed keys leaves the table reading as the two did over it. -/
theorem applyEntries_lookup (h : Hooks read remove store) (stored : Map K V) (removed : List K)
    (k : K) : read (applyEntries P remove store stored removed db) k =
      match stored.lookup k with
      | some v => some v
      | none => if k ∈ removed then none else read db k := by
  have hperm : (P.order.order (mapItems stored)).Perm (stored.entries.map fun e => (e.1, e.2)) :=
    P.order.perm _
  rw [applyEntries, h.read_stores hperm, h.read_removes]
  cases stored.lookup k with
  | some v => rfl
  | none => simp only [(P.order.perm removed).mem_iff]

theorem applyEntries_read (h : Hooks read remove store) (k : K) :
    read (applyEntries P remove store o.stored o.removed db) k = o.lookup (read db) k :=
  applyEntries_lookup h o.stored o.removed k

/-- The undo of an overlay reads as what is below the overlay. -/
theorem populateUndoState_read (h : Hooks read remove store)
    (hdb : ∀ k, read db k = o.lookup prev k) (k : K) :
    read (populateUndoState P prev remove store o.stored o.removed db) k = prev k := by
  have hnodup : (P.order.order o.removed).Nodup := (P.order.perm _).nodup_iff.2 o.removed_nodup
  have hempty : ∀ k ∈ P.order.order o.removed, read db k = none := by
    intro k hk
    rw [hdb, Overlay.lookup_of_removed ((P.order.perm _).mem_iff.1 hk)]
  have hkeys : k ∈ (P.order.order (mapItems o.stored)).map Prod.fst ↔ k ∈ o.stored := by
    rw [((P.order.perm (mapItems o.stored)).map Prod.fst).mem_iff, mapItems, List.map_map]
    exact AList.mem_keys.symm
  rw [populateUndoState, h.read_resets prev, h.read_restores prev _ _ k _ db hnodup hempty, hdb]
  · simp only [hkeys, (P.order.perm o.removed).mem_iff]
    by_cases hstored : k ∈ o.stored
    · rw [if_pos hstored]
    · rw [if_neg hstored]
      by_cases hrem : k ∈ o.removed
      · rw [if_pos hrem]
      · rw [if_neg hrem, Overlay.lookup_of_notMem]
        rw [Overlay.mem_keys, not_or]
        exact ⟨hstored, hrem⟩
  · intro db e v hv
    simp only [hv]
  · intro db e hnone
    simp only [hnone]
  · intro db k v hv
    simp only [hv]
  · intro db k hnone
    simp only [hnone]

end Replay

/-! ## The hooks of the accounts -/

section Accounts

variable {σ τ : Type} [AccountDbInterface σ] {part : Part σ τ}

open AccountDbInterface

/-- The part of a database the indexes of the accounts are in. -/
structure AccountIndexes (part : Part σ τ) : Prop where
  insertName : ∀ db name id, part.Only db (accountInsertIntoNameMap db name id)
  insertAddress : ∀ db addr id, part.Only db (accountInsertIntoAddressMap db addr id)
  insertVote : ∀ db vote, part.Only db (accountInsertIntoVoteSet db vote)
  eraseName : ∀ db name, part.Only db (accountEraseFromNameMap db name)
  eraseAddress : ∀ db addr, part.Only db (accountEraseFromAddressMap db addr)
  eraseVote : ∀ db vote, part.Only db (accountEraseFromVoteSet db vote)

namespace AccountIndexes

variable (h : AccountIndexes part)

include h

theorem eraseKeys (keys : List PublicKeyType) (db : σ) :
    part.Only db (eraseKeyAddresses P db keys) :=
  .foldl (fun db key => h.eraseAddress db (P.address key)) keys db

theorem insertKeys (keys : List PublicKeyType) (id : AccountIdType) (db : σ) :
    part.Only db (insertKeyAddresses P db keys id) :=
  .foldl (fun db key => .ite (h.insertAddress db (P.address key) id) (.refl db)) keys db

theorem storeErase (db : σ) (prev entry : AccountEntry) :
    part.Only db (AccountEntry.storeErase P db prev entry) := by
  have hname : ∀ db, part.Only db
      (if prev.name ≠ entry.name then accountEraseFromNameMap db prev.name else db) :=
    fun db => .ite (h.eraseName db _) (.refl db)
  have howner : ∀ db, part.Only db
      (if P.address prev.ownerKey ≠ P.address entry.ownerKey then
        accountEraseFromAddressMap db (P.address prev.ownerKey) else db) :=
    fun db => .ite (h.eraseAddress db _) (.refl db)
  have hactive : ∀ db, part.Only db
      (if prev.activeKey ≠ entry.activeKey then
        eraseKeyAddresses P db prev.activeKeyHistory.keys else db) :=
    fun db => .ite (h.eraseKeys _ db) (.refl db)
  unfold AccountEntry.storeErase
  refine ((hname db).trans ((howner _).trans (hactive _))).trans ?_
  cases prev.delegateInfo with
  | none => exact .refl _
  | some d =>
    cases entry.delegateInfo with
    | none => exact (h.eraseKeys _ _).trans (.ite (h.eraseVote _ _) (.refl _))
    | some e =>
      exact (Part.Only.ite (h.eraseKeys _ _) (.refl _)).trans (.ite (h.eraseVote _ _) (.refl _))

theorem storeInsert (db : σ) (id : AccountIdType) (entry : AccountEntry) :
    part.Only (accountInsertIntoIdMap db id entry) (AccountEntry.storeInsert P db id entry) := by
  have hindexes : ∀ db, part.Only db (insertKeyAddresses P (accountInsertIntoAddressMap
      (accountInsertIntoNameMap db entry.name id) (P.address entry.ownerKey) id)
      entry.activeKeyHistory.keys id) := fun db =>
    ((h.insertName db _ id).trans (h.insertAddress _ _ id)).trans (h.insertKeys _ id _)
  unfold AccountEntry.storeInsert
  cases entry.delegateInfo with
  | none => exact hindexes _
  | some d =>
    exact (hindexes _).trans ((h.insertKeys _ id _).trans (.ite (h.insertVote _ _) (.refl _)))

/-- Storing an account inserts it into the table and changes the indexes before and after. -/
theorem store (db : σ) (id : AccountIdType) (entry : AccountEntry) :
    ∃ db₁, part.Only db db₁ ∧
      part.Only (accountInsertIntoIdMap db₁ id entry) (AccountEntry.store P db id entry) := by
  unfold AccountEntry.store
  refine ⟨_, ?_, h.storeInsert _ id entry⟩
  cases accountLookupById db id with
  | none => exact .refl db
  | some prev => exact h.storeErase db prev entry

theorem remove (db : σ) (id : AccountIdType) (prev : AccountEntry)
    (hprev : accountLookupById db id = some prev) :
    part.Only (accountEraseFromIdMap db id) (AccountEntry.remove P db id) := by
  have hindexes : ∀ db, part.Only db (eraseKeyAddresses P (accountEraseFromAddressMap
      (accountEraseFromNameMap db prev.name) (P.address prev.ownerKey))
      prev.activeKeyHistory.keys) := fun db =>
    ((h.eraseName db _).trans (h.eraseAddress _ _)).trans (h.eraseKeys _ _)
  unfold AccountEntry.remove
  rw [hprev]
  cases hinfo : prev.delegateInfo with
  | none =>
    simp only [hinfo]
    exact hindexes _
  | some d =>
    simp only [hinfo]
    exact (hindexes _).trans ((h.eraseKeys _ _).trans (.ite (h.eraseVote _ _) (.refl _)))

end AccountIndexes

end Accounts

/-! ## The tables of the chain -/

namespace ChainTables

def properties : Part ChainTables (Tab PropertyIdType PropertyValue) where
  get c := c.propertyIdToEntry
  set c x := { c with propertyIdToEntry := x }
  set_get _ := rfl
  set_set _ _ _ := rfl

def accountIndexes :
    Part ChainTables (Tab Str AccountIdType × Tab Address AccountIdType × Finset VoteDel) where
  get c := (c.accountNameToId, c.accountAddressToId, c.delegateVotes)
  set c x := { c with accountNameToId := x.1, accountAddressToId := x.2.1, delegateVotes := x.2.2 }
  set_get _ := rfl
  set_set _ _ _ := rfl

def accounts : Part ChainTables (Tab AccountIdType AccountEntry × Tab Str AccountIdType ×
    Tab Address AccountIdType × Finset VoteDel) where
  get c := (c.accountIdToEntry, c.accountNameToId, c.accountAddressToId, c.delegateVotes)
  set c x := { c with
    accountIdToEntry := x.1
    accountNameToId := x.2.1
    accountAddressToId := x.2.2.1
    delegateVotes := x.2.2.2 }
  set_get _ := rfl
  set_set _ _ _ := rfl

def assets : Part ChainTables (Tab AssetIdType AssetEntry × Tab Str AssetIdType) where
  get c := (c.assetIdToEntry, c.assetSymbolToId)
  set c x := { c with assetIdToEntry := x.1, assetSymbolToId := x.2 }
  set_get _ := rfl
  set_set _ _ _ := rfl

def slates : Part ChainTables (Tab SlateIdType SlateEntry) where
  get c := c.slateIdToEntry
  set c x := { c with slateIdToEntry := x }
  set_get _ := rfl
  set_set _ _ _ := rfl

def balances : Part ChainTables (Tab BalanceIdType BalanceEntry) where
  get c := c.balanceIdToEntry
  set c x := { c with balanceIdToEntry := x }
  set_get _ := rfl
  set_set _ _ _ := rfl

def transactions :
    Part ChainTables (Tab TransactionIdType TransactionEntry × Finset UniqueTransactionKey) where
  get c := (c.transactionIdToEntry, c.uniqueTransactions)
  set c x := { c with transactionIdToEntry := x.1, uniqueTransactions := x.2 }
  set_get _ := rfl
  set_set _ _ _ := rfl

def slots : Part ChainTables (Tab SlotIndex SlotEntry × Tab TimePointSec AccountIdType) where
  get c := (c.slotIndexToEntry, c.slotTimestampToDelegate)
  set c x := { c with slotIndexToEntry := x.1, slotTimestampToDelegate := x.2 }
  set_get _ := rfl
  set_set _ _ _ := rfl

def contracts : Part ChainTables (Tab ContractIdType ContractEntry × Tab Str ContractIdType) where
  get c := (c.contractIdToEntry, c.contractNameToId)
  set c x := { c with contractIdToEntry := x.1, contractNameToId := x.2 }
  set_get _ := rfl
  set_set _ _ _ := rfl

def storages : Part ChainTables (Tab ContractIdType ContractStorageEntry) where
  get c := c.contractIdToStorage
  set c x := { c with contractIdToStorage := x }
  set_get _ := rfl
  set_set _ _ _ := rfl

def resultIds : Part ChainTables (Tab TransactionIdType TransactionIdType) where
  get c := c.requestToResultId
  set c x := { c with requestToResultId := x }
  set_get _ := rfl
  set_set _ _ _ := rfl

def requestIds : Part ChainTables (Tab TransactionIdType TransactionIdType) where
  get c := c.resultToRequestId
  set c x := { c with resultToRequestId := x }
  set_get _ := rfl
  set_set _ _ _ := rfl

def contractIds : Part ChainTables (Tab TransactionIdType ContractIdType) where
  get c := c.trxToContractId
  set c x := { c with trxToContractId := x }
  set_get _ := rfl
  set_set _ _ _ := rfl

def trxIds : Part ChainTables (Tab ContractIdType TransactionIdType) where
  get c := c.contractToTrxId
  set c x := { c with contractToTrxId := x }
  set_get _ := rfl
  set_set _ _ _ := rfl

theorem accountIndexes_indexes : AccountIndexes accountIndexes where
  insertName _ _ _ := ⟨(_, _, _), rfl⟩
  insertAddress _ _ _ := ⟨(_, _, _), rfl⟩
  insertVote _ _ := ⟨(_, _, _), rfl⟩
  eraseName _ _ := ⟨(_, _, _), rfl⟩
  eraseAddress _ _ := ⟨(_, _, _), rfl⟩
  eraseVote _ _ := ⟨(_, _, _), rfl⟩

theorem propertyHooks : TableHooks properties (fun c k => c.propertyIdToEntry.lookup k)
    PropertyEntry.remove PropertyEntry.store := by
  refine .ofTab (fun c id => ?_) fun _ _ _ => ⟨⟨_, rfl⟩, rfl⟩
  unfold PropertyEntry.remove
  split
  · exact .inr ⟨⟨_, rfl⟩, rfl⟩
  · exact .inl ⟨‹_›, rfl⟩

theorem accountHooks : TableHooks accounts (fun c k => c.accountIdToEntry.lookup k)
    (AccountEntry.remove P) (AccountEntry.store P) := by
  refine .ofTab (fun c id => ?_) fun c id e => ?_
  · cases hprev : c.accountIdToEntry.lookup id with
    | none =>
      have hlookup : AccountDbInterface.accountLookupById c id = none := hprev
      exact .inl ⟨rfl, by simp only [AccountEntry.remove, hlookup]⟩
    | some prev =>
      obtain ⟨x, hx⟩ := accountIndexes_indexes.remove (P := P) c id prev hprev
      exact .inr ⟨⟨(_, x), hx⟩, by rw [hx]; rfl⟩
  · obtain ⟨c₁, ⟨x, rfl⟩, ⟨y, hy⟩⟩ := accountIndexes_indexes.store (P := P) c id e
    exact ⟨⟨(_, y), hy⟩, by rw [hy]; rfl⟩

theorem assetHooks : TableHooks assets (fun c k => c.assetIdToEntry.lookup k) AssetEntry.remove
    AssetEntry.store := by
  refine .ofTab (fun c id => ?_) fun c id e => ?_
  · unfold AssetEntry.remove
    split
    · exact .inr ⟨⟨(_, _), rfl⟩, rfl⟩
    · exact .inl ⟨‹_›, rfl⟩
  · unfold AssetEntry.store
    split
    · split_ifs <;> exact ⟨⟨(_, _), rfl⟩, rfl⟩
    · exact ⟨⟨(_, _), rfl⟩, rfl⟩

theorem slateHooks : TableHooks slates (fun c k => c.slateIdToEntry.lookup k) SlateEntry.remove
    SlateEntry.store := by
  refine .ofTab (fun c id => ?_) fun _ _ _ => ⟨⟨_, rfl⟩, rfl⟩
  unfold SlateEntry.remove
  split
  · exact .inr ⟨⟨_, rfl⟩, rfl⟩
  · exact .inl ⟨‹_›, rfl⟩

theorem balanceHooks : TableHooks balances (fun c k => c.balanceIdToEntry.lookup k)
    BalanceEntry.remove BalanceEntry.store := by
  refine .ofTab (fun c id => ?_) fun _ _ _ => ⟨⟨_, rfl⟩, rfl⟩
  unfold BalanceEntry.remove
  split
  · exact .inr ⟨⟨_, rfl⟩, rfl⟩
  · exact .inl ⟨‹_›, rfl⟩

theorem transactionHooks : TableHooks transactions (fun c k => c.transactionIdToEntry.lookup k)
    (TransactionEntry.remove P) (TransactionEntry.store P) := by
  refine .ofTab (fun c id => ?_) fun _ _ _ => ⟨⟨(_, _), rfl⟩, rfl⟩
  unfold TransactionEntry.remove
  split
  · exact .inr ⟨⟨(_, _), rfl⟩, rfl⟩
  · exact .inl ⟨‹_›, rfl⟩

theorem contractHooks : TableHooks contracts (fun c k => c.contractIdToEntry.lookup k)
    ContractEntry.remove ContractEntry.store := by
  refine .ofTab (fun c id => ?_) fun c id e => ?_
  · unfold ContractEntry.remove
    split
    · exact .inr ⟨⟨(_, _), rfl⟩, rfl⟩
    · exact .inl ⟨‹_›, rfl⟩
  · unfold ContractEntry.store
    split_ifs <;> exact ⟨⟨(_, _), rfl⟩, rfl⟩

theorem storageHooks : TableHooks storages (fun c k => c.contractIdToStorage.lookup k)
    ContractStorageEntry.remove ContractStorageEntry.store := by
  refine .ofTab (fun c id => ?_) fun _ _ _ => ⟨⟨_, rfl⟩, rfl⟩
  unfold ContractStorageEntry.remove
  split
  · exact .inr ⟨⟨_, rfl⟩, rfl⟩
  · exact .inl ⟨‹_›, rfl⟩

section IdMaps

open ContractDbInterface

theorem resultIdHooks : TableHooks resultIds (fun c k => c.requestToResultId.lookup k)
    contractEraseResultidByReqestid contractStoreResultidByReqestid :=
  .ofTab (fun _ _ => .inr ⟨⟨_, rfl⟩, rfl⟩) fun _ _ _ => ⟨⟨_, rfl⟩, rfl⟩

theorem requestIdHooks : TableHooks requestIds (fun c k => c.resultToRequestId.lookup k)
    contractEraseRequestidByResultid contractStoreRequestidByResultid :=
  .ofTab (fun _ _ => .inr ⟨⟨_, rfl⟩, rfl⟩) fun _ _ _ => ⟨⟨_, rfl⟩, rfl⟩

theorem contractIdHooks : TableHooks contractIds (fun c k => c.trxToContractId.lookup k)
    contractEraseContractidByTrxid contractStoreContractidByTrxid :=
  .ofTab (fun _ _ => .inr ⟨⟨_, rfl⟩, rfl⟩) fun _ _ _ => ⟨⟨_, rfl⟩, rfl⟩

theorem trxIdHooks : TableHooks trxIds (fun c k => c.contractToTrxId.lookup k)
    contractEraseTrxidByContractId contractStoreTrxidByContractid :=
  .ofTab (fun _ _ => .inr ⟨⟨_, rfl⟩, rfl⟩) fun _ _ _ => ⟨⟨_, rfl⟩, rfl⟩

end IdMaps

/-- The slots change only with statistics on, and then as the other tables do. -/
theorem slot_only (c : ChainTables) (index : SlotIndex) (e : SlotEntry) :
    slots.Only c (SlotEntry.remove c index) ∧ slots.Only c (SlotEntry.store c index e) := by
  unfold SlotEntry.remove SlotEntry.store
  constructor
  · split_ifs
    · exact .refl c
    · split
      · exact ⟨(_, _), rfl⟩
      · exact .refl c
  · split_ifs
    · exact .refl c
    · split
      · split_ifs <;> exact ⟨(_, _), rfl⟩
      · exact ⟨(_, _), rfl⟩

section Written

variable {τ K V : Type}

/-- A part after the write of its table, through hooks that saw the part as it was. -/
def Wrote (P : Primitives) (part : Part ChainTables τ) (remove : ChainTables → K → ChainTables)
    (store : ChainTables → K → V → ChainTables) (stored : Map K V) (removed : List K)
    (c c' : ChainTables) : Prop :=
  ∃ c₀, part.get c₀ = part.get c ∧ c₀.statisticsEnabled = c.statisticsEnabled ∧
    part.get c' = part.get (applyEntries P remove store stored removed c₀)

theorem Wrote.of_eq {part : Part ChainTables τ} {remove : ChainTables → K → ChainTables}
    {store : ChainTables → K → V → ChainTables} {stored : Map K V} {removed : List K}
    {c c' c₀ c₁ : ChainTables} (h : applyEntries P remove store stored removed c₀ = c₁)
    (hc : part.get c₀ = part.get c) (hs : c₀.statisticsEnabled = c.statisticsEnabled)
    (hc' : part.get c' = part.get c₁) : Wrote P part remove store stored removed c c' :=
  ⟨c₀, hc, hs, hc'.trans (congrArg part.get h.symm)⟩

open ContractDbInterface in
/-- The tables after the write of a pending state. -/
structure Written (P : Primitives) (p : PendingChainState) (c c' : ChainTables) : Prop where
  property : Wrote P properties PropertyEntry.remove PropertyEntry.store
    p.ledger.property.stored p.ledger.property.removed c c'
  account : Wrote P accounts (AccountEntry.remove P) (AccountEntry.store P)
    p.ledger.account.stored p.ledger.account.removed c c'
  asset : Wrote P assets AssetEntry.remove AssetEntry.store
    p.ledger.asset.stored p.ledger.asset.removed c c'
  slate : Wrote P slates SlateEntry.remove SlateEntry.store
    p.ledger.slate.stored p.ledger.slate.removed c c'
  balance : Wrote P balances BalanceEntry.remove BalanceEntry.store
    p.ledger.balance.stored p.ledger.balance.removed c c'
  slot : Wrote P slots SlotEntry.remove SlotEntry.store
    p.ledger.slot.stored p.ledger.slot.removed c c'
  contract : Wrote P contracts ContractEntry.remove ContractEntry.store
    p.ledger.contract.stored p.ledger.contract.removed c c'
  storage : Wrote P storages ContractStorageEntry.remove ContractStorageEntry.store
    p.ledger.contractIdToStorage p.ledger.contract.removed c c'
  resultId : Wrote P resultIds contractEraseResultidByReqestid contractStoreResultidByReqestid
    p.ledger.requestIdToResultId.stored p.ledger.requestIdToResultId.removed c c'
  requestId : Wrote P requestIds contractEraseRequestidByResultid contractStoreRequestidByResultid
    p.ledger.resultIdToRequestId.stored p.ledger.resultIdToRequestId.removed c c'
  contractId : Wrote P contractIds contractEraseContractidByTrxid contractStoreContractidByTrxid
    p.ledger.trxToContractId.stored p.ledger.trxToContractId.removed c c'
  trxId : Wrote P trxIds contractEraseTrxidByContractId contractStoreTrxidByContractid
    p.ledger.contractToTrxId.stored p.ledger.contractToTrxId.removed c c'
  transaction : Wrote P transactions (TransactionEntry.remove P) (TransactionEntry.store P)
    p.transactions.table.stored p.transactions.table.removed c c'
  statisticsEnabled : c'.statisticsEnabled = c.statisticsEnabled

/-- The write of a table changes only its part. -/
theorem writes_only [DecidableEq K] {part : Part ChainTables τ} {read : ChainTables → K → Option V}
    {remove : ChainTables → K → ChainTables} {store : ChainTables → K → V → ChainTables}
    (h : TableHooks part read remove store) (stored : Map K V) (removed : List K)
    (c : ChainTables) : part.Only c (applyEntries P remove store stored removed c) :=
  applyEntries_only h.only_remove h.only_store stored removed c

theorem written (c : ChainTables) (p : PendingChainState) :
    Written P p c (c.applyChanges P p) := by
  unfold applyChanges PendingTransactions.applyChanges Ledger.applyChanges
  dsimp only
  obtain ⟨x₁, h₁⟩ := writes_only (P := P) propertyHooks p.ledger.property.stored
    p.ledger.property.removed c
  rw [h₁]
  obtain ⟨x₂, h₂⟩ := writes_only (P := P) (accountHooks (P := P)) p.ledger.account.stored
    p.ledger.account.removed _
  rw [h₂]
  obtain ⟨x₃, h₃⟩ := writes_only (P := P) assetHooks p.ledger.asset.stored
    p.ledger.asset.removed _
  rw [h₃]
  obtain ⟨x₄, h₄⟩ := writes_only (P := P) slateHooks p.ledger.slate.stored
    p.ledger.slate.removed _
  rw [h₄]
  obtain ⟨x₅, h₅⟩ := writes_only (P := P) balanceHooks p.ledger.balance.stored
    p.ledger.balance.removed _
  rw [h₅]
  obtain ⟨x₆, h₆⟩ := applyEntries_only (P := P) (fun c k => (slot_only c k ⟨k, none⟩).1)
    (fun c k e => (slot_only c k e).2) p.ledger.slot.stored p.ledger.slot.removed _
  rw [h₆]
  obtain ⟨x₇, h₇⟩ := writes_only (P := P) contractHooks p.ledger.contract.stored
    p.ledger.contract.removed _
  rw [h₇]
  obtain ⟨x₈, h₈⟩ := writes_only (P := P) storageHooks p.ledger.contractIdToStorage
    p.ledger.contract.removed _
  rw [h₈]
  obtain ⟨x₉, h₉⟩ := writes_only (P := P) resultIdHooks p.ledger.requestIdToResultId.stored
    p.ledger.requestIdToResultId.removed _
  rw [h₉]
  obtain ⟨x₁₀, h₁₀⟩ := writes_only (P := P) requestIdHooks p.ledger.resultIdToRequestId.stored
    p.ledger.resultIdToRequestId.removed _
  rw [h₁₀]
  obtain ⟨x₁₁, h₁₁⟩ := writes_only (P := P) contractIdHooks p.ledger.trxToContractId.stored
    p.ledger.trxToContractId.removed _
  rw [h₁₁]
  obtain ⟨x₁₂, h₁₂⟩ := writes_only (P := P) trxIdHooks p.ledger.contractToTrxId.stored
    p.ledger.contractToTrxId.removed _
  rw [h₁₂]
  obtain ⟨x₁₃, h₁₃⟩ := writes_only (P := P) (transactionHooks (P := P))
    p.transactions.table.stored p.transactions.table.removed _
  rw [h₁₃]
  exact {
    property := .of_eq h₁ rfl rfl rfl
    account := .of_eq h₂ rfl rfl rfl
    asset := .of_eq h₃ rfl rfl rfl
    slate := .of_eq h₄ rfl rfl rfl
    balance := .of_eq h₅ rfl rfl rfl
    slot := .of_eq h₆ rfl rfl rfl
    contract := .of_eq h₇ rfl rfl rfl
    storage := .of_eq h₈ rfl rfl rfl
    resultId := .of_eq h₉ rfl rfl rfl
    requestId := .of_eq h₁₀ rfl rfl rfl
    contractId := .of_eq h₁₁ rfl rfl rfl
    trxId := .of_eq h₁₂ rfl rfl rfl
    transaction := .of_eq h₁₃ rfl rfl rfl
    statisticsEnabled := rfl }

/-- A table reads after the write as the overlay did over it before. -/
theorem Wrote.read [DecidableEq K] {part : Part ChainTables τ} {read : ChainTables → K → Option V}
    {remove : ChainTables → K → ChainTables} {store : ChainTables → K → V → ChainTables}
    {o : Overlay K V} {c c' : ChainTables}
    (w : Wrote P part remove store o.stored o.removed c c')
    (h : TableHooks part read remove store)
    (hread : ∀ c c', part.get c = part.get c' → read c = read c') (k : K) :
    read c' k = o.lookup (read c) k := by
  obtain ⟨c₀, hc, -, hc'⟩ := w
  rw [hread c' _ hc', ← hread c₀ c hc]
  exact applyEntries_read h.toHooks k

end Written

variable {p : PendingChainState} {c c' : ChainTables}

namespace Written

variable (w : Written P p c c')

include w

theorem lookupProperty (k : PropertyIdType) : c'.propertyIdToEntry.lookup k =
    p.ledger.property.lookup c.propertyIdToEntry.lookup k :=
  w.property.read propertyHooks (fun _ _ h => funext fun k => congrArg (Finmap.lookup k) h) k

theorem lookupAccount (k : AccountIdType) : c'.accountIdToEntry.lookup k =
    p.ledger.account.lookup c.accountIdToEntry.lookup k :=
  w.account.read accountHooks (fun _ _ h => funext fun k => congrArg (Finmap.lookup k ·.1) h) k

theorem lookupAsset (k : AssetIdType) : c'.assetIdToEntry.lookup k =
    p.ledger.asset.lookup c.assetIdToEntry.lookup k :=
  w.asset.read assetHooks (fun _ _ h => funext fun k => congrArg (Finmap.lookup k ·.1) h) k

theorem lookupBalance (k : BalanceIdType) : c'.balanceIdToEntry.lookup k =
    p.ledger.balance.lookup c.balanceIdToEntry.lookup k :=
  w.balance.read balanceHooks (fun _ _ h => funext fun k => congrArg (Finmap.lookup k) h) k

theorem lookupContract (k : ContractIdType) : c'.contractIdToEntry.lookup k =
    p.ledger.contract.lookup c.contractIdToEntry.lookup k :=
  w.contract.read contractHooks (fun _ _ h => funext fun k => congrArg (Finmap.lookup k ·.1) h) k

theorem lookupTransaction (k : TransactionIdType) : c'.transactionIdToEntry.lookup k =
    p.transactions.table.lookup c.transactionIdToEntry.lookup k :=
  w.transaction.read transactionHooks
    (fun _ _ h => funext fun k => congrArg (Finmap.lookup k ·.1) h) k

theorem lookupContractId (k : TransactionIdType) : c'.trxToContractId.lookup k =
    p.ledger.trxToContractId.lookup c.trxToContractId.lookup k :=
  w.contractId.read contractIdHooks (fun _ _ h => funext fun k => congrArg (Finmap.lookup k) h) k

theorem lookupTrxId (k : ContractIdType) : c'.contractToTrxId.lookup k =
    p.ledger.contractToTrxId.lookup c.contractToTrxId.lookup k :=
  w.trxId.read trxIdHooks (fun _ _ h => funext fun k => congrArg (Finmap.lookup k) h) k

end Written

end ChainTables

/-! ## The undo state -/

namespace Ledger

def properties : Part Ledger (Overlay PropertyIdType PropertyValue) where
  get l := l.property
  set l x := { l with property := x }
  set_get _ := rfl
  set_set _ _ _ := rfl

def accountIndexes : Part Ledger (Map Str AccountIdType × Map Address AccountIdType) where
  get l := (l.accountNameToId, l.accountAddressToId)
  set l x := { l with accountNameToId := x.1, accountAddressToId := x.2 }
  set_get _ := rfl
  set_set _ _ _ := rfl

def accounts : Part Ledger (Overlay AccountIdType AccountEntry × Map Str AccountIdType ×
    Map Address AccountIdType) where
  get l := (l.account, l.accountNameToId, l.accountAddressToId)
  set l x := { l with account := x.1, accountNameToId := x.2.1, accountAddressToId := x.2.2 }
  set_get _ := rfl
  set_set _ _ _ := rfl

def assets : Part Ledger (Overlay AssetIdType AssetEntry × Map Str AssetIdType) where
  get l := (l.asset, l.assetSymbolToId)
  set l x := { l with asset := x.1, assetSymbolToId := x.2 }
  set_get _ := rfl
  set_set _ _ _ := rfl

def slates : Part Ledger (Overlay SlateIdType SlateEntry) where
  get l := l.slate
  set l x := { l with slate := x }
  set_get _ := rfl
  set_set _ _ _ := rfl

def balances : Part Ledger (Overlay BalanceIdType BalanceEntry) where
  get l := l.balance
  set l x := { l with balance := x }
  set_get _ := rfl
  set_set _ _ _ := rfl

def slots : Part Ledger (Overlay SlotIndex SlotEntry × Map TimePointSec AccountIdType) where
  get l := (l.slot, l.slotTimestampToDelegate)
  set l x := { l with slot := x.1, slotTimestampToDelegate := x.2 }
  set_get _ := rfl
  set_set _ _ _ := rfl

def contracts : Part Ledger (Overlay ContractIdType ContractEntry × Map Str ContractIdType) where
  get l := (l.contract, l.contractNameToId)
  set l x := { l with contract := x.1, contractNameToId := x.2 }
  set_get _ := rfl
  set_set _ _ _ := rfl

def storages : Part Ledger (Map ContractIdType ContractStorageEntry) where
  get l := l.contractIdToStorage
  set l x := { l with contractIdToStorage := x }
  set_get _ := rfl
  set_set _ _ _ := rfl

def resultIds : Part Ledger (Overlay TransactionIdType TransactionIdType) where
  get l := l.requestIdToResultId
  set l x := { l with requestIdToResultId := x }
  set_get _ := rfl
  set_set _ _ _ := rfl

def requestIds : Part Ledger (Overlay TransactionIdType TransactionIdType) where
  get l := l.resultIdToRequestId
  set l x := { l with resultIdToRequestId := x }
  set_get _ := rfl
  set_set _ _ _ := rfl

def contractIds : Part Ledger (Overlay TransactionIdType ContractIdType) where
  get l := l.trxToContractId
  set l x := { l with trxToContractId := x }
  set_get _ := rfl
  set_set _ _ _ := rfl

def trxIds : Part Ledger (Overlay ContractIdType TransactionIdType) where
  get l := l.contractToTrxId
  set l x := { l with contractToTrxId := x }
  set_get _ := rfl
  set_set _ _ _ := rfl

theorem accountIndexes_indexes : AccountIndexes accountIndexes where
  insertName _ _ _ := ⟨(_, _), rfl⟩
  insertAddress _ _ _ := ⟨(_, _), rfl⟩
  insertVote l _ := .refl l
  eraseName _ _ := ⟨(_, _), rfl⟩
  eraseAddress _ _ := ⟨(_, _), rfl⟩
  eraseVote l _ := .refl l

theorem propertyHooks : TableHooks properties getProperty PropertyEntry.remove
    PropertyEntry.store := by
  refine .ofOverlay (fun _ _ => rfl) (fun l id => ?_) fun _ _ _ => ⟨⟨_, rfl⟩, rfl⟩
  unfold PropertyEntry.remove
  split
  · exact .inr ⟨⟨_, rfl⟩, rfl⟩
  · exact .inl ⟨‹_›, rfl⟩

theorem accountHooks : TableHooks accounts getAccount (AccountEntry.remove P)
    (AccountEntry.store P) := by
  refine .ofOverlay (fun _ _ => rfl) (fun l id => ?_) fun l id e => ?_
  · cases hprev : l.getAccount id with
    | none =>
      have hlookup : AccountDbInterface.accountLookupById l id = none := hprev
      exact .inl ⟨hprev, by simp only [AccountEntry.remove, hlookup]⟩
    | some prev =>
      obtain ⟨x, hx⟩ := accountIndexes_indexes.remove (P := P) l id prev hprev
      exact .inr ⟨⟨(_, x), hx⟩, by rw [hx]; rfl⟩
  · obtain ⟨l₁, ⟨x, rfl⟩, ⟨y, hy⟩⟩ := accountIndexes_indexes.store (P := P) l id e
    exact ⟨⟨(_, y), hy⟩, by rw [hy]; rfl⟩

theorem assetHooks : TableHooks assets getAsset AssetEntry.remove AssetEntry.store := by
  refine .ofOverlay (fun _ _ => rfl) (fun l id => ?_) fun l id e => ?_
  · unfold AssetEntry.remove
    split
    · exact .inr ⟨⟨(_, _), rfl⟩, rfl⟩
    · exact .inl ⟨‹_›, rfl⟩
  · unfold AssetEntry.store
    split
    · split_ifs <;> exact ⟨⟨(_, _), rfl⟩, rfl⟩
    · exact ⟨⟨(_, _), rfl⟩, rfl⟩

theorem slateHooks : TableHooks slates getSlate SlateEntry.remove SlateEntry.store := by
  refine .ofOverlay (fun _ _ => rfl) (fun l id => ?_) fun _ _ _ => ⟨⟨_, rfl⟩, rfl⟩
  unfold SlateEntry.remove
  split
  · exact .inr ⟨⟨_, rfl⟩, rfl⟩
  · exact .inl ⟨‹_›, rfl⟩

theorem balanceHooks : TableHooks balances getBalance BalanceEntry.remove BalanceEntry.store := by
  refine .ofOverlay (fun _ _ => rfl) (fun l id => ?_) fun _ _ _ => ⟨⟨_, rfl⟩, rfl⟩
  unfold BalanceEntry.remove
  split
  · exact .inr ⟨⟨_, rfl⟩, rfl⟩
  · exact .inl ⟨‹_›, rfl⟩

theorem contractHooks : TableHooks contracts getContract ContractEntry.remove
    ContractEntry.store := by
  refine .ofOverlay (fun _ _ => rfl) (fun l id => ?_) fun l id e => ?_
  · unfold ContractEntry.remove
    split
    · exact .inr ⟨⟨(_, _), rfl⟩, rfl⟩
    · exact .inl ⟨‹_›, rfl⟩
  · unfold ContractEntry.store
    split_ifs <;> exact ⟨⟨(_, _), rfl⟩, rfl⟩

section IdMaps

open ContractDbInterface

theorem resultIdHooks : TableHooks resultIds getResultId contractEraseResultidByReqestid
    contractStoreResultidByReqestid :=
  .ofOverlay (fun _ _ => rfl) (fun _ _ => .inr ⟨⟨_, rfl⟩, rfl⟩) fun _ _ _ => ⟨⟨_, rfl⟩, rfl⟩

theorem requestIdHooks : TableHooks requestIds getRequestId contractEraseRequestidByResultid
    contractStoreRequestidByResultid :=
  .ofOverlay (fun _ _ => rfl) (fun _ _ => .inr ⟨⟨_, rfl⟩, rfl⟩) fun _ _ _ => ⟨⟨_, rfl⟩, rfl⟩

theorem contractIdHooks : TableHooks contractIds getContractIdByTrx contractEraseContractidByTrxid
    contractStoreContractidByTrxid :=
  .ofOverlay (fun _ _ => rfl) (fun _ _ => .inr ⟨⟨_, rfl⟩, rfl⟩) fun _ _ _ => ⟨⟨_, rfl⟩, rfl⟩

theorem trxIdHooks : TableHooks trxIds getTrxIdByContract contractEraseTrxidByContractId
    contractStoreTrxidByContractid :=
  .ofOverlay (fun _ _ => rfl) (fun _ _ => .inr ⟨⟨_, rfl⟩, rfl⟩) fun _ _ _ => ⟨⟨_, rfl⟩, rfl⟩

end IdMaps

theorem slot_only (l : Ledger) (index : SlotIndex) (e : SlotEntry) :
    slots.Only l (SlotEntry.remove l index) ∧ slots.Only l (SlotEntry.store l index e) := by
  unfold SlotEntry.remove SlotEntry.store
  constructor
  · split_ifs
    · exact .refl l
    · split
      · exact ⟨(_, _), rfl⟩
      · exact .refl l
  · split_ifs
    · exact .refl l
    · split
      · split_ifs <;> exact ⟨(_, _), rfl⟩
      · exact ⟨(_, _), rfl⟩

theorem storage_remove_only (l : Ledger) (id : ContractIdType) :
    storages.Only l (ContractStorageEntry.remove l id) := by
  unfold ContractStorageEntry.remove
  split
  · exact ⟨_, rfl⟩
  · exact .refl l

theorem storage_store_only (l : Ledger) (id : ContractIdType) (e : ContractStorageEntry) :
    storages.Only l (ContractStorageEntry.store l id e) := ⟨_, rfl⟩

/-- What an undo state reads over the pending state it undoes: the tables below the latter. The
storages and the slots are written through hooks that do not always keep what is read. -/
structure Undone (P : Primitives) (l u : Ledger) : Prop where
  prev : u.prev = l.toView
  property : ∀ k, u.getProperty k = l.prev.property k
  account : ∀ k, u.getAccount k = l.prev.accountById k
  asset : ∀ k, u.getAsset k = l.prev.assetById k
  slate : ∀ k, u.getSlate k = l.prev.slate k
  balance : ∀ k, u.getBalance k = l.prev.balance k
  slot : ∃ u₀, slots.get u₀ = (∅, ∅) ∧ u₀.prev = l.toView ∧ slots.get u = slots.get
    (populateUndoState P l.prev.slotByIndex SlotEntry.remove SlotEntry.store l.slot.stored
      l.slot.removed u₀)
  contract : ∀ k, u.getContract k = l.prev.contractById k
  storage : ∃ u₀, u₀.contract = u.contract ∧ u₀.contractIdToStorage = ∅ ∧ u₀.prev = l.toView ∧
    u.contractIdToStorage = storages.get
      (populateUndoState P l.prev.storage ContractStorageEntry.remove ContractStorageEntry.store
        l.contractIdToStorage l.contract.removed u₀)
  resultId : ∀ k, u.getResultId k = l.prev.resultIdByRequestId k
  requestId : ∀ k, u.getRequestId k = l.prev.requestIdByResultId k
  contractId : ∀ k, u.getContractIdByTrx k = l.prev.contractIdByTrxId k
  trxId : ∀ k, u.getTrxIdByContract k = l.prev.trxIdByContractId k

section Undone

variable {τ K V : Type} [DecidableEq K]

/-- The undo of a table changes only its part, and then the table reads as what is below. -/
theorem undoes {part : Part Ledger τ} {read : Ledger → K → Option V} {remove : Ledger → K → Ledger}
    {store : Ledger → K → V → Ledger} (h : TableHooks part read remove store)
    (prev : K → Option V) (o : Overlay K V) (u : Ledger) :
    ∃ x, populateUndoState P prev remove store o.stored o.removed u = part.set u x ∧
      ((∀ k, read u k = o.lookup prev k) → ∀ k, read (part.set u x) k = prev k) := by
  obtain ⟨x, hx⟩ := populateUndoState_only (P := P) h.only_remove h.only_store prev o.stored
    o.removed u
  refine ⟨x, hx, fun hu k => ?_⟩
  rw [← hx]
  exact populateUndoState_read h.toHooks hu k

end Undone

theorem undone (l : Ledger) (u : Ledger) (hu : u = .ofView l.toView) :
    Undone P l (l.getUndoState P u) := by
  subst hu
  unfold getUndoState
  dsimp only
  obtain ⟨x₁, h₁, r₁⟩ := undoes (P := P) propertyHooks l.prev.property l.property _
  rw [h₁]
  obtain ⟨x₂, h₂, r₂⟩ := undoes (P := P) (accountHooks (P := P)) l.prev.accountById l.account _
  rw [h₂]
  obtain ⟨x₃, h₃, r₃⟩ := undoes (P := P) assetHooks l.prev.assetById l.asset _
  rw [h₃]
  obtain ⟨x₄, h₄, r₄⟩ := undoes (P := P) slateHooks l.prev.slate l.slate _
  rw [h₄]
  obtain ⟨x₅, h₅, r₅⟩ := undoes (P := P) balanceHooks l.prev.balance l.balance _
  rw [h₅]
  obtain ⟨x₆, h₆⟩ := populateUndoState_only (P := P) (fun l k => (slot_only l k ⟨k, none⟩).1)
    (fun l k e => (slot_only l k e).2) l.prev.slotByIndex l.slot.stored l.slot.removed _
  rw [h₆]
  obtain ⟨x₇, h₇, r₇⟩ := undoes (P := P) contractHooks l.prev.contractById l.contract _
  rw [h₇]
  obtain ⟨x₈, h₈⟩ := populateUndoState_only (P := P) storage_remove_only storage_store_only
    l.prev.storage l.contractIdToStorage l.contract.removed _
  rw [h₈]
  obtain ⟨x₉, h₉, r₉⟩ := undoes (P := P) resultIdHooks l.prev.resultIdByRequestId l.requestIdToResultId _
  rw [h₉]
  obtain ⟨x₁₀, h₁₀, r₁₀⟩ := undoes (P := P) requestIdHooks l.prev.requestIdByResultId l.resultIdToRequestId _
  rw [h₁₀]
  obtain ⟨x₁₁, h₁₁, r₁₁⟩ := undoes (P := P) contractIdHooks l.prev.contractIdByTrxId l.trxToContractId _
  rw [h₁₁]
  obtain ⟨x₁₂, h₁₂, r₁₂⟩ := undoes (P := P) trxIdHooks l.prev.trxIdByContractId l.contractToTrxId _
  rw [h₁₂]
  exact {
    prev := rfl
    property := r₁ fun _ => rfl
    account := r₂ fun _ => rfl
    asset := r₃ fun _ => rfl
    slate := r₄ fun _ => rfl
    balance := r₅ fun _ => rfl
    slot := by refine ⟨_, ?_, ?_, (congrArg slots.get h₆).symm⟩ <;> rfl
    contract := r₇ fun _ => rfl
    storage := by refine ⟨_, ?_, ?_, ?_, (congrArg storages.get h₈).symm⟩ <;> rfl
    resultId := r₉ fun _ => rfl
    requestId := r₁₀ fun _ => rfl
    contractId := r₁₁ fun _ => rfl
    trxId := r₁₂ fun _ => rfl
  }

end Ledger

end Achain
