import Achain.Proofs.Runs

/-!
# Tables keyed by their entries

In every state of the chain an entry of the balances, the accounts, the assets and the contracts is
found under its own id, from the genesis state on, also after blocks have been undone.
-/

namespace Achain

open Table Result

variable {P : Primitives} {N : Node} {K : FullBlock → Prop} {db db' : ChainDatabase}
  {c : ChainTables} {p : PendingChainState}

structure ChainTables.WellKeyed (P : Primitives) (c : ChainTables) : Prop where
  balance : ∀ {k e}, c.balanceIdToEntry.lookup k = some e → P.balanceId e = k
  account : ∀ {k e}, c.accountIdToEntry.lookup k = some e → e.id = k
  asset : ∀ {k e}, c.assetIdToEntry.lookup k = some e → e.id = k
  contract : ∀ {k e}, c.contractIdToEntry.lookup k = some e → e.id = k

/-- The entries stored in a pending state are under their ids. -/
structure Ledger.StoredKeyed (P : Primitives) (l : Ledger) : Prop where
  balance : ∀ {k e}, l.balance.stored.lookup k = some e → P.balanceId e = k
  account : ∀ {k e}, l.account.stored.lookup k = some e → e.id = k
  asset : ∀ {k e}, l.asset.stored.lookup k = some e → e.id = k
  contract : ∀ {k e}, l.contract.stored.lookup k = some e → e.id = k

theorem ChainTables.WellKeyed.pending (h : db.tables.WellKeyed P) (clock : TimePointSec) :
    (db.pending clock).ledger.WellKeyed P :=
  ⟨h.balance, h.account, h.asset, h.contract⟩

theorem Ledger.WellKeyed.stored {l : Ledger} (h : l.WellKeyed P) : l.StoredKeyed P where
  balance he := h.balance (Overlay.lookup_of_stored he)
  account he := h.account (Overlay.lookup_of_stored he)
  asset he := h.asset (Overlay.lookup_of_stored he)
  contract he := h.contract (Overlay.lookup_of_stored he)

/-- The undo state stores entries of the tables below. -/
theorem Ledger.Undone.stored {l u : Ledger} (h : l.Undone P u)
    (hprev : (Ledger.ofView l.prev).WellKeyed P) : u.StoredKeyed P where
  balance he := hprev.balance ((h.balance _).symm.trans (Overlay.lookup_of_stored he))
  account he := hprev.account ((h.account _).symm.trans (Overlay.lookup_of_stored he))
  asset he := hprev.asset ((h.asset _).symm.trans (Overlay.lookup_of_stored he))
  contract he := hprev.contract ((h.contract _).symm.trans (Overlay.lookup_of_stored he))

/-- An entry read through an overlay has the key if the stored ones and those below have. -/
theorem keyed_lookup {A B : Type} [DecidableEq A] {key : B → A} {o : Overlay A B}
    {base : A → Option B} (hstored : ∀ {k e}, o.stored.lookup k = some e → key e = k)
    (hbase : ∀ {k e}, base k = some e → key e = k) {k : A} {e : B}
    (h : o.lookup base k = some e) : key e = k := by
  rw [Overlay.lookup] at h
  split at h
  · exact hstored (h ▸ ‹_›)
  · split_ifs at h
    exact hbase h

theorem ChainTables.WellKeyed.applyChanges (hc : c.WellKeyed P) (hp : p.ledger.StoredKeyed P) :
    (c.applyChanges P p).WellKeyed P where
  balance {k e} he := by
    rw [(written c p).lookupBalance] at he
    exact keyed_lookup hp.balance hc.balance he
  account {k e} he := by
    rw [(written c p).lookupAccount] at he
    exact keyed_lookup hp.account hc.account he
  asset {k e} he := by
    rw [(written c p).lookupAsset] at he
    exact keyed_lookup hp.asset hc.asset he
  contract {k e} he := by
    rw [(written c p).lookupContract] at he
    exact keyed_lookup hp.contract hc.contract he

/-! ## Runs -/

/-- The tables and what the undo states would write are keyed by their entries. -/
structure ChainDatabase.Keyed (P : Primitives) (db : ChainDatabase) : Prop where
  tables : db.tables.WellKeyed P
  undo : ∀ id u, db.blockIdToUndoState.lookup id = some u → u.ledger.StoredKeyed P

/-- The undo states after the history has been cut and one has been saved: the old ones, where the
block is too low for one, and else the new one and some of the old ones. -/
theorem saveUndoState_cases {b : FullBlock} {undo : Tab BlockIdType PendingChainState}
    (h : saveUndoState N db b p = .ok undo) :
    (b.blockNum < N.config.minUndoBlock ∧ undo = db.blockIdToUndoState) ∨
      N.config.minUndoBlock ≤ b.blockNum ∧
        undo.lookup (N.B.id b.toSignedBlockHeader) = some (p.getUndoState N.P) ∧
        ∀ id, id ≠ N.B.id b.toSignedBlockHeader → ∀ u, undo.lookup id = some u →
          db.blockIdToUndoState.lookup id = some u := by
  unfold saveUndoState at h
  split_ifs at h with hmin
  · exact .inl ⟨hmin, (ok_eq_ok.1 h).symm⟩
  · simp only [bind_eq_ok, pure_eq_ok] at h
    obtain ⟨recent, hrecent, rfl⟩ := h
    refine .inr ⟨Nat.le_of_not_lt hmin, Finmap.lookup_insert _, fun id hid u hu => ?_⟩
    rw [Finmap.lookup_insert_of_ne _ hid] at hu
    unfold ChainDatabase.recentUndoStates at hrecent
    split_ifs at hrecent
    · simp only [bind_eq_ok, orThrow_eq_ok, pure_eq_ok] at hrecent
      obtain ⟨old, -, rfl⟩ := hrecent
      by_cases hold : id = old
      · rw [hold, Finmap.lookup_erase] at hu
        cases hu
      · rwa [Finmap.lookup_erase_ne hold] at hu
    · rw [ok_eq_ok.1 hrecent]
      exact hu

/-- An undo state after one has been saved is an old one or the new one. -/
theorem saveUndoState_ok {b : FullBlock} {undo : Tab BlockIdType PendingChainState}
    (h : saveUndoState N db b p = .ok undo) {id : BlockIdType} {u : PendingChainState}
    (hu : undo.lookup id = some u) :
    db.blockIdToUndoState.lookup id = some u ∨
      id = N.B.id b.toSignedBlockHeader ∧ u = p.getUndoState N.P := by
  rcases saveUndoState_cases h with ⟨-, rfl⟩ | ⟨-, hnew, hrest⟩
  · exact .inl hu
  · by_cases hid : id = N.B.id b.toSignedBlockHeader
    · subst hid
      rw [hnew] at hu
      exact .inr ⟨rfl, (Option.some.inj hu).symm⟩
    · exact .inl (hrest id hid u hu)

/-- The tables after a block are keyed. -/
theorem ChainTables.WellKeyed.extend {clock : TimePointSec} {b : FullBlock}
    (h : extendChain N db clock b = .ok db') (hdb : db.tables.WellKeyed N.P) :
    db'.tables.WellKeyed N.P := by
  obtain ⟨p, hp⟩ := extendChain_ok h
  obtain ⟨pay, ⟨hblock⟩⟩ := evaluateBlock_ok hp.evaluated
  have hpending := Ledger.WellKeyed.writes hblock.writes (hdb.pending clock)
  have htables := hdb.applyChanges hpending.stored
  rw [hp.tables]
  exact ⟨htables.balance, htables.account, htables.asset, htables.contract⟩

theorem ChainDatabase.Keyed.extend {clock : TimePointSec} {b : FullBlock}
    (h : extendChain N db clock b = .ok db') (hdb : db.Keyed N.P) : db'.Keyed N.P := by
  refine ⟨hdb.tables.extend h, fun id u hu => ?_⟩
  obtain ⟨p, hp⟩ := extendChain_ok h
  have hprev : (Ledger.ofView p.ledger.prev).WellKeyed N.P := by
    rw [hp.prev]
    exact hdb.tables.pending clock
  rcases saveUndoState_ok hp.undo hu with hold | ⟨-, rfl⟩
  · exact hdb.undo id u hold
  · exact (Ledger.undone p.ledger _ rfl).stored hprev

/-- A change outside of the chain. -/
theorem ChainDatabase.Keyed.same (h : SameChain db db') (hdb : db.Keyed P) : db'.Keyed P := by
  refine ⟨?_, ?_⟩
  · rw [h.tables]
    exact hdb.tables
  · rw [h.blockIdToUndoState]
    exact hdb.undo

theorem ChainDatabase.Keyed.step (h : Step N K db db') (hdb : db.Keyed N.P) : db'.Keyed N.P := by
  cases h with
  | extend clock b _ _ h => exact hdb.extend h
  | pop h =>
    unfold popBlock at h
    split_ifs at h
    · exact ok_eq_ok.1 h ▸ hdb
    · simp only [bind_eq_ok, orThrow_eq_ok, pure_eq_ok] at h
      obtain ⟨forkDb, -, u, hu, header, -, rfl⟩ := h
      exact ⟨hdb.tables.applyChanges (hdb.undo _ u hu), hdb.undo⟩
  | other hsame _ _ => exact hdb.same hsame

end Achain
