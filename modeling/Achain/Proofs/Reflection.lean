import Achain.Proofs.Tables

/-!
# Storing a pending state and reading it back

What the database stores of an undo state are the members in its `FC_REFLECT` list. The maps
between contracts and the transactions that registered them are not in it, so the state read back
writes what was stored only where it leaves these two maps alone.
-/

namespace Achain

open Table

variable {P : Primitives} {u v : PendingChainState}

/-- The two pending states write the same into every database and into every pending state. -/
structure PendingChainState.SameEffect (P : Primitives) (u v : PendingChainState) : Prop where
  database : ∀ c : ChainTables, c.applyChanges P u = c.applyChanges P v
  pending : ∀ p : PendingChainState, p.applyChanges P u = p.applyChanges P v

namespace PendingChainState

/-- The state read back differs from the one stored in the previous state and in the two maps. -/
theorem unpack_pack_ledger (hc : u.ledger.trxToContractId = ∅) (ht : u.ledger.contractToTrxId = ∅) :
    (unpack u.pack).ledger = { u.ledger with prev := .empty } := by
  unfold unpack pack Ledger.ofView
  dsimp only
  rw [hc, ht]

theorem sameEffect_of_maps (hc : u.ledger.trxToContractId = ∅)
    (ht : u.ledger.contractToTrxId = ∅) : SameEffect P (unpack u.pack) u where
  database c := by
    unfold ChainTables.applyChanges
    rw [unpack_pack_ledger hc ht]
    rfl
  pending p := by
    unfold PendingChainState.applyChanges
    rw [unpack_pack_ledger hc ht]
    rfl

/-- A state that writes what its stored form does leaves the registering transactions alone. -/
theorem trxToContractId_of_sameEffect (h : SameEffect P (unpack u.pack) u) :
    u.ledger.trxToContractId = ∅ := by
  refine Overlay.eq_empty fun t k => ?_
  have hread := (ChainTables.written (P := P) { ChainTables.empty false with trxToContractId := t }
    (unpack u.pack)).lookupContractId k
  rw [h.database, (ChainTables.written _ u).lookupContractId k] at hread
  exact hread

theorem contractToTrxId_of_sameEffect (h : SameEffect P (unpack u.pack) u) :
    u.ledger.contractToTrxId = ∅ := by
  refine Overlay.eq_empty fun t k => ?_
  have hread := (ChainTables.written (P := P) { ChainTables.empty false with contractToTrxId := t }
    (unpack u.pack)).lookupTrxId k
  rw [h.database, (ChainTables.written _ u).lookupTrxId k] at hread
  exact hread

end PendingChainState

open PendingChainState

/-- An undo state read back has the effect of the one stored exactly where the latter neither
writes nor removes an entry of the two maps between contracts and transactions. -/
theorem reread_effect_iff (P : Primitives) (u : PendingChainState) :
    SameEffect P (unpack u.pack) u ↔
      u.ledger.trxToContractId = ∅ ∧ u.ledger.contractToTrxId = ∅ :=
  ⟨fun h => ⟨trxToContractId_of_sameEffect h, contractToTrxId_of_sameEffect h⟩,
    fun h => sameEffect_of_maps h.1 h.2⟩

open ContractDbInterface in
/-- A pending state in which transaction `5` has registered contract `7`. -/
def registeringState : PendingChainState :=
  let p := PendingChainState.ofView .empty
  let l := contractStoreContractidByTrxid p.ledger 5 7
  { p with ledger := contractStoreTrxidByContractid l 7 5 }

/-- The undo state of a registration removes the contract's transaction from the chain it was
written to; read back, it leaves it there. -/
theorem reread_undo_keeps_registration :
    let c := (ChainTables.empty false).applyChanges .plain registeringState
    let u := registeringState.getUndoState .plain
    (c.applyChanges .plain u).contractToTrxId.lookup 7 = none ∧
      (c.applyChanges .plain (unpack u.pack)).contractToTrxId.lookup 7 = some 5 ∧
      ¬ SameEffect .plain (unpack u.pack) u := by
  have hundo : (((ChainTables.empty false).applyChanges .plain registeringState).applyChanges .plain
      (registeringState.getUndoState .plain)).contractToTrxId.lookup 7 = none := by decide +kernel
  have hreread : (((ChainTables.empty false).applyChanges .plain registeringState).applyChanges
      .plain (unpack (registeringState.getUndoState .plain).pack)).contractToTrxId.lookup 7 =
        some 5 := by decide +kernel
  refine ⟨hundo, hreread, fun h => ?_⟩
  rw [h.database, hundo] at hreread
  exact absurd hreread (by simp)

end Achain
