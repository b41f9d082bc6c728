import Achain.Proofs.Blocks
import Achain.Proofs.Moves

/-!
# The counts of the delegates

An account keeps how many blocks it has produced and missed as a delegate. Operations keep these
counts: an update of an account copies them, an account that becomes a delegate starts at zero, and
a new account has an id that no other one has.
-/

namespace Achain

open Table Result

variable {P : Primitives} {V : Vm} {l l' l₁ : Ledger} {ctx : OpContext} {s s' : OpState}
  {m m' : Map AssetIdType ShareType}

/-- The blocks an account has produced and missed as a delegate. -/
def AccountEntry.production (e : AccountEntry) : ℤ × ℤ :=
  match e.delegateInfo with
  | some stats => (stats.blocksProduced, stats.blocksMissed)
  | none => 0

theorem AccountEntry.production_some {e : AccountEntry} {stats : DelegateStats}
    (h : e.delegateInfo = some stats) :
    e.production = ((stats.blocksProduced : ℤ), (stats.blocksMissed : ℤ)) := by
  rw [production, h]

def Ledger.production (l : Ledger) (id : AccountIdType) : ℤ × ℤ :=
  val AccountEntry.production (l.getAccount id)

theorem Ledger.production_storeAccount (e : AccountEntry) (id : AccountIdType) :
    (l.storeAccount P e).production id = if id = e.id then e.production else l.production id := by
  rw [production, getAccount_storeAccount]
  split_ifs
  · rfl
  · rfl

/-- The same counts, and the same number of confirmations required. -/
structure SameProduction (l l' : Ledger) : Prop where
  production : ∀ id, l'.production id = l.production id
  confirmations : l'.getProperty .confirmationRequirement = l.getProperty .confirmationRequirement

namespace SameProduction

theorem refl (l : Ledger) : SameProduction l l := ⟨fun _ => rfl, rfl⟩

theorem trans (h : SameProduction l l₁) (h' : SameProduction l₁ l') : SameProduction l l' :=
  ⟨fun id => (h'.production id).trans (h.production id), h'.confirmations.trans h.confirmations⟩

theorem of_same (h : SameAccounts l l') : SameProduction l l' := by
  refine ⟨fun id => ?_, ?_⟩
  · unfold Ledger.production Ledger.getAccount
    rw [h.prev, h.account]
  · unfold Ledger.getProperty
    rw [h.prev, h.property]

theorem storeAccount {e : AccountEntry} (he : e.production = l.production e.id) :
    SameProduction l (l.storeAccount P e) := by
  refine ⟨fun id => ?_, by simp [Ledger.getProperty]⟩
  rw [Ledger.production_storeAccount]
  split_ifs with hid
  · rw [hid, he]
  · rfl

/-- An account that is there is stored again with its counts. -/
theorem restored {k : AccountIdType} {e e' : AccountEntry} (hl : l.WellKeyed P)
    (he : l.getAccount k = some e) (hid : e'.id = e.id) (hsame : e'.production = e.production) :
    SameProduction l (l.storeAccount P e') := by
  refine .storeAccount ?_
  rw [hsame, hid, hl.account he, Ledger.production, he, val_some]

theorem storeProperty {id : PropertyIdType} (v : PropertyValue)
    (hid : id ≠ .confirmationRequirement) : SameProduction l (l.storeProperty id v) :=
  ⟨fun _ => rfl, (Ledger.getProperty_storeProperty _ _ _).trans (if_neg hid.symm)⟩

theorem storeAsset (e : AssetEntry) : SameProduction l (l.storeAsset e) :=
  .of_same ⟨by simp, by simp, by simp⟩

end SameProduction

/-! ## Operations -/

/-- The id given next is free, and the account that gets it has no counts. -/
theorem RegisterAccountOperation.sameProduction {op : RegisterAccountOperation}
    (h : op.evaluate P s = .ok s') (hl : s.ledger.InOrder P) :
    SameProduction s.ledger s'.ledger := by
  obtain ⟨n, hn, -, -, -, hl', -⟩ := RegisterAccountOperation.evaluate_ok h
  rw [hl']
  have hgiven : SameProduction s.ledger
      (s.ledger.storeProperty .lastAccountId (.id (n + 1))) := .storeProperty _ nofun
  refine hgiven.trans (.storeAccount ?_)
  have hnone : (op.entry (n + 1) s.ledger.prev).production = 0 := by
    simp only [entry, AccountEntry.production]
    split_ifs <;> rfl
  have hfree : (s.ledger.storeProperty .lastAccountId (.id (n + 1))).getAccount (n + 1) = none :=
    hl.next_free hn
  rw [hnone, Ledger.production, show (op.entry (n + 1) s.ledger.prev).id = n + 1 from rfl, hfree,
    val_none]

theorem UpdateAccountOperation.withKey_production (op : UpdateAccountOperation) (e : AccountEntry)
    (now : TimePointSec) : (op.withKey e now).production = e.production := by
  unfold withKey
  split
  · rfl
  · split_ifs
    · rfl
    · rfl

/-- An update keeps the counts of a delegate, and a new delegate has none. -/
theorem UpdateAccountOperation.production_delegateInfo {op : UpdateAccountOperation}
    {e : AccountEntry} {n : Nat} {info : Option DelegateStats} {fee : Option ShareType}
    (h : op.delegateInfo e n = .ok (info, fee)) :
    ({ e with delegateInfo := info } : AccountEntry).production = e.production := by
  unfold delegateInfo at h
  split at h
  · rename_i d hd
    simp only [bind_eq_ok, ensure_eq_ok, pure_eq_ok, exists_const, Prod.mk.injEq] at h
    obtain ⟨-, -, rfl, -⟩ := h
    rw [AccountEntry.production_some hd]
    rfl
  · rename_i hd
    split_ifs at h
    · simp only [bind_eq_ok, pure_eq_ok, Prod.mk.injEq] at h
      obtain ⟨_, -, rfl, -⟩ := h
      simp only [AccountEntry.production, hd, DelegateStats.fresh]
      rfl
    · simp only [Except.ok.injEq, Prod.mk.injEq] at h
      simp only [AccountEntry.production, hd, ← h.1]

theorem Operation.evaluateLeaf_sameProduction {op : Operation}
    (h : op.evaluateLeaf P V ctx s = .ok s') (hl : s.ledger.InOrder P) :
    SameProduction s.ledger s'.ledger := by
  by_cases hop : op.sparesAccounts = true
  · exact .of_same (evaluateLeaf_sameAccounts hop h)
  cases op <;> first | exact absurd rfl hop | simp only [evaluateLeaf] at h
  case registerAccount op => exact RegisterAccountOperation.sameProduction h hl
  case updateAccount op =>
    obtain ⟨e, info, _, he, -, -, hinfo, hl', -⟩ := UpdateAccountOperation.evaluate_ok h
    rw [hl']
    refine .restored hl.keyed he (op.withKey_same e s.ledger.prev.now).1 ?_
    exact (UpdateAccountOperation.production_delegateInfo hinfo).trans (op.withKey_production _ _)
  case withdrawPay op =>
    obtain ⟨e, stats, he, hstats, -, hl', -⟩ := WithdrawPayOperation.evaluate_ok h
    rw [hl']
    refine .restored hl.keyed he rfl ?_
    rw [AccountEntry.production_some hstats]
    rfl
  case createAsset op =>
    obtain ⟨n, issuer, -, -, -, hl', -⟩ := CreateAssetOperation.evaluate_ok h
    rw [hl']
    have hgiven : SameProduction s.ledger
        (s.ledger.storeProperty .lastAssetId (.id (n + 1))) := .storeProperty _ (by decide)
    exact hgiven.trans (.storeAsset _)

/-! ## Transactions -/

/-- The counts are kept, and the ledger stays in order. -/
def KeepsProduction (P : Primitives) (l l' : Ledger) : Prop :=
  l.InOrder P → l'.InOrder P ∧ SameProduction l l'

namespace KeepsProduction

theorem refl (l : Ledger) : KeepsProduction P l l := fun h => ⟨h, .refl l⟩

theorem trans (h : KeepsProduction P l l₁) (h' : KeepsProduction P l₁ l') :
    KeepsProduction P l l' := by
  intro hl
  obtain ⟨hl₁, hsame⟩ := h hl
  obtain ⟨hl', hsame'⟩ := h' hl₁
  exact ⟨hl', hsame.trans hsame'⟩

theorem of_moves (h : Moves P l m l' m') (hsame : l.InOrder P → SameProduction l l') :
    KeepsProduction P l l' :=
  fun hl => ⟨(h hl).1, hsame hl⟩

end KeepsProduction

theorem production_ledgerRel :
    LedgerRel P V (fun _ => True) (fun _ => (0 : ℕ)) fun _ l l' => KeepsProduction P l l' where
  refl := .refl
  trans := .trans
  leaf _ h := .of_moves (Operation.evaluateLeaf_moves h) (Operation.evaluateLeaf_sameProduction h)
  fee h := by
    obtain ⟨-, rfl⟩ | ⟨-, a, -, rfl⟩ := EvalState.collectFee_ok h
    · exact .refl _
    · exact fun hl => ⟨hl.storeAsset _, .storeAsset _⟩
  votes h := by
    obtain ⟨e, stats, he, hstats, rfl⟩ := EvalState.updateVotes_ok h
    intro hl
    have hid : e.id = _ := hl.keyed.account he
    refine ⟨hl.storeAccount he hid, .restored hl.keyed he rfl ?_⟩
    rw [AccountEntry.production_some hstats]
    rfl
  request s id trx := by
    intro hl
    refine ⟨hl.of_same ((Writes.one (.resultId _ _)).tail (.requestId _ _)) ?_ rfl, .of_same ?_⟩
    · exact ⟨rfl, rfl, rfl, rfl⟩
    · exact ⟨rfl, rfl, rfl⟩

theorem applyTransactions_production {c : ApplyConfig} {ts : List SignedTransaction}
    {p p' : PendingChainState} (h : applyTransactions P V c ts p = .ok p') :
    KeepsProduction P p.ledger p'.ledger := by
  refine applyTransactions_rel (R := fun p p' => KeepsProduction P p.ledger p'.ledger)
    (fun _ => .refl _) (fun _ _ _ => .trans) (fun t _ n p p' happlied => ?_) h
  rw [happlied.ledger]
  exact production_ledgerRel.evaluate (fun _ _ => trivial) happlied.evaluated

end Achain
