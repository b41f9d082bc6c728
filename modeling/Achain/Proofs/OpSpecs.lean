import Achain.Proofs.Stores
import Achain.Proofs.Tally

/-!
# What each operation does

One lemma for each operation, read off a successful evaluation: the guards later proofs need, the
entries written to the ledger and what is added to the tally of the transaction. Proofs about
transactions and blocks use these and do not unfold the operations again.
-/

namespace Achain

open Table Result

variable {P : Primitives} {V : Vm} {ctx : OpContext} {s s' : OpState}

/-! ## Votes -/

namespace OpState

theorem adjustBalanceVote_eq_ok {c : WithdrawCondition} {x : ShareType}
    (h : s.adjustBalanceVote c x = .ok s') : ∃ m, s' = { s with delegateVoteDeltas := m } := by
  unfold adjustBalanceVote at h
  split_ifs at h with hc
  · unfold adjustVote at h
    rw [if_neg hc.2] at h
    simp only [bind_eq_ok, pure_eq_ok] at h
    obtain ⟨_, -, m, -, rfl⟩ := h
    exact ⟨m, rfl⟩
  · simp only [Except.ok.injEq] at h
    exact ⟨s.delegateVoteDeltas, h.symm⟩

end OpState

/-! ## Deposits and withdrawals -/

/-- The balance a deposit goes to. -/
def depositEntry (P : Primitives) (l : Ledger) (c : WithdrawCondition) (fresh : BalanceEntry) :
    BalanceEntry :=
  (l.getBalance (P.conditionAddress c)).getD fresh

/-- The balance after a deposit. -/
def BalanceEntry.credited (e : BalanceEntry) (amount : ShareType) (date now : TimePointSec) :
    BalanceEntry :=
  { e with balance := e.balance + amount, depositDate := date, lastUpdate := now }

/-- The balance after a withdrawal. -/
def BalanceEntry.debited (e : BalanceEntry) (amount : ShareType) (now : TimePointSec) :
    BalanceEntry :=
  { e with balance := e.balance - amount, lastUpdate := now }

theorem DepositOperation.evaluate_ok {op : DepositOperation} (h : op.evaluate P s = .ok s') :
    ∃ e date, e = depositEntry P s.ledger op.condition (.ofCondition op.condition) ∧
      0 < op.amount ∧ (s.ledger.getAsset e.assetId).isSome ∧
      s'.ledger = s.ledger.storeBalance P (e.credited op.amount date s.ledger.prev.now) ∧
      s'.balance = tallyAdd s.balance e.assetId (-op.amount) ∧
      e.dateAfter s.ledger.prev.now op.amount
        ((toUint128 e.balance + toUint128 op.amount) % 2 ^ 128) = .ok date ∧
      safeAdd e.balance op.amount = .ok (e.balance + op.amount) ∧
      Recorded (Asset.movement ⟨op.amount, e.assetId⟩) s s' := by
  simp only [evaluate, bind_eq_ok, ensure_eq_ok, orThrow_eq_ok, pure_eq_ok,
    exists_const, decide_eq_true_eq] at h
  obtain ⟨-, hpos, -, seen, -, date, hdate, b, hb, s₁, h₁, s₂, h₂, asset, hasset, rfl⟩ := h
  have hrecorded : Recorded (Asset.movement ⟨op.amount, _⟩) s s₁ :=
    (OpState.subBalance_recorded h₁).same_left ⟨rfl, rfl, rfl, rfl, rfl⟩
  obtain ⟨_, _, rfl⟩ := OpState.subBalance_eq_ok h₁
  obtain ⟨_, rfl⟩ := OpState.adjustBalanceVote_eq_ok h₂
  obtain rfl := safeAdd_eq_ok hb
  exact ⟨_, date, rfl, hpos, Option.isSome_of_eq_some hasset, rfl, rfl, hdate, hb,
    hrecorded.same_right ⟨rfl, rfl, rfl, rfl, rfl⟩⟩

theorem WithdrawOperation.evaluate_ok {op : WithdrawOperation} (h : op.evaluate P ctx s = .ok s') :
    ∃ e asset, s.ledger.getBalance op.balanceId = some e ∧ 0 < op.amount ∧
      s.ledger.getAsset e.assetId = some asset ∧ ctx.authorizeWithdraw asset e = .ok () ∧
      s'.ledger = s.ledger.storeBalance P (e.debited op.amount s.ledger.prev.now) ∧
      s'.balance = tallyAdd s.balance e.assetId op.amount ∧
      Recorded (-Asset.movement ⟨op.amount, e.assetId⟩) s s' := by
  simp only [evaluate, bind_eq_ok, ensure_eq_ok, orThrow_eq_ok, pure_eq_ok,
    exists_const, decide_eq_true_eq] at h
  obtain ⟨hpos, e, he, -, asset, hasset, _, hauth, s₁, h₁, b, hb, s₂, h₂, rfl⟩ := h
  obtain ⟨_, rfl⟩ := OpState.adjustBalanceVote_eq_ok h₁
  have hrecorded : Recorded (-Asset.movement ⟨op.amount, e.assetId⟩) s s₂ :=
    (OpState.addBalance_recorded h₂).same_left ⟨rfl, rfl, rfl, rfl, rfl⟩
  obtain ⟨_, _, rfl⟩ := OpState.addBalance_eq_ok h₂
  rw [safeSub_eq_ok hb]
  exact ⟨e, asset, he, hpos, hasset, hauth, rfl, rfl,
    hrecorded.same_right ⟨rfl, rfl, rfl, rfl, rfl⟩⟩

theorem WithdrawContractOperation.target_ok {op : WithdrawContractOperation} {l : Ledger}
    {e : BalanceEntry} (h : op.target P l = .ok e) :
    l.getBalance op.balanceId = some e ∨ (l.getBalance op.balanceId = none ∧
      op.balanceId = P.getBalanceId op.contract .contract ∧
      e = ⟨contractCondition op.contract .contract, 0, l.prev.now, l.prev.now, none⟩) := by
  unfold target at h
  split at h
  · rename_i e' he'
    simp only [Except.ok.injEq] at h
    exact .inl (h ▸ he')
  · rename_i hnone
    split_ifs at h
    simp only [bind_eq_ok, ensure_eq_ok, pure_eq_ok, exists_const, beq_iff_eq] at h
    exact .inr ⟨hnone, h.1, h.2.symm⟩

theorem WithdrawContractOperation.evaluate_ok {op : WithdrawContractOperation}
    (h : op.evaluate P ctx s = .ok s') :
    ∃ e, op.target P s.ledger = .ok e ∧ ctx.evaluateContractResult ∧ 0 < op.amount ∧
      e.assetId = 0 ∧ (s.ledger.getAsset e.assetId).isSome ∧
      s'.ledger = s.ledger.storeBalance P (e.debited op.amount s.ledger.prev.now) ∧
      s'.balance = tallyAdd s.balance e.assetId op.amount ∧
      Recorded (-Asset.movement ⟨op.amount, e.assetId⟩) s s' := by
  simp only [evaluate, bind_eq_ok, ensure_eq_ok, orThrow_eq_ok, pure_eq_ok,
    exists_const, decide_eq_true_eq, beq_iff_eq] at h
  obtain ⟨hres, hpos, e, he, hzero, asset, hasset, s₁, h₁, rfl⟩ := h
  have hrecorded := OpState.addBalance_recorded h₁
  obtain ⟨_, _, rfl⟩ := OpState.addBalance_eq_ok h₁
  exact ⟨e, he, hres, hpos, hzero, Option.isSome_of_eq_some hasset, rfl, rfl,
    hrecorded.same_right ⟨rfl, rfl, rfl, rfl, rfl⟩⟩

theorem BalancesWithdrawOperation.withdrawOne_ok {item : BalanceIdType × ShareType}
    (h : withdrawOne P ctx s item = .ok s') :
    ∃ e asset, s.ledger.getBalance item.1 = some e ∧ 0 < item.2 ∧ e.assetId = 0 ∧
      s.ledger.getAsset e.assetId = some asset ∧
      ctx.authorizeOperator (P.address s.contractOperator) asset e = .ok () ∧
      s'.ledger = s.ledger.storeBalance P (e.debited item.2 s.ledger.prev.now) ∧
      s'.balance = tallyAdd s.balance e.assetId item.2 ∧
      s'.contractOperator = s.contractOperator ∧
      Recorded (-Asset.movement ⟨item.2, e.assetId⟩) s s' := by
  simp only [withdrawOne, bind_eq_ok, ensure_eq_ok, orThrow_eq_ok, pure_eq_ok,
    exists_const, decide_eq_true_eq, beq_iff_eq] at h
  obtain ⟨hpos, e, he, hzero, -, asset, hasset, _, hauth, s₁, h₁, s₂, h₂, rfl⟩ := h
  obtain ⟨_, rfl⟩ := OpState.adjustBalanceVote_eq_ok h₁
  have hrecorded : Recorded (-Asset.movement ⟨item.2, e.assetId⟩) s s₂ :=
    (OpState.addBalance_recorded h₂).same_left ⟨rfl, rfl, rfl, rfl, rfl⟩
  obtain ⟨_, _, rfl⟩ := OpState.addBalance_eq_ok h₂
  exact ⟨e, asset, he, hpos, hzero, hasset, hauth, rfl, rfl, rfl,
    hrecorded.same_right ⟨rfl, rfl, rfl, rfl, rfl⟩⟩

theorem BalancesWithdrawOperation.evaluate_ok {op : BalancesWithdrawOperation}
    (h : op.evaluate P ctx s = .ok s') :
    ctx.evaluateContractResult ∧ (mapItems op.balances).foldlM (withdrawOne P ctx) s = .ok s' := by
  simp only [evaluate, bind_eq_ok, ensure_eq_ok, exists_const] at h
  exact ⟨h.1, h.2.2⟩

/-- The entry a `DepositContractOperation` makes where there is none. -/
def DepositContractOperation.fresh (op : DepositContractOperation) (P : Primitives)
    (trx : SignedTransaction) : BalanceEntry :=
  match op.condition.data with
  | .escrow .. => { BalanceEntry.ofCondition op.condition with metaData := some (P.id trx) }
  | _ => .ofCondition op.condition

theorem DepositContractOperation.fresh_condition (op : DepositContractOperation)
    (trx : SignedTransaction) :
    (op.fresh P trx).condition = op.condition ∧ (op.fresh P trx).balance = 0 := by
  unfold fresh
  split <;> exact ⟨rfl, rfl⟩

theorem DepositContractOperation.evaluate_ok {op : DepositContractOperation}
    (h : op.evaluate P ctx s = .ok s') :
    ∃ e date, e = depositEntry P s.ledger op.condition (op.fresh P ctx.trx) ∧
      ctx.evaluateContractResult ∧ 0 < op.amount ∧ (s.ledger.getAsset e.assetId).isSome ∧
      s'.ledger = s.ledger.storeBalance P (e.credited op.amount date s.ledger.prev.now) ∧
      s'.balance = tallyAdd s.balance e.assetId (-op.amount) ∧
      e.dateAfter s.ledger.prev.now op.amount (toUint128 (e.balance + op.amount)) = .ok date ∧
      Recorded (Asset.movement ⟨op.amount, e.assetId⟩) s s' := by
  simp only [evaluate, bind_eq_ok, ensure_eq_ok, orThrow_eq_ok, pure_eq_ok,
    exists_const, decide_eq_true_eq] at h
  obtain ⟨hres, hpos, -, date, hdate, s₁, h₁, s₂, h₂, asset, hasset, rfl⟩ := h
  have hrecorded := OpState.subBalance_recorded h₁
  obtain ⟨_, _, rfl⟩ := OpState.subBalance_eq_ok h₁
  obtain ⟨_, rfl⟩ := OpState.adjustBalanceVote_eq_ok h₂
  exact ⟨_, date, rfl, hres, hpos, Option.isSome_of_eq_some hasset, rfl, rfl, hdate,
    hrecorded.same_right ⟨rfl, rfl, rfl, rfl, rfl⟩⟩

/-! ## Accounts -/

theorem Ledger.newAccountId_ok {l l' : Ledger} {id : AccountIdType}
    (h : l.newAccountId = .ok (l', id)) :
    ∃ n, l.getProperty .lastAccountId = some (.id n) ∧ id = n + 1 ∧
      l' = l.storeProperty .lastAccountId (.id (n + 1)) := by
  unfold newAccountId lastAccountId at h
  simp only [bind_eq_ok, pure_eq_ok, Prod.mk.injEq] at h
  obtain ⟨n, hn, hl, hid⟩ := h
  split at hn
  · rename_i m hm
    simp only [Except.ok.injEq] at hn
    subst hn
    exact ⟨m, hm, hid.symm, hl.symm⟩
  · simp at hn

theorem Ledger.newAssetId_ok {l l' : Ledger} {id : AssetIdType}
    (h : l.newAssetId = .ok (l', id)) :
    ∃ n, l.lastAssetId = .ok n ∧ id = n + 1 ∧
      l' = l.storeProperty .lastAssetId (.id (n + 1)) := by
  unfold newAssetId at h
  simp only [bind_eq_ok, pure_eq_ok, Prod.mk.injEq] at h
  obtain ⟨n, hn, hl, hid⟩ := h
  exact ⟨n, hn, hid.symm, hl.symm⟩

theorem RegisterAccountOperation.evaluate_ok {op : RegisterAccountOperation}
    (h : op.evaluate P s = .ok s') :
    ∃ n, s.ledger.getProperty .lastAccountId = some (.id n) ∧
      s.ledger.getAccountByName op.name = none ∧
      s.ledger.getAccountByAddress (P.address op.ownerKey) = none ∧
      s.ledger.getAccountByAddress (P.address op.activeKey) = none ∧
      s'.ledger = (s.ledger.storeProperty .lastAccountId (.id (n + 1))).storeAccount P
        (op.entry (n + 1) s.ledger.prev) ∧
      SameTally s s' := by
  simp only [evaluate, bind_eq_ok, ensure_eq_ok, pure_eq_ok, exists_const,
    Option.isNone_iff_eq_none, Prod.exists] at h
  obtain ⟨-, hname, howner, hactive, l, id, hl, -, required, -, rfl⟩ := h
  obtain ⟨n, hn, rfl, rfl⟩ := Ledger.newAccountId_ok hl
  exact ⟨n, hn, hname, howner, hactive, rfl, ⟨rfl, rfl, rfl, rfl, rfl⟩⟩

/-- The account an update stores. -/
def UpdateAccountOperation.entry (op : UpdateAccountOperation) (e : AccountEntry)
    (info : Option DelegateStats) (now : TimePointSec) : AccountEntry :=
  { op.withKey e now with
    publicData := op.publicData.getD (op.withKey e now).publicData
    delegateInfo := info
    lastUpdate := now }

theorem UpdateAccountOperation.evaluate_ok {op : UpdateAccountOperation}
    (h : op.evaluate P ctx s = .ok s') :
    ∃ e info fee, s.ledger.getAccount op.accountId = some e ∧ !e.isRetracted ∧
      op.checkKey P e s.ledger = .ok () ∧
      op.delegateInfo (op.withKey e s.ledger.prev.now) s.ledger.prev.headBlockNum =
        .ok (info, fee) ∧
      s'.ledger = s.ledger.storeAccount P (op.entry e info s.ledger.prev.now) ∧
      SameTally s s' := by
  simp only [evaluate, bind_eq_ok, ensure_eq_ok, orThrow_eq_ok, pure_eq_ok, exists_const,
    Prod.exists] at h
  obtain ⟨e, he, hret, _, hkey, -, -, info, fee, hinfo, required, -, rfl⟩ := h
  exact ⟨e, info, fee, he, hret, hkey, hinfo, rfl, ⟨rfl, rfl, rfl, rfl, rfl⟩⟩

/-- An update keeps what a delegate has been paid. -/
theorem UpdateAccountOperation.payBalance_delegateInfo {op : UpdateAccountOperation}
    {e : AccountEntry} {n : Nat} {info : Option DelegateStats} {fee : Option ShareType}
    (h : op.delegateInfo e n = .ok (info, fee)) :
    ({ e with delegateInfo := info } : AccountEntry).payBalance = e.payBalance := by
  unfold delegateInfo at h
  split at h
  · rename_i d hd
    simp only [bind_eq_ok, ensure_eq_ok, pure_eq_ok, exists_const, Prod.mk.injEq] at h
    obtain ⟨-, -, rfl, -⟩ := h
    simp only [AccountEntry.payBalance, hd]
  · rename_i hd
    split_ifs at h
    · simp only [bind_eq_ok, pure_eq_ok, Prod.mk.injEq] at h
      obtain ⟨_, -, rfl, -⟩ := h
      simp only [AccountEntry.payBalance, hd, DelegateStats.fresh]
    · simp only [Except.ok.injEq, Prod.mk.injEq] at h
      simp only [AccountEntry.payBalance, hd, ← h.1]

theorem WithdrawPayOperation.evaluate_ok {op : WithdrawPayOperation}
    (h : op.evaluate P ctx s = .ok s') :
    ∃ e stats, s.ledger.getAccount op.accountId.natAbs = some e ∧ e.delegateInfo = some stats ∧
      ctx.accountHasSigned P e ∧
      s'.ledger = s.ledger.storeAccount P
        { e with delegateInfo := some { stats with payBalance := stats.payBalance - op.amount } } ∧
      s'.balance = tallyAdd s.balance 0 op.amount ∧
      Recorded (-Asset.movement ⟨op.amount, 0⟩) s s' := by
  simp only [evaluate, bind_eq_ok, ensure_eq_ok, orThrow_eq_ok, pure_eq_ok, exists_const] at h
  obtain ⟨-, e, he, stats, hstats, -, hsigned, pay, hpay, votes, -, s₁, h₁, rfl⟩ := h
  have hrecorded : Recorded (-Asset.movement ⟨op.amount, 0⟩) s s₁ :=
    (OpState.addBalance_recorded h₁).same_left ⟨rfl, rfl, rfl, rfl, rfl⟩
  obtain ⟨_, _, rfl⟩ := OpState.addBalance_eq_ok h₁
  rw [safeSub_eq_ok hpay]
  exact ⟨e, stats, he, hstats, hsigned, rfl, rfl, hrecorded.same_right ⟨rfl, rfl, rfl, rfl, rfl⟩⟩

/-! ## Assets -/

theorem CreateAssetOperation.evaluate_ok {op : CreateAssetOperation}
    (h : op.evaluate P s = .ok s') :
    ∃ n issuer, s.ledger.lastAssetId = .ok n ∧ s.ledger.getAsset (n + 1) = none ∧
      s.ledger.getAssetBySymbol op.symbol = none ∧
      s'.ledger = (s.ledger.storeProperty .lastAssetId (.id (n + 1))).storeAsset
        (op.entry P (n + 1) issuer s.ledger.prev.now) ∧
      SameTally s s' := by
  simp only [evaluate, bind_eq_ok, ensure_eq_ok, pure_eq_ok, exists_const,
    Option.isNone_iff_eq_none, Prod.exists] at h
  obtain ⟨-, hsym, -, n, hn, hfree, issuer, -, -, -, required, -, l, id, hl, rfl⟩ := h
  obtain ⟨m, hm, rfl, rfl⟩ := Ledger.newAssetId_ok hl
  rw [hn] at hm
  simp only [Except.ok.injEq] at hm
  subst hm
  exact ⟨n, issuer, hn, hfree, hsym, rfl, ⟨rfl, rfl, rfl, rfl, rfl⟩⟩

/-- The asset entries agree in everything the supply and the issue of shares depend on. -/
structure AssetEntry.SameShares (a b : AssetEntry) : Prop where
  id : b.id = a.id
  symbol : b.symbol = a.symbol
  supply : b.currentShareSupply = a.currentShareSupply
  fees : b.collectedFees = a.collectedFees

theorem UpdateAssetOperation.apply_ok {op : UpdateAssetOperation} {a b : AssetEntry}
    (h : op.apply a = .ok b) : a.SameShares b ∧ b.issuerAccountId = a.issuerAccountId := by
  simp only [apply, bind_eq_ok, ensure_eq_ok, pure_eq_ok, exists_const] at h
  obtain ⟨-, -, -, rfl⟩ := h
  exact ⟨⟨rfl, rfl, rfl, rfl⟩, rfl⟩

theorem UpdateAssetOperation.evaluate_ok {op : UpdateAssetOperation}
    (h : op.evaluate ctx s = .ok s') :
    ∃ a b, s.ledger.getAsset op.assetId = some a ∧ ctx.verifyAuthority a.authority ∧
      a.SameShares b ∧ b.issuerAccountId = a.issuerAccountId ∧
      s'.ledger = s.ledger.storeAsset b ∧ SameTally s s' := by
  simp only [evaluate, bind_eq_ok, ensure_eq_ok, orThrow_eq_ok, pure_eq_ok, exists_const] at h
  obtain ⟨a, ha, -, -, hauth, b, hb, rfl⟩ := h
  obtain ⟨hsame, hissuer⟩ := UpdateAssetOperation.apply_ok hb
  refine ⟨a, _, ha, hauth, ?_, ?_, rfl, ⟨rfl, rfl, rfl, rfl, rfl⟩⟩
  · exact ⟨hsame.id, hsame.symbol, hsame.supply, hsame.fees⟩
  · exact hissuer

theorem UpdateAssetExtOperation.evaluate_ok {op : UpdateAssetExtOperation}
    (h : op.evaluate ctx s = .ok s') :
    ∃ a b, s.ledger.getAsset op.assetId = some a ∧ ctx.verifyAuthority a.authority ∧
      a.SameShares b ∧ b.issuerAccountId = op.issuerAccountId ∧
      s'.ledger = s.ledger.storeAsset b ∧ SameTally s s' := by
  simp only [evaluate, bind_eq_ok, ensure_eq_ok, orThrow_eq_ok, pure_eq_ok, exists_const] at h
  obtain ⟨a, ha, -, -, hauth, b, hb, -, -, -, -, rfl⟩ := h
  obtain ⟨hsame, -⟩ := UpdateAssetOperation.apply_ok hb
  refine ⟨a, _, ha, hauth, ?_, ?_, rfl, ⟨rfl, rfl, rfl, rfl, rfl⟩⟩
  · exact ⟨hsame.id, hsame.symbol, hsame.supply, hsame.fees⟩
  · rfl

theorem IssueAssetOperation.evaluate_ok {op : IssueAssetOperation}
    (h : op.evaluate ctx s = .ok s') :
    ∃ a b, s.ledger.getAsset op.amount.assetId = some a ∧ a.isUserIssued ∧
      ctx.verifyAuthority a.authority ∧ b.id = a.id ∧ b.symbol = a.symbol ∧
      b.currentShareSupply = a.currentShareSupply + op.amount.amount ∧
      b.collectedFees = a.collectedFees ∧ b.issuerAccountId = a.issuerAccountId ∧
      s'.ledger = s.ledger.storeAsset b ∧
      s'.balance = tallyAdd s.balance op.amount.assetId op.amount.amount ∧
      Recorded (-op.amount.movement) s s' := by
  simp only [evaluate, bind_eq_ok, ensure_eq_ok, orThrow_eq_ok, pure_eq_ok, exists_const] at h
  obtain ⟨a, ha, huser, hauth, -, -, s₁, h₁, rfl⟩ := h
  have hrecorded := OpState.addBalance_recorded h₁
  obtain ⟨_, _, rfl⟩ := OpState.addBalance_eq_ok h₁
  refine ⟨a, _, ha, huser, hauth, ?_, ?_, ?_, ?_, ?_, rfl, rfl,
    hrecorded.same_right ⟨rfl, rfl, rfl, rfl, rfl⟩⟩ <;> rfl

/-! ## Slates, messages, storages and events -/

theorem DefineSlateOperation.evaluate_ok {op : DefineSlateOperation}
    (h : op.evaluate P s = .ok s') :
    s' = s ∨ s' = { s with ledger := s.ledger.storeSlate P ⟨op.ids, []⟩ } := by
  simp only [evaluate, bind_eq_ok, ensure_eq_ok, exists_const] at h
  obtain ⟨-, -, -, h⟩ := h
  split at h
  · simp only [bind_eq_ok, ensure_eq_ok, pure_eq_ok, exists_const] at h
    exact .inl h.2.symm
  · rw [pure_eq_ok] at h
    exact .inr h.symm

theorem ImessageMemoOperation.evaluate_ok {op : ImessageMemoOperation}
    (h : op.evaluate s = .ok s') : s'.ledger = s.ledger ∧ SameTally s s' := by
  simp only [evaluate, bind_eq_ok, ensure_eq_ok, pure_eq_ok, exists_const] at h
  obtain ⟨-, -, required, -, rfl⟩ := h
  exact ⟨rfl, ⟨rfl, rfl, rfl, rfl, rfl⟩⟩

theorem StorageOperation.evaluate_ok {op : StorageOperation} (h : op.evaluate ctx s = .ok s') :
    ctx.evaluateContractResult ∧
      ∃ m, s' = { s with ledger := s.ledger.storeStorage ⟨op.contractId, m⟩ } := by
  simp only [evaluate, bind_eq_ok, ensure_eq_ok, pure_eq_ok, exists_const] at h
  obtain ⟨hres, -, m, -, rfl⟩ := h
  exact ⟨hres, m, rfl⟩

theorem EventOperation.evaluate_ok {op : EventOperation} (h : op.evaluate ctx s = .ok s') :
    s'.ledger = s.ledger ∧ SameTally s s' := by
  simp only [evaluate, bind_eq_ok, ensure_eq_ok, orThrow_eq_ok, pure_eq_ok, exists_const] at h
  obtain ⟨-, _, -, -, rfl⟩ := h
  exact ⟨rfl, ⟨rfl, rfl, rfl, rfl, rfl⟩⟩

end Achain
