import Achain.Proofs.OpSpecs

/-!
# What the contract operations do

The operations of an origin transaction build the result and leave the ledger as it was, but for
the contract entry a registration stores and removes again and the contract balance a transfer
credits and puts back. The result starts with the origin transaction, whatever the contract did.
-/

namespace Achain

open Table Result

variable {P : Primitives} {V : Vm} {ctx : OpContext} {s s' : OpState}

/-- Only the result under construction, its fees and the contract's remaining balance differ. -/
def ResultOnly (s s' : OpState) : Prop :=
  s' = { s with
    pResultTrx := s'.pResultTrx
    requiredFees := s'.requiredFees
    contractBalanceRemain := s'.contractBalanceRemain }

namespace ResultOnly

theorem refl (s : OpState) : ResultOnly s s := rfl

theorem trans {s₁ s₂ s₃ : OpState} (h₁ : ResultOnly s₁ s₂) (h₂ : ResultOnly s₂ s₃) :
    ResultOnly s₁ s₃ := by
  unfold ResultOnly at *
  rw [h₁] at h₂
  exact h₂

theorem ledger (h : ResultOnly s s') : s'.ledger = s.ledger := by
  rw [h]

theorem sameTally (h : ResultOnly s s') : SameTally s s' := by
  rw [h]
  exact ⟨rfl, rfl, rfl, rfl, rfl⟩

theorem foldl {α : Type} {f : OpState → α → OpState} (h : ∀ s a, ResultOnly s (f s a)) :
    ∀ (as : List α) (s : OpState), ResultOnly s (as.foldl f s)
  | [], s => refl s
  | a :: as, s => (h s a).trans (foldl h as (f s a))

theorem applyEffect (s : OpState) (e : VmEffect) : ResultOnly s (Achain.applyEffect P s e) := by
  cases e with
  | transfer contract toAddress symbol amount =>
    simp only [Achain.applyEffect]
    split <;> rfl
  | storage op => rfl
  | event op => rfl

theorem pushClosing (s : OpState) (closing : List StorageOperation) :
    ResultOnly s (Achain.pushClosing s closing) := by
  refine foldl (fun s op => ?_) closing s
  rfl

end ResultOnly

/-! ## The shape of a result -/

/-- The operations an executed contract can leave in a result. -/
def Operation.isResultOp : Operation → Bool
  | .contractInfo _ | .withdrawContract _ | .depositContract _ | .balancesWithdraw _ | .deposit _
  | .storage _ | .event _ | .onDestroy _ | .onUpgrade _ | .onCallSuccess => true
  | _ => false

/-- A result of the transaction: a new transaction with an expiration whose operations start with
it and go on with those an executed contract can leave. -/
def ResultOf (trx : SignedTransaction) (e : TimePointSec) (r : SignedTransaction) : Prop :=
  ∃ rest, rest.all Operation.isResultOp = true ∧ r = { SignedTransaction.empty with
    expiration := e
    operations := .transaction trx :: rest }

/-- A new transaction in which at most the expiration and the operations are set. -/
def Blank (r : SignedTransaction) : Prop :=
  ∃ e ops, r = { SignedTransaction.empty with expiration := e, operations := ops }

variable {trx r : SignedTransaction} {e : TimePointSec} {timed : Prop}

theorem Blank.empty : Blank .empty := ⟨0, [], rfl⟩

namespace ResultOf

theorem blank (h : ResultOf trx e r) : Blank r := by
  obtain ⟨rest, -, h⟩ := h
  exact ⟨e, _, h⟩

theorem append (h : ResultOf trx e r) {ops : List Operation}
    (hops : ops.all Operation.isResultOp = true) :
    ResultOf trx e { r with operations := r.operations ++ ops } := by
  obtain ⟨rest, hrest, rfl⟩ := h
  refine ⟨rest ++ ops, ?_, rfl⟩
  rw [List.all_append, hrest, hops]
  rfl

theorem pushOp (h : ResultOf trx e r) {op : Operation} (hop : op.isResultOp = true) :
    ResultOf trx e (r.pushOp op) :=
  h.append (by simpa using hop)

theorem start (trx : SignedTransaction) (h : Blank r) :
    ∃ e, ResultOf trx e { r with operations := [Operation.transaction trx] } := by
  obtain ⟨e, ops, rfl⟩ := h
  exact ⟨e, [], rfl, rfl⟩

theorem resize (h : ResultOf trx e r) :
    ResultOf trx e { r with operations := r.operations.take 1 } := by
  obtain ⟨rest, -, rfl⟩ := h
  exact ⟨[], rfl, rfl⟩

theorem setExpiration (h : ResultOf trx e r) (e' : TimePointSec) :
    ResultOf trx e' { r with expiration := e' } := by
  obtain ⟨rest, hrest, rfl⟩ := h
  exact ⟨rest, hrest, rfl⟩

theorem setUsedAmount_all (id : BalanceIdType) (amount : ShareType) :
    ∀ ops : List Operation, ops.all Operation.isResultOp = true →
      (setUsedAmount id amount ops).all Operation.isResultOp = true
  | [], h => h
  | op :: ops, h => by
    rw [List.all_cons, Bool.and_eq_true] at h
    have ih := setUsedAmount_all id amount ops h.2
    cases op with
    | withdrawContract op =>
      unfold setUsedAmount
      split_ifs
      · rw [List.all_cons, h.2]
        rfl
      · rw [List.all_cons, ih]
        rfl
    | _ =>
      simp only [setUsedAmount, List.all_cons, ih, Bool.and_true]
      exact h.1

theorem withdrawFromContract_head {l : Ledger} {amount : ShareType} {c : ContractIdType}
    {rest ops : List Operation} (hrest : rest.all Operation.isResultOp = true)
    (h : withdrawFromContract P l amount c (.transaction trx :: rest) = .ok ops) :
    ∃ rest', rest'.all Operation.isResultOp = true ∧ ops = .transaction trx :: rest' := by
  simp only [withdrawFromContract, bind_eq_ok, ensure_eq_ok, orThrow_eq_ok, exists_const] at h
  obtain ⟨_, -, -, h⟩ := h
  split at h
  · simp only [bind_eq_ok, ensure_eq_ok, pure_eq_ok, exists_const] at h
    refine ⟨_, ?_, h.2.symm⟩
    rw [List.append_eq, List.all_append, hrest]
    rfl
  · rw [pure_eq_ok] at h
    exact ⟨_, setUsedAmount_all _ _ rest hrest, h.symm⟩

theorem transferAssetFromContract_head {l : Ledger} {amount : ShareType} {symbol : Str}
    {c : ContractIdType} {a : Address} {rest ops : List Operation}
    (hrest : rest.all Operation.isResultOp = true)
    (h : transferAssetFromContract P l amount symbol c a (.transaction trx :: rest) = .ok ops) :
    ∃ rest', rest'.all Operation.isResultOp = true ∧ ops = .transaction trx :: rest' := by
  simp only [transferAssetFromContract, bind_eq_ok, ensure_eq_ok, orThrow_eq_ok, pure_eq_ok,
    exists_const] at h
  obtain ⟨_, -, -, ops', h', -, rfl⟩ := h
  obtain ⟨rest', hrest', rfl⟩ := withdrawFromContract_head hrest h'
  refine ⟨_, ?_, rfl⟩
  rw [List.append_eq, List.all_append, hrest']
  rfl

theorem applyEffect (h : ResultOf trx e s.pResultTrx) (effect : VmEffect) :
    ResultOf trx e (Achain.applyEffect P s effect).pResultTrx := by
  cases effect with
  | transfer c a symbol amount =>
    simp only [Achain.applyEffect]
    split
    · rename_i ops hops
      obtain ⟨rest, hrest, hr⟩ := h
      rw [hr] at hops
      obtain ⟨rest', hrest', rfl⟩ := transferAssetFromContract_head hrest hops
      refine ⟨rest', hrest', ?_⟩
      rw [hr]
    · exact h
  | storage op => exact h.pushOp rfl
  | event op => exact h.pushOp rfl

theorem applyEffects : ∀ (effects : List VmEffect) {s : OpState}, ResultOf trx e s.pResultTrx →
    ResultOf trx e (effects.foldl (Achain.applyEffect P) s).pResultTrx
  | [], _, h => h
  | effect :: effects, _, h => applyEffects effects (h.applyEffect effect)

theorem pushClosing : ∀ (closing : List StorageOperation) {s : OpState},
    ResultOf trx e s.pResultTrx → ResultOf trx e (Achain.pushClosing s closing).pResultTrx
  | [], _, h => h
  | op :: closing, s, h =>
    pushClosing closing (s := { s with pResultTrx := s.pResultTrx.pushOp (.storage op) })
      (h.pushOp rfl)

end ResultOf

/-! ## A contract run -/

theorem runContract_ok {r : ContractRun} {outcome : RunOutcome}
    (h : runContract P V r ctx s = .ok (s', outcome)) :
    (s' = s ∧ outcome = .outOfMoney []) ∨
      ∃ effects : List VmEffect, s' = effects.foldl (applyEffect P) (r.start s) := by
  unfold runContract at h
  split_ifs at h with hlimit
  · simp only [Except.ok.injEq, Prod.mk.injEq] at h
    exact .inl ⟨h.1.symm, h.2.symm⟩
  · right
    dsimp only at h
    split at h
    case h_4 => simp at h
    all_goals
      simp only [Except.ok.injEq, Prod.mk.injEq] at h
      exact ⟨_, h.1.symm⟩

/-- What the operation does before the run concerns the result, which it starts with the origin
transaction; `timed` says whether the expiration is set already. -/
structure ContractRun.Starts (r : ContractRun) (trx : SignedTransaction) (timed : Prop) :
    Prop where
  only : ∀ s, ResultOnly s (r.start s)
  result : ∀ s, Blank s.pResultTrx →
    ∃ e, ResultOf trx e (r.start s).pResultTrx ∧ (timed → e = trx.expiration)

theorem runContract_only {r : ContractRun} {outcome : RunOutcome} (hr : r.Starts ctx.trx timed)
    (h : runContract P V r ctx s = .ok (s', outcome)) : ResultOnly s s' := by
  obtain ⟨rfl, -⟩ | ⟨effects, rfl⟩ := runContract_ok h
  · exact .refl _
  · exact (hr.only s).trans (.foldl ResultOnly.applyEffect effects _)

theorem runContract_result {r : ContractRun} {outcome : RunOutcome}
    (hs : ResultOf ctx.trx e (r.start s).pResultTrx)
    (h : runContract P V r ctx s = .ok (s', outcome)) :
    outcome = .outOfMoney [] ∨ ResultOf ctx.trx e s'.pResultTrx := by
  obtain ⟨-, rfl⟩ | ⟨effects, rfl⟩ := runContract_ok h
  · exact .inl rfl
  · exact .inr (.applyEffects effects hs)

theorem runContract_blank {r : ContractRun} {outcome : RunOutcome} (hr : r.Starts ctx.trx timed)
    (hs : Blank s.pResultTrx) (h : runContract P V r ctx s = .ok (s', outcome)) :
    Blank s'.pResultTrx := by
  obtain ⟨rfl, -⟩ | ⟨effects, rfl⟩ := runContract_ok h
  · exact hs
  · obtain ⟨e, he, -⟩ := hr.result s hs
    exact (ResultOf.applyEffects effects he).blank

/-- What every end of an execution has in common: only the result is changed, and it is a result of
the origin transaction. -/
def Executed (ctx : OpContext) (timed : Prop) (s s' : OpState) : Prop :=
  ResultOnly s s' ∧ (Blank s.pResultTrx →
    ∃ e, ResultOf ctx.trx e s'.pResultTrx ∧ (timed → e = ctx.trx.expiration))

theorem outOfMoneyResult_ok {balances : Map BalanceIdType ShareType} {required : ShareType}
    (h : outOfMoneyResult ctx balances required s = .ok s') :
    ResultOnly s s' ∧
      (Blank s.pResultTrx → ResultOf ctx.trx ctx.trx.expiration s'.pResultTrx) := by
  simp only [outOfMoneyResult, bind_eq_ok, ensure_eq_ok, pure_eq_ok, exists_const] at h
  obtain ⟨-, w, -, rfl⟩ := h
  refine ⟨rfl, fun hs => ?_⟩
  obtain ⟨e, he⟩ := ResultOf.start ctx.trx hs
  exact (he.append rfl).setExpiration _

theorem failedResult_ok {balances : Map BalanceIdType ShareType} {fee : Asset} {n : Int}
    (h : failedResult ctx balances fee n s = .ok s') :
    ResultOnly s s' ∧ (ResultOf ctx.trx e s.pResultTrx →
      ResultOf ctx.trx ctx.trx.expiration s'.pResultTrx) := by
  simp only [failedResult, bind_eq_ok, ensure_eq_ok, pure_eq_ok, exists_const] at h
  obtain ⟨-, _, -, w, -, rfl⟩ := h
  exact ⟨rfl, fun hs => (hs.resize.append rfl).setExpiration _⟩

/-! ## The operations of an origin transaction -/

theorem startResult_starts {r : ContractRun} (h : r.start = startResult ctx.trx) :
    r.Starts ctx.trx False := by
  constructor
  · intro s
    rw [h]
    rfl
  · intro s hs
    rw [h]
    obtain ⟨e, he⟩ := ResultOf.start ctx.trx hs
    exact ⟨e, he, False.elim⟩

theorem startWith_starts {r : ContractRun} {op : Operation}
    (hop : op.isResultOp = true)
    (h : r.start = fun s => setExpiration ctx.trx (pushResult (startResult ctx.trx s) [op])) :
    r.Starts ctx.trx True := by
  constructor
  · intro s
    rw [h]
    rfl
  · intro s hs
    rw [h]
    obtain ⟨e, he⟩ := ResultOf.start ctx.trx hs
    exact ⟨_, (he.append (by simpa using hop)).setExpiration ctx.trx.expiration, fun _ => rfl⟩

/-- The three ends of an execution, for an operation whose result after a good end is that of the
run with some operations added, and which may put another ledger in place after the run. -/
theorem executed_over_run (s' : OpState) (l : Ledger) {r : ContractRun} {outcome : RunOutcome}
    {s₁ : OpState}
    (hr : r.Starts ctx.trx timed) (hrun : runContract P V r ctx s = .ok (s₁, outcome))
    (hdone : ∀ n c, outcome = .done n c → ∃ s₂, s' = pushClosing s₂ c ∧
      ResultOnly { s₁ with ledger := l } s₂ ∧
      ∃ ops, s₂.pResultTrx = (pushResult s₁ ops).pResultTrx ∧
        ops.all Operation.isResultOp = true)
    (hout : ∀ c, outcome = .outOfMoney c → ∃ b q s₂ s₃,
      outOfMoneyResult ctx b q { s₁ with ledger := l } = .ok s₂ ∧
      ResultOnly s₂ s₃ ∧ s₃.pResultTrx = s₂.pResultTrx ∧ s' = pushClosing s₃ c)
    (hfail : ∀ n c, outcome = .failed n c → ∃ b f s₂,
      failedResult ctx b f n { s₁ with ledger := l } = .ok s₂ ∧ s' = pushClosing s₂ c) :
    Executed ctx timed { s with ledger := l } s' := by
  have honly : ResultOnly { s with ledger := l } { s₁ with ledger := l } := by
    rw [runContract_only hr hrun]
    rfl
  cases outcome with
  | done n c =>
    obtain ⟨s₂, rfl, h₂, ops, hp, hops⟩ := hdone n c rfl
    refine ⟨honly.trans (h₂.trans (.pushClosing s₂ c)), fun hs => ?_⟩
    obtain ⟨e, he, htimed⟩ := hr.result s hs
    obtain h | h := runContract_result he hrun
    · simp at h
    · refine ⟨e, .pushClosing c ?_, htimed⟩
      rw [hp]
      exact h.append hops
  | outOfMoney c =>
    obtain ⟨b, q, s₂, s₃, h₂, h₃, hp, rfl⟩ := hout c rfl
    obtain ⟨ho, hres⟩ := outOfMoneyResult_ok h₂
    refine ⟨honly.trans (ho.trans (h₃.trans (.pushClosing s₃ c))), fun hs => ?_⟩
    refine ⟨ctx.trx.expiration, .pushClosing c ?_, fun _ => rfl⟩
    rw [hp]
    have hblank : Blank s₁.pResultTrx := runContract_blank (s := s) hr hs hrun
    exact hres hblank
  | failed n c =>
    obtain ⟨b, f, s₂, h₂, rfl⟩ := hfail n c rfl
    refine ⟨honly.trans ((failedResult_ok (e := 0) h₂).1.trans (.pushClosing s₂ c)), fun hs => ?_⟩
    obtain ⟨e, he, -⟩ := hr.result s hs
    obtain h | h := runContract_result he hrun
    · simp at h
    · exact ⟨_, .pushClosing c ((failedResult_ok h₂).2 h), fun _ => rfl⟩

theorem executed_of_run {r : ContractRun} {outcome : RunOutcome} {s₁ : OpState}
    (hr : r.Starts ctx.trx timed) (hrun : runContract P V r ctx s = .ok (s₁, outcome))
    (hdone : ∀ n c, outcome = .done n c → ∃ s₂, s' = pushClosing s₂ c ∧
      ResultOnly s₁ s₂ ∧ ∃ ops, s₂.pResultTrx = (pushResult s₁ ops).pResultTrx ∧
        ops.all Operation.isResultOp = true)
    (hout : ∀ c, outcome = .outOfMoney c → ∃ b q s₂ s₃, outOfMoneyResult ctx b q s₁ = .ok s₂ ∧
      ResultOnly s₂ s₃ ∧ s₃.pResultTrx = s₂.pResultTrx ∧ s' = pushClosing s₃ c)
    (hfail : ∀ n c, outcome = .failed n c → ∃ b f s₂, failedResult ctx b f n s₁ = .ok s₂ ∧
      s' = pushClosing s₂ c) : Executed ctx timed s s' := by
  have h := executed_over_run s' s₁.ledger hr hrun hdone hout hfail
  rw [(runContract_only hr hrun).ledger] at h
  exact h

theorem RegisterContractOperation.execute_ok {op : RegisterContractOperation}
    (h : op.execute P V ctx s = .ok s') : Executed ctx True s s' := by
  simp only [execute, bind_eq_ok, ensure_eq_ok, exists_const, Prod.exists] at h
  obtain ⟨-, s₁, outcome, hrun, h⟩ := h
  refine executed_of_run (startWith_starts rfl rfl) hrun ?_ ?_ ?_
  · rintro n c rfl
    simp only [bind_eq_ok, pure_eq_ok] at h
    obtain ⟨_, -, _, -, _, -, _, -, w, -, rfl⟩ := h
    exact ⟨_, rfl, rfl, _, rfl, rfl⟩
  · rintro c rfl
    simp only [bind_eq_ok, pure_eq_ok] at h
    obtain ⟨_, -, q, -, s₂, h₂, rfl⟩ := h
    exact ⟨_, q, s₂, s₂, h₂, rfl, rfl, rfl⟩
  · rintro n c rfl
    simp only [bind_eq_ok, pure_eq_ok] at h
    obtain ⟨s₂, h₂, rfl⟩ := h
    exact ⟨_, _, s₂, h₂, rfl⟩

theorem UpgradeContractOperation.execute_ok {op : UpgradeContractOperation}
    {entry : ContractEntry} {margin : BalanceEntry}
    (h : op.execute P V ctx entry margin s = .ok s') : Executed ctx False s s' := by
  simp only [execute, bind_eq_ok, ensure_eq_ok, exists_const, Prod.exists] at h
  obtain ⟨-, s₁, outcome, hrun, h⟩ := h
  refine executed_of_run (startResult_starts rfl) hrun ?_ ?_ ?_
  · rintro n c rfl
    simp only [bind_eq_ok, pure_eq_ok] at h
    obtain ⟨_, -, _, -, w, -, fees, -, rfl⟩ := h
    exact ⟨_, rfl, rfl, _, rfl, rfl⟩
  · rintro c rfl
    simp only [bind_eq_ok, pure_eq_ok] at h
    obtain ⟨q, -, s₂, h₂, rfl⟩ := h
    refine ⟨_, q, s₂, _, h₂, ?_, ?_, rfl⟩ <;> rfl
  · rintro n c rfl
    simp only [bind_eq_ok, pure_eq_ok] at h
    obtain ⟨s₂, h₂, rfl⟩ := h
    exact ⟨_, _, s₂, h₂, rfl⟩

theorem DestroyContractOperation.execute_ok {op : DestroyContractOperation}
    {entry : ContractEntry} {margin : BalanceEntry}
    (h : op.execute P V ctx entry margin s = .ok s') : Executed ctx False s s' := by
  simp only [execute, bind_eq_ok, ensure_eq_ok, exists_const, Prod.exists] at h
  obtain ⟨-, remain, -, s₁, outcome, hrun, h⟩ := h
  have hex : Executed ctx False { s with contractBalanceRemain := remain } s' := by
    refine executed_of_run (startResult_starts rfl) hrun ?_ ?_ ?_
    · rintro n c rfl
      simp only [bind_eq_ok, pure_eq_ok] at h
      obtain ⟨_, -, _, -, w, -, rfl⟩ := h
      exact ⟨_, rfl, rfl, _, rfl, rfl⟩
    · rintro c rfl
      simp only [bind_eq_ok, pure_eq_ok] at h
      obtain ⟨q, -, s₂, h₂, rfl⟩ := h
      refine ⟨_, q, s₂, _, h₂, ?_, ?_, rfl⟩ <;> rfl
    · rintro n c rfl
      simp only [bind_eq_ok, pure_eq_ok] at h
      obtain ⟨s₂, h₂, rfl⟩ := h
      exact ⟨_, _, s₂, h₂, rfl⟩
  refine ⟨ResultOnly.trans ?_ hex.1, hex.2⟩
  rfl

theorem CallContractOperation.execute_ok {op : CallContractOperation} {all required : ShareType}
    (h : op.execute P V ctx all required s = .ok s') : Executed ctx True s s' := by
  simp only [execute, bind_eq_ok, ensure_eq_ok, exists_const, Prod.exists] at h
  obtain ⟨-, -, s₁, outcome, hrun, h⟩ := h
  refine executed_of_run (startWith_starts rfl rfl) hrun ?_ ?_ ?_
  · rintro n c rfl
    simp only [bind_eq_ok, pure_eq_ok] at h
    obtain ⟨w, -, rfl⟩ := h
    exact ⟨_, rfl, rfl, _, rfl, rfl⟩
  · rintro c rfl
    simp only [bind_eq_ok, pure_eq_ok] at h
    obtain ⟨s₂, h₂, rfl⟩ := h
    exact ⟨_, _, s₂, s₂, h₂, rfl, rfl, rfl⟩
  · rintro n c rfl
    simp only [bind_eq_ok, pure_eq_ok] at h
    obtain ⟨s₂, h₂, rfl⟩ := h
    exact ⟨_, _, s₂, h₂, rfl⟩

/-- The ledger with the balance of a transfer put back as it was, or a new one of zero. -/
def TransferContractOperation.restored (op : TransferContractOperation) (P : Primitives)
    (l : Ledger) : Ledger :=
  l.storeBalance P (op.balanceEntry P l)

theorem Ledger.storeBalance_storeBalance {l : Ledger} {e e' : BalanceEntry}
    (h : P.balanceId e = P.balanceId e') :
    (l.storeBalance P e).storeBalance P e' = l.storeBalance P e' := by
  unfold storeBalance BalanceEntry.store BalanceDbInterface.balanceInsertIntoIdMap
    instBalanceDbInterfaceLedger
  simp only [h, Overlay.insert_insert]

theorem TransferContractOperation.execute_ok {op : TransferContractOperation}
    (h : op.execute P V ctx s = .ok s') :
    ∃ l, (l = s.ledger ∨ l = op.restored P s.ledger) ∧
      Executed ctx False { s with ledger := l } s' := by
  simp only [execute, bind_eq_ok, ensure_eq_ok, exists_const, Prod.exists] at h
  obtain ⟨-, s₁, outcome, hrun, h⟩ := h
  have hledger := (runContract_only (startResult_starts rfl) hrun).ledger
  generalize hl : (if getLimit op.costlimit.amount ≤ 0 then s₁.ledger
    else s₁.ledger.storeBalance P (op.balanceEntry P s.ledger)) = l at h
  refine ⟨l, ?_, ?_⟩
  · rw [← hl, hledger]
    split_ifs
    · exact .inl rfl
    · exact .inr (Ledger.storeBalance_storeBalance rfl)
  · have hex := executed_over_run s' l (startResult_starts rfl) hrun ?_ ?_ ?_
    · exact hex
    · rintro n c rfl
      simp only [bind_eq_ok, pure_eq_ok] at h
      obtain ⟨_, -, _, -, _, -, w, -, rfl⟩ := h
      exact ⟨_, rfl, rfl, _, rfl, rfl⟩
    · rintro c rfl
      simp only [bind_eq_ok, pure_eq_ok] at h
      obtain ⟨q, -, s₂, h₂, rfl⟩ := h
      exact ⟨_, q, s₂, s₂, h₂, rfl, rfl, rfl⟩
    · rintro n c rfl
      simp only [bind_eq_ok, pure_eq_ok] at h
      obtain ⟨s₂, h₂, rfl⟩ := h
      exact ⟨_, _, s₂, h₂, rfl⟩

/-! ## The evaluation of an origin operation -/

/-- The ledgers an origin operation can leave: the one it found, that one after a registration
stored and removed its contract, or with the balance of a transfer put back. -/
inductive OriginLedger (P : Primitives) (l : Ledger) : Ledger → Prop
  | same : OriginLedger P l l
  | registered (e : ContractEntry) (hfree : l.getContract e.id = none)
      (hname : e.contractName = []) :
      OriginLedger P l (ContractEntry.remove (l.storeContract e) e.id)
  | restored (op : TransferContractOperation) (hasset : op.transferAmount.assetId = 0) :
      OriginLedger P l (op.restored P l)

/-- What an origin operation does: it records its operator, who has signed, and builds the result
of its transaction. -/
structure OriginEvaluated (P : Primitives) (ctx : OpContext) (s s' : OpState) : Prop where
  notResult : ctx.evaluateContractResult = false
  signed : ctx.checkSignature (P.address s'.contractOperator)
  ledger : OriginLedger P s.ledger s'.ledger
  only : ResultOnly { s with ledger := s'.ledger, contractOperator := s'.contractOperator } s'
  result : ctx.skipexec = false → Blank s.pResultTrx →
    ResultOf ctx.trx ctx.trx.expiration s'.pResultTrx

theorem OriginEvaluated.sameTally (h : OriginEvaluated P ctx s s') : SameTally s s' :=
  ⟨h.only.sameTally.balance, h.only.sameTally.withdraws, h.only.sameTally.deposits,
    h.only.sameTally.deltas, h.only.sameTally.currentOpIndex⟩

theorem unlessSkipped_ok {x : Except Exn OpState} (h : ctx.unlessSkipped s x = .ok s') :
    (ctx.skipexec = true ∧ s' = s) ∨ (ctx.skipexec = false ∧ x = .ok s') := by
  unfold OpContext.unlessSkipped at h
  split_ifs at h with hskip
  · simp only [Except.ok.injEq] at h
    exact .inl ⟨hskip, h.symm⟩
  · exact .inr ⟨by simpa using hskip, h⟩

/-- An operation that has recorded its operator, who has signed, runs what it runs. -/
theorem OriginEvaluated.of_executed {timed : Prop} {s₀ s₁ : OpState}
    (h : Executed ctx timed s₀ s₁) (hres : ctx.evaluateContractResult = false)
    (hsigned : ctx.checkSignature (P.address s₀.contractOperator))
    (hledger : OriginLedger P s.ledger s₀.ledger)
    (hrecorded : ResultOnly { s with ledger := s₀.ledger, contractOperator := s₀.contractOperator } s₀)
    (hstart : s₀.pResultTrx = s.pResultTrx) (honly : ResultOnly s₁ s')
    (hresult : ∀ e, (timed → e = ctx.trx.expiration) → ResultOf ctx.trx e s₁.pResultTrx →
      ResultOf ctx.trx ctx.trx.expiration s'.pResultTrx) : OriginEvaluated P ctx s s' := by
  have hs' : ResultOnly s₀ s' := h.1.trans honly
  have hledger' : s'.ledger = s₀.ledger := by rw [hs']
  have hoperator : s'.contractOperator = s₀.contractOperator := by rw [hs']
  refine ⟨hres, ?_, ?_, ?_, fun _ hblank => ?_⟩
  · rw [hoperator]
    exact hsigned
  · rw [hledger']
    exact hledger
  · rw [hledger', hoperator]
    exact hrecorded.trans hs'
  · obtain ⟨e, he, htime⟩ := h.2 (hstart ▸ hblank)
    exact hresult e htime he

theorem RegisterContractOperation.evaluate_ok {op : RegisterContractOperation}
    (h : op.evaluate P V ctx s = .ok s') : OriginEvaluated P ctx s s' := by
  simp only [evaluate, bind_eq_ok, pure_eq_ok] at h
  obtain ⟨_, hcheck, required, -, s₁, h₁, rfl⟩ := h
  simp only [check, bind_eq_ok, ensure_eq_ok, exists_const, Option.isNone_iff_eq_none] at hcheck
  obtain ⟨-, -, hres, hfree, hsigned, -⟩ := hcheck
  have hres : ctx.evaluateContractResult = false := by simpa using hres
  obtain ⟨hskip, rfl⟩ | ⟨hskip, h₁⟩ := unlessSkipped_ok h₁
  · refine ⟨hres, hsigned, .registered (op.entry P (P.id ctx.trx)) hfree rfl, rfl, ?_⟩
    simp [hskip]
  · obtain ⟨honly, hresult⟩ := RegisterContractOperation.execute_ok h₁
    refine ⟨hres, ?_, ?_, ?_, fun _ hblank => ?_⟩
    · rw [honly]
      exact hsigned
    · rw [honly]
      exact .registered (op.entry P (P.id ctx.trx)) hfree rfl
    · rw [honly]
      rfl
    · obtain ⟨e, he, htime⟩ := hresult hblank
      rw [← htime trivial]
      exact he

theorem UpgradeContractOperation.evaluate_ok {op : UpgradeContractOperation}
    (h : op.evaluate P V ctx s = .ok s') : OriginEvaluated P ctx s s' := by
  simp only [evaluate, bind_eq_ok, Prod.exists] at h
  obtain ⟨entry, margin, all, hcheck, h⟩ := h
  simp only [check, bind_eq_ok, ensure_eq_ok, orThrow_eq_ok, pure_eq_ok, exists_const,
    Prod.mk.injEq] at hcheck
  obtain ⟨-, hres, _, -, -, -, -, -, -, hsigned, _, -, _, -, rfl, rfl, rfl⟩ := hcheck
  have hres : ctx.evaluateContractResult = false := by simpa using hres
  split_ifs at h with habi
  · simp only [bind_eq_ok, ensure_eq_ok, pure_eq_ok, exists_const] at h
    obtain ⟨-, s₁, h₁, rfl⟩ := h
    obtain ⟨hskip, rfl⟩ | ⟨hskip, h₁⟩ := unlessSkipped_ok h₁
    · refine ⟨hres, hsigned, .same, rfl, ?_⟩
      simp [hskip]
    · exact .of_executed (UpgradeContractOperation.execute_ok h₁) hres hsigned .same rfl rfl rfl
        fun _ _ he => he.setExpiration _
  · simp only [bind_eq_ok, ensure_eq_ok, pure_eq_ok, exists_const] at h
    obtain ⟨-, -, w, -, fees, -, rfl⟩ := h
    refine ⟨hres, hsigned, .same, rfl, fun _ hblank => ?_⟩
    obtain ⟨e, he⟩ := ResultOf.start ctx.trx hblank
    exact (he.append rfl).setExpiration _

theorem DestroyContractOperation.evaluate_ok {op : DestroyContractOperation}
    (h : op.evaluate P V ctx s = .ok s') : OriginEvaluated P ctx s s' := by
  simp only [evaluate, bind_eq_ok, Prod.exists] at h
  obtain ⟨entry, margin, all, hcheck, h⟩ := h
  simp only [check, bind_eq_ok, ensure_eq_ok, orThrow_eq_ok, pure_eq_ok, exists_const,
    Prod.mk.injEq] at hcheck
  obtain ⟨-, hres, _, -, -, -, hsigned, _, -, _, -, rfl, rfl, rfl⟩ := hcheck
  have hres : ctx.evaluateContractResult = false := by simpa using hres
  split_ifs at h with habi
  · simp only [bind_eq_ok, ensure_eq_ok, pure_eq_ok, exists_const] at h
    obtain ⟨-, s₁, h₁, rfl⟩ := h
    obtain ⟨hskip, rfl⟩ | ⟨hskip, h₁⟩ := unlessSkipped_ok h₁
    · refine ⟨hres, hsigned, .same, rfl, ?_⟩
      simp [hskip]
    · exact .of_executed (DestroyContractOperation.execute_ok h₁) hres hsigned .same rfl rfl rfl
        fun _ _ he => he.setExpiration _
  · simp only [bind_eq_ok, ensure_eq_ok, pure_eq_ok, exists_const] at h
    obtain ⟨-, -, w, -, rfl⟩ := h
    refine ⟨hres, hsigned, .same, rfl, fun _ hblank => ?_⟩
    obtain ⟨e, he⟩ := ResultOf.start ctx.trx hblank
    exact (he.append rfl).setExpiration _

theorem CallContractOperation.evaluate_ok {op : CallContractOperation}
    (h : op.evaluate P V ctx s = .ok s') : OriginEvaluated P ctx s s' := by
  simp only [evaluate, bind_eq_ok, Prod.exists] at h
  obtain ⟨all, required, hcheck, h⟩ := h
  simp only [check, bind_eq_ok, ensure_eq_ok, orThrow_eq_ok, exists_const] at hcheck
  obtain ⟨-, -, hres, _, -, -, -, -, -, hsigned, -⟩ := hcheck
  have hres : ctx.evaluateContractResult = false := by simpa using hres
  split_ifs at h with hskip
  · simp only [Except.ok.injEq] at h
    subst h
    refine ⟨hres, hsigned, .same, rfl, ?_⟩
    simp [hskip]
  · refine .of_executed (CallContractOperation.execute_ok h) hres hsigned .same rfl rfl (.refl _)
      fun e htime he => ?_
    rw [← htime trivial]
    exact he

theorem TransferContractOperation.evaluate_ok {op : TransferContractOperation}
    (h : op.evaluate P V ctx s = .ok s') : OriginEvaluated P ctx s s' := by
  simp only [evaluate, bind_eq_ok] at h
  obtain ⟨entry, hcheck, h⟩ := h
  simp only [check, bind_eq_ok, ensure_eq_ok, orThrow_eq_ok, exists_const, beq_iff_eq] at hcheck
  obtain ⟨-, hres, _, -, -, hsigned, -, hasset, -⟩ := hcheck
  have hres : ctx.evaluateContractResult = false := by simpa using hres
  split_ifs at h with habi
  · simp only [bind_eq_ok, pure_eq_ok] at h
    obtain ⟨s₁, h₁, rfl⟩ := h
    obtain ⟨hskip, rfl⟩ | ⟨hskip, h₁⟩ := unlessSkipped_ok h₁
    · refine ⟨hres, hsigned, .same, rfl, ?_⟩
      simp [hskip]
    · obtain ⟨l, hl, hexecuted⟩ := TransferContractOperation.execute_ok h₁
      refine .of_executed hexecuted hres hsigned ?_ rfl rfl rfl fun _ _ he => he.setExpiration _
      obtain rfl | rfl := hl
      · exact .same
      · exact .restored op hasset
  · simp only [bind_eq_ok, pure_eq_ok] at h
    obtain ⟨_, -, w, -, rfl⟩ := h
    refine ⟨hres, hsigned, .same, rfl, fun _ hblank => ?_⟩
    obtain ⟨e, he⟩ := ResultOf.start ctx.trx hblank
    exact (he.append rfl).setExpiration _

/-! ## The operations of a result that change contracts -/

theorem OnUpgradeOperation.evaluate_ok {op : OnUpgradeOperation} (h : op.evaluate ctx s = .ok s') :
    ctx.evaluateContractResult ∧ ∃ e, s.ledger.getContract op.id = some e ∧
      s' = { s with
        ledger := s.ledger.storeContract
          { e with level := .forever, contractName := op.name, description := op.desc } } := by
  simp only [evaluate, bind_eq_ok, ensure_eq_ok, orThrow_eq_ok, pure_eq_ok, exists_const] at h
  obtain ⟨hres, e, he, rfl⟩ := h
  exact ⟨hres, e, he, rfl⟩

theorem ContractInfoOperation.evaluate_ok {op : ContractInfoOperation}
    (h : op.evaluate P ctx s = .ok s') :
    ctx.evaluateContractResult ∧ s.ledger.getContract op.contractId = none ∧
      ∃ e : ContractEntry, e.contractName = [] ∧ e.id = op.contractId ∧ e.owner = op.owner ∧
        s' = { s with
          ledger := ContractDbInterface.contractStoreTrxidByContractid
            (ContractDbInterface.contractStoreContractidByTrxid (s.ledger.storeContract e)
              (P.id ctx.trx) op.contractId) op.contractId (P.id ctx.trx) } := by
  simp only [evaluate, bind_eq_ok, ensure_eq_ok, pure_eq_ok, exists_const,
    Option.isNone_iff_eq_none] at h
  obtain ⟨hres, hfree, -, rfl⟩ := h
  exact ⟨hres, hfree, _, rfl, rfl, rfl, rfl⟩

/-- The balance a destruction moves to the owner. -/
theorem OnDestroyOperation.move_ok {op : OnDestroyOperation} {entry : ContractEntry}
    (h : op.move P entry s = .ok s') :
    (s.ledger.getBalance (P.getBalanceId entry.id .contract) = none ∧ s' = s) ∨
      ∃ b dest date l₁, s.ledger.getBalance (P.getBalanceId entry.id .contract) = some b ∧
        b.assetId = 0 ∧ b.getSpendableBalance.amount = op.amount.amount ∧
        l₁ = s.ledger.storeBalance P { b with balance := 0 } ∧
        dest = depositEntry P l₁ (contractCondition (P.address entry.owner) .common)
          (.ofCondition (contractCondition (P.address entry.owner) .common)) ∧
        (l₁.getAsset dest.assetId).isSome ∧
        s'.ledger = l₁.storeBalance P
          (dest.credited b.getSpendableBalance.amount date s.ledger.prev.now) ∧
        s'.balance = tallyAdd (tallyAdd s.balance 0 b.getSpendableBalance.amount) dest.assetId
          (-b.getSpendableBalance.amount) ∧
        dest.dateAfter s.ledger.prev.now b.getSpendableBalance.amount
          (toUint128 (dest.balance + b.getSpendableBalance.amount)) = .ok date ∧
        Recorded (-Asset.movement ⟨b.getSpendableBalance.amount, 0⟩ +
          Asset.movement ⟨b.getSpendableBalance.amount, dest.assetId⟩) s s' := by
  unfold move at h
  split at h
  · rename_i b hb
    simp only [moveBalance, bind_eq_ok, ensure_eq_ok, orThrow_eq_ok, pure_eq_ok, exists_const,
      beq_iff_eq] at h
    obtain ⟨hzero, hamount, s₁, h₁, date, hdate, s₂, h₂, asset, hasset, rfl⟩ := h
    have hrecorded := (OpState.addBalance_recorded h₁).trans
      ((OpState.subBalance_recorded h₂).same_left ⟨rfl, rfl, rfl, rfl, rfl⟩)
    obtain ⟨_, _, rfl⟩ := OpState.addBalance_eq_ok h₁
    obtain ⟨_, _, rfl⟩ := OpState.subBalance_eq_ok h₂
    exact .inr ⟨b, _, date, _, hb, hzero, hamount, rfl, rfl, Option.isSome_of_eq_some hasset, rfl,
      rfl, hdate, hrecorded.same_right ⟨rfl, rfl, rfl, rfl, rfl⟩⟩
  · rename_i hnone
    simp only [Except.ok.injEq] at h
    exact .inl ⟨hnone, h.symm⟩

theorem OnDestroyOperation.evaluate_ok {op : OnDestroyOperation}
    (h : op.evaluate P ctx s = .ok s') :
    ctx.evaluateContractResult ∧ ∃ e s₁, s.ledger.getContract op.id = some e ∧
      op.move P e s = .ok s₁ ∧
      s' = { s₁ with ledger := s₁.ledger.storeContract { e with state := .deleted } } := by
  simp only [evaluate, bind_eq_ok, ensure_eq_ok, orThrow_eq_ok, pure_eq_ok, exists_const] at h
  obtain ⟨hres, e, he, s₁, h₁, rfl⟩ := h
  exact ⟨hres, e, s₁, he, h₁, rfl⟩

end Achain
