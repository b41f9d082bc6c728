import Achain.Vm
import Achain.Proofs.Results
import Achain.Proofs.Tally
import Achain.Proofs.Withdrawals

/-!
# What a contract run costs

An accepted contract operation withdraws one amount from its operator. It is the fixed charges and
the instructions executed, or the whole limit where the run is stopped by it, with two exceptions:
the limit a run gets is narrowed to an `int`, and a call gives back what is left of that instead of
what is left of the limit it declares; and a run that throws may have been carried over the limit
by a chain API call, and is charged what it has executed all the same.
-/

namespace Achain

open Table Result

/-! ## Counts -/

section Counts

variable {limit count n : Int} {steps : List CountedStep}

theorem incrementExecutedCount_bounds (count n : Int) :
    -2 ^ 31 ≤ incrementExecutedCount count n ∧ incrementExecutedCount count n < 2 ^ 31 := by
  have hlower := Int.le_bmod (x := count + n) (m := 2 ^ 32) (by decide)
  have hupper := Int.bmod_lt (x := count + n) (m := 2 ^ 32) (by decide)
  unfold incrementExecutedCount
  omega

theorem advance_bounds {step : CountedStep} {count' : Int} (h : step.advance limit count = some count')
    (hcount : count < 2 ^ 31) : count' < 2 ^ 31 := by
  cases step with
  | enter =>
    obtain rfl := Option.some.inj h
    split_ifs <;> omega
  | instruction =>
    simp only [CountedStep.advance] at h
    split_ifs at h
    exact Option.some.inj h ▸ (incrementExecutedCount_bounds _ _).2
  | apiCall => exact Option.some.inj h ▸ (incrementExecutedCount_bounds _ _).2

theorem foldlM_advance_bounds : ∀ {steps : List CountedStep} {count count' : Int},
    steps.foldlM (CountedStep.advance limit) count = some count' → count < 2 ^ 31 →
      count' < 2 ^ 31
  | [], _, _, h, hcount => Option.some.inj h ▸ hcount
  | step :: steps, count, count', h, hcount => by
    rw [List.foldlM_cons] at h
    obtain ⟨count₁, h₁, h₂⟩ := Option.bind_eq_some_iff.1 h
    exact foldlM_advance_bounds h₂ (advance_bounds h₁ hcount)

theorem reportedCount_nonneg (count : Int) : 0 ≤ reportedCount count := by
  unfold reportedCount
  split_ifs <;> omega

/-- The count of a run that has returned is within the limit: the return was compared with it. -/
theorem CountedRun.returned_le (h : CountedRun limit .ok n) (hlimit : 0 < limit) :
    0 ≤ n ∧ n ≤ limit := by
  cases h with
  | @returned steps count h =>
    rw [executedCount, List.foldlM_append] at h
    obtain ⟨count₁, -, h₂⟩ := Option.bind_eq_some_iff.1 h
    have hlast : CountedStep.instruction.advance limit count₁ = some count := by
      simpa using h₂
    simp only [CountedStep.advance] at hlast
    split_ifs at hlast with hle
    obtain rfl := Option.some.inj hlast
    refine ⟨reportedCount_nonneg _, ?_⟩
    unfold reportedCount
    split_ifs <;> omega

/-- The count of a run that has thrown is only known to be an `int`. -/
theorem CountedRun.failed_lt (h : CountedRun limit .error n) : 0 ≤ n ∧ n < 2 ^ 31 := by
  cases h with
  | @failed steps count h =>
    have hcount := foldlM_advance_bounds h (by decide)
    refine ⟨reportedCount_nonneg _, ?_⟩
    unfold reportedCount
    split_ifs <;> omega

end Counts

/-! ## Amounts -/

section Amounts

variable {a b c l r x : ShareType} {n : Int}

theorem toInt_getAmountSum (h : getAmountSum l r = .ok x) (hl : 0 ≤ l.toInt) (hr : 0 ≤ r.toInt) :
    x.toInt = l.toInt + r.toInt := by
  simp only [getAmountSum, bind_eq_ok, ensure_eq_ok, pure_eq_ok, exists_const, Bool.and_eq_true,
    decide_eq_true_eq] at h
  obtain ⟨⟨hle, -⟩, rfl⟩ := h
  rw [Int64.le_iff_toInt_le, Int64.toInt_add] at hle
  rw [Int64.toInt_add]
  have hl' := Checked.toInt_bounds l
  have hr' := Checked.toInt_bounds r
  rcases lt_or_ge (l.toInt + r.toInt) (2 ^ 63) with hsum | hsum
  · exact Checked.bmod_of_bounds (by omega) (by omega)
  · have hwrap : (l.toInt + r.toInt).bmod (2 ^ 64) = l.toInt + r.toInt - 2 ^ 64 := by
      rw [← Int.sub_bmod_right, Int.bmod_eq_of_le] <;> omega
    omega

theorem toInt_assetAdd {x y z : Asset} (h : x.add y = .ok z) :
    z.amount.toInt = x.amount.toInt + y.amount.toInt := by
  unfold Asset.add at h
  split_ifs at h
  split at h
  · rename_i s hs
    rw [ok_eq_ok] at h
    exact h ▸ Checked.add?_toInt hs
  · cases h

theorem toInt_getAmount (h₀ : 0 ≤ n) (h₁ : n < 2 ^ 31) : (getAmount n).amount.toInt = n := by
  show (1 * Int64.ofInt n).toInt = n
  rw [Int64.one_mul, Int64.toInt_ofInt]
  exact Checked.bmod_of_bounds (by omega) (by omega)

theorem getLimit_eq (a : ShareType) : getLimit a = a.toInt.bmod (2 ^ 32) := by
  show (a / 1).toInt.bmod (2 ^ 32) = _
  rw [Int64.div_one]

theorem getLimit_lt (a : ShareType) : getLimit a < 2 ^ 31 := by
  have h := Int.bmod_lt (x := a.toInt) (m := 2 ^ 32) (by decide)
  rw [getLimit_eq]
  omega

/-- The limit is the one declared exactly where an `int` holds it. -/
theorem getLimit_eq_iff (ha : 0 < a.toInt) : getLimit a = a.toInt ↔ a.toInt < 2 ^ 31 := by
  constructor
  · intro h
    exact h ▸ getLimit_lt a
  · intro h
    rw [getLimit_eq, Int.bmod_eq_of_le] <;> omega

theorem getLimit_le (ha : 0 < a.toInt) : getLimit a ≤ a.toInt := by
  rcases lt_or_ge a.toInt (2 ^ 31) with h | h
  · exact ((getLimit_eq_iff ha).2 h).le
  · exact ((getLimit_lt a).trans_le h).le

/-- A withdrawal takes what is required of balances that offer something. -/
theorem amountSum_withdraw {balances : Map BalanceIdType ShareType} {required : ShareType}
    {w : BalancesWithdrawOperation} (hpos : ∀ e ∈ mapItems balances, 0 < e.2)
    (h : withdrawEnoughBalances balances required = .ok w) :
    amountSum w.balances = required.toInt := by
  obtain ⟨taken, htaken, hperm⟩ := withdrawEnoughBalances_eq_ok h
  rw [amountSum, itemSum_perm hperm]
  exact takeBalances_sum hpos htaken

theorem checkBalance_pos {ctx : OpContext} {l : Ledger} {operator : Address} {sum sum' : ShareType}
    {item : BalanceIdType × ShareType} (h : checkBalance ctx l operator sum item = .ok sum') :
    0 < item.2 := by
  simp only [checkBalance, bind_eq_ok, ensure_eq_ok, exists_const, decide_eq_true_eq] at h
  exact h.1

theorem foldlM_checkBalance_pos {ctx : OpContext} {l : Ledger} {operator : Address} :
    ∀ {items : List (BalanceIdType × ShareType)} {sum sum' : ShareType},
      items.foldlM (checkBalance ctx l operator) sum = .ok sum' → ∀ e ∈ items, 0 < e.2
  | [], _, _, _ => fun _ h => (List.not_mem_nil h).elim
  | item :: items, sum, sum', h => by
    rw [List.foldlM_cons, bind_eq_ok] at h
    obtain ⟨sum₁, h₁, h₂⟩ := h
    intro e he
    rcases List.mem_cons.1 he with rfl | he
    · exact checkBalance_pos h₁
    · exact foldlM_checkBalance_pos h₂ e he

end Amounts

/-! ## The withdrawals of a result -/

def Operation.withdrawal? : Operation → Option BalancesWithdrawOperation
  | .balancesWithdraw op => some op
  | _ => none

/-- The withdrawals from the operator's balances that a transaction carries. -/
def SignedTransaction.withdrawals (t : SignedTransaction) : List BalancesWithdrawOperation :=
  t.operations.filterMap Operation.withdrawal?

section Withdrawals

variable {P : Primitives} {V : Vm} {ctx : OpContext} {s s' s₁ : OpState} {r : ContractRun}
  {outcome : RunOutcome}

theorem filterMap_setUsedAmount (id : BalanceIdType) (amount : ShareType) :
    ∀ ops : List Operation, (setUsedAmount id amount ops).filterMap Operation.withdrawal? =
      ops.filterMap Operation.withdrawal?
  | [] => rfl
  | op :: ops => by
    have ih := filterMap_setUsedAmount id amount ops
    cases op with
    | withdrawContract op =>
      unfold setUsedAmount
      split_ifs
      · rfl
      · rw [List.filterMap_cons, List.filterMap_cons, ih]
    | _ => simp only [setUsedAmount, List.filterMap_cons, ih]

theorem withdrawFromContract_withdrawals {l : Ledger} {amount : ShareType} {c : ContractIdType}
    {ops ops' : List Operation} (h : withdrawFromContract P l amount c ops = .ok ops') :
    ops'.filterMap Operation.withdrawal? = ops.filterMap Operation.withdrawal? := by
  simp only [withdrawFromContract, bind_eq_ok, ensure_eq_ok, orThrow_eq_ok, exists_const] at h
  obtain ⟨_, -, -, h⟩ := h
  split at h
  · simp only [bind_eq_ok, ensure_eq_ok, pure_eq_ok, exists_const] at h
    rw [← h.2, List.filterMap_append]
    exact List.append_nil _
  · rw [← pure_eq_ok.1 h, filterMap_setUsedAmount]

theorem applyEffect_withdrawals (s : OpState) (e : VmEffect) :
    (applyEffect P s e).pResultTrx.withdrawals = s.pResultTrx.withdrawals := by
  cases e with
  | transfer c a symbol amount =>
    simp only [applyEffect]
    split
    · rename_i ops hops
      simp only [transferAssetFromContract, bind_eq_ok, ensure_eq_ok, orThrow_eq_ok, pure_eq_ok,
        exists_const] at hops
      obtain ⟨_, -, -, ops', h', -, rfl⟩ := hops
      show (ops' ++ [_]).filterMap _ = _
      rw [List.filterMap_append, withdrawFromContract_withdrawals h']
      exact List.append_nil _
    · rfl
  | storage op => exact List.filterMap_append.trans (List.append_nil _)
  | event op => exact List.filterMap_append.trans (List.append_nil _)

theorem foldl_applyEffect_withdrawals : ∀ (effects : List VmEffect) (s : OpState),
    (effects.foldl (applyEffect P) s).pResultTrx.withdrawals = s.pResultTrx.withdrawals
  | [], _ => rfl
  | e :: effects, s => by
    rw [List.foldl_cons, foldl_applyEffect_withdrawals, applyEffect_withdrawals]

theorem pushClosing_withdrawals : ∀ (closing : List StorageOperation) (s : OpState),
    (pushClosing s closing).pResultTrx.withdrawals = s.pResultTrx.withdrawals
  | [], _ => rfl
  | op :: closing, s => by
    have hpush : (s.pResultTrx.pushOp (.storage op)).withdrawals = s.pResultTrx.withdrawals :=
      List.filterMap_append.trans (List.append_nil _)
    rw [pushClosing, List.foldl_cons, ← pushClosing, pushClosing_withdrawals]
    exact hpush

theorem pushResult_withdrawals (s : OpState) (ops : List Operation) :
    (pushResult s ops).pResultTrx.withdrawals =
      s.pResultTrx.withdrawals ++ ops.filterMap Operation.withdrawal? :=
  List.filterMap_append

/-- A run adds no withdrawal to what the operation starts its result with. -/
theorem runContract_withdrawals (h : runContract P V r ctx s = .ok (s₁, outcome)) :
    outcome = .outOfMoney [] ∨
      s₁.pResultTrx.withdrawals = (r.start s).pResultTrx.withdrawals := by
  obtain ⟨-, rfl⟩ | ⟨effects, rfl⟩ := runContract_ok h
  · exact .inl rfl
  · exact .inr (foldl_applyEffect_withdrawals effects _)

theorem applyEffect_requiredFees (s : OpState) (e : VmEffect) :
    (applyEffect P s e).requiredFees = s.requiredFees := by
  cases e with
  | transfer c a symbol amount =>
    simp only [applyEffect]
    split <;> rfl
  | _ => rfl

theorem foldl_applyEffect_requiredFees : ∀ (effects : List VmEffect) (s : OpState),
    (effects.foldl (applyEffect P) s).requiredFees = s.requiredFees
  | [], _ => rfl
  | e :: effects, s => by
    rw [List.foldl_cons, foldl_applyEffect_requiredFees, applyEffect_requiredFees]

theorem runContract_requiredFees (hr : ∀ s, (r.start s).requiredFees = s.requiredFees)
    (h : runContract P V r ctx s = .ok (s₁, outcome)) : s₁.requiredFees = s.requiredFees := by
  obtain ⟨rfl, -⟩ | ⟨effects, rfl⟩ := runContract_ok h
  · rfl
  · rw [foldl_applyEffect_requiredFees, hr]

/-- Where a run gets somewhere, its count is that of a run of the VM under its limit. -/
theorem runContract_counted (hV : V.Counts) (h : runContract P V r ctx s = .ok (s₁, outcome)) :
    (∀ n c, outcome = .done n c →
      0 < getLimit r.costlimit ∧ CountedRun (getLimit r.costlimit) .ok n) ∧
    ∀ n c, outcome = .failed n c → CountedRun (getLimit r.costlimit) .error n := by
  unfold runContract at h
  split_ifs at h with hlimit
  · simp only [Except.ok.injEq, Prod.mk.injEq] at h
    obtain ⟨-, rfl⟩ := h
    constructor <;> exact fun _ _ h => nomatch h
  · rw [not_le] at hlimit
    dsimp only at h
    have hcounted := hV ⟨(r.start s).ledger.toView, ctx.trx, (r.start s).pResultTrx,
      (r.start s).contractBalanceRemain, r.caller, r.contract, r.entryPoint,
      getLimit r.costlimit⟩ hlimit
    split at h
    case h_4 => simp at h
    all_goals
      rename_i hstatus
      rw [hstatus] at hcounted
      simp only [Except.ok.injEq, Prod.mk.injEq] at h
      obtain ⟨-, rfl⟩ := h
      refine ⟨fun n c hn => ?_, fun n c hn => ?_⟩ <;> cases hn
    · exact ⟨hlimit, hcounted⟩
    · exact hcounted

/-- A result carries one withdrawal, of a total. -/
def Charged (r : SignedTransaction) (total : ℤ) : Prop :=
  ∃ w, r.withdrawals = [w] ∧ amountSum w.balances = total

theorem Charged.pushClosing {total : ℤ} (h : Charged s.pResultTrx total)
    (closing : List StorageOperation) : Charged (pushClosing s closing).pResultTrx total := by
  obtain ⟨w, hw, hsum⟩ := h
  exact ⟨w, (pushClosing_withdrawals closing s).trans hw, hsum⟩

theorem charged_push {balances : Map BalanceIdType ShareType} {required : ShareType}
    {w : BalancesWithdrawOperation} {ops : List Operation}
    (hpos : ∀ e ∈ mapItems balances, 0 < e.2)
    (hw : withdrawEnoughBalances balances required = .ok w)
    (hs : s.pResultTrx.withdrawals = []) (hops : ops.filterMap Operation.withdrawal? = [w]) :
    Charged (pushResult s ops).pResultTrx required.toInt := by
  refine ⟨w, ?_, amountSum_withdraw hpos hw⟩
  rw [pushResult_withdrawals, hs, hops]
  rfl

theorem outOfMoneyResult_charged {balances : Map BalanceIdType ShareType} {required : ShareType}
    (hpos : ∀ e ∈ mapItems balances, 0 < e.2)
    (h : outOfMoneyResult ctx balances required s = .ok s') :
    Charged s'.pResultTrx required.toInt := by
  simp only [outOfMoneyResult, bind_eq_ok, ensure_eq_ok, pure_eq_ok, exists_const] at h
  obtain ⟨-, w, hw, rfl⟩ := h
  exact charged_push (s := startResult ctx.trx s) hpos hw rfl rfl

theorem resizeResult_withdrawals (hs : s.pResultTrx.withdrawals = []) :
    (resizeResult s).pResultTrx.withdrawals = [] := by
  rw [SignedTransaction.withdrawals, List.filterMap_eq_nil_iff] at hs ⊢
  exact fun op hop => hs op (List.mem_of_mem_take hop)

theorem failedResult_charged {balances : Map BalanceIdType ShareType} {fee : Asset} {n : Int}
    (hpos : ∀ e ∈ mapItems balances, 0 < e.2) (hs : s.pResultTrx.withdrawals = [])
    (hn : CountedRun (getLimit r.costlimit) .error n)
    (h : failedResult ctx balances fee n s = .ok s') :
    Charged s'.pResultTrx (fee.amount.toInt + n) := by
  simp only [failedResult, bind_eq_ok, ensure_eq_ok, pure_eq_ok, exists_const] at h
  obtain ⟨-, required, hrequired, w, hw, rfl⟩ := h
  obtain ⟨hnonneg, hlt⟩ := hn.failed_lt
  have htotal : required.amount.toInt = fee.amount.toInt + n := by
    rw [toInt_assetAdd hrequired, toInt_getAmount hnonneg hlt, add_comm]
  rw [← htotal]
  exact charged_push hpos hw (resizeResult_withdrawals hs) rfl

/-- The cost of a run that ended well is what it executed. -/
theorem execCost_ok {n : Int} {costlimit cost limit : ShareType}
    (hn : CountedRun (getLimit limit) .ok n) (hlimit : 0 < getLimit limit)
    (h : execCost n costlimit = .ok cost) : cost.toInt = n ∧ 0 < n := by
  simp only [execCost, bind_eq_ok, ensure_eq_ok, pure_eq_ok, exists_const, Bool.and_eq_true,
    decide_eq_true_eq] at h
  obtain ⟨⟨-, hpos⟩, rfl⟩ := h
  obtain ⟨hnonneg, hle⟩ := hn.returned_le hlimit
  have htoInt := toInt_getAmount hnonneg (hle.trans_lt (getLimit_lt limit))
  refine ⟨htoInt, ?_⟩
  rw [Int64.lt_iff_toInt_lt, htoInt, Int64.toInt_zero] at hpos
  exact hpos

end Withdrawals

/-! ## The runs of the operations -/

section Runs

variable (P : Primitives) (V : Vm) (ctx : OpContext) (s : OpState)

def RegisterContractOperation.run (op : RegisterContractOperation) : ContractRun where
  caller := op.owner
  contract := P.contractHash op
  entryPoint := .init
  costlimit := op.initcost.amount
  start := fun s => setExpiration ctx.trx (pushResult (startResult ctx.trx s)
    [.contractInfo ⟨P.contractHash op, op.owner, op.contractCode, op.registerTime⟩])

def UpgradeContractOperation.run (op : UpgradeContractOperation) (entry : ContractEntry) :
    ContractRun :=
  ⟨entry.owner, op.id, .onUpgrade, op.execLimit.amount, startResult ctx.trx⟩

def DestroyContractOperation.run (op : DestroyContractOperation) (entry : ContractEntry) :
    ContractRun :=
  ⟨entry.owner, op.id, .onDestroy, op.execLimit.amount, startResult ctx.trx⟩

def CallContractOperation.run (op : CallContractOperation) : ContractRun where
  caller := op.caller
  contract := op.contract
  entryPoint := .api op.method op.args
  costlimit := op.costlimit.amount
  start := fun s => setExpiration ctx.trx (pushResult (startResult ctx.trx s) [.onCallSuccess])

def TransferContractOperation.run (op : TransferContractOperation) : ContractRun :=
  ⟨op.from', op.contractId, .onDeposit op.transferAmount.amount, op.costlimit.amount,
    startResult ctx.trx⟩

/-- The ledger the contract of a transfer sees, with the amount credited already. -/
def TransferContractOperation.during (op : TransferContractOperation) (l : Ledger) : Ledger :=
  if getLimit op.costlimit.amount ≤ 0 then l
  else l.storeBalance P
    { op.balanceEntry P l with
      balance := (op.balanceEntry P l).balance + op.transferAmount.amount }

/-- The outcome of the run that an operation makes, if the contract has a function to run. -/
def Operation.outcome : Operation → Except Exn (Option RunOutcome)
  | .registerContract op => do
    let required ← op.transactionFee.add (contractRegisterFee op.contractCode)
    let (_, outcome) ← runContract P V (op.run P ctx) ctx { s with
      ledger := s.ledger.storeContract (op.entry P (P.id ctx.trx))
      contractOperator := op.owner
      requiredFees := required }
    return some outcome
  | .upgradeContract op => do
    let entry ← orThrow (s.ledger.getContract op.id) .contractNotExist
    if onUpgradeInterface ∈ entry.code.abi then do
      let (_, outcome) ← runContract P V (op.run ctx entry) ctx
        { s with contractOperator := entry.owner }
      return some outcome
    else return none
  | .destroyContract op => do
    let entry ← orThrow (s.ledger.getContract op.id) .contractNotExist
    if onDestroyInterface ∈ entry.code.abi then do
      let remain ← contractBalanceBefore P s.ledger entry.id
      let (_, outcome) ← runContract P V (op.run ctx entry) ctx
        { s with
          contractOperator := entry.owner
          contractBalanceRemain := remain }
      return some outcome
    else return none
  | .callContract op => do
    let (_, outcome) ← runContract P V (op.run ctx) ctx
      { s with
        contractOperator := op.caller
        requiredFees := op.transactionFee }
    return some outcome
  | .transferContract op => do
    let entry ← orThrow (s.ledger.getContract op.contractId) .contractNotExist
    if onDepositInterface ∈ entry.code.abi then do
      let (_, outcome) ← runContract P V (op.run ctx) ctx
        { s with
          ledger := op.during P s.ledger
          contractOperator := op.from'
          requiredFees := op.transactionFee }
      return some outcome
    else return none
  | _ => return none

end Runs

/-! ## Charges -/

/-- The limit an operation declares. -/
def Operation.declaredLimit : Operation → ShareType
  | .registerContract op => op.initcost.amount
  | .upgradeContract op => op.execLimit.amount
  | .destroyContract op => op.execLimit.amount
  | .callContract op => op.costlimit.amount
  | .transferContract op => op.costlimit.amount
  | _ => 0

/-- What an operation costs besides its run, on success or else. -/
def Operation.fixedCharges (success : Bool) : Operation → ℤ
  | .registerContract op => op.transactionFee.amount.toInt +
      (contractRegisterFee op.contractCode).amount.toInt +
        if success then defaultMargin.amount.toInt else 0
  | .upgradeContract op => op.transactionFee.amount.toInt
  | .destroyContract op => op.transactionFee.amount.toInt
  | .callContract op => op.transactionFee.amount.toInt
  | .transferContract op => op.transactionFee.amount.toInt +
      if success then op.transferAmount.amount.toInt else 0
  | _ => 0

def Operation.isCall : Operation → Bool
  | .callContract _ => true
  | _ => false

/-- What the code charges. -/
def Operation.charge (op : Operation) : Option RunOutcome → ℤ
  | none => op.fixedCharges true
  | some (.done n _) => op.fixedCharges true + n +
      if op.isCall then op.declaredLimit.toInt - getLimit op.declaredLimit else 0
  | some (.outOfMoney _) => op.fixedCharges false + op.declaredLimit.toInt
  | some (.failed n _) => op.fixedCharges false + n

section Charges

variable {P : Primitives} {V : Vm} {ctx : OpContext} {s s' : OpState}

theorem charge_done {op : Operation} {n : Int} {c : List StorageOperation}
    (hcall : op.isCall = false) : op.charge (some (.done n c)) = op.fixedCharges true + n := by
  rw [Operation.charge, hcall, if_neg Bool.false_ne_true, add_zero]

/-- An operation with no charge but its fee is charged the fee and what the run has executed. -/
theorem charge_executed {op : Operation} {n : Int} {c : List StorageOperation}
    {cost fee required : ShareType} (hcall : op.isCall = false)
    (hfixed : op.fixedCharges true = fee.toInt) (hcost : cost.toInt = n ∧ 0 < n)
    (hfee : 0 ≤ fee.toInt) (hrequired : getAmountSum cost fee = .ok required) :
    op.charge (some (.done n c)) = required.toInt := by
  obtain ⟨hn, hn₀⟩ := hcost
  rw [charge_done hcall, toInt_getAmountSum hrequired (by omega) hfee, hfixed, hn, add_comm]

/-- Where its run is stopped by the limit it is charged the fee and the limit. -/
theorem charge_outOfMoney {op : Operation} {c : List StorageOperation} {fee required : ShareType}
    (hfixed : op.fixedCharges false = fee.toInt) (hlimit : 0 < op.declaredLimit.toInt)
    (hfee : 0 ≤ fee.toInt) (hrequired : getAmountSum op.declaredLimit fee = .ok required) :
    op.charge (some (.outOfMoney c)) = required.toInt := by
  rw [Operation.charge, toInt_getAmountSum hrequired hlimit.le hfee, hfixed, add_comm]

theorem RegisterContractOperation.execute_charged {op : RegisterContractOperation}
    (hV : V.Counts) (hpos : ∀ e ∈ mapItems op.balances, 0 < e.2)
    (hfee : 0 ≤ op.transactionFee.amount.toInt) (hlimit : 0 < op.initcost.amount.toInt)
    (hreg : 0 < (contractRegisterFee op.contractCode).amount.toInt)
    (hrequired : s.requiredFees.amount.toInt =
      op.transactionFee.amount.toInt + (contractRegisterFee op.contractCode).amount.toInt)
    (h : op.execute P V ctx s = .ok s') :
    ∃ s₁ outcome, runContract P V (op.run P ctx) ctx s = .ok (s₁, outcome) ∧
      Charged s'.pResultTrx ((Operation.registerContract op).charge (some outcome)) := by
  simp only [execute, bind_eq_ok, ensure_eq_ok, exists_const, Prod.exists] at h
  obtain ⟨-, s₁, outcome, hrun, h⟩ := h
  refine ⟨s₁, outcome, hrun, ?_⟩
  have hstart := runContract_withdrawals hrun
  obtain ⟨hdone, hfailed⟩ := runContract_counted hV hrun
  cases outcome with
  | done n c =>
    simp only [bind_eq_ok, pure_eq_ok] at h
    obtain ⟨cost, hcost, r₁, h₁, r₂, h₂, r₃, h₃, w, hw, rfl⟩ := h
    obtain ⟨hpositive, hcounted⟩ := hdone n c rfl
    obtain ⟨hn, hn₀⟩ := execCost_ok hcounted hpositive hcost
    have hmargin : (0 : ℤ) ≤ defaultMargin.amount.toInt := by decide
    have e₁ := toInt_getAmountSum h₁ (by omega) hmargin
    have e₂ := toInt_getAmountSum h₂ (by omega) hreg.le
    have e₃ := toInt_getAmountSum h₃ (by omega) hfee
    have htotal : (Operation.registerContract op).charge (some (.done n c)) = r₃.toInt := by
      simp only [Operation.charge, Operation.fixedCharges, Operation.isCall, if_true,
        Bool.false_eq_true, if_false]
      omega
    rw [htotal]
    refine (charged_push hpos hw ?_ rfl).pushClosing c
    exact hstart.resolve_left (by simp)
  | outOfMoney c =>
    simp only [bind_eq_ok, pure_eq_ok] at h
    obtain ⟨r₁, h₁, r₂, h₂, s₂, hs₂, rfl⟩ := h
    have e₁ := toInt_getAmountSum h₁ hreg.le hfee
    have e₂ := toInt_getAmountSum h₂ (by omega) hlimit.le
    have htotal : (Operation.registerContract op).charge (some (.outOfMoney c)) = r₂.toInt := by
      simp only [Operation.charge, Operation.fixedCharges, Operation.declaredLimit,
        Bool.false_eq_true, if_false]
      omega
    rw [htotal]
    exact (outOfMoneyResult_charged hpos hs₂).pushClosing c
  | failed n c =>
    simp only [bind_eq_ok, pure_eq_ok] at h
    obtain ⟨s₂, hs₂, rfl⟩ := h
    have hfees : s₁.requiredFees = s.requiredFees :=
      runContract_requiredFees (fun _ => rfl) hrun
    have htotal : (Operation.registerContract op).charge (some (.failed n c)) =
        s₁.requiredFees.amount.toInt + n := by
      rw [hfees, hrequired]
      simp only [Operation.charge, Operation.fixedCharges, Bool.false_eq_true, if_false]
      omega
    rw [htotal]
    refine (failedResult_charged hpos ?_ (hfailed n c rfl) hs₂).pushClosing c
    exact hstart.resolve_left (by simp)

theorem UpgradeContractOperation.execute_charged {op : UpgradeContractOperation}
    {entry : ContractEntry} {margin : BalanceEntry}
    (hV : V.Counts) (hpos : ∀ e ∈ mapItems op.balances, 0 < e.2)
    (hfee : 0 ≤ op.transactionFee.amount.toInt) (hlimit : 0 < op.execLimit.amount.toInt)
    (h : op.execute P V ctx entry margin s = .ok s') :
    ∃ s₁ outcome, runContract P V (op.run ctx entry) ctx s = .ok (s₁, outcome) ∧
      Charged s'.pResultTrx ((Operation.upgradeContract op).charge (some outcome)) := by
  simp only [execute, bind_eq_ok, ensure_eq_ok, exists_const, Prod.exists] at h
  obtain ⟨-, s₁, outcome, hrun, h⟩ := h
  refine ⟨s₁, outcome, hrun, ?_⟩
  have hstart := runContract_withdrawals hrun
  obtain ⟨hdone, hfailed⟩ := runContract_counted hV hrun
  cases outcome with
  | done n c =>
    simp only [bind_eq_ok, pure_eq_ok] at h
    obtain ⟨cost, hcost, required, hrequired, w, hw, fees, -, rfl⟩ := h
    obtain ⟨hpositive, hcounted⟩ := hdone n c rfl
    have htotal : (Operation.upgradeContract op).charge (some (.done n c)) = required.toInt :=
      charge_executed rfl rfl (execCost_ok hcounted hpositive hcost) hfee hrequired
    rw [htotal]
    refine Charged.pushClosing ?_ c
    exact charged_push (s := s₁) hpos hw (hstart.resolve_left (by simp)) rfl
  | outOfMoney c =>
    simp only [bind_eq_ok, pure_eq_ok] at h
    obtain ⟨required, hrequired, s₂, hs₂, rfl⟩ := h
    have htotal : (Operation.upgradeContract op).charge (some (.outOfMoney c)) =
        required.toInt := charge_outOfMoney rfl hlimit hfee hrequired
    have hcharged := outOfMoneyResult_charged hpos hs₂
    rw [htotal]
    exact Charged.pushClosing (s := { s₂ with requiredFees := op.transactionFee }) hcharged c
  | failed n c =>
    simp only [bind_eq_ok, pure_eq_ok] at h
    obtain ⟨s₂, hs₂, rfl⟩ := h
    refine (failedResult_charged hpos ?_ (hfailed n c rfl) hs₂).pushClosing c
    exact hstart.resolve_left (by simp)

theorem DestroyContractOperation.execute_charged {op : DestroyContractOperation}
    {entry : ContractEntry} {margin : BalanceEntry}
    (hV : V.Counts) (hpos : ∀ e ∈ mapItems op.balances, 0 < e.2)
    (hfee : 0 ≤ op.transactionFee.amount.toInt) (hlimit : 0 < op.execLimit.amount.toInt)
    (h : op.execute P V ctx entry margin s = .ok s') :
    ∃ remain s₁ outcome, contractBalanceBefore P s.ledger entry.id = .ok remain ∧
      runContract P V (op.run ctx entry) ctx { s with contractBalanceRemain := remain } =
        .ok (s₁, outcome) ∧
      Charged s'.pResultTrx ((Operation.destroyContract op).charge (some outcome)) := by
  simp only [execute, bind_eq_ok, ensure_eq_ok, exists_const, Prod.exists] at h
  obtain ⟨-, remain, hremain, s₁, outcome, hrun, h⟩ := h
  refine ⟨remain, s₁, outcome, hremain, hrun, ?_⟩
  have hstart := runContract_withdrawals hrun
  obtain ⟨hdone, hfailed⟩ := runContract_counted hV hrun
  cases outcome with
  | done n c =>
    simp only [bind_eq_ok, pure_eq_ok] at h
    obtain ⟨cost, hcost, required, hrequired, w, hw, rfl⟩ := h
    obtain ⟨hpositive, hcounted⟩ := hdone n c rfl
    have htotal : (Operation.destroyContract op).charge (some (.done n c)) = required.toInt :=
      charge_executed rfl rfl (execCost_ok hcounted hpositive hcost) hfee hrequired
    rw [htotal]
    refine Charged.pushClosing ?_ c
    exact charged_push (s := s₁) hpos hw (hstart.resolve_left (by simp)) rfl
  | outOfMoney c =>
    simp only [bind_eq_ok, pure_eq_ok] at h
    obtain ⟨required, hrequired, s₂, hs₂, rfl⟩ := h
    have htotal : (Operation.destroyContract op).charge (some (.outOfMoney c)) =
        required.toInt := charge_outOfMoney rfl hlimit hfee hrequired
    have hcharged := outOfMoneyResult_charged hpos hs₂
    rw [htotal]
    exact Charged.pushClosing (s := { s₂ with requiredFees := op.transactionFee }) hcharged c
  | failed n c =>
    simp only [bind_eq_ok, pure_eq_ok] at h
    obtain ⟨s₂, hs₂, rfl⟩ := h
    refine (failedResult_charged hpos ?_ (hfailed n c rfl) hs₂).pushClosing c
    exact hstart.resolve_left (by simp)

theorem TransferContractOperation.execute_charged {op : TransferContractOperation}
    (hV : V.Counts) (hpos : ∀ e ∈ mapItems op.balances, 0 < e.2)
    (hfee : 0 ≤ op.transactionFee.amount.toInt) (hlimit : 0 < op.costlimit.amount.toInt)
    (hamount : 0 < op.transferAmount.amount.toInt) (h : op.execute P V ctx s = .ok s') :
    ∃ s₁ outcome, runContract P V (op.run ctx) ctx { s with ledger := op.during P s.ledger } =
        .ok (s₁, outcome) ∧
      Charged s'.pResultTrx ((Operation.transferContract op).charge (some outcome)) := by
  simp only [execute, bind_eq_ok, ensure_eq_ok, exists_const, Prod.exists] at h
  obtain ⟨-, s₁, outcome, hrun, h⟩ := h
  refine ⟨s₁, outcome, hrun, ?_⟩
  have hstart := runContract_withdrawals hrun
  obtain ⟨hdone, hfailed⟩ := runContract_counted hV hrun
  cases outcome with
  | done n c =>
    simp only [bind_eq_ok, pure_eq_ok] at h
    obtain ⟨cost, hcost, r₁, h₁, r₂, h₂, w, hw, rfl⟩ := h
    obtain ⟨hpositive, hcounted⟩ := hdone n c rfl
    obtain ⟨hn, hn₀⟩ := execCost_ok hcounted hpositive hcost
    have e₁ := toInt_getAmountSum h₁ (by omega) hamount.le
    have e₂ := toInt_getAmountSum h₂ (by omega) hfee
    have htotal : (Operation.transferContract op).charge (some (.done n c)) = r₂.toInt := by
      rw [charge_done rfl, Operation.fixedCharges, if_pos rfl]
      omega
    rw [htotal]
    refine Charged.pushClosing (charged_push hpos hw ?_ rfl) c
    exact hstart.resolve_left (by simp)
  | outOfMoney c =>
    simp only [bind_eq_ok, pure_eq_ok] at h
    obtain ⟨required, hrequired, s₂, hs₂, rfl⟩ := h
    have hfixed : (Operation.transferContract op).fixedCharges false =
        op.transactionFee.amount.toInt := by
      rw [Operation.fixedCharges, if_neg Bool.false_ne_true, add_zero]
    have htotal : (Operation.transferContract op).charge (some (.outOfMoney c)) =
        required.toInt := charge_outOfMoney hfixed hlimit hfee hrequired
    rw [htotal]
    exact (outOfMoneyResult_charged hpos hs₂).pushClosing c
  | failed n c =>
    simp only [bind_eq_ok, pure_eq_ok] at h
    obtain ⟨s₂, hs₂, rfl⟩ := h
    rw [Operation.charge, Operation.fixedCharges, if_neg Bool.false_ne_true, add_zero]
    refine (failedResult_charged hpos ?_ (hfailed n c rfl) hs₂).pushClosing c
    exact hstart.resolve_left (by simp)

/-- A call is charged what it declares less what is left of the limit it got. -/
theorem toInt_callCost {costlimit fee required : ShareType} {n : Int}
    (hrequired : required.toInt = costlimit.toInt + fee.toInt) (hfee : 0 ≤ fee.toInt)
    (hlimit : 0 < costlimit.toInt) (hn : CountedRun (getLimit costlimit) .ok n)
    (hpositive : 0 < getLimit costlimit) :
    (callCost costlimit required n).toInt =
      fee.toInt + n + (costlimit.toInt - getLimit costlimit) := by
  obtain ⟨hnonneg, hle⟩ := hn.returned_le hpositive
  have hlt := getLimit_lt costlimit
  have hdeclared := getLimit_le hlimit
  have hbounds := Checked.toInt_bounds required
  unfold callCost
  dsimp only
  split_ifs with hleft
  · have hamount := toInt_getAmount hleft.le (by omega)
    rw [Checked.toInt_sub_of_bounds] <;> omega
  · omega

theorem CallContractOperation.execute_charged {op : CallContractOperation}
    {all required : ShareType} (hV : V.Counts) (hpos : ∀ e ∈ mapItems op.balances, 0 < e.2)
    (hfee : 0 ≤ op.transactionFee.amount.toInt) (hlimit : 0 < op.costlimit.amount.toInt)
    (hrequired : required.toInt = op.costlimit.amount.toInt + op.transactionFee.amount.toInt)
    (h : op.execute P V ctx all required s = .ok s') :
    ∃ s₁ outcome, runContract P V (op.run ctx) ctx s = .ok (s₁, outcome) ∧
      Charged s'.pResultTrx ((Operation.callContract op).charge (some outcome)) := by
  simp only [execute, bind_eq_ok, ensure_eq_ok, exists_const, Prod.exists] at h
  obtain ⟨-, -, s₁, outcome, hrun, h⟩ := h
  refine ⟨s₁, outcome, hrun, ?_⟩
  have hstart := runContract_withdrawals hrun
  obtain ⟨hdone, hfailed⟩ := runContract_counted hV hrun
  cases outcome with
  | done n c =>
    simp only [bind_eq_ok, pure_eq_ok] at h
    obtain ⟨w, hw, rfl⟩ := h
    obtain ⟨hpositive, hcounted⟩ := hdone n c rfl
    have hcost := toInt_callCost hrequired hfee hlimit hcounted hpositive
    have htotal : (Operation.callContract op).charge (some (.done n c)) =
        (callCost op.costlimit.amount required n).toInt := by
      rw [hcost]
      rfl
    rw [htotal]
    refine Charged.pushClosing (charged_push hpos hw ?_ rfl) c
    exact hstart.resolve_left (by simp)
  | outOfMoney c =>
    simp only [bind_eq_ok, pure_eq_ok] at h
    obtain ⟨s₂, hs₂, rfl⟩ := h
    have htotal : (Operation.callContract op).charge (some (.outOfMoney c)) = required.toInt := by
      rw [hrequired, add_comm]
      rfl
    rw [htotal]
    exact (outOfMoneyResult_charged hpos hs₂).pushClosing c
  | failed n c =>
    simp only [bind_eq_ok, pure_eq_ok] at h
    obtain ⟨s₂, hs₂, rfl⟩ := h
    refine (failedResult_charged hpos ?_ (hfailed n c rfl) hs₂).pushClosing c
    exact hstart.resolve_left (by simp)

theorem pos_toInt {a : ShareType} (h : 0 < a) : 0 < a.toInt := by
  rwa [Int64.lt_iff_toInt_lt, Int64.toInt_zero] at h

theorem nonneg_toInt {a : ShareType} (h : 0 ≤ a) : 0 ≤ a.toInt := by
  rwa [Int64.le_iff_toInt_le, Int64.toInt_zero] at h

/-- An operation has run what it runs, under a limit it declares, and charged for it. -/
def Operation.ChargedRun (P : Primitives) (V : Vm) (ctx : OpContext) (s s' : OpState)
    (op : Operation) : Prop :=
  ∃ outcome, op.outcome P V ctx s = .ok outcome ∧
    (outcome.isSome = true → 0 < op.declaredLimit.toInt) ∧
      Charged s'.pResultTrx (op.charge outcome)

theorem RegisterContractOperation.evaluate_charged {op : RegisterContractOperation}
    (hV : V.Counts) (hskip : ctx.skipexec = false) (h : op.evaluate P V ctx s = .ok s') :
    (Operation.registerContract op).ChargedRun P V ctx s s' := by
  simp only [evaluate, bind_eq_ok, pure_eq_ok] at h
  obtain ⟨_, hcheck, required, hrequired, s₁, h₁, rfl⟩ := h
  obtain ⟨htrue, -⟩ | ⟨-, h₁⟩ := unlessSkipped_ok h₁
  · rw [hskip] at htrue
    cases htrue
  simp only [check, bind_eq_ok, ensure_eq_ok, exists_const, decide_eq_true_eq] at hcheck
  obtain ⟨hlimit, hfee, -, -, -, all, hall, hreg, -⟩ := hcheck
  obtain ⟨s₂, outcome, hrun, hcharged⟩ := execute_charged hV (foldlM_checkBalance_pos hall)
    (nonneg_toInt hfee) (pos_toInt hlimit) (pos_toInt hreg) (toInt_assetAdd hrequired) h₁
  refine ⟨some outcome, ?_, fun _ => pos_toInt hlimit, hcharged⟩
  rw [Operation.outcome, hrequired, ok_bind, hrun]
  rfl

theorem UpgradeContractOperation.evaluate_charged {op : UpgradeContractOperation}
    (hV : V.Counts) (hskip : ctx.skipexec = false) (h : op.evaluate P V ctx s = .ok s') :
    (Operation.upgradeContract op).ChargedRun P V ctx s s' := by
  simp only [evaluate, bind_eq_ok, Prod.exists] at h
  obtain ⟨entry, margin, all, hcheck, h⟩ := h
  simp only [check, bind_eq_ok, ensure_eq_ok, orThrow_eq_ok, pure_eq_ok, exists_const,
    Prod.mk.injEq, decide_eq_true_eq] at hcheck
  obtain ⟨hfee, -, _, hentry, -, -, -, -, -, -, _, -, _, hall, rfl, rfl, rfl⟩ := hcheck
  have hpos := foldlM_checkBalance_pos hall
  split_ifs at h with habi
  · simp only [bind_eq_ok, ensure_eq_ok, pure_eq_ok, exists_const, decide_eq_true_eq] at h
    obtain ⟨hlimit, s₁, h₁, rfl⟩ := h
    obtain ⟨htrue, -⟩ | ⟨-, h₁⟩ := unlessSkipped_ok h₁
    · rw [hskip] at htrue
      cases htrue
    obtain ⟨s₂, outcome, hrun, hcharged⟩ := execute_charged hV hpos (nonneg_toInt hfee)
      (pos_toInt hlimit) h₁
    refine ⟨some outcome, ?_, fun _ => pos_toInt hlimit, hcharged⟩
    rw [Operation.outcome, hentry]
    dsimp only [orThrow]
    rw [ok_bind, if_pos habi, hrun]
    rfl
  · simp only [bind_eq_ok, ensure_eq_ok, pure_eq_ok, exists_const] at h
    obtain ⟨-, -, w, hw, fees, -, rfl⟩ := h
    refine ⟨none, ?_, fun hsome => absurd hsome Bool.false_ne_true,
      charged_push (s := startResult ctx.trx _) hpos hw rfl rfl⟩
    rw [Operation.outcome, hentry]
    dsimp only [orThrow]
    rw [ok_bind, if_neg habi]
    rfl

theorem DestroyContractOperation.evaluate_charged {op : DestroyContractOperation}
    (hV : V.Counts) (hskip : ctx.skipexec = false) (h : op.evaluate P V ctx s = .ok s') :
    (Operation.destroyContract op).ChargedRun P V ctx s s' := by
  simp only [evaluate, bind_eq_ok, Prod.exists] at h
  obtain ⟨entry, margin, all, hcheck, h⟩ := h
  simp only [check, bind_eq_ok, ensure_eq_ok, orThrow_eq_ok, pure_eq_ok, exists_const,
    Prod.mk.injEq, decide_eq_true_eq] at hcheck
  obtain ⟨hfee, -, _, hentry, -, -, -, _, -, _, hall, rfl, rfl, rfl⟩ := hcheck
  have hpos := foldlM_checkBalance_pos hall
  split_ifs at h with habi
  · simp only [bind_eq_ok, ensure_eq_ok, pure_eq_ok, exists_const, decide_eq_true_eq] at h
    obtain ⟨hlimit, s₁, h₁, rfl⟩ := h
    obtain ⟨htrue, -⟩ | ⟨-, h₁⟩ := unlessSkipped_ok h₁
    · rw [hskip] at htrue
      cases htrue
    obtain ⟨remain, s₂, outcome, hremain, hrun, hcharged⟩ := execute_charged hV hpos
      (nonneg_toInt hfee) (pos_toInt hlimit) h₁
    refine ⟨some outcome, ?_, fun _ => pos_toInt hlimit, hcharged⟩
    rw [Operation.outcome, hentry]
    dsimp only [orThrow]
    rw [ok_bind, if_pos habi, hremain, ok_bind, hrun]
    rfl
  · simp only [bind_eq_ok, ensure_eq_ok, pure_eq_ok, exists_const] at h
    obtain ⟨-, -, w, hw, rfl⟩ := h
    refine ⟨none, ?_, fun hsome => absurd hsome Bool.false_ne_true,
      charged_push (s := startResult ctx.trx _) hpos hw rfl rfl⟩
    rw [Operation.outcome, hentry]
    dsimp only [orThrow]
    rw [ok_bind, if_neg habi]
    rfl

theorem CallContractOperation.evaluate_charged {op : CallContractOperation}
    (hV : V.Counts) (hskip : ctx.skipexec = false) (h : op.evaluate P V ctx s = .ok s') :
    (Operation.callContract op).ChargedRun P V ctx s s' := by
  simp only [evaluate, bind_eq_ok, Prod.exists, hskip, Bool.false_eq_true, if_false] at h
  obtain ⟨all, required, hcheck, h⟩ := h
  simp only [check, bind_eq_ok, ensure_eq_ok, orThrow_eq_ok, pure_eq_ok, exists_const,
    Prod.mk.injEq, decide_eq_true_eq] at hcheck
  obtain ⟨hlimit, hfee, -, _, -, -, -, -, -, -, _, hall, _, hrequired, -, rfl, rfl⟩ := hcheck
  have hsum := toInt_getAmountSum hrequired (pos_toInt hlimit).le (nonneg_toInt hfee)
  obtain ⟨s₂, outcome, hrun, hcharged⟩ := execute_charged hV (foldlM_checkBalance_pos hall)
    (nonneg_toInt hfee) (pos_toInt hlimit) hsum h
  refine ⟨some outcome, ?_, fun _ => pos_toInt hlimit, hcharged⟩
  rw [Operation.outcome, hrun]
  rfl

theorem TransferContractOperation.evaluate_charged {op : TransferContractOperation}
    (hV : V.Counts) (hskip : ctx.skipexec = false) (h : op.evaluate P V ctx s = .ok s') :
    (Operation.transferContract op).ChargedRun P V ctx s s' := by
  simp only [evaluate, bind_eq_ok] at h
  obtain ⟨entry, hcheck, h⟩ := h
  simp only [check, bind_eq_ok, ensure_eq_ok, orThrow_eq_ok, pure_eq_ok, exists_const,
    decide_eq_true_eq] at hcheck
  obtain ⟨hfee, -, _, hentry, -, -, hamount, -, -, hlimit, all, hall, -, -, -, -, -, rfl⟩ := hcheck
  have hpos := foldlM_checkBalance_pos hall
  split_ifs at h with habi
  · simp only [bind_eq_ok, pure_eq_ok] at h
    obtain ⟨s₁, h₁, rfl⟩ := h
    obtain ⟨htrue, -⟩ | ⟨-, h₁⟩ := unlessSkipped_ok h₁
    · rw [hskip] at htrue
      cases htrue
    rw [if_pos habi, decide_eq_true_eq] at hlimit
    obtain ⟨s₂, outcome, hrun, hcharged⟩ := execute_charged hV hpos (nonneg_toInt hfee)
      (pos_toInt hlimit) (pos_toInt hamount) h₁
    refine ⟨some outcome, ?_, fun _ => pos_toInt hlimit, hcharged⟩
    rw [Operation.outcome, hentry]
    dsimp only [orThrow]
    rw [ok_bind, if_pos habi, hrun]
    rfl
  · simp only [bind_eq_ok, pure_eq_ok] at h
    obtain ⟨required, hrequired, w, hw, rfl⟩ := h
    have hsum := toInt_getAmountSum hrequired (nonneg_toInt hfee) (pos_toInt hamount).le
    refine ⟨none, ?_, fun hsome => absurd hsome Bool.false_ne_true, ?_⟩
    · rw [Operation.outcome, hentry]
      dsimp only [orThrow]
      rw [ok_bind, if_neg habi]
      rfl
    · have htotal : (Operation.transferContract op).charge none = required.toInt := by
        rw [hsum]
        rfl
      rw [htotal]
      exact charged_push (s := startResult ctx.trx _) hpos hw rfl rfl

theorem Operation.evaluateLeaf_charged {op : Operation} (hV : V.Counts)
    (hop : op.isContractOp = true) (hskip : ctx.skipexec = false)
    (h : op.evaluateLeaf P V ctx s = .ok s') : op.ChargedRun P V ctx s s' := by
  cases op <;> simp only [isContractOp, Bool.false_eq_true] at hop <;>
    simp only [evaluateLeaf] at h
  · exact RegisterContractOperation.evaluate_charged hV hskip h
  · exact UpgradeContractOperation.evaluate_charged hV hskip h
  · exact DestroyContractOperation.evaluate_charged hV hskip h
  · exact CallContractOperation.evaluate_charged hV hskip h
  · exact TransferContractOperation.evaluate_charged hV hskip h

/-- A run that ended well has returned within the limit the operation got. -/
theorem Operation.outcome_done {op : Operation} {n : Int} {c : List StorageOperation}
    (hV : V.Counts) (h : op.outcome P V ctx s = .ok (some (.done n c))) :
    0 ≤ n ∧ n ≤ getLimit op.declaredLimit := by
  obtain ⟨r, s₀, s₁, hlimit, hrun⟩ : ∃ r s₀ s₁, r.costlimit = op.declaredLimit ∧
      runContract P V r ctx s₀ = .ok (s₁, .done n c) := by
    cases op <;> simp only [outcome, bind_eq_ok, orThrow_eq_ok, pure_eq_ok, Option.some.injEq,
      Prod.exists, reduceCtorEq] at h
    case registerContract op =>
      obtain ⟨_, -, s₁, _, hrun, rfl⟩ := h
      exact ⟨_, _, s₁, rfl, hrun⟩
    case upgradeContract op =>
      obtain ⟨entry, -, h⟩ := h
      split_ifs at h
      · simp only [bind_eq_ok, pure_eq_ok, Option.some.injEq, Prod.exists] at h
        obtain ⟨s₁, _, hrun, rfl⟩ := h
        exact ⟨_, _, s₁, rfl, hrun⟩
      · cases pure_eq_ok.1 h
    case destroyContract op =>
      obtain ⟨entry, -, h⟩ := h
      split_ifs at h
      · simp only [bind_eq_ok, pure_eq_ok, Option.some.injEq, Prod.exists] at h
        obtain ⟨_, -, s₁, _, hrun, rfl⟩ := h
        exact ⟨_, _, s₁, rfl, hrun⟩
      · cases pure_eq_ok.1 h
    case callContract op =>
      obtain ⟨s₁, _, hrun, rfl⟩ := h
      exact ⟨_, _, s₁, rfl, hrun⟩
    case transferContract op =>
      obtain ⟨entry, -, h⟩ := h
      split_ifs at h
      · simp only [bind_eq_ok, pure_eq_ok, Option.some.injEq, Prod.exists] at h
        obtain ⟨s₁, _, hrun, rfl⟩ := h
        exact ⟨_, _, s₁, rfl, hrun⟩
      · cases pure_eq_ok.1 h
  obtain ⟨hpositive, hcounted⟩ := (runContract_counted hV hrun).1 n c rfl
  rw [← hlimit]
  exact hcounted.returned_le hpositive

end Charges

/-! ## What is promised -/

/-- What a run is meant to cost: the fixed charges and the price of the instructions executed, or
the whole limit where it stops the run; and never more than the limit besides the fixed charges. -/
def Operation.ChargedAsDeclared (op : Operation) (total : ℤ) : Option RunOutcome → Prop
  | none => total = op.fixedCharges true
  | some (.done n _) => total = op.fixedCharges true + limitPrice.toInt * n ∧
      total ≤ op.fixedCharges true + op.declaredLimit.toInt
  | some (.outOfMoney _) => total = op.fixedCharges false + op.declaredLimit.toInt
  | some (.failed n _) => total = op.fixedCharges false + limitPrice.toInt * n ∧
      total ≤ op.fixedCharges false + op.declaredLimit.toInt

/-- A call that ends well declares a limit that an `int` holds, and a run that throws has not been
carried over the limit declared. -/
def Operation.WithinLimit (op : Operation) : Option RunOutcome → Prop
  | some (.done _ _) => op.isCall = true → op.declaredLimit.toInt < 2 ^ 31
  | some (.failed n _) => n ≤ op.declaredLimit.toInt
  | _ => True

section Promise

variable {P : Primitives} {V : Vm}

theorem charge_iff {op : Operation} {outcome : Option RunOutcome}
    (hlimit : outcome.isSome = true → 0 < op.declaredLimit.toInt)
    (hdone : ∀ n c, outcome = some (.done n c) → 0 ≤ n ∧ n ≤ getLimit op.declaredLimit) :
    op.ChargedAsDeclared (op.charge outcome) outcome ↔ op.WithinLimit outcome := by
  have hprice : limitPrice.toInt = 1 := by decide
  match outcome with
  | none => exact ⟨fun _ => trivial, fun _ => rfl⟩
  | some (.outOfMoney c) => exact ⟨fun _ => trivial, fun _ => rfl⟩
  | some (.failed n c) =>
    simp only [Operation.ChargedAsDeclared, Operation.WithinLimit, Operation.charge, hprice]
    omega
  | some (.done n c) =>
    obtain ⟨hnonneg, hle⟩ := hdone n c rfl
    have hpositive := hlimit rfl
    have hdeclared := getLimit_le hpositive
    have hnarrow := getLimit_eq_iff hpositive
    simp only [Operation.ChargedAsDeclared, Operation.WithinLimit, Operation.charge, hprice]
    cases op.isCall with
    | false =>
      simp only [Bool.false_eq_true, if_false, false_implies, iff_true]
      omega
    | true =>
      simp only [if_true, true_implies]
      omega

theorem evaluate_charged {p : PendingChainState} {skipSignatureCheck : Bool}
    {t : SignedTransaction} {op : Operation} {s₀ s' : EvalState} (hV : V.Counts)
    (ht : t.operations = [op]) (hop : op.isContractOp = true)
    (hstart : (EvalState.init p skipSignatureCheck false).start P t = .ok s₀)
    (h : evaluate P V (.init p skipSignatureCheck false) t = .ok s') :
    op.ChargedRun P V s₀.ctx s₀.st s'.st := by
  obtain ⟨s₁, st, h₁, hst, rfl⟩ := evaluate_origin_ok ht hop h
  obtain rfl : s₀ = s₁ := by
    rw [hstart] at h₁
    exact Except.ok.inj h₁
  obtain ⟨-, keys, -, rfl⟩ := EvalState.start_ok hstart
  obtain ⟨outcome, houtcome, hlimit, hcharged⟩ := Operation.evaluateLeaf_charged hV hop rfl hst
  obtain ⟨fees, hfees⟩ := EvalState.chargeSignatures_eq t
    { st with currentOpIndex := st.currentOpIndex + 1 }
  refine ⟨outcome, houtcome, hlimit, ?_⟩
  rw [hfees]
  exact hcharged

/-- An accepted contract operation carries one withdrawal, which is what its run is meant to cost
exactly where the run stays within the limit declared. -/
theorem gas_charge_iff (P : Primitives) (V : Vm) (hV : V.Counts) (p : PendingChainState)
    (skipSignatureCheck : Bool) (t : SignedTransaction) (op : Operation) (s₀ s' : EvalState)
    (ht : t.operations = [op]) (hop : op.isContractOp = true)
    (hstart : (EvalState.init p skipSignatureCheck false).start P t = .ok s₀)
    (h : evaluate P V (.init p skipSignatureCheck false) t = .ok s') :
    ∃ outcome w, op.outcome P V s₀.ctx s₀.st = .ok outcome ∧
      s'.st.pResultTrx.withdrawals = [w] ∧
      (op.ChargedAsDeclared (amountSum w.balances) outcome ↔ op.WithinLimit outcome) := by
  obtain ⟨outcome, houtcome, hlimit, w, hw, hsum⟩ := evaluate_charged hV ht hop hstart h
  refine ⟨outcome, w, houtcome, hw, ?_⟩
  rw [hsum]
  refine charge_iff hlimit fun n c hdone => ?_
  rw [hdone] at houtcome
  exact Operation.outcome_done hV houtcome

theorem advance_first {limit : Int} (hlimit : 0 < limit) :
    CountedStep.instruction.advance limit 0 = some 1 := by
  have hone : incrementExecutedCount 0 1 = 1 := by decide
  simp only [CountedStep.advance, hone]
  exact if_neg (by omega)

theorem Vm.idle_counts : Vm.idle.Counts := by
  intro input hlimit
  have hcount : executedCount input.limit ([.enter] ++ [.instruction]) = some 1 := by
    show (CountedStep.instruction.advance input.limit 0).bind some = some 1
    rw [advance_first hlimit]
    rfl
  exact .returned hcount

/-- The start and the whole of an evaluation. -/
def startAndEvaluate (P : Primitives) (V : Vm) (s : EvalState) (t : SignedTransaction) :
    Except Exn (EvalState × EvalState) := do
  let s₀ ← s.start P t
  let s' ← evaluate P V s t
  return (s₀, s')

theorem startAndEvaluate_ok {s : EvalState} {t : SignedTransaction}
    {f : EvalState × EvalState → Bool} (h : returns (startAndEvaluate P V s t) f = true) :
    ∃ s₀ s', s.start P t = .ok s₀ ∧ evaluate P V s t = .ok s' ∧ f (s₀, s') = true := by
  obtain ⟨r, hr, hf⟩ := exists_of_returns h
  simp only [startAndEvaluate, bind_eq_ok, pure_eq_ok] at hr
  obtain ⟨s₀, h₀, s', h', rfl⟩ := hr
  exact ⟨s₀, s', h₀, h', hf⟩

theorem gas_charge_iff_at_call :
    ∃ (s₀ s' : EvalState) (outcome : Option RunOutcome) (w : BalancesWithdrawOperation),
      evaluate .plain .idle (.init (.ofView theftView) false false) theftOrigin = .ok s' ∧
      (Operation.callContract theftCall).outcome .plain .idle s₀.ctx s₀.st = .ok outcome ∧
      s'.st.pResultTrx.withdrawals = [w] ∧
      ((Operation.callContract theftCall).ChargedAsDeclared (amountSum w.balances) outcome ↔
        (Operation.callContract theftCall).WithinLimit outcome) := by
  have hrun : returns (startAndEvaluate .plain .idle (.init (.ofView theftView) false false)
      theftOrigin) (fun _ => true) = true := by decide +kernel
  obtain ⟨s₀, s', hstart, hs', -⟩ := startAndEvaluate_ok hrun
  obtain ⟨outcome, w, houtcome, hw, hiff⟩ := gas_charge_iff .plain .idle Vm.idle_counts
    (.ofView theftView) false theftOrigin (.callContract theftCall) s₀ s' rfl rfl hstart hs'
  exact ⟨s₀, s', outcome, w, hs', houtcome, hw, hiff⟩

/-- A VM whose contracts make a chain API call with their first instruction that throws. -/
def Vm.throwing : Vm := ⟨fun _ => ⟨.error, 50, [], []⟩⟩

theorem Vm.throwing_counts : Vm.throwing.Counts := by
  intro input hlimit
  have hcount : executedCount input.limit [.enter, .instruction, .apiCall] = some 50 := by
    show (CountedStep.instruction.advance input.limit 0).bind
      (fun count => (some (incrementExecutedCount count 49)).bind some) = some 50
    rw [advance_first hlimit]
    rfl
  exact .failed hcount

/-- The call with a limit of ten instructions. -/
def shortCall : CallContractOperation := { theftCall with costlimit := ⟨10, 0⟩ }

def shortOrigin : SignedTransaction :=
  { theftOrigin with operations := [.callContract shortCall] }

theorem shortCall_outcome (ctx : OpContext) (s : OpState) :
    (Operation.callContract shortCall).outcome .plain .throwing ctx s =
      .ok (some (.failed 50 [])) := by
  have hlimit : ¬getLimit (shortCall.run ctx).costlimit ≤ 0 := by
    show ¬getLimit 10 ≤ 0
    decide
  simp only [Operation.outcome, runContract]
  rw [if_neg hlimit]
  rfl

/-- A call with a limit of ten instructions is charged fifty. -/
theorem overrun_charged :
    ∃ (s₀ s' : EvalState) (outcome : Option RunOutcome) (w : BalancesWithdrawOperation),
      evaluate .plain .throwing (.init (.ofView theftView) false false) shortOrigin = .ok s' ∧
      Vm.throwing.Counts ∧
      (Operation.callContract shortCall).outcome .plain .throwing s₀.ctx s₀.st = .ok outcome ∧
      s'.st.pResultTrx.withdrawals = [w] ∧
      ¬(Operation.callContract shortCall).ChargedAsDeclared (amountSum w.balances) outcome := by
  have hrun : returns (startAndEvaluate .plain .throwing (.init (.ofView theftView) false false)
      shortOrigin) (fun _ => true) = true := by decide +kernel
  obtain ⟨s₀, s', hstart, hs', -⟩ := startAndEvaluate_ok hrun
  obtain ⟨outcome, houtcome, -, w, hw, hsum⟩ := evaluate_charged Vm.throwing_counts
    (show _ = [Operation.callContract shortCall] from rfl) rfl hstart hs'
  refine ⟨s₀, s', outcome, w, hs', Vm.throwing_counts, houtcome, hw, ?_⟩
  rw [shortCall_outcome, ok_eq_ok] at houtcome
  rw [hsum, ← houtcome]
  rintro ⟨-, hle⟩
  exact absurd hle (by decide)

end Promise

end Achain
