import Achain.Vm

/-!
# Contract operations

The operations of an origin transaction (register, upgrade, destroy, call, transfer) check the
balances offered and build the result transaction, running the contract when `skipexec` is off; the
operations a result carries (information, upgrade, destruction) change the contract entries.

The five origin operations run a contract in the same way. `runContract` is that run: the result
starts with the origin transaction, and the run ends well, or out of instructions, or with an
error.
-/

namespace Achain

open Table Result

variable (P : Primitives) (V : Vm)

def onUpgradeInterface : Str := ['o', 'n', '_', 'u', 'p', 'g', 'r', 'a', 'd', 'e']
def onDestroyInterface : Str := ['o', 'n', '_', 'd', 'e', 's', 't', 'r', 'o', 'y']
def onDepositInterface : Str := ['o', 'n', '_', 'd', 'e', 'p', 'o', 's', 'i', 't']
def initInterface : Str := ['i', 'n', 'i', 't']

/-- `get_amount_sum`: a wrapped sum is smaller than one of its terms. -/
def getAmountSum (l r : ShareType) : Except Exn ShareType := do
  ensure (l ≤ l + r && r ≤ l + r) .additionOverflow
  return l + r

/-- One balance of `check_balances`. -/
def checkBalance (ctx : OpContext) (l : Ledger) (operator : Address) (sum : ShareType)
    (item : BalanceIdType × ShareType) : Except Exn ShareType := do
  ensure (0 < item.2) .negativeWithdraw
  let entry ← orThrow (l.getBalance item.1) .unknownBalanceEntry
  ensure (entry.assetId == 0) .fcAssert
  ensure (item.2 ≤ entry.getSpendableBalance.amount) .insufficientFunds
  let asset ← orThrow (l.getAsset entry.assetId) .fcAssert
  ctx.authorizeOperator operator asset entry
  getAmountSum sum item.2

/-- `check_balances`: the sum of the balances offered, each of which the operator may spend. -/
def checkBalances (ctx : OpContext) (l : Ledger) (balances : Map BalanceIdType ShareType)
    (operator : Address) : Except Exn ShareType :=
  (mapItems balances).foldlM (checkBalance ctx l operator) 0

/-- The amounts `withdraw_enough_balances` takes, balance by balance, until the requirement is
met. -/
def takeBalances : List (BalanceIdType × ShareType) → ShareType →
    Except Exn (List (BalanceIdType × ShareType))
  | [], _ => .error .insufficientFunds
  | item :: items, required =>
    if required ≤ item.2 then .ok [(item.1, required)]
    else do
      let rest ← takeBalances items (required - item.2)
      return item :: rest

/-- `withdraw_enough_balances`. -/
def withdrawEnoughBalances (balances : Map BalanceIdType ShareType) (required : ShareType) :
    Except Exn BalancesWithdrawOperation := do
  let items ← takeBalances (mapItems balances) required
  return ⟨items.foldl (fun m e => m.insert e.1 e.2) ∅⟩

/-- `get_limit` at `LIMIT_PRICE`, an `int`. -/
def getLimit (amount : ShareType) : Int := (amount / limitPrice).toInt.bmod (2 ^ 32)

/-- `get_amount` at `LIMIT_PRICE`. -/
def getAmount (limit : Int) : Asset := ⟨limitPrice * Int64.ofInt limit, 0⟩

/-- `get_contract_register_fee`. -/
def contractRegisterFee (code : Code) : Asset := ⟨Int64.ofNat code.byteCode.length, 0⟩

def defaultMargin : Asset := ⟨defaultContractMargin, 0⟩

/-- Starts the result with the origin transaction. -/
def startResult (trx : SignedTransaction) (s : OpState) : OpState :=
  { s with pResultTrx := { s.pResultTrx with operations := [.transaction trx] } }

/-- `p_result_trx.operations.resize(1)`. -/
def resizeResult (s : OpState) : OpState :=
  { s with pResultTrx := { s.pResultTrx with operations := s.pResultTrx.operations.take 1 } }

def pushResult (s : OpState) (ops : List Operation) : OpState :=
  { s with pResultTrx := { s.pResultTrx with operations := s.pResultTrx.operations ++ ops } }

def setExpiration (trx : SignedTransaction) (s : OpState) : OpState :=
  { s with pResultTrx := { s.pResultTrx with expiration := trx.expiration } }

/-- A contract run inside an origin operation. -/
structure ContractRun where
  caller : PublicKeyType
  contract : ContractIdType
  entryPoint : VmEntryPoint
  costlimit : ShareType
  start : OpState → OpState

/-- The outcome of a run that the operation goes on with, and the instructions executed. -/
inductive RunOutcome where
  | done (instructions : Int) (closing : List StorageOperation)
  | outOfMoney (closing : List StorageOperation)
  | failed (instructions : Int) (closing : List StorageOperation)

/-- The run itself: no instructions at all for a limit that is not positive; an internal error of
the executor is thrown on. `start` is what the operation does to the result before the run. -/
def runContract (r : ContractRun) (ctx : OpContext) (s : OpState) :
    Except Exn (OpState × RunOutcome) :=
  if getLimit r.costlimit ≤ 0 then .ok (s, .outOfMoney [])
  else
    let s := r.start s
    let result := V.run ⟨s.ledger.toView, ctx.trx, s.pResultTrx, s.contractBalanceRemain, r.caller,
      r.contract, r.entryPoint, getLimit r.costlimit⟩
    let s := result.effects.foldl (applyEffect P) s
    match result.status with
    | .ok => .ok (s, .done result.instructions result.closing)
    | .limitOver => .ok (s, .outOfMoney result.closing)
    | .error => .ok (s, .failed result.instructions result.closing)
    | .internalError => .error .luaExecutorInternalError

/-- The result of a run out of instructions: the origin transaction and the withdrawal of the
whole limit. -/
def outOfMoneyResult (ctx : OpContext) (balances : Map BalanceIdType ShareType)
    (required : ShareType) (s : OpState) : Except Exn OpState := do
  ensure (!ctx.throwExecException) .contractRunOutOfMoney
  let withdraw ← withdrawEnoughBalances balances required
  return setExpiration ctx.trx (pushResult (startResult ctx.trx s) [.balancesWithdraw withdraw])

/-- The result of a run that ended in an error: its operations are dropped and the instructions
executed are paid for. -/
def failedResult (ctx : OpContext) (balances : Map BalanceIdType ShareType) (fee : Asset)
    (instructions : Int) (s : OpState) : Except Exn OpState := do
  ensure (!ctx.throwExecException) .contractExecuteError
  let required ← (getAmount instructions).add fee
  let withdraw ← withdrawEnoughBalances balances required.amount
  return setExpiration ctx.trx (pushResult (resizeResult s) [.balancesWithdraw withdraw])

/-- The cost of a run that ended well, between nothing and the limit. -/
def execCost (instructions : Int) (costlimit : ShareType) : Except Exn ShareType := do
  let cost := (getAmount instructions).amount
  ensure (cost ≤ costlimit && 0 < cost) .fcAssert
  return cost

/-- Runs an execution unless it is skipped. -/
def OpContext.unlessSkipped (ctx : OpContext) (s : OpState) (x : Except Exn OpState) :
    Except Exn OpState :=
  if ctx.skipexec then .ok s else x

/-! ## Register -/

def RegisterContractOperation.entry (op : RegisterContractOperation) (trxId : TransactionIdType) :
    ContractEntry where
  contractName := []
  id := P.contractHash op
  level := .temp
  owner := op.owner
  state := .valid
  description := []
  code := op.contractCode
  trxId := trxId
  registerTime := 0

/-- The checks of a registration. -/
def RegisterContractOperation.check (op : RegisterContractOperation) (ctx : OpContext)
    (l : Ledger) : Except Exn Unit := do
  ensure (0 < op.initcost.amount) .fcAssert
  ensure (0 ≤ op.transactionFee.amount) .fcAssert
  ensure (!ctx.evaluateContractResult) .inResultOfExecute
  ensure (l.getContract (P.contractHash op)).isNone .contractAddressInUse
  ensure (ctx.checkSignature (P.address op.owner)) .missingSignature
  let all ← checkBalances ctx l op.balances (P.address op.owner)
  let fee := (contractRegisterFee op.contractCode).amount
  ensure (0 < fee) .fcAssert
  ensure (0 < op.transactionFee.amount) .fcAssert
  let required ← getAmountSum defaultMargin.amount fee
  let required ← getAmountSum required op.initcost.amount
  let required ← getAmountSum required op.transactionFee.amount
  ensure (required ≤ all) .insufficientFunds
  ensure (op.contractCode.codeHash == P.codeHash op.contractCode.byteCode) .codeHashError

/-- The run of a contract's `init` and the result it leaves. -/
def RegisterContractOperation.execute (op : RegisterContractOperation) (ctx : OpContext)
    (s : OpState) : Except Exn OpState := do
  ensure s.pResultTrx.operations.isEmpty .fcAssert
  let id := P.contractHash op
  let fee := (contractRegisterFee op.contractCode).amount
  let info : Operation := .contractInfo ⟨id, op.owner, op.contractCode, op.registerTime⟩
  let start := fun s => setExpiration ctx.trx (pushResult (startResult ctx.trx s) [info])
  let (s, outcome) ← runContract P V ⟨op.owner, id, .init, op.initcost.amount, start⟩ ctx s
  match outcome with
  | .done instructions closing => do
    let cost ← execCost instructions op.initcost.amount
    let required ← getAmountSum cost defaultMargin.amount
    let required ← getAmountSum required fee
    let required ← getAmountSum required op.transactionFee.amount
    let withdraw ← withdrawEnoughBalances op.balances required
    let margin : DepositContractOperation :=
      ⟨defaultMargin.amount, contractCondition id .margin⟩
    return pushClosing (pushResult s [.balancesWithdraw withdraw, .depositContract margin]) closing
  | .outOfMoney closing => do
    let required ← getAmountSum fee op.transactionFee.amount
    let required ← getAmountSum required op.initcost.amount
    let s ← outOfMoneyResult ctx op.balances required s
    return pushClosing s closing
  | .failed instructions closing => do
    let s ← failedResult ctx op.balances s.requiredFees instructions s
    return pushClosing s closing

/-- `RegisterContractOperation::evaluate`: the contract entry exists only while its `init` runs. -/
def RegisterContractOperation.evaluate (op : RegisterContractOperation) (ctx : OpContext)
    (s : OpState) : Except Exn OpState := do
  op.check P ctx s.ledger
  let required ← op.transactionFee.add (contractRegisterFee op.contractCode)
  let s := { s with
    ledger := s.ledger.storeContract (op.entry P (P.id ctx.trx))
    contractOperator := op.owner
    requiredFees := required }
  let s ← ctx.unlessSkipped s (op.execute P V ctx s)
  return { s with ledger := ContractEntry.remove s.ledger (P.contractHash op) }

/-! ## Upgrade and destroy -/

/-- The margin balance of a contract, which must hold exactly the margin. -/
def marginBalance (l : Ledger) (id : ContractIdType) : Except Exn BalanceEntry := do
  let entry ← orThrow (l.getBalance (P.getBalanceId id .margin)) .fcAssert
  ensure (entry.assetId == 0) .fcAssert
  ensure (entry.balance == defaultContractMargin) .invalidMarginAmount
  return entry

/-- The withdrawal of a contract's margin. -/
def withdrawMargin (margin : BalanceEntry) : Operation :=
  .withdrawContract ⟨P.balanceId margin, margin.balance, 0⟩

def depositTo (owner : Address) (amount : ShareType) : Operation :=
  .deposit ⟨amount, ⟨0, 0, .common, .signature owner none⟩⟩

/-- The checks of an upgrade: the contract, its margin and the sum of the balances offered. -/
def UpgradeContractOperation.check (op : UpgradeContractOperation) (ctx : OpContext)
    (l : Ledger) : Except Exn (ContractEntry × BalanceEntry × ShareType) := do
  ensure (0 ≤ op.transactionFee.amount) .fcAssert
  ensure (!ctx.evaluateContractResult) .inResultOfExecute
  let entry ← orThrow (l.getContract op.id) .contractNotExist
  ensure (entry.level == .temp) .contractUpgraded
  ensure (entry.state != .deleted) .contractDestroyed
  ensure (isValidContractName op.name) .contractNameIllegal
  ensure (isValidContractDescription op.desc) .contractDescIllegal
  ensure (l.getContractByName op.name).isNone .contractNameInUse
  ensure (ctx.checkSignature (P.address entry.owner)) .missingSignature
  let margin ← marginBalance P l entry.id
  let all ← checkBalances ctx l op.balances (P.address entry.owner)
  return (entry, margin, all)

def UpgradeContractOperation.execute (op : UpgradeContractOperation) (ctx : OpContext)
    (entry : ContractEntry) (margin : BalanceEntry) (s : OpState) : Except Exn OpState := do
  ensure s.pResultTrx.operations.isEmpty .fcAssert
  let (s, outcome) ← runContract P V
    ⟨entry.owner, op.id, .onUpgrade, op.execLimit.amount, startResult ctx.trx⟩ ctx s
  match outcome with
  | .done instructions closing => do
    let cost ← execCost instructions op.execLimit.amount
    let required ← getAmountSum cost op.transactionFee.amount
    let withdraw ← withdrawEnoughBalances op.balances required
    let fees ← op.transactionFee.add defaultMargin
    let s := pushResult s [withdrawMargin P margin, .balancesWithdraw withdraw,
      .onUpgrade ⟨op.id, op.name, op.desc⟩]
    return pushClosing { s with requiredFees := fees } closing
  | .outOfMoney closing => do
    let required ← getAmountSum op.execLimit.amount op.transactionFee.amount
    let s ← outOfMoneyResult ctx op.balances required s
    return pushClosing { s with requiredFees := op.transactionFee } closing
  | .failed instructions closing => do
    let s ← failedResult ctx op.balances op.transactionFee instructions s
    return pushClosing s closing

def UpgradeContractOperation.evaluate (op : UpgradeContractOperation) (ctx : OpContext)
    (s : OpState) : Except Exn OpState := do
  let (entry, margin, all) ← op.check P ctx s.ledger
  let s := { s with contractOperator := entry.owner }
  if onUpgradeInterface ∈ entry.code.abi then do
    ensure (0 < op.execLimit.amount) .fcAssert
    let s ← ctx.unlessSkipped s (op.execute P V ctx entry margin s)
    return setExpiration ctx.trx s
  else do
    ensure (0 ≤ op.execLimit.amount) .fcAssert
    ensure (op.transactionFee.amount ≤ all) .insufficientFunds
    let withdraw ← withdrawEnoughBalances op.balances op.transactionFee.amount
    let fees ← op.transactionFee.add defaultMargin
    let s := pushResult (startResult ctx.trx s) [.balancesWithdraw withdraw,
      withdrawMargin P margin, .onUpgrade ⟨op.id, op.name, op.desc⟩]
    return setExpiration ctx.trx { s with requiredFees := fees }

/-- `OnUpgradeOperation::evaluate`: the contract gets the name, whether or not it is valid or
free. -/
def OnUpgradeOperation.evaluate (op : OnUpgradeOperation) (ctx : OpContext) (s : OpState) :
    Except Exn OpState := do
  ensure ctx.evaluateContractResult .notBeResultOfExecute
  let entry ← orThrow (s.ledger.getContract op.id) .contractNotExist
  return { s with
    ledger := s.ledger.storeContract
      { entry with level := .forever, contractName := op.name, description := op.desc } }

def DestroyContractOperation.check (op : DestroyContractOperation) (ctx : OpContext)
    (l : Ledger) : Except Exn (ContractEntry × BalanceEntry × ShareType) := do
  ensure (0 ≤ op.transactionFee.amount) .fcAssert
  ensure (!ctx.evaluateContractResult) .inResultOfExecute
  let entry ← orThrow (l.getContract op.id) .contractNotExist
  ensure (entry.state != .deleted) .contractDestroyed
  ensure (entry.level == .temp) .permanentContract
  ensure (ctx.checkSignature (P.address entry.owner)) .missingSignature
  let margin ← marginBalance P l entry.id
  let all ← checkBalances ctx l op.balances (P.address entry.owner)
  return (entry, margin, all)

/-- The amount a contract holds when `on_destroy` starts. -/
def contractBalanceBefore (l : Ledger) (id : ContractIdType) : Except Exn ShareType :=
  match l.getBalance (P.getBalanceId id .contract) with
  | some b => do
    ensure (b.assetId == 0) .fcAssert
    return b.getSpendableBalance.amount
  | none => .ok 0

def DestroyContractOperation.execute (op : DestroyContractOperation) (ctx : OpContext)
    (entry : ContractEntry) (margin : BalanceEntry) (s : OpState) : Except Exn OpState := do
  ensure s.pResultTrx.operations.isEmpty .fcAssert
  let remain ← contractBalanceBefore P s.ledger entry.id
  let s := { s with contractBalanceRemain := remain }
  let (s, outcome) ← runContract P V
    ⟨entry.owner, op.id, .onDestroy, op.execLimit.amount, startResult ctx.trx⟩ ctx s
  match outcome with
  | .done instructions closing => do
    let cost ← execCost instructions op.execLimit.amount
    let required ← getAmountSum cost op.transactionFee.amount
    let withdraw ← withdrawEnoughBalances op.balances required
    let s := pushResult s [.onDestroy ⟨op.id, ⟨s.contractBalanceRemain, 0⟩⟩,
      withdrawMargin P margin, depositTo (P.address entry.owner) margin.balance,
      .balancesWithdraw withdraw]
    return pushClosing { s with requiredFees := op.transactionFee } closing
  | .outOfMoney closing => do
    let required ← getAmountSum op.execLimit.amount op.transactionFee.amount
    let s ← outOfMoneyResult ctx op.balances required s
    return pushClosing { s with requiredFees := op.transactionFee } closing
  | .failed instructions closing => do
    let s ← failedResult ctx op.balances op.transactionFee instructions s
    return pushClosing s closing

def DestroyContractOperation.evaluate (op : DestroyContractOperation) (ctx : OpContext)
    (s : OpState) : Except Exn OpState := do
  let (entry, margin, all) ← op.check P ctx s.ledger
  let s := { s with contractOperator := entry.owner }
  if onDestroyInterface ∈ entry.code.abi then do
    ensure (0 < op.execLimit.amount) .fcAssert
    let s ← ctx.unlessSkipped s (op.execute P V ctx entry margin s)
    return setExpiration ctx.trx s
  else do
    ensure (0 ≤ op.execLimit.amount) .fcAssert
    ensure (op.transactionFee.amount ≤ all) .insufficientFunds
    let withdraw ← withdrawEnoughBalances op.balances op.transactionFee.amount
    let remain : ShareType :=
      match s.ledger.getBalance (P.getBalanceId entry.id .contract) with
      | some b => b.balance
      | none => 0
    let s := pushResult (startResult ctx.trx s) [.balancesWithdraw withdraw,
      withdrawMargin P margin, depositTo (P.address entry.owner) margin.balance,
      .onDestroy ⟨op.id, ⟨remain, 0⟩⟩]
    return setExpiration ctx.trx { s with requiredFees := op.transactionFee }

/-- The part of `OnDestroyOperation::evaluate` that moves the contract's balance to its owner. -/
def OnDestroyOperation.moveBalance (op : OnDestroyOperation) (entry : ContractEntry)
    (b : BalanceEntry) (s : OpState) : Except Exn OpState := do
  ensure (b.assetId == 0) .fcAssert
  let amount := b.getSpendableBalance.amount
  ensure (amount == op.amount.amount) .fcAssert
  let s ← s.addBalance ⟨amount, 0⟩
  let s := { s with ledger := s.ledger.storeBalance P { b with balance := 0 } }
  let cond := contractCondition (P.address entry.owner) .common
  let dest := (s.ledger.getBalance (P.conditionAddress cond)).getD (.ofCondition cond)
  let now := s.ledger.prev.now
  let date ← dest.dateAfter now amount (toUint128 (dest.balance + amount))
  let s ← s.subBalance ⟨amount, dest.assetId⟩
  let _ ← orThrow (s.ledger.getAsset dest.assetId) .fcAssert
  return { s with
    ledger := s.ledger.storeBalance P
      { dest with balance := dest.balance + amount, depositDate := date, lastUpdate := now } }

/-- Moves the contract's balance, if there is one. -/
def OnDestroyOperation.move (op : OnDestroyOperation) (entry : ContractEntry) (s : OpState) :
    Except Exn OpState :=
  match s.ledger.getBalance (P.getBalanceId entry.id .contract) with
  | some b => op.moveBalance P entry b s
  | none => .ok s

def OnDestroyOperation.evaluate (op : OnDestroyOperation) (ctx : OpContext) (s : OpState) :
    Except Exn OpState := do
  ensure ctx.evaluateContractResult .notBeResultOfExecute
  let entry ← orThrow (s.ledger.getContract op.id) .contractNotExist
  let s ← op.move P entry s
  return { s with ledger := s.ledger.storeContract { entry with state := .deleted } }

/-! ## Call -/

def isFunctionNotAllowCall (method : Str) : Bool :=
  method == initInterface || method == onDepositInterface || method == onUpgradeInterface ||
    method == onDestroyInterface

/-- The checks of a call, and the amount it may cost. -/
def CallContractOperation.check (op : CallContractOperation) (ctx : OpContext) (l : Ledger) :
    Except Exn (ShareType × ShareType) := do
  ensure (0 < op.costlimit.amount) .fcAssert
  ensure (0 ≤ op.transactionFee.amount) .fcAssert
  ensure (!ctx.evaluateContractResult) .inResultOfExecute
  let entry ← orThrow (l.getContract op.contract) .contractNotExist
  ensure (entry.state != .deleted) .contractDestroyed
  ensure (!isFunctionNotAllowCall op.method) .methodCanNotBeCalledExplicitly
  ensure (op.args.length ≤ contractParamMaxLen) .contractParameterLengthOverLimit
  ensure (op.method ∈ entry.code.abi) .methodNotExist
  ensure (ctx.checkSignature (P.address op.caller)) .missingSignature
  let all ← checkBalances ctx l op.balances (P.address op.caller)
  let required ← getAmountSum op.costlimit.amount op.transactionFee.amount
  ensure (required ≤ all) .insufficientFunds
  return (all, required)

/-- What a run of a call costs: the limit and the fee, less the instructions left. -/
def callCost (costlimit required : ShareType) (instructions : Int) : ShareType :=
  let left := getLimit costlimit - instructions
  if 0 < left then required - (getAmount left).amount else required

def CallContractOperation.execute (op : CallContractOperation) (ctx : OpContext)
    (all required : ShareType) (s : OpState) : Except Exn OpState := do
  ensure s.pResultTrx.operations.isEmpty .fcAssert
  ensure (op.transactionFee.amount ≤ all) .fcAssert
  let start := fun s =>
    setExpiration ctx.trx (pushResult (startResult ctx.trx s) [.onCallSuccess])
  let (s, outcome) ← runContract P V
    ⟨op.caller, op.contract, .api op.method op.args, op.costlimit.amount, start⟩ ctx s
  match outcome with
  | .done instructions closing => do
    let withdraw ← withdrawEnoughBalances op.balances
      (callCost op.costlimit.amount required instructions)
    return pushClosing (pushResult s [.balancesWithdraw withdraw]) closing
  | .outOfMoney closing => do
    let s ← outOfMoneyResult ctx op.balances required s
    return pushClosing s closing
  | .failed instructions closing => do
    let s ← failedResult ctx op.balances op.transactionFee instructions s
    return pushClosing s closing

def CallContractOperation.evaluate (op : CallContractOperation) (ctx : OpContext) (s : OpState) :
    Except Exn OpState := do
  let (all, required) ← op.check P ctx s.ledger
  let s := { s with contractOperator := op.caller, requiredFees := op.transactionFee }
  if ctx.skipexec then .ok s else op.execute P V ctx all required s

def ContractInfoOperation.evaluate (op : ContractInfoOperation) (ctx : OpContext) (s : OpState) :
    Except Exn OpState := do
  ensure ctx.evaluateContractResult .notBeResultOfExecute
  ensure (s.ledger.getContract op.contractId).isNone .contractAddressInUse
  ensure (op.code.codeHash == P.codeHash op.code.byteCode) .codeHashError
  let trxId := P.id ctx.trx
  let l := s.ledger.storeContract
    { contractName := [], id := op.contractId, level := .temp, owner := op.owner, state := .valid,
      description := [], code := op.code, trxId := trxId, registerTime := op.registerTime }
  let l := ContractDbInterface.contractStoreContractidByTrxid l trxId op.contractId
  let l := ContractDbInterface.contractStoreTrxidByContractid l op.contractId trxId
  return { s with ledger := l }

/-! ## Transfer -/

def TransferContractOperation.check (op : TransferContractOperation) (ctx : OpContext)
    (l : Ledger) : Except Exn ContractEntry := do
  ensure (0 ≤ op.transactionFee.amount) .fcAssert
  ensure (!ctx.evaluateContractResult) .inResultOfExecute
  let entry ← orThrow (l.getContract op.contractId) .contractNotExist
  ensure (entry.state != .deleted) .contractDestroyed
  ensure (ctx.checkSignature (P.address op.from')) .missingSignature
  ensure (0 < op.transferAmount.amount) .transferAmountNotBiggerThan0
  ensure (op.transferAmount.assetId == 0) .fcAssert
  ensure (op.costlimit.assetId == 0) .fcAssert
  ensure (if onDepositInterface ∈ entry.code.abi then 0 < op.costlimit.amount
    else 0 ≤ op.costlimit.amount) .fcAssert
  let all ← checkBalances ctx l op.balances (P.address op.from')
  let required ← getAmountSum op.costlimit.amount op.transferAmount.amount
  let required ← getAmountSum required op.transactionFee.amount
  ensure (required ≤ all) .insufficientFunds
  return entry

/-- The deposit of the transferred amount to the contract. -/
def TransferContractOperation.deposit (op : TransferContractOperation) :
    DepositContractOperation :=
  ⟨op.transferAmount.amount, ⟨op.transferAmount.assetId, 0, .contract,
    .signature op.contractId none⟩⟩

/-- The contract's balance before the transfer, a new one of zero if there is none. -/
def TransferContractOperation.balanceEntry (op : TransferContractOperation) (l : Ledger) :
    BalanceEntry :=
  (l.getBalance (P.conditionAddress op.deposit.condition)).getD
    ⟨op.deposit.condition, 0, l.prev.now, l.prev.now, none⟩

/-- `on_deposit` runs with the contract's balance already credited; the old balance is put back
right after the run, also where there was none. -/
def TransferContractOperation.execute (op : TransferContractOperation) (ctx : OpContext)
    (s : OpState) : Except Exn OpState := do
  ensure s.pResultTrx.operations.isEmpty .fcAssert
  let old := op.balanceEntry P s.ledger
  let credited := { old with balance := old.balance + op.transferAmount.amount }
  let during := if getLimit op.costlimit.amount ≤ 0 then s.ledger
    else s.ledger.storeBalance P credited
  let (s, outcome) ← runContract P V
    ⟨op.from', op.contractId, .onDeposit op.transferAmount.amount, op.costlimit.amount,
      startResult ctx.trx⟩ ctx { s with ledger := during }
  let s := { s with
    ledger := if getLimit op.costlimit.amount ≤ 0 then s.ledger else s.ledger.storeBalance P old }
  match outcome with
  | .done instructions closing => do
    let cost ← execCost instructions op.costlimit.amount
    let required ← getAmountSum cost op.transferAmount.amount
    let required ← getAmountSum required op.transactionFee.amount
    let withdraw ← withdrawEnoughBalances op.balances required
    let s := pushResult s [.balancesWithdraw withdraw, .depositContract op.deposit]
    return pushClosing s closing
  | .outOfMoney closing => do
    let required ← getAmountSum op.costlimit.amount op.transactionFee.amount
    let s ← outOfMoneyResult ctx op.balances required s
    return pushClosing s closing
  | .failed instructions closing => do
    let s ← failedResult ctx op.balances op.transactionFee instructions s
    return pushClosing s closing

def TransferContractOperation.evaluate (op : TransferContractOperation) (ctx : OpContext)
    (s : OpState) : Except Exn OpState := do
  let entry ← op.check P ctx s.ledger
  let s := { s with contractOperator := op.from', requiredFees := op.transactionFee }
  if onDepositInterface ∈ entry.code.abi then do
    let s ← ctx.unlessSkipped s (op.execute P V ctx s)
    return setExpiration ctx.trx s
  else do
    let required ← getAmountSum op.transactionFee.amount op.transferAmount.amount
    let withdraw ← withdrawEnoughBalances op.balances required
    return setExpiration ctx.trx (pushResult (startResult ctx.trx s)
      [.balancesWithdraw withdraw, .depositContract op.deposit])

end Achain
