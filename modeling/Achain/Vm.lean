import Achain.BalanceOperations
import Achain.Lib.Stateful

/-!
# Contract execution as seen from an operation

A run of the contract VM is a deterministic function of the state it reads. What it does to the
evaluation is the list of the chain API calls it makes: transfers out of a contract, storage
changes and events, each added to the result transaction under construction. A call that fails
changes nothing.
-/

namespace Achain

open Table Result

/-- The function of the contract that is run. -/
inductive VmEntryPoint where
  | init
  | onUpgrade
  | onDestroy
  | onDeposit (amount : ShareType)
  | api (method args : Str)

structure VmInput where
  view : LedgerView
  trx : SignedTransaction
  resultTrx : SignedTransaction
  contractBalanceRemain : ShareType
  caller : PublicKeyType
  contract : ContractIdType
  entryPoint : VmEntryPoint
  limit : Int

inductive VmEffect where
  | transfer (contract : ContractIdType) (toAddress : Address) (assetSymbol : Str) (amount : ShareType)
  | storage (op : StorageOperation)
  | event (op : EventOperation)

/-- How a run ended, as the operation sees it: by `exception_code`, or by a forced stop. -/
inductive VmStatus where
  | ok | limitOver | error | internalError
  deriving DecidableEq

/-- A run: the API calls it made, the storage changes committed when the state is closed, and the
number of instructions executed. -/
structure VmResult where
  status : VmStatus
  instructions : Int
  effects : List VmEffect
  closing : List StorageOperation

/-- The contract VM. -/
structure Vm where
  run : VmInput → VmResult

/-- A VM whose contracts end at once and do nothing. -/
def Vm.idle : Vm := ⟨fun _ => ⟨.ok, 1, [], []⟩⟩

variable (P : Primitives)

/-- The amount already withdrawn from a balance by the result: its first such operation. -/
def usedAmount (id : BalanceIdType) : List Operation → Option ShareType
  | [] => none
  | .withdrawContract op :: ops => if op.balanceId = id then some op.amount else usedAmount id ops
  | _ :: ops => usedAmount id ops

/-- Replaces the amount of the first withdrawal from a balance. -/
def setUsedAmount (id : BalanceIdType) (amount : ShareType) : List Operation → List Operation
  | [] => []
  | .withdrawContract op :: ops =>
    if op.balanceId = id then .withdrawContract { op with amount := amount } :: ops
    else .withdrawContract op :: setUsedAmount id amount ops
  | op :: ops => op :: setUsedAmount id amount ops

/-- `ChainInterface::withdraw_from_contract`: the withdrawal is merged into an earlier one of the
same balance. -/
def withdrawFromContract (l : Ledger) (amount : ShareType) (contract : ContractIdType)
    (ops : List Operation) : Except Exn (List Operation) := do
  let id := P.getBalanceId contract .contract
  let entry ← orThrow (l.getBalance id) .unknownBalanceEntry
  let used := usedAmount id ops
  ensure (amount + used.getD 0 ≤ entry.getSpendableBalance.amount) .insufficientFunds
  match used with
  | none => do
    ensure (0 < amount) .fcAssert
    return ops ++ [.withdrawContract ⟨id, amount, contract⟩]
  | some u => return setUsedAmount id (amount + u) ops

/-- `transfer_asset_from_contract`: a withdrawal from the contract and a deposit to the address. -/
def transferAssetFromContract (l : Ledger) (amount : ShareType) (symbol : Str)
    (contract : ContractIdType) (toAddress : Address) (ops : List Operation) :
    Except Exn (List Operation) := do
  let asset ← orThrow (l.getAssetBySymbol symbol) .invalidAssetSymbol
  ensure (asset.id == 0) .invalidAssetSymbol
  let ops ← withdrawFromContract P l amount contract ops
  ensure (0 < amount) .fcAssert
  return ops ++ [.deposit ⟨amount, ⟨0, 0, .common, .signature toAddress none⟩⟩]

/-- One API call of a run. -/
def applyEffect (s : OpState) : VmEffect → OpState
  | .transfer contract toAddress symbol amount =>
    match transferAssetFromContract P s.ledger amount symbol contract toAddress
        s.pResultTrx.operations with
    | .ok ops => { s with
        pResultTrx := { s.pResultTrx with operations := ops }
        contractBalanceRemain := s.contractBalanceRemain - amount }
    | .error _ => s
  | .storage op => { s with pResultTrx := s.pResultTrx.pushOp (.storage op) }
  | .event op => { s with pResultTrx := s.pResultTrx.pushOp (.event op) }

def pushClosing (s : OpState) (closing : List StorageOperation) : OpState :=
  closing.foldl (fun s op => { s with pResultTrx := s.pResultTrx.pushOp (.storage op) }) s

/-! ## The count of executed instructions

`luaV_execute` counts every instruction in an `int` of the Lua state and compares the count with
the limit before it executes the instruction. A chain API call advances the same count by the
instructions it stands for and compares nothing.
-/

/-- `CHAIN_GLUA_API_EACH_INSTRUCTIONS_COUNT`. -/
def eachInstructionsCount : Int := 50

/-- The steps of a run that touch the count. -/
inductive CountedStep where
  | enter | instruction | apiCall
  deriving DecidableEq

/-- `increment_lvm_instructions_executed_count`. -/
def incrementExecutedCount (count n : Int) : Int := (count + n).bmod (2 ^ 32)

/-- The count after a step, unless it is an instruction that the limit stops. A negative count is
set back where `luaV_execute` is entered. -/
def CountedStep.advance (limit count : Int) : CountedStep → Option Int
  | .enter => some (if count < 0 then 0 else count)
  | .instruction =>
    let count := incrementExecutedCount count 1
    if limit < count then none else some count
  | .apiCall => some (incrementExecutedCount count (eachInstructionsCount - 1))

def executedCount (limit : Int) (steps : List CountedStep) : Option Int :=
  steps.foldlM (CountedStep.advance limit) 0

/-- `get_lua_state_instructions_executed_count`. -/
def reportedCount (count : Int) : Int := if count < 0 then 0 else count

/-- The ends of a run and the count each leaves: the return instruction has been executed, an error
has been thrown, the limit has stopped an instruction, or the executor has failed. -/
inductive CountedRun (limit : Int) : VmStatus → Int → Prop
  | returned {steps : List CountedStep} {count : Int}
      (h : executedCount limit (steps ++ [.instruction]) = some count) :
      CountedRun limit .ok (reportedCount count)
  | failed {steps : List CountedStep} {count : Int} (h : executedCount limit steps = some count) :
      CountedRun limit .error (reportedCount count)
  | stopped {steps : List CountedStep} {count : Int} (h : executedCount limit steps = some count)
      (hstop : CountedStep.instruction.advance limit count = none) :
      CountedRun limit .limitOver (reportedCount (incrementExecutedCount count 1))
  | internal {steps : List CountedStep} {count : Int}
      (h : executedCount limit steps = some count) :
      CountedRun limit .internalError (reportedCount count)

/-- Every run of the VM reports the count of its steps. -/
def Vm.Counts (V : Vm) : Prop :=
  ∀ input : VmInput, 0 < input.limit →
    CountedRun input.limit (V.run input).status (V.run input).instructions

/-! ## Payouts, write by write

The transfers a run makes out of its contracts change the operations of the result in place, so that
a call that throws may leave what it has written. A payout first makes or raises the withdrawal from
the balance of the contract and then appends the deposit. -/

/-- The operations of a result under construction, changed in place. -/
abbrev ResultM := EStateM Exn (List Operation)

/-- A computation that does not touch the operations. -/
def ResultM.throwing {α : Type} (x : Except Exn α) : ResultM α := fun ops =>
  match x with
  | .ok a => .ok a ops
  | .error e => .error e ops

section Steps

open ResultM

variable (P : Primitives) (l : Ledger)

/-- `ChainInterface::withdraw_from_contract`. The test for overflow inside its loop is only reached
where nothing has been found. -/
def withdrawFromContractSteps (amount : ShareType) (contract : ContractIdType) : ResultM Unit := do
  let id := P.getBalanceId contract .contract
  let entry ← throwing (orThrow (l.getBalance id) .unknownBalanceEntry)
  let used := usedAmount id (← get)
  throwing (ensure (amount + used.getD 0 ≤ entry.getSpendableBalance.amount) .insufficientFunds)
  match used with
  | none => do
    throwing (ensure (0 < amount) .fcAssert)
    modify (· ++ [.withdrawContract ⟨id, amount, contract⟩])
  | some u => modify (setUsedAmount id (amount + u))

/-- The deposit a payout appends. -/
def payoutDeposit (amount : ShareType) (toAddress : Address) : Operation :=
  .deposit ⟨amount, ⟨0, 0, .common, .signature toAddress none⟩⟩

/-- `ChainInterface::transfer_asset_from_contract`. -/
def transferAssetFromContractSteps (amount : ShareType) (symbol : Str) (contract : ContractIdType)
    (toAddress : Address) : ResultM Unit := do
  let asset ← throwing (orThrow (l.getAssetBySymbol symbol) .invalidAssetSymbol)
  throwing (ensure (asset.id == 0) .invalidAssetSymbol)
  withdrawFromContractSteps P l amount contract
  throwing (ensure (0 < amount) .fcAssert)
  modify (· ++ [payoutDeposit amount toAddress])

end Steps

/-- A payout that returned. -/
structure ContractPayout where
  contract : ContractIdType
  toAddress : Address
  amount : ShareType

/-- A run of API calls: the payouts that returned so far and the operations of the result. -/
structure PayoutRun where
  paid : List ContractPayout
  operations : List Operation

namespace PayoutRun

variable (P : Primitives) (l : Ledger)

/-- One API call. What a payout that throws has written stays. -/
def step (r : PayoutRun) : VmEffect → PayoutRun
  | .transfer contract toAddress symbol amount =>
    match transferAssetFromContractSteps P l amount symbol contract toAddress r.operations with
    | .ok _ ops => ⟨r.paid ++ [⟨contract, toAddress, amount⟩], ops⟩
    | .error _ ops => { r with operations := ops }
  | .storage op => { r with operations := r.operations ++ [.storage op] }
  | .event op => { r with operations := r.operations ++ [.event op] }

/-- A run of calls, none of which has paid anything yet. -/
def run (ops : List Operation) (effects : List VmEffect) : PayoutRun :=
  effects.foldl (step P l) ⟨[], ops⟩

end PayoutRun

end Achain
