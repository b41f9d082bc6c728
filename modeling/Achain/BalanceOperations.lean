import Achain.EvaluationState

/-!
# Balance operations

Deposits and withdrawals, and the withdrawals and deposits a contract result may carry.
-/

namespace Achain

open Table Result

variable (P : Primitives)

/-- Inserts the owners of a balance into the addresses deposited to, each at most once in a
transaction. -/
def insertDepositAddresses (owners seen : List Address) : Except Exn (List Address) :=
  owners.foldlM (fun seen addr =>
    if addr ∈ seen then .error .depositToOneAddressTwice else .ok (addr :: seen)) seen

def BalanceEntry.ofCondition (c : WithdrawCondition) : BalanceEntry := ⟨c, 0, 0, 0, none⟩

/-- The condition of a contract's own balances. -/
def contractCondition (id : ContractIdType) (type : WithdrawBalanceTypes) : WithdrawCondition :=
  ⟨0, 0, type, .signature id none⟩

/-- `get_balanceid`. -/
def Primitives.getBalanceId (id : ContractIdType) (type : WithdrawBalanceTypes) : BalanceIdType :=
  P.conditionAddress (contractCondition id type)

def DepositOperation.evaluate (op : DepositOperation) (s : OpState) : Except Exn OpState := do
  ensure (s.depositCount ≤ transactionMaxDepositNum) .tooMuchDeposit
  let s := { s with depositCount := s.depositCount + 1 }
  ensure (0 < op.amount) .negativeDeposit
  ensure (op.condition.data ≠ .null) .invalidWithdrawCondition
  let now := s.ledger.prev.now
  let entry := (s.ledger.getBalance (P.conditionAddress op.condition)).getD
    (.ofCondition op.condition)
  let seen ← insertDepositAddresses entry.condition.owners s.depositAddress
  let s := { s with depositAddress := seen }
  let divisor := (toUint128 entry.balance + toUint128 op.amount) % 2 ^ 128
  let date ← entry.dateAfter now op.amount divisor
  let balance ← safeAdd entry.balance op.amount
  let s ← s.subBalance ⟨op.amount, entry.assetId⟩
  let s ← s.adjustBalanceVote entry.condition op.amount
  let _ ← orThrow (s.ledger.getAsset entry.assetId) .fcAssert
  return { s with
    ledger := s.ledger.storeBalance P
      { entry with balance := balance, depositDate := date, lastUpdate := now } }

def WithdrawOperation.evaluate (op : WithdrawOperation) (ctx : OpContext) (s : OpState) :
    Except Exn OpState := do
  ensure (0 < op.amount) .negativeWithdraw
  let entry ← orThrow (s.ledger.getBalance op.balanceId) .unknownBalanceEntry
  ensure (op.amount ≤ entry.getSpendableBalance.amount) .insufficientFunds
  let asset ← orThrow (s.ledger.getAsset entry.assetId) .fcAssert
  ctx.authorizeWithdraw asset entry
  let s ← s.adjustBalanceVote entry.condition (-op.amount)
  let balance ← safeSub entry.balance op.amount
  let s ← s.addBalance ⟨op.amount, entry.assetId⟩
  let notUsedup :=
    match entry.owner with
    | some owner => if 0 < balance then s.ownerBalanceNotUsedup.insert owner
      else s.ownerBalanceNotUsedup
    | none => s.ownerBalanceNotUsedup
  return { s with
    ownerBalanceNotUsedup := notUsedup
    ledger := s.ledger.storeBalance P
      { entry with balance := balance, lastUpdate := s.ledger.prev.now } }

/-- The entry `WithdrawContractOperation` debits: the balance named, whatever its condition, or a
new balance of the contract. -/
def WithdrawContractOperation.target (op : WithdrawContractOperation) (l : Ledger) :
    Except Exn BalanceEntry :=
  match l.getBalance op.balanceId with
  | some entry => .ok entry
  | none =>
    if op.contract = 0 then .error .unknownBalanceEntry
    else do
      ensure (op.balanceId == P.getBalanceId op.contract .contract) .fcAssert
      return ⟨contractCondition op.contract .contract, 0, l.prev.now, l.prev.now, none⟩

/-- `WithdrawContractOperation::evaluate`. The subtraction is not checked here; the balances
withdrawn from are looked at again in `post_evaluate`. -/
def WithdrawContractOperation.evaluate (op : WithdrawContractOperation) (ctx : OpContext)
    (s : OpState) : Except Exn OpState := do
  ensure ctx.evaluateContractResult .inResultOfExecute
  ensure (0 < op.amount) .negativeWithdraw
  let entry ← op.target P s.ledger
  ensure (entry.assetId == 0) .fcAssert
  let _ ← orThrow (s.ledger.getAsset entry.assetId) .fcAssert
  let s ← s.addBalance ⟨op.amount, entry.assetId⟩
  return { s with
    ledger := s.ledger.storeBalance P
      { entry with balance := entry.balance - op.amount, lastUpdate := s.ledger.prev.now }
    withdrawedContractBalance := s.withdrawedContractBalance ++ [op.balanceId] }

/-- One balance of a `BalancesWithdrawOperation`. -/
def BalancesWithdrawOperation.withdrawOne (ctx : OpContext) (s : OpState)
    (item : BalanceIdType × ShareType) : Except Exn OpState := do
  ensure (0 < item.2) .negativeWithdraw
  let entry ← orThrow (s.ledger.getBalance item.1) .unknownBalanceEntry
  ensure (entry.assetId == 0) .fcAssert
  ensure (item.2 ≤ entry.getSpendableBalance.amount) .insufficientFunds
  let asset ← orThrow (s.ledger.getAsset entry.assetId) .fcAssert
  ctx.authorizeOperator (P.address s.contractOperator) asset entry
  let s ← s.adjustBalanceVote entry.condition (-item.2)
  let s ← s.addBalance ⟨item.2, entry.assetId⟩
  return { s with
    ledger := s.ledger.storeBalance P
      { entry with balance := entry.balance - item.2, lastUpdate := s.ledger.prev.now } }

/-- The pairs of a map in its order of iteration. -/
def mapItems {K V : Type} (m : Map K V) : List (K × V) := m.entries.map fun e => (e.1, e.2)

def BalancesWithdrawOperation.evaluate (op : BalancesWithdrawOperation) (ctx : OpContext)
    (s : OpState) : Except Exn OpState := do
  ensure ctx.evaluateContractResult .notBeResultOfExecute
  ensure (ctx.checkSignature (P.address s.contractOperator)) .missingSignature
  (mapItems op.balances).foldlM (withdrawOne P ctx) s

/-- `DepositContractOperation::evaluate`. Neither the addresses deposited to nor the sum is checked,
unlike in `DepositOperation`. -/
def DepositContractOperation.evaluate (op : DepositContractOperation) (ctx : OpContext)
    (s : OpState) : Except Exn OpState := do
  ensure ctx.evaluateContractResult .notBeResultOfExecute
  ensure (0 < op.amount) .negativeDeposit
  ensure (op.condition.data ≠ .null) .invalidWithdrawCondition
  let now := s.ledger.prev.now
  let fresh : BalanceEntry :=
    match op.condition.data with
    | .escrow .. => { BalanceEntry.ofCondition op.condition with metaData := some (P.id ctx.trx) }
    | _ => .ofCondition op.condition
  let entry := (s.ledger.getBalance (P.conditionAddress op.condition)).getD fresh
  let date ← entry.dateAfter now op.amount (toUint128 (entry.balance + op.amount))
  let s ← s.subBalance ⟨op.amount, entry.assetId⟩
  let s ← s.adjustBalanceVote entry.condition op.amount
  let _ ← orThrow (s.ledger.getAsset entry.assetId) .fcAssert
  return { s with
    ledger := s.ledger.storeBalance P
      { entry with balance := entry.balance + op.amount, depositDate := date, lastUpdate := now } }

end Achain
