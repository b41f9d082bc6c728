import Achain.Evaluate

/-!
# The transactions of a block

`ChainDatabaseImpl::apply_transactions`. With signature verification on, the entries whose owners
must have signed are collected before the evaluation, checked by a task of a thread pool, and the
evaluation itself runs with its own signature checks switched off. The tasks are joined after the
last transaction. A task is modelled by its outcome; it shares no state with the evaluation other
than the entries collected.
-/

namespace Achain

open Table Result

variable (P : Primitives) (V : Vm)

/-- The balances a contract operation of an origin transaction names. -/
def Operation.contractBalances : Operation → Option (Map BalanceIdType ShareType)
  | .registerContract op => some op.balances
  | .callContract op => some op.balances
  | .transferContract op => some op.balances
  | .upgradeContract op => some op.balances
  | .destroyContract op => some op.balances
  | _ => none

/-- The entries `transaction_entry_analy` collects, and whether it has reached the end. -/
structure AnalyEntries where
  balances : List BalanceEntry
  accounts : List AccountEntry
  complete : Bool

namespace AnalyEntries

def empty : AnalyEntries := ⟨[], [], true⟩

def addBalance (l : Ledger) (acc : AnalyEntries) (id : BalanceIdType) : AnalyEntries :=
  if acc.complete then
    match l.getBalance id with
    | some entry => { acc with balances := acc.balances ++ [entry] }
    | none => { acc with complete := false }
  else acc

def addDelegate (l : Ledger) (acc : AnalyEntries) (id : AccountIdType) : AnalyEntries :=
  match l.getAccount id with
  | some account =>
    if account.isDelegate then { acc with accounts := acc.accounts ++ [account] }
    else { acc with complete := false }
  | none => { acc with complete := false }

/-- One operation of `transaction_entry_analy`; nothing more is collected after the first entry
that is missing. -/
def addOperation (l : Ledger) (acc : AnalyEntries) (op : Operation) : AnalyEntries :=
  if acc.complete then
    match op with
    | .withdraw op => acc.addBalance l op.balanceId
    | .withdrawPay op => acc.addDelegate l op.accountId.natAbs
    | op =>
      match op.contractBalances with
      | some balances => balances.keys.foldl (addBalance l) acc
      | none => acc
  else acc

end AnalyEntries

namespace EvalState

/-- `transaction_entry_analy`. Its loop runs over the member `trx` of the evaluation state and not
over its argument. -/
def transactionEntryAnaly (s : EvalState) (_trxArg : SignedTransaction) : AnalyEntries :=
  s.trx.operations.foldl (AnalyEntries.addOperation s.st.ledger) .empty

end EvalState

/-- Whether the keys recovered cover a balance collected. -/
def balanceSigned (keys : List Address) (entry : BalanceEntry) : Bool :=
  match entry.condition.data with
  | .signature owner _ => owner ∈ keys
  | .multisig required owners _ => required ≤ owners.dedup.countP (· ∈ keys)
  | _ => false

def accountSigned (keys : List Address) (account : AccountEntry) : Bool :=
  !account.isRetracted && (P.address account.activeKey ∈ keys || P.address account.ownerKey ∈ keys)

/-- `transaction_signature_check`, which throws if a signature does not recover. -/
def transactionSignatureCheck (t : SignedTransaction) (entries : AnalyEntries) :
    Except Exn Bool := do
  let keys ← t.signatures.foldlM (EvalState.recoverInto P (P.digest t)) []
  return entries.balances.all (balanceSigned keys) && entries.accounts.all (accountSigned P keys)

/-- What `apply_transactions` reads of the database besides the pending state. -/
structure ApplyConfig where
  blockNum : Nat
  verifyTransactionSignatures : Bool
  generatingBlock : Bool
  nodeVmEnabled : Except Exn Bool

/-- Whether the node executes no contracts: it neither generates the block nor has its VM on. -/
def ApplyConfig.vmOff (c : ApplyConfig) : Except Exn Bool :=
  if c.generatingBlock then .ok false
  else do
    let enabled ← c.nodeVmEnabled
    return !enabled

/-- `skipexec`, which is off for an incomplete result on every node. -/
def ApplyConfig.skipexec (c : ApplyConfig) (t : SignedTransaction) : Except Exn Bool := do
  let off ← c.vmOff
  return off && t.resultTrxType != .incomplete

/-- The outcome of the task: `false` only where the check returned `false`, since an exception of
the task is swallowed when it is joined. -/
def ApplyConfig.taskPasses (c : ApplyConfig) (s : EvalState) (t : SignedTransaction) : Bool :=
  if c.verifyTransactionSignatures then
    match transactionSignatureCheck P t (s.transactionEntryAnaly t) with
    | .ok b => b
    | .error _ => true
  else true

/-- Stores the entry of an evaluated transaction again with its location in the chain. -/
def relocate (loc : TransactionLocation) (p : PendingTransactions) (id : TransactionIdType) :
    Except Exn PendingTransactions := do
  let entry ← orThrow (p.getTransaction id) .fcAssert
  return TransactionEntry.store P p id { entry with chainLocation := loc }

/-- The ids whose entries get the location: the transaction, the origin transaction it wraps, and
the result an incomplete one stands for. -/
def locatedIds (t : SignedTransaction) : Except Exn (List TransactionIdType) :=
  match t.resultTrxType, t.operations with
  | .origin, _ => .ok [P.id t]
  | .incomplete, .transaction trx :: _ => .ok [P.id t, P.id trx, t.resultTrxId]
  | .complete, .transaction trx :: _ => .ok [P.id t, P.id trx]
  | _, _ => .error .fcAssert

/-- One transaction of a block: the pending state after it and the outcome of its task. -/
def applyTransaction (c : ApplyConfig) (p : PendingChainState) (trxNum : Nat)
    (t : SignedTransaction) : Except Exn (PendingChainState × Bool) := do
  let s := EvalState.init p (!c.verifyTransactionSignatures) false
  let passes := c.taskPasses P s t
  ensure (P.dataSize t ≤ maxTrxSize) .fcAssert
  let skipexec ← c.skipexec t
  let s ← evaluate P V { s with skipSignatureCheck := true, skipexec := skipexec } t
  let ids ← locatedIds P t
  let transactions ← ids.foldlM (relocate P ⟨c.blockNum, trxNum⟩) s.transactions
  return (⟨s.st.ledger, transactions⟩, passes)

/-- The transactions of a block from the `trxNum`-th on. -/
def applyTransactionsFrom (c : ApplyConfig) : Nat → List SignedTransaction →
    PendingChainState × Bool → Except Exn (PendingChainState × Bool)
  | _, [], acc => .ok acc
  | trxNum, t :: ts, acc => do
    let (p, passes) ← applyTransaction P V c acc.1 trxNum t
    applyTransactionsFrom c (trxNum + 1) ts (p, acc.2 && passes)

/-- `apply_transactions`. -/
def applyTransactions (c : ApplyConfig) (ts : List SignedTransaction) (p : PendingChainState) :
    Except Exn PendingChainState := do
  let (p, allTrxCheck) ← applyTransactionsFrom P V c 0 ts (p, true)
  ensure allTrxCheck .missingSignature
  return p

end Achain
