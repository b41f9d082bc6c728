import Achain.GenerateBlock

/-!
# The client and the pending transactions

`evaluate_transaction` over the state of the pending transactions, `store_pending_transaction` and
`get_pending_transactions`. What a transaction changes is applied to that state when it is stored. The
client's `handle_message` for the messages that carry transactions, and the loop that broadcasts the
pending ones again.
-/

namespace Achain

open Table Result

def maxPendingQueueSize : Nat := 10000

/-- The exceptions of the functions here: those of the evaluation and that of the relay fee. -/
inductive PendingExn where
  | evaluation (e : Exn)
  | insufficientRelayFee
  deriving DecidableEq, Repr

def orPendingExn {α : Type} : Except Exn α → Except PendingExn α := Except.mapError .evaluation

/-- The members of the database that pending transactions are kept in. A pending state that is not
there yet stands for an empty one over the chain. -/
structure PendingPool where
  pendingTrxState : PendingChainState
  pendingTransactionDb : Tab TransactionIdType SignedTransaction
  pendingFeeIndex : Map (ShareType × TransactionIdType) EvalState
  relayFee : ShareType
  generatingBlock : Bool
  nodeVmEnabled : Except Exn Bool

namespace EvalState

variable (s : EvalState)

/-- `get_fees`. -/
def getFees : ShareType := (s.st.balance.lookup 0).getD 0

/-- The operations of the result are dropped. -/
def dropResult : EvalState :=
  { s with
    st := { s.st with pResultTrx := { s.st.pResultTrx with operations := [] } } }

end EvalState

namespace PendingPool

variable (P : Primitives) (V : Vm) (pool : PendingPool)

/-- Whether `evaluate_transaction` leaves contracts unexecuted. -/
def skipexec (contractVmExec : Bool) : Except Exn Bool :=
  if pool.generatingBlock then .ok false
  else do
    let enabled ← pool.nodeVmEnabled
    return !enabled && !contractVmExec

/-- `evaluate_transaction`: the evaluation state returned and the pending state changed. -/
def evaluateTransaction (trx : SignedTransaction) (requiredFees : ShareType)
    (contractVmExec skipSignatureCheck throwExecException : Bool) :
    Except PendingExn (EvalState × PendingChainState) := do
  let skipexec ← orPendingExn (pool.skipexec contractVmExec)
  ensure trx.originTrxBasicVerify (.evaluation .illegalTransaction)
  let start := EvalState.init pool.pendingTrxState.overlay skipSignatureCheck skipexec
  let s ← orPendingExn (evaluate P V { start with throwExecException := throwExecException } trx)
  ensure (trx.ignoresRequiredFee || requiredFees ≤ s.getFees) .insufficientRelayFee
  match s.st.pResultTrx.operations with
  | [] => return (s, pool.pendingTrxState.applyChanges P s.pending)
  | _ =>
    let start := EvalState.init pool.pendingTrxState.overlay false true
    let s' ← orPendingExn (evaluate P V { start with throwExecException := throwExecException }
      s.st.pResultTrx)
    let evalState := EvalState.init s.pending false true
    return ({ evalState with
      trx := trx
      st := { evalState.st with pResultTrx := s.st.pResultTrx } },
      pool.pendingTrxState.applyChanges P s'.pending)

/-- The fee that rises with the square of what is pending above the limit. -/
def requiredRelayFee (overrideLimits : Bool) : ShareType :=
  let size := pool.pendingFeeIndex.keys.length
  if !overrideLimits && maxPendingQueueSize < size then
    let overage := Int64.ofNat (size - maxPendingQueueSize)
    pool.relayFee * overage * overage
  else pool.relayFee

/-- `store_pending_transaction`, which returns nothing for a transaction that is pending already. -/
def storePendingTransaction (trx : SignedTransaction) (overrideLimits contractVmExec cache : Bool) :
    Except PendingExn (Option EvalState × PendingPool) :=
  let trxId := P.id trx
  if trxId ∈ pool.pendingTransactionDb then .ok (none, pool)
  else do
    let (evalState, state) ← pool.evaluateTransaction P V trx (pool.requiredRelayFee overrideLimits)
      contractVmExec false cache
    let evalState := if evalState.st.pResultTrx.operations = [] then evalState
      else evalState.dropResult
    return (some evalState, { pool with
      pendingTrxState := state
      pendingFeeIndex := pool.pendingFeeIndex.insert (evalState.getFees, trxId) evalState
      pendingTransactionDb := pool.pendingTransactionDb.insert trxId trx })

/-- `get_pending_transactions`: those with the highest fees first. -/
def getPendingTransactions : List EvalState :=
  (pool.pendingFeeIndex.entries.mergeSort fun a b =>
    decide (b.1.1 < a.1.1 ∨ b.1.1 = a.1.1 ∧ b.1.2 ≤ a.1.2)).map Sigma.snd

end PendingPool

/-! ## The client -/

def rebroadcastBatchSize : Nat := 1000

inductive ClientExn where
  | pending (e : PendingExn)
  | netInsufficientRelayFee
  | sandboxCommandForbidden
  | canceled
  | other
  deriving DecidableEq, Repr

/-- `ClientImpl` with what it reads of its database. -/
structure Client where
  clientQuit : Bool
  syncMode : Bool
  isInSandbox : Bool
  chainDb : PendingPool

/-- A message with transactions; one of another type is refused. -/
inductive TransactionsMessage where
  | trx (trx : SignedTransaction)
  | batchTrx (trxVec : List SignedTransaction)

namespace Client

variable (P : Primitives) (V : Vm) (c : Client)

/-! ## Messages -/

/-- `on_new_transaction`. -/
def onNewTransaction (trx : SignedTransaction) : Client × Except ClientExn Bool :=
  match c.chainDb.storePendingTransaction P V trx false false false with
  | .ok (evalState, chainDb) => ({ c with chainDb := chainDb }, .ok evalState.isSome)
  | .error e => (c, .error (.pending e))

/-- The loop over the transactions of a batch. -/
def onNewTransactions : Client → Bool → List SignedTransaction → Client × Except ClientExn Bool
  | c, result, [] => (c, .ok result)
  | c, result, trx :: trxVec =>
    match c.onNewTransaction P V trx with
    | (c, .ok accepted) => onNewTransactions c (result && accepted) trxVec
    | (c, .error e) => (c, .error e)

/-- What is thrown on for an exception inside of `handle_message`. -/
def rethrown : ClientExn → ClientExn
  | .pending .insufficientRelayFee => .netInsufficientRelayFee
  | e => e

/-- `handle_message`. The variable that a batch's result is gathered in has no initial value: it is what
`garbage` says. -/
def handleMessage (garbage : Bool) (message : TransactionsMessage) :
    Client × Except ClientExn Bool :=
  if c.clientQuit then (c, .ok true)
  else
    let (c, result) : Client × Except ClientExn Bool :=
      match message with
      | .trx trx =>
        if maxTrxSize < P.dataSize trx then (c, .ok false) else c.onNewTransaction P V trx
      | .batchTrx trxVec => c.onNewTransactions P V garbage trxVec
    (c, result.mapError rethrown)

/-! ## The rebroadcast -/

/-- `blockchain_list_pending_transactions`, without the ids. -/
def listPendingTransactions : Except ClientExn (List SignedTransaction) := do
  ensure (!c.isInSandbox) .sandboxCommandForbidden
  return c.chainDb.getPendingTransactions.map EvalState.trx

/-- The loop over the pending transactions: the batches passed on and how it ends. `broadcast` is what
comes of passing on one more batch behind those that were. -/
def rebroadcast (broadcast : List (List SignedTransaction) → Except ClientExn Unit)
    (batches : List (List SignedTransaction)) (tempVec : List SignedTransaction) :
    List SignedTransaction → List (List SignedTransaction) × Except ClientExn Unit
  | [] =>
    if tempVec = [] then (batches, .ok ())
    else (batches ++ [tempVec], broadcast (batches ++ [tempVec]))
  | trx :: pending =>
    if tempVec.length < rebroadcastBatchSize then
      rebroadcast broadcast batches (tempVec ++ [trx]) pending
    else
      match broadcast (batches ++ [tempVec]) with
      | .ok _ => rebroadcast broadcast (batches ++ [tempVec]) [] pending
      | .error e => (batches ++ [tempVec], .error e)

/-- One pass of `rebroadcast_pending_loop`, which swallows every exception but a cancellation. -/
def rebroadcastPendingLoop (broadcast : List (List SignedTransaction) → Except ClientExn Unit) :
    List (List SignedTransaction) × Except ClientExn Unit :=
  if c.syncMode then ([], .ok ())
  else
    let (batches, result) : List (List SignedTransaction) × Except ClientExn Unit :=
      match c.listPendingTransactions with
      | .ok pending => rebroadcast broadcast [] [] pending
      | .error e => ([], .error e)
    (batches, if result = .error .canceled then result else .ok ())

end Client

end Achain
