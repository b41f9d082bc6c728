import Achain.AccountOperations
import Achain.AssetOperations
import Achain.OtherOperations
import Achain.ContractOperations

/-!
# Evaluation of a transaction

`TransactionEvaluationState::evaluate`: the checks on the transaction, the recovery of the signing
keys, the operations in order and, unless the transaction is one whose fees are not checked, the
collection of the fees and of the votes. A transaction operation evaluates the transaction it wraps
in the same state.
-/

namespace Achain

open Table Result

structure EvalState where
  st : OpState
  transactions : PendingTransactions
  trx : SignedTransaction
  signedKeys : List Address
  skipSignatureCheck : Bool
  evaluateContractResult : Bool
  skipexec : Bool
  throwExecException : Bool

namespace OpState

/-- The tally and the flags of a new evaluation over a ledger. -/
def init (l : Ledger) : OpState where
  ledger := l
  deposits := ∅
  withdraws := ∅
  deltas := ∅
  balance := ∅
  delegateVoteDeltas := ∅
  requiredFees := 0
  imessageLength := 0
  currentOpIndex := 0
  pResultTrx := .empty
  contractOperator := 0
  eventVector := []
  contractBalanceRemain := 0
  withdrawedContractBalance := []
  ownerBalanceNotUsedup := []
  depositAddress := []
  depositCount := 0

end OpState

namespace EvalState

/-- A new `TransactionEvaluationState` over a pending state. -/
def init (p : PendingChainState) (skipSignatureCheck skipexec : Bool) : EvalState where
  st := .init p.ledger
  transactions := p.transactions
  trx := .empty
  signedKeys := []
  skipSignatureCheck := skipSignatureCheck
  evaluateContractResult := false
  skipexec := skipexec
  throwExecException := false

variable (P : Primitives) (s : EvalState)

/-- The pending state the evaluation has reached. -/
def pending : PendingChainState := ⟨s.st.ledger, s.transactions⟩

def checkSignature (a : Address) : Bool := s.skipSignatureCheck || a ∈ s.signedKeys

def ctx : OpContext where
  checkSignature := s.checkSignature
  evaluateContractResult := s.evaluateContractResult
  skipexec := s.skipexec
  throwExecException := s.throwExecException
  trx := s.trx

def toEntry (loc : TransactionLocation) : TransactionEntry where
  trx := s.trx
  signedKeys := s.signedKeys
  deposits := s.st.deposits
  withdraws := s.st.withdraws
  deltas := s.st.deltas
  requiredFees := s.st.requiredFees
  altFeesPaid := 0
  balance := s.st.balance
  delegateVoteDeltas := s.st.delegateVoteDeltas
  imessageLength := s.st.imessageLength
  skipexec := s.skipexec
  chainLocation := loc

/-- `store_transaction(trx.id(), TransactionEntry(TransactionLocation(), *this))`. -/
def storeTransaction : EvalState :=
  { s with
    transactions := TransactionEntry.store P s.transactions (P.id s.trx) (s.toEntry ⟨0, 0⟩) }

def nextOp : EvalState := { s with st := { s.st with currentOpIndex := s.st.currentOpIndex + 1 } }

/-! ## Before the operations -/

/-- The checks of `evaluate`, in the order of the source. -/
def checkTransaction (t : SignedTransaction) : Except Exn Unit := do
  let now := s.st.ledger.prev.now
  ensure (now < t.expiration) .expiredTransaction
  ensure (t.expiration ≤ now + blockIntervalSec + maxTransactionExpirationSec)
    .invalidTransactionExpiration
  ensure (!(t.originTrxBasicVerify && maxTrxSize < P.dataSize t)) .outOfMaxTrxSize
  ensure (!s.transactions.isKnownTransaction P t) .duplicateTransaction
  ensure t.checkOperationsLegality .illegalTransaction
  ensure (t.signatures.length ≤ maxSignatureNum) .tooMuchSignature

/-- Recovers the key of one signature and inserts the addresses it signs for. -/
def recoverInto (digest : DigestType) (keys : List Address) (sig : Signature) :
    Except Exn (List Address) := do
  let key ← orThrow (P.recover sig digest) .invalidSignature
  return (P.keyAddresses key).foldl (fun keys a => keys.insert a) keys

/-- The addresses signed for by a list of signatures, added to those already known. -/
def recoverKeys (t : SignedTransaction) (keys : List Address) : Except Exn (List Address) :=
  t.signatures.dedup.foldlM (recoverInto P (P.digest t)) keys

/-- The keys known after the signatures, unless these are not checked. -/
def keysWith (t : SignedTransaction) : Except Exn (List Address) :=
  if s.skipSignatureCheck then .ok s.signedKeys else recoverKeys P t s.signedKeys

/-- Everything `evaluate` does before the first operation. -/
def start (t : SignedTransaction) : Except Exn EvalState := do
  s.checkTransaction P t
  let keys ← s.keysWith P t
  return { s with trx := t, signedKeys := keys, st := { s.st with currentOpIndex := 0 } }

/-- Between the first operation and the rest of a result: with the VM on, the id the result carries
must be that of the result just computed. -/
def afterFirst (t : SignedTransaction) (first : Operation) : Except Exn EvalState :=
  if first.isTransactionOp then do
    ensure (s.skipexec || t.resultTrxId == P.id s.st.pResultTrx) .fcAssert
    return { s with evaluateContractResult := true }
  else .ok s

/-! ## After the operations -/

/-- `post_evaluate`, the checks: the assets withdrawn exist, no tally is negative, and the assets
of the tallies that are not zero exist. -/
def checkTallies (st : OpState) : Except Exn Unit := do
  ensure (st.withdraws.keys.all fun a => (st.ledger.getAsset a).isSome) .unknownAssetId
  ensure ((mapItems st.balance).all fun e => 0 ≤ e.2) .negativeFee
  ensure ((mapItems st.balance).all fun e =>
    e.1 == 0 || e.2 == 0 || (st.ledger.getAsset e.1).isSome) .unknownAssetId

/-- The collection of one tally that is positive. -/
def collectFee (l : Ledger) (item : AssetIdType × ShareType) : Except Exn Ledger :=
  if 0 < item.2 then do
    let asset ← orThrow (l.getAsset item.1) .unknownAssetId
    let fees ← safeAdd asset.collectedFees item.2
    return l.storeAsset { asset with collectedFees := fees }
  else .ok l

/-- `post_evaluate`: what is left of each tally is a fee, and no balance a contract was withdrawn
from is negative. -/
def postEvaluate (st : OpState) : Except Exn OpState := do
  let st := { st with balance := st.balance.insert 0 (amountAt st.balance 0) }
  checkTallies st
  let ledger ← (mapItems st.balance).foldlM collectFee st.ledger
  ensure (st.withdrawedContractBalance.all fun id => (ledger.getBalance id).any (0 ≤ ·.balance))
    .insufficientFunds
  return { st with ledger := ledger }

/-- `validate_required_fee`. -/
def validateRequiredFee (st : OpState) : Except Exn Unit := do
  ensure (st.requiredFees.assetId == 0) .fcAssert
  ensure (st.requiredFees.amount ≤ amountAt st.balance 0) .insufficientFee

/-- One delegate of `update_delegate_votes`. -/
def updateVotes (l : Ledger) (item : AccountIdType × ShareType) : Except Exn Ledger := do
  let account ← orThrow (l.getAccount item.1) .fcAssert
  let stats ← orThrow account.delegateInfo .fcAssert
  return l.storeAccount P
    { account with delegateInfo := some { stats with votesFor := stats.votesFor + item.2 } }

def updateDelegateVotes (st : OpState) : Except Exn OpState := do
  let items := P.order.order (mapItems st.delegateVoteDeltas)
  let ledger ← items.foldlM (updateVotes P) st.ledger
  return { st with ledger := ledger }

/-- The fee for signatures above the free ones. -/
def chargeSignatures (t : SignedTransaction) (st : OpState) : OpState :=
  let signum : Int := t.signatures.length - freeSignatureLimit
  if 0 ≤ signum then
    { st with
      requiredFees :=
        { st.requiredFees with
          amount := st.requiredFees.amount + Int64.ofInt (signum * extraSignatureFee) } }
  else st

/-- The transaction an incomplete result is recorded as. -/
def completedResult : SignedTransaction :=
  { s.st.pResultTrx with resultTrxType := .complete, resultTrxId := P.id s.st.pResultTrx }

/-- The end of the operations of a result: an incomplete one is stored under its own id and
replaced by the result just computed. -/
def endResult (t : SignedTransaction) (first : Operation) : EvalState × SignedTransaction :=
  if first.isTransactionOp then
    let r : EvalState × SignedTransaction :=
      if t.resultTrxType = .incomplete then
        ({ s with trx := t }.storeTransaction P, s.completedResult P)
      else (s, t)
    ({ r.1 with
        evaluateContractResult := false
        st := { r.1.st with pResultTrx := { r.1.st.pResultTrx with operations := [] } } }, r.2)
  else (s, t)

/-- The fees and votes, unless they are not checked for this transaction. -/
def settle (t : SignedTransaction) (st : OpState) : Except Exn OpState :=
  if t.ignoresRequiredFee then .ok st
  else do
    let st ← postEvaluate st
    validateRequiredFee st
    updateDelegateVotes P st

/-- Everything `evaluate` does after the last operation. -/
def finish (t : SignedTransaction) (resultTrx : SignedTransaction) : Except Exn EvalState := do
  let st ← settle P t (chargeSignatures t s.st)
  return { s with st := st, trx := resultTrx }.storeTransaction P

end EvalState

/-- The evaluation of every operation that is not a wrapped transaction. -/
def Operation.evaluateLeaf (P : Primitives) (V : Vm) (ctx : OpContext) (s : OpState) :
    Operation → Except Exn OpState
  | .withdraw op => op.evaluate P ctx s
  | .deposit op => op.evaluate P s
  | .registerAccount op => op.evaluate P s
  | .updateAccount op => op.evaluate P ctx s
  | .withdrawPay op => op.evaluate P ctx s
  | .createAsset op => op.evaluate P s
  | .updateAsset op => op.evaluate ctx s
  | .issueAsset op => op.evaluate ctx s
  | .defineSlate op => op.evaluate P s
  | .updateSigningKey op => op.evaluate s
  | .updateBalanceVote _ => .ok s
  | .updateAssetExt op => op.evaluate ctx s
  | .imessageMemo op => op.evaluate s
  | .contractInfo op => op.evaluate P ctx s
  | .registerContract op => op.evaluate P V ctx s
  | .upgradeContract op => op.evaluate P V ctx s
  | .destroyContract op => op.evaluate P V ctx s
  | .callContract op => op.evaluate P V ctx s
  | .transferContract op => op.evaluate P V ctx s
  | .withdrawContract op => op.evaluate P ctx s
  | .depositContract op => op.evaluate P ctx s
  | .balancesWithdraw op => op.evaluate P ctx s
  | .transaction _ => .error .fcAssert
  | .storage op => op.evaluate ctx s
  | .event op => op.evaluate ctx s
  | .onDestroy op => op.evaluate P ctx s
  | .onUpgrade op => op.evaluate ctx s
  | .onCallSuccess => .ok s

/-- The request and result ids `TransactionOperation::evaluate` stores. -/
def storeRequestResult (P : Primitives) (id : TransactionIdType) (trx : SignedTransaction)
    (s : EvalState) : EvalState :=
  let l := ContractDbInterface.contractStoreResultidByReqestid s.st.ledger (P.id trx) id
  let l := ContractDbInterface.contractStoreRequestidByResultid l id (P.id trx)
  { s with st := { s.st with ledger := l } }

section Evaluate

variable (P : Primitives) (V : Vm)

mutual

/-- `TransactionEvaluationState::evaluate`, with `ignore_state` on. -/
def evaluate (s : EvalState) (t : SignedTransaction) : Except Exn EvalState :=
  match t with
  | ⟨expiration, reserved, alpAccount, alpInportAsset, operations, type, id, signatures⟩ =>
    let t : SignedTransaction :=
      ⟨expiration, reserved, alpAccount, alpInportAsset, operations, type, id, signatures⟩
    match operations with
    | [] => do
      let s ← s.start P t
      s.finish P t t
    | first :: rest => do
      let s ← s.start P t
      let s ← evaluateOperation s first
      let s ← s.nextOp.afterFirst P t first
      let s ← evaluateOperations s rest
      let (s, resultTrx) := s.endResult P t first
      s.finish P t resultTrx
termination_by structural t

def evaluateOperations (s : EvalState) (ops : List Operation) : Except Exn EvalState :=
  match ops with
  | [] => .ok s
  | op :: ops => do
    let s ← evaluateOperation s op
    evaluateOperations s.nextOp ops
termination_by structural ops

/-- `evaluate_operation`; a transaction operation evaluates the wrapped transaction. -/
def evaluateOperation (s : EvalState) (op : Operation) : Except Exn EvalState :=
  match op with
  | .transaction trx => do
    let s' ← evaluate s trx
    return storeRequestResult P s.trx.resultTrxId trx s'
  | op => do
    let st ← op.evaluateLeaf P V s.ctx s.st
    return { s with st := st }
termination_by structural op

end

end Evaluate

end Achain
