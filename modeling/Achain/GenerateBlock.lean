import Achain.ExtendChain

/-!
# Block generation

`generate_block`: each pending transaction is evaluated over the block's pending state. Where this
yields a contract result, the result is evaluated instead, and the block carries it whole or, if it
is larger than the delegate's size limit, cut to its leading operation.
-/

namespace Achain

open Table Result

/-- `DelegateConfig`. -/
structure DelegateConfig where
  blockMaxTransactionCount : Nat
  blockMaxSize : Nat
  transactionMaxSize : Nat
  transactionMinFee : ShareType
  transactionImessageMaxSoftLength : Nat
  transactionImessageMinFeeCoe : Nat
  transactionBlacklist : List TransactionIdType
  operationBlacklist : Operation → Bool

def defaultRelayFee : ShareType := 1000

/-- `DelegateConfig::validate`, which a client calls before it generates a block. -/
def DelegateConfig.validate (c : DelegateConfig) : Bool :=
  c.blockMaxSize ≤ maxBlockSize && c.transactionMaxSize ≤ maxTrxSize &&
    defaultRelayFee ≤ c.transactionMinFee && c.transactionMinFee ≤ maxShares &&
    minMessageFeeCoe ≤ c.transactionImessageMinFeeCoe &&
    c.transactionImessageMaxSoftLength ≤ maxMessageSize

section AssetTransfer

/-- The totals of `check_asset_transfer`. -/
structure AssetTransfer where
  withdrawAmount : ShareType
  depositAmount : ShareType
  depositAsset : AssetIdType
  withdrawAsset : AssetIdType
  depositNum : Nat

/-- The final tests of `check_asset_transfer`. -/
def AssetTransfer.accepts (a : AssetTransfer) (t : SignedTransaction) : Bool :=
  a.depositNum ≤ 1 && a.depositAmount + 1000 ≤ a.withdrawAmount &&
    (t.alpAccount == [] ||
      (a.depositAsset == t.alpInportAsset.assetId && a.depositAmount == t.alpInportAsset.amount)) &&
    a.depositAsset == a.withdrawAsset

/-- The loop of `check_asset_transfer`, which accepts at the first operation of another kind. -/
def assetTransferFrom (balance : BalanceIdType → Option BalanceEntry) (t : SignedTransaction) :
    AssetTransfer → List Operation → Bool
  | a, [] => a.accepts t
  | a, .deposit op :: ops =>
    assetTransferFrom balance t
      { a with
        depositNum := a.depositNum + 1
        depositAsset := op.condition.assetId
        depositAmount := a.depositAmount + op.amount } ops
  | a, .withdraw op :: ops =>
    match balance op.balanceId with
    | none => false
    | some entry =>
      let a := { a with withdrawAmount := a.withdrawAmount + op.amount }
      if entry.assetId = 0 then assetTransferFrom balance t a ops
      else if a.withdrawAsset ≠ 0 ∧ a.withdrawAsset ≠ entry.assetId then false
      else assetTransferFrom balance t { a with withdrawAsset := entry.assetId } ops
  | a, .imessageMemo _ :: ops => assetTransferFrom balance t a ops
  | a, .defineSlate _ :: ops => assetTransferFrom balance t a ops
  | _, _ => true

def ChainDatabase.checkAssetTransfer (db : ChainDatabase) (t : SignedTransaction) : Bool :=
  assetTransferFrom db.tables.balanceIdToEntry.lookup t ⟨0, 0, 0, 0, 0⟩ t.operations

end AssetTransfer

section Generate

variable (P : Primitives) (V : Vm) (c : DelegateConfig)

/-- The evaluation of an origin transaction over the block's pending state. -/
def evaluateOrigin (p : PendingChainState) (t : SignedTransaction) : Except Exn EvalState :=
  evaluate P V (.init p.overlay true false) t

/-- The evaluation of the result an origin transaction has led to. -/
def evaluateResult (p : PendingChainState) (r : SignedTransaction) : Except Exn EvalState :=
  evaluate P V (.init p.overlay true true) r

/-- The result as a block carries it whole. -/
def completeForm (r : SignedTransaction) : SignedTransaction :=
  { r with resultTrxId := P.id r, resultTrxType := .complete }

/-- The result cut to the origin transaction. -/
def incompleteForm (r : SignedTransaction) : SignedTransaction :=
  { r with
    resultTrxId := P.id r
    resultTrxType := .incomplete
    operations := r.operations.take 1 }

/-- The fee a transaction must have paid: more for a long message. -/
def DelegateConfig.minFee (imessageLength : Nat) : ShareType :=
  if maxFreeMessageSize < imessageLength then
    c.transactionMinFee +
      Int64.ofNat (c.transactionImessageMinFeeCoe * (imessageLength - maxFreeMessageSize))
  else c.transactionMinFee

/-- Whether the message and the fees of an evaluated transaction are within the limits. -/
def DelegateConfig.acceptsFee (imessageLength : Nat) (s : EvalState) : Bool :=
  imessageLength ≤ c.transactionImessageMaxSoftLength &&
    c.minFee imessageLength ≤ amountAt s.st.balance 0

/-- The transaction the block carries for a pending one and the state it leads to; `none` if the
pending one is passed over. -/
def generateTransaction (p : PendingChainState) (t : SignedTransaction) :
    Except Exn (Option (SignedTransaction × PendingChainState)) := do
  let s ← evaluateOrigin P V p t
  let r := s.st.pResultTrx
  match r.operations with
  | [] => return if c.acceptsFee s.st.imessageLength s then some (t, s.pending) else none
  | _ => do
    let s' ← evaluateResult P V p r
    let form := if c.transactionMaxSize < P.dataSize r then incompleteForm P r else completeForm P r
    return if c.acceptsFee s.st.imessageLength s' then some (form, s'.pending) else none

/-- The block under construction. -/
structure BlockDraft where
  pending : PendingChainState
  transactions : List SignedTransaction
  size : Nat

/-- The tests a pending transaction must pass before it is evaluated. -/
def DelegateConfig.admits (db : ChainDatabase) (d : BlockDraft) (t : SignedTransaction) : Bool :=
  P.dataSize t ≤ c.transactionMaxSize && d.size + P.dataSize t ≤ c.blockMaxSize &&
    P.id t ∉ c.transactionBlacklist && !t.operations.any c.operationBlacklist &&
    db.checkAssetTransfer t

/-- One pending transaction; one that throws is passed over. -/
def BlockDraft.add (db : ChainDatabase) (d : BlockDraft) (t : SignedTransaction) : BlockDraft :=
  if c.admits P db d t then
    match generateTransaction P V c d.pending t with
    | .ok (some (form, q)) =>
      ⟨d.pending.applyChanges P q, d.transactions ++ [form], d.size + P.dataSize form⟩
    | _ => d
  else d

/-- The transactions of a block: `inTime` says before which of the pending ones the time for the
production is not yet up. -/
def BlockDraft.addAll (db : ChainDatabase) (inTime : Nat → Bool) :
    Nat → List SignedTransaction → BlockDraft → BlockDraft
  | _, [], d => d
  | i, t :: ts, d =>
    if inTime i && d.transactions.length < c.blockMaxTransactionCount then
      addAll db inTime (i + 1) ts (d.add P V c db t)
    else d

end Generate

/-- `generate_block` from the pending transactions in the order of their fees; `emptySize` is the
size of a block without transactions. The block is not signed yet. -/
def generateBlock (N : Node) (c : DelegateConfig) (db : ChainDatabase) (clock : TimePointSec)
    (inTime : Nat → Bool) (emptySize : Nat) (timestamp : TimePointSec)
    (pendingTrx : List SignedTransaction) : FullBlock :=
  let d : BlockDraft := ⟨db.pending clock, [], emptySize⟩
  let d := if 0 < c.blockMaxTransactionCount ∧ emptySize < c.blockMaxSize then
      d.addAll N.P N.V c db inTime 0 pendingTrx
    else d
  { previous := if 0 < db.headBlockHeader.blockNum then N.B.id db.headBlockHeader else 0
    blockNum := db.headBlockHeader.blockNum + 1
    timestamp := timestamp
    transactionDigest := N.B.transactionDigest (d.transactions.map N.P.id)
    nextSecretHash := 0
    previousSecret := 0
    delegateSignature := 0
    userTransactions := d.transactions }

end Achain
