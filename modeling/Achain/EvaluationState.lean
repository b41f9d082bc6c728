import Achain.PendingChainState
import Achain.Lib.Result

/-!
# The state of an evaluation

`TransactionEvaluationState` in two parts: `OpState`, what operations write (the ledger, the tally
of shares withdrawn and deposited, the vote changes, the result under construction), and
`OpContext`, what they only read. Signatures enter an operation only through `checkSignature`.
-/

namespace Achain

open Table Result

structure OpContext where
  checkSignature : Address → Bool
  evaluateContractResult : Bool
  skipexec : Bool
  throwExecException : Bool
  trx : SignedTransaction

structure OpState where
  ledger : Ledger
  deposits : Map AssetIdType ShareType
  withdraws : Map AssetIdType ShareType
  deltas : Map Nat (Map AssetIdType ShareType)
  balance : Map AssetIdType ShareType
  delegateVoteDeltas : Map AccountIdType ShareType
  requiredFees : Asset
  imessageLength : Nat
  currentOpIndex : Nat
  pResultTrx : SignedTransaction
  contractOperator : PublicKeyType
  eventVector : List EventOperation
  contractBalanceRemain : ShareType
  withdrawedContractBalance : List BalanceIdType
  ownerBalanceNotUsedup : List Address
  depositAddress : List Address
  depositCount : Int

/-- `m[k]` of a map to amounts, which creates a zero entry. -/
def amountAt {K : Type} [DecidableEq K] (m : Map K ShareType) (k : K) : ShareType :=
  (m.lookup k).getD 0

namespace OpContext

variable (ctx : OpContext)

/-- `verify_authority`: enough of the owners have signed. -/
def verifyAuthority (siginfo : MultisigMetaInfo) : Bool :=
  siginfo.required ≤ siginfo.owners.dedup.countP ctx.checkSignature

def accountHasSigned (P : Primitives) (entry : AccountEntry) : Bool :=
  !entry.isRetracted && (ctx.checkSignature (P.address entry.activeKey) ||
    ctx.checkSignature (P.address entry.ownerKey))

/-- The signature test of a withdrawal: the asset's authority for a retractable asset, else the
owners of the balance. -/
def authorizeWithdraw (asset : AssetEntry) (entry : BalanceEntry) : Except Exn Unit :=
  if asset.isRetractable && ctx.verifyAuthority asset.authority then .ok ()
  else do
    ensure (!asset.isBalanceFrozen) .fcAssert
    match entry.condition.data with
    | .signature owner _ => ensure (ctx.checkSignature owner) .missingSignature
    | .multisig required owners _ =>
      ensure (required ≤ owners.dedup.countP ctx.checkSignature) .missingSignature
    | _ => .error .invalidWithdrawCondition

/-- The signature test of a balance spent on a contract, which must belong to the operator. -/
def authorizeOperator (operator : Address) (asset : AssetEntry) (entry : BalanceEntry) :
    Except Exn Unit :=
  if asset.isRetractable && ctx.verifyAuthority asset.authority then .ok ()
  else do
    ensure (!asset.isBalanceFrozen) .fcAssert
    match entry.condition.data with
    | .signature owner _ => do
      ensure (ctx.checkSignature owner) .missingSignature
      ensure (owner == operator) .operatorNotOwner
    | _ => .error .invalidWithdrawCondition

end OpContext

namespace Ledger

variable (P : Primitives) (l : Ledger)

def storeAccount (e : AccountEntry) : Ledger := AccountEntry.store P l e.id e
def storeAsset (e : AssetEntry) : Ledger := AssetEntry.store l e.id e
def storeSlate (e : SlateEntry) : Ledger := SlateEntry.store l (P.slateId e.slate) e
def storeBalance (e : BalanceEntry) : Ledger := BalanceEntry.store l (P.balanceId e) e
def storeSlot (e : SlotEntry) : Ledger := SlotEntry.store l e.index e
def storeProperty (id : PropertyIdType) (v : PropertyValue) : Ledger := PropertyEntry.store l id v
def storeContract (e : ContractEntry) : Ledger := ContractEntry.store l e.id e
def storeStorage (e : ContractStorageEntry) : Ledger := ContractStorageEntry.store l e.id e

def lastAssetId : Except Exn AssetIdType :=
  match l.getProperty .lastAssetId with
  | some (.id n) => .ok n
  | _ => .error .fcAssert

def lastAccountId : Except Exn AccountIdType :=
  match l.getProperty .lastAccountId with
  | some (.id n) => .ok n
  | _ => .error .fcAssert

def newAssetId : Except Exn (Ledger × AssetIdType) := do
  let n ← l.lastAssetId
  return (l.storeProperty .lastAssetId (.id (n + 1)), n + 1)

def newAccountId : Except Exn (Ledger × AccountIdType) := do
  let n ← l.lastAccountId
  return (l.storeProperty .lastAccountId (.id (n + 1)), n + 1)

end Ledger

namespace OpState

variable (s : OpState)

/-- `sub_balance`: shares leave the tally into a deposit. -/
def subBalance (amount : Asset) : Except Exn OpState := do
  let deltas := (s.deltas.lookup s.currentOpIndex).getD ∅
  let b ← safeSub (amountAt s.balance amount.assetId) amount.amount
  let d ← safeAdd (amountAt s.deposits amount.assetId) amount.amount
  let x ← safeAdd (amountAt deltas amount.assetId) amount.amount
  return { s with
    balance := s.balance.insert amount.assetId b
    deposits := s.deposits.insert amount.assetId d
    deltas := s.deltas.insert s.currentOpIndex (deltas.insert amount.assetId x) }

/-- `add_balance`: withdrawn shares enter the tally. -/
def addBalance (amount : Asset) : Except Exn OpState := do
  let deltas := (s.deltas.lookup s.currentOpIndex).getD ∅
  let b ← safeAdd (amountAt s.balance amount.assetId) amount.amount
  let w ← safeAdd (amountAt s.withdraws amount.assetId) amount.amount
  let x ← safeSub (amountAt deltas amount.assetId) amount.amount
  return { s with
    balance := s.balance.insert amount.assetId b
    withdraws := s.withdraws.insert amount.assetId w
    deltas := s.deltas.insert s.currentOpIndex (deltas.insert amount.assetId x) }

/-- Adds an amount to the vote changes of each of a list of delegates. -/
def addVotes (amount : ShareType) (ids : List AccountIdType) (m : Map AccountIdType ShareType) :
    Except Exn (Map AccountIdType ShareType) :=
  ids.foldlM (fun m id => do
    let v ← safeAdd (amountAt m id) amount
    return m.insert id v) m

def adjustVote (slateId : SlateIdType) (amount : ShareType) : Except Exn OpState :=
  if slateId = 0 then .ok s
  else do
    let slate ← orThrow (s.ledger.getSlate slateId) .unknownDelegateSlate
    let ids := if slate.duplicateSlate = [] then slate.slate.filter (0 ≤ ·)
      else slate.duplicateSlate
    let m ← addVotes amount ids s.delegateVoteDeltas
    return { s with delegateVoteDeltas := m }

/-- The vote adjustment of a balance: only balances of the base asset with a slate vote. -/
def adjustBalanceVote (c : WithdrawCondition) (amount : ShareType) : Except Exn OpState :=
  if c.assetId = 0 ∧ c.slateId ≠ 0 then s.adjustVote c.slateId amount else .ok s

end OpState

/-- A 64-bit amount as the `fc::uint128` it is converted to. -/
def toUint128 (x : ShareType) : Nat := (x.toInt % 2 ^ 128).toNat

/-- The average of two deposit dates weighted by amounts, over the divisor the source uses; it must
fit 32 bits. -/
def averageDate (old now : TimePointSec) (balance amount : ShareType) (divisor : Nat) :
    Except Exn TimePointSec := do
  let avg := (old * toUint128 balance + now * toUint128 amount) % 2 ^ 128
  ensure (divisor ≠ 0) .fcAssert
  ensure (avg / divisor < 2 ^ 32) .fcAssert
  return avg / divisor

/-- The deposit date of a balance after a deposit. -/
def BalanceEntry.dateAfter (entry : BalanceEntry) (now : TimePointSec) (amount : ShareType)
    (divisor : Nat) : Except Exn TimePointSec :=
  if entry.balance = 0 then .ok now
  else averageDate entry.depositDate now entry.balance amount divisor

end Achain
