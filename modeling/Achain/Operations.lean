import Achain.Types

/-!
# Operations and transactions

One structure for each operation the factory registers, and the transaction that carries a list of
them. A result transaction wraps the origin transaction it is the result of, so operations and
transactions are mutually recursive.
-/

namespace Achain

open Table

structure WithdrawOperation where
  balanceId : BalanceIdType
  amount : ShareType
  claimInputData : List UInt8

structure DepositOperation where
  amount : ShareType
  condition : WithdrawCondition

structure WithdrawContractOperation where
  balanceId : BalanceIdType
  amount : ShareType
  contract : ContractIdType

structure DepositContractOperation where
  amount : ShareType
  condition : WithdrawCondition

structure BalancesWithdrawOperation where
  balances : Map BalanceIdType ShareType

structure UpdateBalanceVoteOperation where
  balanceId : BalanceIdType
  newRestrictedOwner : Option Address
  newSlate : SlateIdType

structure RegisterAccountOperation where
  name : Str
  publicData : Variant
  ownerKey : PublicKeyType
  activeKey : PublicKeyType
  delegatePayRate : Nat
  metaData : Option AccountMetaInfo

structure UpdateAccountOperation where
  accountId : AccountIdType
  publicData : Option Variant
  activeKey : Option PublicKeyType
  delegatePayRate : Nat

structure UpdateSigningKeyOperation where
  accountId : AccountIdType
  signingKey : PublicKeyType

structure WithdrawPayOperation where
  amount : ShareType
  accountId : AccountIdType

structure CreateAssetOperation where
  symbol : Str
  name : Str
  description : Str
  publicData : Variant
  issuerAccountId : AccountIdType
  maximumShareSupply : ShareType
  precision : Nat

structure UpdateAssetOperation where
  assetId : AssetIdType
  name : Option Str
  description : Option Str
  publicData : Option Variant
  maximumShareSupply : Option ShareType
  precision : Option Nat

structure UpdateAssetExtOperation extends UpdateAssetOperation where
  flags : UInt32
  issuerPermissions : UInt32
  issuerAccountId : AccountIdType
  marketFee : Nat
  transactionFee : ShareType
  authority : MultisigMetaInfo

structure IssueAssetOperation where
  amount : Asset

structure DefineSlateOperation where
  slate : List AccountIdType

structure ImessageMemoOperation where
  imessage : Str

structure RegisterContractOperation where
  contractCode : Code
  initcost : Asset
  transactionFee : Asset
  balances : Map BalanceIdType ShareType
  owner : PublicKeyType
  registerTime : TimePointSec

structure UpgradeContractOperation where
  id : ContractIdType
  name : Str
  desc : Str
  execLimit : Asset
  transactionFee : Asset
  balances : Map BalanceIdType ShareType

structure DestroyContractOperation where
  id : ContractIdType
  execLimit : Asset
  transactionFee : Asset
  balances : Map BalanceIdType ShareType

structure CallContractOperation where
  caller : PublicKeyType
  balances : Map BalanceIdType ShareType
  contract : ContractIdType
  costlimit : Asset
  transactionFee : Asset
  method : Str
  args : Str

structure TransferContractOperation where
  from' : PublicKeyType
  costlimit : Asset
  transactionFee : Asset
  transferAmount : Asset
  balances : Map BalanceIdType ShareType
  contractId : ContractIdType

structure ContractInfoOperation where
  contractId : ContractIdType
  owner : PublicKeyType
  code : Code
  registerTime : TimePointSec

structure OnDestroyOperation where
  id : ContractIdType
  amount : Asset

structure OnUpgradeOperation where
  id : ContractIdType
  name : Str
  desc : Str

structure StorageOperation where
  contractId : ContractIdType
  contractChangeStorages : Map Str StorageDataChangeType

structure EventOperation where
  id : ContractIdType
  eventType : Str
  eventParam : Str
  isTruncated : Bool

inductive ResultTransactionType where
  | origin | complete | incomplete
  deriving DecidableEq, Inhabited

mutual

inductive Operation where
  | withdraw (op : WithdrawOperation)
  | deposit (op : DepositOperation)
  | registerAccount (op : RegisterAccountOperation)
  | updateAccount (op : UpdateAccountOperation)
  | withdrawPay (op : WithdrawPayOperation)
  | createAsset (op : CreateAssetOperation)
  | updateAsset (op : UpdateAssetOperation)
  | issueAsset (op : IssueAssetOperation)
  | defineSlate (op : DefineSlateOperation)
  | updateSigningKey (op : UpdateSigningKeyOperation)
  | updateBalanceVote (op : UpdateBalanceVoteOperation)
  | updateAssetExt (op : UpdateAssetExtOperation)
  | imessageMemo (op : ImessageMemoOperation)
  | contractInfo (op : ContractInfoOperation)
  | registerContract (op : RegisterContractOperation)
  | upgradeContract (op : UpgradeContractOperation)
  | destroyContract (op : DestroyContractOperation)
  | callContract (op : CallContractOperation)
  | transferContract (op : TransferContractOperation)
  | withdrawContract (op : WithdrawContractOperation)
  | depositContract (op : DepositContractOperation)
  | balancesWithdraw (op : BalancesWithdrawOperation)
  | transaction (trx : SignedTransaction)
  | storage (op : StorageOperation)
  | event (op : EventOperation)
  | onDestroy (op : OnDestroyOperation)
  | onUpgrade (op : OnUpgradeOperation)
  | onCallSuccess

structure SignedTransaction where
  expiration : TimePointSec
  reserved : Option Nat
  alpAccount : Str
  alpInportAsset : Asset
  operations : List Operation
  resultTrxType : ResultTransactionType
  resultTrxId : TransactionIdType
  signatures : List Signature

end

namespace Operation

/-- The operations from `register_contract_op_type` to `transfer_contract_op_type`. -/
def isContractOp : Operation → Bool
  | .registerContract _ | .upgradeContract _ | .destroyContract _ | .callContract _
  | .transferContract _ => true
  | _ => false

def isTransactionOp : Operation → Bool
  | .transaction _ => true
  | _ => false

end Operation

namespace SignedTransaction

/-- A default constructed transaction. -/
def empty : SignedTransaction where
  expiration := 0
  reserved := none
  alpAccount := []
  alpInportAsset := 0
  operations := []
  resultTrxType := .origin
  resultTrxId := 0
  signatures := []

instance : Inhabited SignedTransaction := ⟨empty⟩

def pushOp (t : SignedTransaction) (op : Operation) : SignedTransaction :=
  { t with operations := t.operations ++ [op] }

/-- `check_operations_legality`: a contract operation stands alone, a leading transaction
operation wraps a transaction of one contract operation, and without one no later operation is a
transaction operation. -/
def checkOperationsLegality (t : SignedTransaction) : Bool :=
  match t.operations with
  | [] => false
  | first :: rest =>
    if t.operations.any Operation.isContractOp && t.operations.length != 1 then false
    else
      match first with
      | .transaction trx =>
        match trx.operations with
        | [op] => op.isContractOp
        | _ => false
      | _ => !rest.any Operation.isTransactionOp

/-- The scan of `origin_trx_basic_verify`, which stops at the first contract operation: `none` for
a transaction operation met before it. -/
def scanOrigin : List Operation → Option Bool
  | [] => some false
  | op :: ops =>
    if op.isTransactionOp then none
    else if op.isContractOp then some true
    else scanOrigin ops

def originTrxBasicVerify (t : SignedTransaction) : Bool :=
  match scanOrigin t.operations with
  | none => false
  | some hasContractOp => !(hasContractOp && t.operations.length != 1)

/-- Whether `evaluate` skips the fee checks: a contract operation, or a transaction operation in an
incomplete result. -/
def ignoresRequiredFee (t : SignedTransaction) : Bool :=
  t.operations.any fun op =>
    op.isContractOp || (op.isTransactionOp && t.resultTrxType == .incomplete)

end SignedTransaction

/-- `TransactionLocation`, the position of a transaction in the chain. -/
structure TransactionLocation where
  blockNum : Nat
  trxNum : Nat
  deriving DecidableEq, Inhabited

/-- A transaction entry: the reflected fields of the evaluation state it was made from and the
location. -/
structure TransactionEntry where
  trx : SignedTransaction
  signedKeys : List Address
  deposits : Map AssetIdType ShareType
  withdraws : Map AssetIdType ShareType
  deltas : Map Nat (Map AssetIdType ShareType)
  requiredFees : Asset
  altFeesPaid : Asset
  balance : Map AssetIdType ShareType
  delegateVoteDeltas : Map AccountIdType ShareType
  imessageLength : Nat
  skipexec : Bool
  chainLocation : TransactionLocation

/-- The key of `_unique_transactions`. -/
structure UniqueTransactionKey where
  expiration : TimePointSec
  digest : DigestType
  deriving DecidableEq, Inhabited

end Achain
