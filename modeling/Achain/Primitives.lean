import Achain.Operations

/-!
# Hashing, keys and serialisation

The functions of `fc` that the chain uses as black boxes: addresses of keys and of withdraw
conditions, signature recovery (which may throw), the hashes of transactions, slates and code, the
packed size of a transaction, and the order in which an unordered container is iterated.
-/

namespace Achain

/-- The order of iteration of the unordered containers: any rearrangement. -/
structure HashOrder where
  order : {α : Type} → List α → List α
  perm : ∀ {α : Type} (l : List α), (order l).Perm l

def HashOrder.id : HashOrder := ⟨fun l => l, fun _ => .refl _⟩

structure Primitives where
  address : PublicKeyType → Address
  ptsAddress : PublicKeyType → Bool → Nat → Address
  recover : Signature → DigestType → Option PublicKeyType
  digestHash : SignedTransaction → DigestType
  trxHash : SignedTransaction → TransactionIdType
  dataSize : SignedTransaction → Nat
  conditionAddress : WithdrawCondition → BalanceIdType
  contractHash : RegisterContractOperation → ContractIdType
  slateHash : List AccountIdType → SlateIdType
  codeHash : List UInt8 → DigestType
  order : HashOrder

namespace Primitives

variable (P : Primitives)

/-- `SignedTransaction::id`: the result fields are cleared before hashing. -/
def id (t : SignedTransaction) : TransactionIdType :=
  P.trxHash { t with resultTrxType := .origin, resultTrxId := 0 }

/-- `Transaction::digest`: the signatures are not part of what is hashed. -/
def digest (t : SignedTransaction) : DigestType := P.digestHash { t with signatures := [] }

def uniqueKey (t : SignedTransaction) : UniqueTransactionKey := ⟨t.expiration, P.digest t⟩

/-- The five addresses a recovered key signs for. -/
def keyAddresses (key : PublicKeyType) : List Address :=
  [P.address key, P.ptsAddress key false 56, P.ptsAddress key true 56, P.ptsAddress key false 0,
    P.ptsAddress key true 0]

def balanceId (b : BalanceEntry) : BalanceIdType := P.conditionAddress b.condition

/-- `SlateEntry::id`. -/
def slateId (slate : List AccountIdType) : SlateIdType :=
  if slate = [] then 0 else P.slateHash slate

/-- Primitives small enough to evaluate: a key is its own address and signature, and what is hashed
is told apart by the few numbers in it. -/
def plain : Primitives where
  address key := key
  ptsAddress key _ _ := key
  recover sig _ := some sig
  digestHash t := 100 * t.expiration + t.operations.length
  trxHash t := 100 * t.expiration + t.operations.length
  dataSize t := t.operations.length
  conditionAddress c :=
    match c.data with
    | .signature owner _ =>
      match c.balanceType with
      | .common => 3 * owner
      | .contract => 3 * owner + 1
      | .margin => 3 * owner + 2
    | _ => 0
  contractHash op := op.contractCode.codeHash
  slateHash slate := slate.length
  codeHash code := code.length
  order := .id

end Primitives

end Achain
