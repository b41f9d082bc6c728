import Achain.AccountOperations
import Achain.Lib.OrderedMap
import Achain.Lib.Stateful
import Mathlib.Data.Prod.Lex

/-!
# The wallet's transaction builder

The builder collects what each account is owed and owes in each asset, and `finalize` pays the fee
from these balances and settles them with deposits and withdrawals. What it uses of the wallet are
the accounts, the keys, the balances found on the chain and the fee that was set.
-/

namespace Achain.Wallet

open Table Ordered

inductive WalletExn where
  | fcAssert | insufficientFunds | subtractionOverflow | unableToPayFee | invalidFee
  | noSuchAccount | chain (e : Exn)
  deriving DecidableEq

/-! ## The wallet -/

structure WalletKeyEntry where
  publicKey : PublicKeyType
  accountAddress : Address
  hasPrivateKey : Bool

/-- The lookups of the wallet's database, as far as the builder goes: the names of the accounts and
the keys. -/
structure WalletDb where
  lookupAccount : Address → Option Str
  lookupKey : Address → Option WalletKeyEntry

/-- What `set_transaction_fee` lets in. -/
structure TransactionFee where
  fee : Asset
  valid : 1000 ≤ fee.amount ∧ fee.assetId = 0

def walletDefaultTransactionFee : TransactionFee := ⟨⟨1000, 0⟩, by decide⟩

inductive VoteStrategy where
  | voteNone | voteAll | voteRandom | voteRecommended
  deriving DecidableEq

/-- What the builder reads of the chain and of the wallet apart from the database: the balances
`scan_balances` goes through, the fee property, and the slates. Generating a key changes the database. -/
structure WalletImpl where
  primitives : Primitives
  keyText : PublicKeyType → Str
  balanceEntrys : List BalanceEntry
  transactionFee : Option TransactionFee
  headBlockNum : Nat
  getNewPublicKey : Str → WalletDb → Except WalletExn (PublicKeyType × WalletDb)
  getDelegateSlate : VoteStrategy → Except WalletExn (List AccountIdType)
  slateIsKnown : SlateIdType → Bool
  now : TimePointSec
  transactionExpiration : Nat

namespace WalletImpl

variable (w : WalletImpl)

/-- The fee does not depend on the asset asked for. -/
def getTransactionFee (_desiredFeeAssetId : AssetIdType) : Asset :=
  (w.transactionFee.getD walletDefaultTransactionFee).fee

def assetCanPayFee (desiredFeeAssetId : AssetIdType) : Bool :=
  (w.getTransactionFee desiredFeeAssetId).assetId = desiredFeeAssetId

/-- The account that a balance the wallet can spend belongs to. -/
def spender (db : WalletDb) (entry : BalanceEntry) : Option Str :=
  match entry.condition.data with
  | .signature owner _ =>
    if entry.getSpendableBalance.amount = 0 then none
    else match db.lookupKey owner with
      | none => none
      | some key =>
        if key.hasPrivateKey then
          some ((db.lookupAccount key.accountAddress).getD (w.keyText key.publicKey))
        else none
  | _ => none

def scanBalance (db : WalletDb) (accountName : Str) (balances : Tab Str (List BalanceEntry))
    (entry : BalanceEntry) : Tab Str (List BalanceEntry) :=
  match w.spender db entry with
  | none => balances
  | some name =>
    if accountName ≠ [] ∧ name ≠ accountName then balances
    else balances.insert name ((balances.lookup name).getD [] ++ [entry])

/-- The spendable balances of an account, or with an empty name those of all accounts. -/
def getSpendableAccountBalanceEntrys (db : WalletDb) (accountName : Str) :
    Tab Str (List BalanceEntry) :=
  w.balanceEntrys.foldl (w.scanBalance db accountName) ∅

def getSpendableAccountBalances (db : WalletDb) (name : Str) :
    Option (OrdMap AssetIdType ShareType) :=
  ((w.getSpendableAccountBalanceEntrys db []).lookup name).map fun entrys =>
    entrys.foldl (fun balances entry =>
      balances.modify entry.getSpendableBalance.assetId 0 (· + entry.getSpendableBalance.amount))
      .empty

end WalletImpl

/-! ## The builder -/

abbrev BalanceKey := Address ×ₗ AssetIdType

structure TransactionBuilder where
  trx : SignedTransaction
  fee : Asset
  requiredSignatures : Finset Address
  outstandingBalances : OrdMap BalanceKey ShareType
  orderKeys : Tab Address PublicKeyType

/-- The builder with the database of its wallet. -/
structure Session where
  builder : TransactionBuilder
  db : WalletDb

abbrev Build (α : Type) := EStateM WalletExn Session α

def accountOf (k : BalanceKey) : Address := (ofLex k).1
def assetOf (k : BalanceKey) : AssetIdType := (ofLex k).2

namespace TransactionBuilder

def addTo (b : TransactionBuilder) (account : Address) (assetId : AssetIdType)
    (f : ShareType → ShareType) : TransactionBuilder :=
  { b with outstandingBalances := b.outstandingBalances.modify (toLex (account, assetId)) 0 f }

def deductBalance (accountToCharge : Address) (amount : Asset) : Build Unit :=
  if 0 ≤ amount.amount then
    modify fun s => { s with
      builder := s.builder.addTo accountToCharge amount.assetId (· - amount.amount) }
  else throw .fcAssert

def creditBalance (accountToCredit : Address) (amount : Asset) : Build Unit :=
  if 0 ≤ amount.amount then
    modify fun s => { s with
      builder := s.builder.addTo accountToCredit amount.assetId (· + amount.amount) }
  else throw .fcAssert

def modifyTrx (f : List Operation → List Operation) : Build Unit :=
  modify fun s => { s with
    builder := { s.builder with
      trx := { s.builder.trx with
        operations := f s.builder.trx.operations } } }

/-! ### Paying the fee -/

def allPositiveBalances (b : TransactionBuilder) : OrdMap AssetIdType ShareType :=
  b.outstandingBalances.entries.foldl (fun balances e =>
    if 0 < e.2 then balances.modify (assetOf e.1) 0 (· + e.2) else balances) .empty

/-- `transaction_entry.fee` after a fee was found: a delegate's registration fee stays part of it. -/
def recordFee (w : WalletImpl) (fee : Asset) : Build Unit := fun s =>
  match delegateRegistrationFee w.headBlockNum 100 with
  | .error e => .error (.chain e) s
  | .ok registrationFee =>
    if s.builder.fee.amount = registrationFee then
      match s.builder.fee.add fee with
      | .error e => .error (.chain e) s
      | .ok total => .ok () { s with builder := { s.builder with fee := total } }
    else .ok () { s with builder := { s.builder with fee := fee } }

/-- An asset of which there is enough to pay the fee with. -/
def feeAsset (w : WalletImpl) (b : TransactionBuilder) : Option AssetIdType :=
  (b.allPositiveBalances.entries.find? fun e =>
    w.assetCanPayFee e.1 ∧ (w.getTransactionFee e.1).amount ≤ e.2).map Prod.fst

/-- The loop over the outstanding balances: each of the fee's asset is used up until one covers what
is left of the fee. -/
def payFrom (feeAssetId : AssetIdType) :
    List (BalanceKey × ShareType) → ShareType → List (BalanceKey × ShareType) × Bool
  | [], _ => ([], false)
  | e :: l, required =>
    if assetOf e.1 ≠ feeAssetId then
      let (l', paid) := payFrom feeAssetId l required
      (e :: l', paid)
    else if e.2 < required then
      let (l', paid) := payFrom feeAssetId l (required - e.2)
      ((e.1, 0) :: l', paid)
    else ((e.1, e.2 - required) :: l, true)

theorem payFrom_keys (feeAssetId : AssetIdType) :
    ∀ (l : List (BalanceKey × ShareType)) (required : ShareType),
      (payFrom feeAssetId l required).1.map Prod.fst = l.map Prod.fst
  | [], _ => rfl
  | e :: l, required => by
    rw [payFrom]
    split_ifs
    · rw [List.map_cons, payFrom_keys feeAssetId l required, List.map_cons]
    · rw [List.map_cons, payFrom_keys feeAssetId l, List.map_cons]
    · rfl

theorem payFrom_sorted (feeAssetId : AssetIdType) (m : OrdMap BalanceKey ShareType)
    (required : ShareType) :
    (payFrom feeAssetId m.entries required).1.Pairwise fun a b => a.1 < b.1 := by
  have h : (m.entries.map Prod.fst).Pairwise (· < ·) := List.pairwise_map.2 m.sorted
  rw [← payFrom_keys feeAssetId m.entries required] at h
  exact List.pairwise_map.1 h

/-- The first account, in the order of the balances, that has the fee in an asset it can be paid in. -/
def feePayer (w : WalletImpl) (s : Session) : Option (Address × Asset) :=
  s.builder.outstandingBalances.entries.findSome? fun item =>
    let bagHolder := accountOf item.1
    match s.db.lookupAccount bagHolder with
    | none => none
    | some name =>
      match w.getSpendableAccountBalances s.db name with
      | none => none
      | some accountBalances =>
        (accountBalances.entries.find? fun balance =>
          (w.getTransactionFee balance.1).assetId = balance.1 ∧
            ¬balance.2 < (w.getTransactionFee balance.1).amount).map fun balance =>
          (bagHolder, w.getTransactionFee balance.1)

def withdrawFee (w : WalletImpl) : Build Bool := do
  match feePayer w (← get) with
  | none => pure false
  | some (bagHolder, fee) => do
    deductBalance bagHolder fee
    recordFee w fee
    pure true

def payFee (w : WalletImpl) : Build Unit := do
  match feeAsset w (← get).builder with
  | some assetId => do
    let requiredFee := w.getTransactionFee assetId
    -- once where the asset is chosen and once more after that
    recordFee w requiredFee
    if requiredFee.assetId ≠ -1 then do
      recordFee w requiredFee
      let m := (← get).builder.outstandingBalances
      let paid := payFrom requiredFee.assetId m.entries requiredFee.amount
      modify fun s => { s with
        builder := { s.builder with
          outstandingBalances := ⟨paid.1, payFrom_sorted requiredFee.assetId m requiredFee.amount⟩ } }
      if paid.2 then pure () else throw .unableToPayFee
    else if ← withdrawFee w then pure ()
    else throw .unableToPayFee
  | none => if ← withdrawFee w then pure () else throw .unableToPayFee

/-! ### Settling the balances -/

def orderKeyForAccount (w : WalletImpl) (accountAddress : Address) (accountName : Str) :
    Build PublicKeyType := fun s =>
  match (s.builder.orderKeys.lookup accountAddress).getD 0 with
  | 0 =>
    match w.getNewPublicKey accountName s.db with
    | .error e => .error e s
    | .ok (key, db) =>
      .ok key { s with
        builder := { s.builder with orderKeys := s.builder.orderKeys.insert accountAddress key }
        db := db }
  | key => .ok key s

/-- `Transaction::deposit`. -/
def deposit (owner : Address) (amount : Asset) : Build Unit :=
  if 0 < amount.amount then
    modifyTrx (· ++ [.deposit ⟨amount.amount, ⟨amount.assetId, 0, .common, .signature owner none⟩⟩])
  else throw .fcAssert

/-- `Transaction::withdraw`. -/
def withdraw (balanceId : BalanceIdType) (amount : ShareType) : Build Unit :=
  if 0 < amount then modifyTrx (· ++ [.withdraw ⟨balanceId, amount, []⟩]) else throw .fcAssert

def requireSignature (owner : Address) : Build Unit :=
  modify fun s => { s with
    builder := { s.builder with
      requiredSignatures := insert owner s.builder.requiredSignatures } }

/-- The loop over the balances of an account; `false` if they do not add up to the amount. -/
def withdrawFrom (w : WalletImpl) : List BalanceEntry → Asset → Build Bool
  | [], _ => pure false
  | entry :: entrys, amountRemaining =>
    let balance := entry.getSpendableBalance
    if balance.amount ≤ 0 ∨ balance.assetId ≠ amountRemaining.assetId then
      withdrawFrom w entrys amountRemaining
    else match entry.owner with
      | none => withdrawFrom w entrys amountRemaining
      | some owner =>
        if balance.amount < amountRemaining.amount then do
          withdraw (w.primitives.balanceId entry) balance.amount
          requireSignature owner
          match Checked.sub? amountRemaining.amount balance.amount with
          | none => throw .subtractionOverflow
          | some left => withdrawFrom w entrys ⟨left, amountRemaining.assetId⟩
        else do
          withdraw (w.primitives.balanceId entry) amountRemaining.amount
          requireSignature owner
          pure true

def withdrawToTransaction (w : WalletImpl) (amountToWithdraw : Asset) (fromAccountName : Str) :
    Build Unit := do
  if fromAccountName = [] then throw .fcAssert
  else
    match (w.getSpendableAccountBalanceEntrys (← get).db fromAccountName).lookup fromAccountName with
    | none => throw .insufficientFunds
    | some entrys =>
      if ← withdrawFrom w entrys amountToWithdraw then pure () else throw .insufficientFunds

/-- A pass of the loop of `finalize`. -/
def settle (w : WalletImpl) (outstandingBalance : BalanceKey × ShareType) : Build Unit := do
  let account := accountOf outstandingBalance.1
  let balance : Asset := ⟨outstandingBalance.2, assetOf outstandingBalance.1⟩
  match (← get).db.lookupAccount account with
  | none => throw .noSuchAccount
  | some accountName =>
    if 0 < balance.amount then do
      let key ← orderKeyForAccount w account accountName
      deposit (w.primitives.address key) balance
    else if balance.amount < 0 then
      withdrawToTransaction w ⟨-balance.amount, balance.assetId⟩ accountName
    else pure ()

def settleAll (w : WalletImpl) : List (BalanceKey × ShareType) → Build Unit
  | [] => pure ()
  | e :: l => do
    settle w e
    settleAll w l

/-- `Transaction::set_slates`. -/
def setSlate (slateId : SlateIdType) : Operation → Operation
  | .deposit op =>
    if op.condition.assetId = 0 then
      .deposit { op with condition := { op.condition with slateId := slateId } }
    else .deposit op
  | .updateBalanceVote op => .updateBalanceVote { op with newSlate := slateId }
  | op => op

def setDelegateSlate (w : WalletImpl) (strategy : VoteStrategy) : Build Unit := fun s =>
  if strategy = .voteNone then .ok () s
  else match w.getDelegateSlate strategy with
    | .error e => .error e s
    | .ok slate =>
      let slateId := w.primitives.slateId slate
      if slateId = 0 then .ok () s
      else if w.slateIsKnown slateId then modifyTrx (·.map (setSlate slateId)) s
      else modifyTrx (fun operations => (.defineSlate ⟨slate⟩ :: operations).map (setSlate slateId)) s

def finalize (w : WalletImpl) (payFee : Bool) (strategy : VoteStrategy) : Build Unit := do
  if (← get).builder.trx.operations = [] then throw .fcAssert
  else
    (if payFee then TransactionBuilder.payFee w else pure () : Build Unit)
    settleAll w (← get).builder.outstandingBalances.entries
    modify fun s => { s with
      builder := { s.builder with
        trx := { s.builder.trx with
          expiration :=
            if s.builder.trx.expiration = 0 then w.now + w.transactionExpiration
            else s.builder.trx.expiration } } }
    setDelegateSlate w strategy

/-! ### Runs -/

inductive BalanceCall where
  | credit (account : Address) (amount : Asset)
  | deduct (account : Address) (amount : Asset)

/-- A call of `credit_balance` or `deduct_balance`; one that throws changes nothing. -/
def BalanceCall.make : BalanceCall → Build Unit
  | .credit account amount => creditBalance account amount
  | .deduct account amount => deductBalance account amount

def afterCall (s : Session) (c : BalanceCall) : Session := Stateful.final c.make s

end TransactionBuilder

end Achain.Wallet
