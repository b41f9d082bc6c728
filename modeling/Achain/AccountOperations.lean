import Achain.EvaluationState

/-!
# Account and delegate operations
-/

namespace Achain

open Table Result

variable (P : Primitives)

/-- `isalnum && !isupper`. -/
def isLowerAlnum (c : Char) : Bool := ('a' ≤ c && c ≤ 'z') || ('0' ≤ c && c ≤ '9')

/-- One dot separated part of an account name: it starts with a letter, ends with a letter or
digit, and has only lower case letters, digits and dashes. -/
def isValidNamePart : Str → Bool
  | [] => false
  | c :: cs => 'a' ≤ c && c ≤ 'z' && (c :: cs).all (fun d => isLowerAlnum d || d == '-') &&
      isLowerAlnum (cs.getLastD c)

/-- `is_valid_account_name`, with the recursion on what follows a dot unrolled: every part of the
name passes the same test, and the whole name is the longest. -/
def isValidAccountName (name : Str) : Bool :=
  1 ≤ name.length && name.length ≤ 63 && (name.splitOn '.').all isValidNamePart

def delegatePayInc : List ShareType :=
  [1500000, 1650000, 1815000, 1996000, 2196000, 2415000, 2657000, 2923000, 3215000, 3536000,
    4000000]

/-- `get_max_delegate_pay_issued_per_block` at a head block number. -/
def maxDelegatePayIssuedPerBlock (headBlockNum : Nat) : ShareType :=
  if delegatePayBlockNum ≤ headBlockNum then
    let incTimes := (headBlockNum - delegatePayBlockNum) / delegatePayIncNum
    delegatePayInc.getD (if 11 ≤ incTimes then 10 else incTimes) 0
  else maxDelegatePayPerBlock

/-- `get_delegate_registration_fee`. -/
def delegateRegistrationFee (headBlockNum payRate : Nat) : Except Exn ShareType :=
  if payRate = 0 then .ok 0
  else do
    let perTwoWeeks := 14 * Int64.ofNat blocksPerDay * maxDelegatePayIssuedPerBlock headBlockNum
    let fee := perTwoWeeks / Int64.ofNat numDelegates * Int64.ofNat payRate / 100
    ensure (0 < fee) .fcAssert
    return fee

/-- A delegate's statistics when the account becomes one. -/
def DelegateStats.fresh (payRate headBlockNum : Nat) (signingKey : PublicKeyType) :
    DelegateStats where
  votesFor := 0
  payRate := payRate
  signingKeyHistory := .single headBlockNum signingKey
  lastBlockNumProduced := 0
  nextSecretHash := none
  payBalance := 0
  totalPaid := 0
  totalBurned := 0
  blocksProduced := 0
  blocksMissed := 0

def RegisterAccountOperation.isDelegate (op : RegisterAccountOperation) : Bool :=
  op.delegatePayRate ≤ 100

/-- The entry `RegisterAccountOperation` stores under a new id. -/
def RegisterAccountOperation.entry (op : RegisterAccountOperation) (id : AccountIdType)
    (l : LedgerView) : AccountEntry where
  id := id
  name := op.name
  publicData := op.publicData
  ownerKey := op.ownerKey
  activeKeyHistory := .single l.now op.activeKey
  registrationDate := l.now
  lastUpdate := l.now
  delegateInfo :=
    if op.isDelegate then some (.fresh op.delegatePayRate l.headBlockNum op.activeKey) else none
  metaData := some (op.metaData.getD ⟨.titanAccount, 0⟩)

/-- The fees required once the account is registered: more for a delegate. -/
def RegisterAccountOperation.fees (op : RegisterAccountOperation) (headBlockNum : Nat)
    (required : Asset) : Except Exn Asset :=
  if op.isDelegate then do
    let fee ← delegateRegistrationFee headBlockNum op.delegatePayRate
    required.add ⟨fee, 0⟩
  else .ok required

def RegisterAccountOperation.evaluate (op : RegisterAccountOperation) (s : OpState) :
    Except Exn OpState := do
  ensure (isValidAccountName op.name) .invalidAccountName
  ensure (s.ledger.getAccountByName op.name).isNone .accountAlreadyRegistered
  ensure (s.ledger.getAccountByAddress (P.address op.ownerKey)).isNone .accountKeyInUse
  ensure (s.ledger.getAccountByAddress (P.address op.activeKey)).isNone .accountKeyInUse
  let (ledger, id) ← s.ledger.newAccountId
  ensure (ledger.prev.now ≠ 0) .fcAssert
  let required ← op.fees ledger.prev.headBlockNum s.requiredFees
  return { s with
    requiredFees := required
    ledger := ledger.storeAccount P (op.entry id ledger.prev) }

def UpdateAccountOperation.isRetracted (op : UpdateAccountOperation) : Bool :=
  op.activeKey == some 0

def UpdateAccountOperation.isDelegate (op : UpdateAccountOperation) : Bool :=
  op.delegatePayRate ≤ 100

/-- Whether the operation sets another active key. -/
def UpdateAccountOperation.changesKey (op : UpdateAccountOperation) (entry : AccountEntry) :
    Bool :=
  match op.activeKey with
  | some key => key != entry.activeKey
  | none => false

/-- The signature an account update needs: the owner's to change the active key, else the owner's
or the active one. -/
def OpContext.authorizeUpdate (ctx : OpContext) (op : UpdateAccountOperation)
    (entry : AccountEntry) : Bool :=
  if op.changesKey entry then ctx.checkSignature (P.address entry.ownerKey)
  else ctx.accountHasSigned P entry

/-- The check of a new active key: no other account has it, and a retraction leaves no pay. -/
def UpdateAccountOperation.checkKey (op : UpdateAccountOperation) (entry : AccountEntry)
    (l : Ledger) : Except Exn Unit :=
  match op.activeKey with
  | none => .ok ()
  | some key =>
    if key = entry.activeKey then .ok ()
    else if op.isRetracted then
      ensure (!(entry.isDelegate && 0 < entry.payBalance)) .payBalanceRemaining
    else ensure (l.getAccountByAddress (P.address key)).isNone .accountKeyInUse

/-- The account with the new active key in its history. -/
def UpdateAccountOperation.withKey (op : UpdateAccountOperation) (entry : AccountEntry)
    (now : TimePointSec) : AccountEntry :=
  match op.activeKey with
  | none => entry
  | some key =>
    if key = entry.activeKey then entry
    else { entry with activeKeyHistory := entry.activeKeyHistory.insert now key }

/-- The delegate statistics after the update, and the fee of becoming a delegate. -/
def UpdateAccountOperation.delegateInfo (op : UpdateAccountOperation) (entry : AccountEntry)
    (headBlockNum : Nat) : Except Exn (Option DelegateStats × Option ShareType) :=
  match entry.delegateInfo with
  | some d => do
    ensure op.isDelegate .fcAssert
    ensure (op.delegatePayRate ≤ d.payRate) .fcAssert
    return (some { d with payRate := op.delegatePayRate }, none)
  | none =>
    if op.isDelegate then do
      let fee ← delegateRegistrationFee headBlockNum op.delegatePayRate
      return (some (.fresh op.delegatePayRate headBlockNum entry.activeKey), some fee)
    else .ok (none, none)

/-- The fees required with those of becoming a delegate. -/
def addFee (required : Asset) : Option ShareType → Except Exn Asset
  | some fee => required.add ⟨fee, 0⟩
  | none => .ok required

def UpdateAccountOperation.evaluate (op : UpdateAccountOperation) (ctx : OpContext) (s : OpState) :
    Except Exn OpState := do
  let entry ← orThrow (s.ledger.getAccount op.accountId) .unknownAccountId
  ensure (!entry.isRetracted) .accountRetracted
  op.checkKey P entry s.ledger
  ensure (ctx.authorizeUpdate P op entry) .missingSignature
  ensure (!op.changesKey entry || s.ledger.prev.now ≠ 0) .fcAssert
  let entry := op.withKey entry s.ledger.prev.now
  let (info, fee) ← op.delegateInfo entry s.ledger.prev.headBlockNum
  let required ← addFee s.requiredFees fee
  return { s with
    requiredFees := required
    ledger := s.ledger.storeAccount P
      { entry with
        publicData := op.publicData.getD entry.publicData
        delegateInfo := info
        lastUpdate := s.ledger.prev.now } }

def WithdrawPayOperation.evaluate (op : WithdrawPayOperation) (ctx : OpContext) (s : OpState) :
    Except Exn OpState := do
  ensure (0 < op.amount) .negativeWithdraw
  let id : AccountIdType := op.accountId.natAbs
  let account ← orThrow (s.ledger.getAccount id) .unknownAccountId
  let stats ← orThrow account.delegateInfo .notADelegate
  ensure (op.amount ≤ stats.payBalance) .insufficientFunds
  ensure (ctx.accountHasSigned P account) .missingSignature
  let pay ← safeSub stats.payBalance op.amount
  let votes ← safeSub (amountAt s.delegateVoteDeltas id) op.amount
  let s := { s with delegateVoteDeltas := s.delegateVoteDeltas.insert id votes }
  let s ← s.addBalance ⟨op.amount, 0⟩
  return { s with
    ledger := s.ledger.storeAccount P
      { account with delegateInfo := some { stats with payBalance := pay } } }

/-- `UpdateSigningKeyOperation` is disabled. -/
def UpdateSigningKeyOperation.evaluate (_ : UpdateSigningKeyOperation) (_ : OpState) :
    Except Exn OpState :=
  .error .fcAssert

end Achain
