import Achain.Lib.Table
import Achain.Lib.Checked

/-!
# The data model

Identifiers, amounts, the entries of the tables and the exceptions of the chain. Identifiers that
the program computes by hashing are numbers, with `0` for the default constructed value; strings
are lists of characters. `std::map` and `unordered_map` fields are `Map`s, whose order of
iteration is arbitrary.
-/

namespace Achain

open Table

abbrev Address := Nat
abbrev PublicKeyType := Nat
abbrev Signature := Nat
abbrev DigestType := Nat
abbrev TransactionIdType := Nat
abbrev BlockIdType := Nat
abbrev BalanceIdType := Address
abbrev ContractIdType := Address
abbrev AccountIdType := Int
abbrev AssetIdType := Int
abbrev SlateIdType := Nat
abbrev ShareType := Int64
abbrev TimePointSec := Nat
abbrev Str := List Char

instance instLawfulBEqStr : LawfulBEq Str := inferInstance

/-- `fc::variant` data that the chain stores and never looks into. -/
abbrev Variant := Nat

/-! ## Constants -/

def blockIntervalSec : Nat := 10
def blocksPerDay : Nat := 8640
def numDelegates : Nat := 99
def maxUndoHistory : Nat := 360
def maxSlateSize : Nat := numDelegates + numDelegates / 10
def maxMessageSize : Nat := 2048
def maxFreeMessageSize : Nat := 1024
def minMessageFeeCoe : Nat := 100
def maxTransactionExpirationSec : Nat := 172800
def defaultContractMargin : ShareType := 1000000
def maxShares : ShareType := 1000000000000000000
def maxTrxSize : Nat := 102400
def maxBlockSize : Nat := 2 * 512 * 10000
def contractMaxNameSize : Nat := 32
def contractMaxDescriptionSize : Nat := 256
def contractParamMaxLen : Nat := 1024
def eventParamMaxLen : Nat := 1024
def limitPrice : ShareType := 1
def freeSignatureLimit : Int := 10
def maxSignatureNum : Nat := 1000
def extraSignatureFee : Int := 1000
def transactionMaxDepositNum : Int := 100
def maxDelegatePayPerBlock : ShareType := 500000
def delegatePayBlockNum : Nat := 8524000
def delegatePayIncNum : Nat := 3150000

/-! ## Exceptions -/

/-- The exceptions the modelled functions throw, under the names of the source. `fcAssert` stands
for a failed `FC_ASSERT`, `overflow` for those of `fc::safe`. -/
inductive Exn where
  | fcAssert | overflow | additionOverflow | expiredTransaction | invalidTransactionExpiration
  | outOfMaxTrxSize | duplicateTransaction | illegalTransaction | tooMuchSignature
  | ignoreCheckRequiredFeeState | missingSignature | invalidSignature | insufficientFee
  | negativeFee | unknownAssetId | insufficientFunds | unknownDelegateSlate
  | tooMayDelegatesInSlate | messageTooLong | negativeDeposit | negativeWithdraw
  | invalidWithdrawCondition | depositToOneAddressTwice | tooMuchDeposit | unknownBalanceEntry
  | notBeResultOfExecute | inResultOfExecute | operatorNotOwner | invalidAccountName
  | accountAlreadyRegistered | accountKeyInUse | unknownAccountId | accountRetracted
  | payBalanceRemaining | notADelegate | invalidAssetSymbol | assetSymbolInUse | invalidAssetName
  | assetIdInUse | invalidAssetAmount | invalidPrecision | notUserIssued | negativeIssue
  | overIssue | contractNotExist | contractAddressInUse | codeHashError | contractUpgraded
  | contractDestroyed | permanentContract | contractNameIllegal | contractDescIllegal
  | contractNameInUse | invalidMarginAmount | contractRunOutOfMoney | contractExecuteError
  | luaExecutorInternalError | methodCanNotBeCalledExplicitly
  | contractParameterLengthOverLimit | methodNotExist | transferAmountNotBiggerThan0
  | eventParameterLengthOverLimit
  | blockNumbersNotSequential | invalidPreviousBlockId | timeInPast | timeInFuture | invalidTime
  | invalidBlockDigest | invalidDelegateSignee | unknownBlock | failedCheckpoint
  deriving DecidableEq, Repr

/-! ## Amounts and conditions -/

structure Asset where
  amount : ShareType
  assetId : AssetIdType
  deriving DecidableEq, Inhabited

instance : Zero Asset := ⟨⟨0, 0⟩⟩

/-- `Asset::operator +=`, which refuses other assets and overflow. -/
def Asset.add (a b : Asset) : Except Exn Asset :=
  if a.assetId = b.assetId then
    match Checked.add? a.amount b.amount with
    | some s => .ok ⟨s, a.assetId⟩
    | none => .error .additionOverflow
  else .error .fcAssert

def safeAdd (a b : ShareType) : Except Exn ShareType :=
  match Checked.add? a b with
  | some s => .ok s
  | none => .error .overflow

def safeSub (a b : ShareType) : Except Exn ShareType :=
  match Checked.sub? a b with
  | some s => .ok s
  | none => .error .overflow

inductive WithdrawBalanceTypes where
  | common | contract | margin
  deriving DecidableEq, Inhabited

/-- The payload of a withdraw condition together with its type tag. -/
inductive WithdrawData where
  | null
  | signature (owner : Address) (memo : Option Variant)
  | multisig (required : Nat) (owners : List Address) (memo : Option Variant)
  | escrow (sender receiver escrow : Address) (agreementDigest : DigestType)
      (memo : Option Variant)
  deriving DecidableEq, Inhabited

structure WithdrawCondition where
  assetId : AssetIdType
  slateId : SlateIdType
  balanceType : WithdrawBalanceTypes
  data : WithdrawData
  deriving DecidableEq, Inhabited

def WithdrawCondition.owners (c : WithdrawCondition) : List Address :=
  match c.data with
  | .null => []
  | .signature owner _ => [owner]
  | .multisig _ owners _ => owners.dedup
  | .escrow sender receiver escrow _ _ => [sender, receiver, escrow].dedup

def WithdrawCondition.owner (c : WithdrawCondition) : Option Address :=
  match c.data with
  | .signature owner _ => some owner
  | _ => none

structure MultisigMetaInfo where
  required : Nat
  owners : List Address
  deriving DecidableEq, Inhabited

/-! ## Entries -/

structure BalanceEntry where
  condition : WithdrawCondition
  balance : ShareType
  depositDate : TimePointSec
  lastUpdate : TimePointSec
  metaData : Option TransactionIdType
  deriving DecidableEq, Inhabited

def BalanceEntry.assetId (b : BalanceEntry) : AssetIdType := b.condition.assetId
def BalanceEntry.slateId (b : BalanceEntry) : SlateIdType := b.condition.slateId
def BalanceEntry.owner (b : BalanceEntry) : Option Address := b.condition.owner

/-- `get_spendable_balance`: nothing, in the default asset, for an unsupported condition. -/
def BalanceEntry.getSpendableBalance (b : BalanceEntry) : Asset :=
  match b.condition.data with
  | .null => 0
  | _ => ⟨b.balance, b.condition.assetId⟩

/-- A `map` from times or block numbers to keys, in increasing order and never empty. -/
structure KeyHistory where
  entries : List (Nat × PublicKeyType)
  sorted : entries.Pairwise fun a b => a.1 < b.1
  ne_nil : entries ≠ []

namespace KeyHistory

/-- `history[t] = key` on a sorted list. -/
def insertAt (t : Nat) (key : PublicKeyType) : List (Nat × PublicKeyType) →
    List (Nat × PublicKeyType)
  | [] => [(t, key)]
  | (u, k) :: rest =>
    if t < u then (t, key) :: (u, k) :: rest
    else if t = u then (t, key) :: rest
    else (u, k) :: insertAt t key rest

theorem mem_insertAt {t : Nat} {key : PublicKeyType} :
    ∀ {l : List (Nat × PublicKeyType)} {e : Nat × PublicKeyType},
      e ∈ insertAt t key l → e = (t, key) ∨ e ∈ l
  | [], e, h => by simpa [insertAt] using h
  | (u, k) :: rest, e, h => by
    unfold insertAt at h
    split_ifs at h
    · simpa using h
    · rcases List.mem_cons.1 h with h | h
      · exact .inl h
      · exact .inr (List.mem_cons_of_mem _ h)
    · rcases List.mem_cons.1 h with h | h
      · exact .inr (List.mem_cons.2 (.inl h))
      · exact (mem_insertAt h).imp_right (List.mem_cons_of_mem _)

theorem insertAt_sorted {t : Nat} {key : PublicKeyType} :
    ∀ {l : List (Nat × PublicKeyType)}, l.Pairwise (fun a b => a.1 < b.1) →
      (insertAt t key l).Pairwise fun a b => a.1 < b.1
  | [], _ => by simp [insertAt]
  | (u, k) :: rest, h => by
    rw [List.pairwise_cons] at h
    unfold insertAt
    split_ifs with h₁ h₂
    · refine List.pairwise_cons.2 ⟨?_, List.pairwise_cons.2 h⟩
      intro e he
      rcases List.mem_cons.1 he with rfl | he
      · exact h₁
      · exact h₁.trans (h.1 e he)
    · subst h₂
      exact List.pairwise_cons.2 h
    · refine List.pairwise_cons.2 ⟨?_, insertAt_sorted h.2⟩
      intro e he
      rcases mem_insertAt he with rfl | he
      · show u < t
        omega
      · exact h.1 e he

theorem insertAt_ne_nil (t : Nat) (key : PublicKeyType) (l : List (Nat × PublicKeyType)) :
    insertAt t key l ≠ [] := by
  cases l with
  | nil => simp [insertAt]
  | cons e rest =>
    obtain ⟨u, k⟩ := e
    unfold insertAt
    split_ifs <;> simp

def insert (h : KeyHistory) (t : Nat) (key : PublicKeyType) : KeyHistory :=
  ⟨insertAt t key h.entries, insertAt_sorted h.sorted, insertAt_ne_nil t key h.entries⟩

def single (t : Nat) (key : PublicKeyType) : KeyHistory :=
  ⟨[(t, key)], List.pairwise_singleton _ _, by simp⟩

/-- The key of the latest time, `rbegin()->second`. -/
def last (h : KeyHistory) : PublicKeyType := (h.entries.getLast h.ne_nil).2

def keys (h : KeyHistory) : List PublicKeyType := h.entries.map Prod.snd

end KeyHistory

instance : Inhabited KeyHistory := ⟨KeyHistory.single 0 0⟩

structure DelegateStats where
  votesFor : ShareType
  payRate : Nat
  signingKeyHistory : KeyHistory
  lastBlockNumProduced : Nat
  nextSecretHash : Option DigestType
  payBalance : ShareType
  totalPaid : ShareType
  totalBurned : ShareType
  blocksProduced : Nat
  blocksMissed : Nat
  deriving Inhabited

inductive AccountType where
  | titanAccount | publicAccount | multisigAccount
  deriving DecidableEq, Inhabited

structure AccountMetaInfo where
  type : AccountType
  data : Variant
  deriving DecidableEq, Inhabited

structure AccountEntry where
  id : AccountIdType
  name : Str
  publicData : Variant
  ownerKey : PublicKeyType
  activeKeyHistory : KeyHistory
  registrationDate : TimePointSec
  lastUpdate : TimePointSec
  delegateInfo : Option DelegateStats
  metaData : Option AccountMetaInfo
  deriving Inhabited

namespace AccountEntry

def activeKey (a : AccountEntry) : PublicKeyType := a.activeKeyHistory.last
def isRetracted (a : AccountEntry) : Bool := a.activeKey == 0
def isDelegate (a : AccountEntry) : Bool := a.delegateInfo.isSome

def netVotes (a : AccountEntry) : ShareType :=
  match a.delegateInfo with
  | some d => d.votesFor
  | none => 0

def payBalance (a : AccountEntry) : ShareType :=
  match a.delegateInfo with
  | some d => d.payBalance
  | none => 0

end AccountEntry

/-- An entry of `_delegate_votes`. -/
structure VoteDel where
  votes : ShareType
  delegateId : AccountIdType
  deriving DecidableEq, Inhabited

structure AssetEntry where
  id : AssetIdType
  symbol : Str
  name : Str
  description : Str
  publicData : Variant
  issuerAccountId : AccountIdType
  precision : Nat
  registrationDate : TimePointSec
  lastUpdate : TimePointSec
  maximumShareSupply : ShareType
  currentShareSupply : ShareType
  collectedFees : ShareType
  flags : UInt32
  issuerPermissions : UInt32
  transactionFee : ShareType
  marketFee : Nat
  authority : MultisigMetaInfo
  deriving DecidableEq, Inhabited

namespace AssetEntry

def godIssuerId : AccountIdType := 0
def marketIssuerId : AccountIdType := -2

def retractable : UInt32 := 1
def restricted : UInt32 := 2
def balanceHalt : UInt32 := 8
def supplyUnlimit : UInt32 := 16

def isUserIssued (a : AssetEntry) : Bool := godIssuerId < a.issuerAccountId
def isRetractable (a : AssetEntry) : Bool := a.isUserIssued && a.flags &&& retractable != 0
def isBalanceFrozen (a : AssetEntry) : Bool := a.isUserIssued && a.flags &&& balanceHalt != 0

/-- `can_issue`: a positive amount that neither wraps nor exceeds the maximum. -/
def canIssue (a : AssetEntry) (amount : Asset) : Bool :=
  a.id == amount.assetId && 0 < amount.amount &&
    a.currentShareSupply < a.currentShareSupply + amount.amount &&
    a.currentShareSupply + amount.amount ≤ a.maximumShareSupply

end AssetEntry

structure SlateEntry where
  slate : List AccountIdType
  duplicateSlate : List AccountIdType
  deriving DecidableEq, Inhabited

structure SlotIndex where
  delegateId : AccountIdType
  timestamp : TimePointSec
  deriving DecidableEq, Inhabited

structure SlotEntry where
  index : SlotIndex
  blockId : Option BlockIdType
  deriving DecidableEq, Inhabited

inductive PropertyIdType where
  | databaseVersion | chainId | lastAssetId | lastAccountId | activeDelegateListId
  | lastRandomSeedId | statisticsEnabled | confirmationRequirement | dirtyMarkets | nodeVmEnabled
  deriving DecidableEq, Inhabited

/-- The values the properties hold: identifiers, the delegate list, the seed and the flags. -/
inductive PropertyValue where
  | id (n : Int)
  | delegates (l : List AccountIdType)
  | seed (n : Nat)
  | flag (b : Bool)
  | number (n : Nat)
  deriving DecidableEq, Inhabited

inductive ContractState where
  | valid | deleted
  deriving DecidableEq, Inhabited

inductive ContractLevel where
  | temp | forever
  deriving DecidableEq, Inhabited

structure Code where
  abi : List Str
  offlineAbi : List Str
  events : List Str
  storageProperties : List (Str × Nat)
  byteCode : List UInt8
  codeHash : DigestType
  deriving DecidableEq, Inhabited

structure ContractEntry where
  contractName : Str
  id : ContractIdType
  level : ContractLevel
  owner : PublicKeyType
  state : ContractState
  description : Str
  code : Code
  trxId : TransactionIdType
  registerTime : TimePointSec
  deriving DecidableEq, Inhabited

/-- A stored value together with its type tag; `other` covers the tags the chain never decodes. -/
inductive StorageDataType where
  | null
  | int (v : Int64)
  | number (bits : UInt64)
  | bool (v : Bool)
  | string (v : Str)
  | stream (v : List UInt8)
  | intTable (m : Map Str Int64)
  | numberTable (m : Map Str UInt64)
  | boolTable (m : Map Str Bool)
  | stringTable (m : Map Str Str)
  | intArray (m : Map Str Int64)
  | numberArray (m : Map Str UInt64)
  | boolArray (m : Map Str Bool)
  | stringArray (m : Map Str Str)
  | other (tag : UInt8) (data : List UInt8)

/-- The numeric tags of `StorageValueTypes`. -/
def StorageDataType.storageType : StorageDataType → UInt8
  | .null => 0
  | .int _ => 1
  | .number _ => 2
  | .bool _ => 3
  | .string _ => 4
  | .stream _ => 5
  | .intTable _ => 51
  | .numberTable _ => 52
  | .boolTable _ => 53
  | .stringTable _ => 54
  | .intArray _ => 101
  | .numberArray _ => 102
  | .boolArray _ => 103
  | .stringArray _ => 104
  | .other tag _ => tag

structure StorageDataChangeType where
  storageBefore : StorageDataType
  storageAfter : StorageDataType

structure ContractStorageEntry where
  id : ContractIdType
  contractStorages : Map Str StorageDataType

end Achain
