import Achain.ExtendChain

/-!
# The genesis state

`initialize_genesis`: the initial delegates, the balances of the base asset, the base asset itself
with the sum of these balances as its supply, and the market assets.
-/

namespace Achain

open Table Result

structure GenesisDelegate where
  name : Str
  owner : PublicKeyType

structure GenesisBalance where
  address : Address
  balance : ShareType

structure GenesisAsset where
  symbol : Str
  name : Str
  description : Str
  precision : Nat

structure GenesisState where
  timestamp : TimePointSec
  delegates : List GenesisDelegate
  initialBalances : List GenesisBalance
  marketAssets : List GenesisAsset

/-- One round of delegates, each with its number as its name and key, and a balance for the first
two. -/
def GenesisState.plain : GenesisState where
  timestamp := 1
  delegates := (List.range numDelegates).map fun i => ⟨[Char.ofNat (i + 1)], i + 1⟩
  initialBalances := [⟨1, 5000⟩, ⟨2, 5000⟩]
  marketAssets := []

variable (P : Primitives)

def GenesisDelegate.entry (d : GenesisDelegate) (id : AccountIdType) (timestamp : TimePointSec) :
    AccountEntry where
  id := id
  name := d.name
  publicData := 0
  ownerKey := d.owner
  activeKeyHistory := .single timestamp d.owner
  registrationDate := timestamp
  lastUpdate := timestamp
  delegateInfo := some (.fresh 100 0 d.owner)
  metaData := none

/-- Stores the delegates under the ids after the last one given. -/
def genesisDelegates (timestamp : TimePointSec) (c : ChainTables) (last : AccountIdType) :
    List GenesisDelegate → ChainTables × AccountIdType
  | [] => (c, last)
  | d :: ds =>
    genesisDelegates timestamp
      (AccountEntry.store P c (last + 1) (d.entry (last + 1) timestamp)) (last + 1) ds

def GenesisBalance.condition (b : GenesisBalance) : WithdrawCondition :=
  ⟨0, 0, .common, .signature b.address none⟩

/-- Stores one balance, added to an earlier one of the same address. -/
def genesisBalance (timestamp : TimePointSec) (c : ChainTables) (b : GenesisBalance) :
    ChainTables :=
  let id := P.conditionAddress b.condition
  let balance :=
    match c.balanceIdToEntry.lookup id with
    | some cur => b.balance + cur.balance
    | none => b.balance
  BalanceEntry.store c id ⟨b.condition, balance, 0, timestamp, none⟩

/-- The base asset. Its authority is the default one, of which no signature is required. -/
def baseAsset (timestamp : TimePointSec) (supply : ShareType) : AssetEntry where
  id := 0
  symbol := ['A', 'C', 'T']
  name := ['A', 'C', 'T']
  description := "The Future of Banking".toList
  publicData := 0
  issuerAccountId := AssetEntry.godIssuerId
  precision := 100000
  registrationDate := timestamp
  lastUpdate := timestamp
  maximumShareSupply := maxShares
  currentShareSupply := supply
  collectedFees := 0
  flags := 0
  issuerPermissions := 0
  transactionFee := 0
  marketFee := 0
  authority := ⟨0, []⟩

def GenesisAsset.entry (a : GenesisAsset) (id : AssetIdType) (timestamp : TimePointSec) :
    AssetEntry where
  id := id
  symbol := a.symbol
  name := a.name
  description := a.description
  publicData := 0
  issuerAccountId := AssetEntry.marketIssuerId
  precision := a.precision
  registrationDate := timestamp
  lastUpdate := timestamp
  maximumShareSupply := maxShares
  currentShareSupply := 0
  collectedFees := 0
  flags := 0
  issuerPermissions := -1
  transactionFee := 0
  marketFee := 0
  authority := ⟨0, []⟩

def genesisAssets (timestamp : TimePointSec) (c : ChainTables) (last : AssetIdType) :
    List GenesisAsset → ChainTables × AssetIdType
  | [] => (c, last)
  | a :: as =>
    genesisAssets timestamp (AssetEntry.store c (last + 1) (a.entry (last + 1) timestamp))
      (last + 1) as

/-- The tables of `initialize_genesis`. -/
def genesisTables (g : GenesisState) (statisticsEnabled : Bool) : ChainTables :=
  let (c, lastAccount) := genesisDelegates P g.timestamp (.empty statisticsEnabled) 0 g.delegates
  let c := g.initialBalances.foldl (genesisBalance P g.timestamp) c
  let supply := g.initialBalances.foldl (fun sum b => sum + b.balance) 0
  let c := AssetEntry.store c 0 (baseAsset g.timestamp supply)
  let (c, lastAsset) := genesisAssets g.timestamp c 0 g.marketAssets
  let c := PropertyEntry.store c .lastAssetId (.id lastAsset)
  let c := PropertyEntry.store c .lastAccountId (.id lastAccount)
  let c := PropertyEntry.store c .activeDelegateListId (.delegates c.nextRoundActiveDelegates)
  let c := PropertyEntry.store c .statisticsEnabled (.flag statisticsEnabled)
  PropertyEntry.store c .nodeVmEnabled (.flag false)

/-- `initialize_genesis`: at least one round of delegates, and a genesis time that is not zero. -/
def initializeGenesis (g : GenesisState) (statisticsEnabled : Bool) : Except Exn ChainDatabase := do
  ensure (numDelegates ≤ g.delegates.length) .fcAssert
  ensure (g.timestamp ≠ 0) .fcAssert
  return {
    tables := genesisTables P g statisticsEnabled
    verifyTransactionSignatures := true
    generatingBlock := false
    headBlockId := 0
    headBlockHeader := .empty
    blockIdToFullBlock := ∅
    blockIdToUndoState := ∅
    blockNumToId := ∅
    forkDb := Finmap.singleton 0 ⟨[], true, some true, true, true⟩
    forkNumberDb := ∅
    futureBlocks := [] }

/-- A block of the delegate whose turn it is in the first round of the plain genesis state. -/
def FullBlock.plain (blockNum : Nat) (previous : BlockIdType) (timestamp : TimePointSec)
    (userTransactions : List SignedTransaction) : FullBlock where
  previous := previous
  blockNum := blockNum
  timestamp := timestamp
  transactionDigest := userTransactions.length
  nextSecretHash := 0
  previousSecret := 0
  delegateSignature := slotNumber timestamp % numDelegates + 1
  userTransactions := userTransactions

end Achain
