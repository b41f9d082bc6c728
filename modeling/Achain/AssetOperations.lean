import Achain.EvaluationState

/-!
# Asset operations
-/

namespace Achain

open Table Result

/-- `is_power_of_ten`, which knows one power. -/
def isPowerOfTen (n : Nat) : Bool := n == 100000

/-- `is_valid_symbol_name`. -/
def isValidSymbolName (symbol : Str) : Bool :=
  3 ≤ symbol.length && symbol.length ≤ 8 && symbol.all (fun c => 'A' ≤ c && c ≤ 'Z') &&
    symbol.take 3 != ['A', 'C', 'T']

def assetRegistrationFee : ShareType := 100000000

def marketHalt : UInt32 := 4

def allPermissions : UInt32 :=
  AssetEntry.restricted ||| AssetEntry.retractable ||| marketHalt ||| AssetEntry.balanceHalt |||
    AssetEntry.supplyUnlimit

variable (P : Primitives)

def CreateAssetOperation.entry (op : CreateAssetOperation) (id : AssetIdType)
    (issuer : Option AccountEntry) (now : TimePointSec) : AssetEntry where
  id := id
  symbol := op.symbol
  name := op.name
  description := op.description
  publicData := op.publicData
  issuerAccountId := op.issuerAccountId
  precision := op.precision
  registrationDate := now
  lastUpdate := now
  maximumShareSupply := op.maximumShareSupply
  currentShareSupply := 0
  collectedFees := 0
  flags := 0
  issuerPermissions := allPermissions
  transactionFee := 0
  marketFee := 0
  authority :=
    match issuer with
    | some account => ⟨1, [P.address account.activeKey]⟩
    | none => ⟨0, []⟩

/-- The issuer of a new asset, which must exist unless the asset is a market one. -/
def CreateAssetOperation.issuer (op : CreateAssetOperation) (l : Ledger) :
    Except Exn (Option AccountEntry) :=
  if op.issuerAccountId = AssetEntry.marketIssuerId then .ok none
  else do
    let account ← orThrow (l.getAccount op.issuerAccountId) .unknownAccountId
    return some account

def CreateAssetOperation.evaluate (op : CreateAssetOperation) (s : OpState) :
    Except Exn OpState := do
  ensure (isValidSymbolName op.symbol) .fcAssert
  ensure (s.ledger.getAssetBySymbol op.symbol).isNone .assetSymbolInUse
  ensure (op.name ≠ []) .invalidAssetName
  let last ← s.ledger.lastAssetId
  ensure (s.ledger.getAsset (last + 1)).isNone .assetIdInUse
  let issuer ← op.issuer s.ledger
  ensure (0 < op.maximumShareSupply && op.maximumShareSupply ≤ maxShares) .invalidAssetAmount
  ensure (isPowerOfTen op.precision) .invalidPrecision
  let required ← s.requiredFees.add ⟨assetRegistrationFee, 0⟩
  let (ledger, id) ← s.ledger.newAssetId
  return { s with
    requiredFees := required
    ledger := ledger.storeAsset (op.entry P id issuer ledger.prev.now) }

/-- The descriptive fields an update sets, with the checks on each. -/
def UpdateAssetOperation.apply (op : UpdateAssetOperation) (asset : AssetEntry) :
    Except Exn AssetEntry := do
  ensure (op.name ≠ some []) .invalidAssetName
  ensure (op.maximumShareSupply.all fun m => 0 < m && m ≤ maxShares) .invalidAssetAmount
  ensure (op.precision.all isPowerOfTen) .invalidPrecision
  return { asset with
    name := op.name.getD asset.name
    description := op.description.getD asset.description
    publicData := op.publicData.getD asset.publicData
    maximumShareSupply := op.maximumShareSupply.getD asset.maximumShareSupply
    precision := op.precision.getD asset.precision }

def UpdateAssetOperation.evaluate (op : UpdateAssetOperation) (ctx : OpContext) (s : OpState) :
    Except Exn OpState := do
  let asset ← orThrow (s.ledger.getAsset op.assetId) .unknownAssetId
  ensure (op.name.isSome || op.description.isSome || op.publicData.isSome ||
    op.maximumShareSupply.isSome || op.precision.isSome) .fcAssert
  ensure (!(0 < asset.currentShareSupply) ||
    (op.maximumShareSupply.isNone && op.precision.isNone)) .fcAssert
  ensure (ctx.verifyAuthority asset.authority) .missingSignature
  let asset ← op.apply asset
  return { s with
    ledger := s.ledger.storeAsset { asset with lastUpdate := s.ledger.prev.now } }

/-- Every permission bit of `wanted` is one of `held`. -/
def permitted (wanted held : UInt32) : Bool := wanted &&& held &&& allPermissions ==
  wanted &&& allPermissions

/-- `UpdateAssetExtOperation::evaluate`. It checks the authority of the asset, but not whether the
asset is the base asset, whose authority requires no signature. -/
def UpdateAssetExtOperation.evaluate (op : UpdateAssetExtOperation) (ctx : OpContext)
    (s : OpState) : Except Exn OpState := do
  let asset ← orThrow (s.ledger.getAsset op.assetId) .unknownAssetId
  let issued : Bool := 0 < asset.currentShareSupply
  ensure (!issued || asset.flags &&& AssetEntry.supplyUnlimit != 0 ||
    op.maximumShareSupply.isNone) .fcAssert
  ensure (!issued || op.precision.isNone) .fcAssert
  ensure (ctx.verifyAuthority asset.authority) .missingSignature
  let asset ← op.toUpdateAssetOperation.apply asset
  ensure (!issued || permitted op.issuerPermissions asset.issuerPermissions) .fcAssert
  ensure (permitted op.flags op.issuerPermissions) .fcAssert
  ensure (op.issuerAccountId ≠ AssetEntry.marketIssuerId) .fcAssert
  ensure (op.issuerAccountId == asset.issuerAccountId ||
    (s.ledger.getAccount op.issuerAccountId).isSome) .unknownAccountId
  return { s with
    ledger := s.ledger.storeAsset
      { asset with
        issuerPermissions := op.issuerPermissions
        flags := op.flags
        transactionFee := op.transactionFee
        authority := op.authority
        issuerAccountId := op.issuerAccountId
        lastUpdate := s.ledger.prev.now } }

def IssueAssetOperation.evaluate (op : IssueAssetOperation) (ctx : OpContext) (s : OpState) :
    Except Exn OpState := do
  let asset ← orThrow (s.ledger.getAsset op.amount.assetId) .unknownAssetId
  ensure asset.isUserIssued .notUserIssued
  ensure (ctx.verifyAuthority asset.authority) .missingSignature
  ensure (0 < op.amount.amount) .negativeIssue
  ensure (asset.canIssue op.amount) .overIssue
  let s ← s.addBalance op.amount
  return { s with
    ledger := s.ledger.storeAsset
      { asset with
        currentShareSupply := asset.currentShareSupply + op.amount.amount
        lastUpdate := s.ledger.prev.now } }

end Achain
