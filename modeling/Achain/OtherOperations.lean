import Achain.EvaluationState
import Mathlib.Data.List.Sort

/-!
# Slates, messages, storage changes and events
-/

namespace Achain

open Table Result

variable (P : Primitives)

/-- The slate a `DefineSlateOperation` names, as the ordered set it is stored as. -/
def DefineSlateOperation.ids (op : DefineSlateOperation) : List AccountIdType :=
  op.slate.dedup.insertionSort (· ≤ ·)

def DefineSlateOperation.evaluate (op : DefineSlateOperation) (s : OpState) :
    Except Exn OpState := do
  ensure (op.slate ≠ []) .fcAssert
  ensure (op.slate.length ≤ maxSlateSize) .tooMayDelegatesInSlate
  ensure (op.slate.all fun id => id < 0 || (s.ledger.getAccount id).any AccountEntry.isDelegate)
    .fcAssert
  match s.ledger.getSlate (P.slateId op.ids) with
  | some current => do
    ensure (current.slate == op.ids) .fcAssert
    return s
  | none => return { s with ledger := s.ledger.storeSlate P ⟨op.ids, []⟩ }

/-- `get_imessage_need_fee`. -/
def imessageNeedFee (imessage : Str) : ShareType :=
  if imessage.length < maxFreeMessageSize then 0
  else Int64.ofNat (minMessageFeeCoe * (imessage.length - maxFreeMessageSize))

def ImessageMemoOperation.evaluate (op : ImessageMemoOperation) (s : OpState) :
    Except Exn OpState := do
  ensure (op.imessage ≠ []) .fcAssert
  ensure (op.imessage.length ≤ maxMessageSize) .messageTooLong
  let required ← s.requiredFees.add ⟨imessageNeedFee op.imessage, 0⟩
  return { s with imessageLength := op.imessage.length, requiredFees := required }

namespace StorageOperation

/-- The keys of the table before are erased and the entries of the table after inserted. -/
def mergeMap {V : Type} (table before after : Map Str V) : Map Str V :=
  (mapItemsOf after).foldl (fun m e => m.insert e.1 e.2) (before.keys.foldl (fun m k => m.erase k)
    table)
where
  mapItemsOf (m : Map Str V) : List (Str × V) := m.entries.map fun e => (e.1, e.2)

/-- The new value of a storage that exists and is changed: a base value is replaced, a table merged,
and a value of a type not listed is left as it is. Unpacking a table of another type throws. -/
def updateValue (old before after : StorageDataType) : Except Exn StorageDataType :=
  match old with
  | .int _ | .number _ | .bool _ | .string _ | .stream _ => .ok after
  | .intTable m =>
    match before, after with
    | .intTable b, .intTable a => .ok (.intTable (mergeMap m b a))
    | _, _ => .error .fcAssert
  | .numberTable m =>
    match before, after with
    | .numberTable b, .numberTable a => .ok (.numberTable (mergeMap m b a))
    | _, _ => .error .fcAssert
  | .boolTable m =>
    match before, after with
    | .boolTable b, .boolTable a => .ok (.boolTable (mergeMap m b a))
    | _, _ => .error .fcAssert
  | .stringTable m =>
    match before, after with
    | .stringTable b, .stringTable a => .ok (.stringTable (mergeMap m b a))
    | _, _ => .error .fcAssert
  | .intArray m =>
    match before, after with
    | .intArray b, .intArray a => .ok (.intArray (mergeMap m b a))
    | _, _ => .error .fcAssert
  | .numberArray m =>
    match before, after with
    | .numberArray b, .numberArray a => .ok (.numberArray (mergeMap m b a))
    | _, _ => .error .fcAssert
  | .boolArray m =>
    match before, after with
    | .boolArray b, .boolArray a => .ok (.boolArray (mergeMap m b a))
    | _, _ => .error .fcAssert
  | .stringArray m =>
    match before, after with
    | .stringArray b, .stringArray a => .ok (.stringArray (mergeMap m b a))
    | _, _ => .error .fcAssert
  | .null | .other _ _ => .ok old

/-- `update_contract_storages` for one storage name. -/
def updateContractStorages (storages : Map Str StorageDataType)
    (change : Str × StorageDataChangeType) : Except Exn (Map Str StorageDataType) :=
  let before := change.2.storageBefore
  let after := change.2.storageAfter
  if before.storageType = 0 ∧ after.storageType ≠ 0 then .ok (storages.insert change.1 after)
  else if before.storageType ≠ 0 ∧ after.storageType ≠ 0 then do
    let old ← orThrow (storages.lookup change.1) .fcAssert
    let new ← updateValue old before after
    return storages.insert change.1 new
  else .ok (storages.erase change.1)

/-- The types of a change agree with each other and with the value stored. -/
def checkTypes (storages : Map Str StorageDataType) (change : Str × StorageDataChangeType) :
    Bool :=
  let before := change.2.storageBefore.storageType
  let after := change.2.storageAfter.storageType
  (before == 0 || after == 0 || before == after) &&
    match storages.lookup change.1 with
    | none => true
    | some old => old.storageType == 0 || before == 0 || old.storageType == before

def evaluate (op : StorageOperation) (ctx : OpContext) (s : OpState) : Except Exn OpState := do
  ensure ctx.evaluateContractResult .notBeResultOfExecute
  let storages : Map Str StorageDataType :=
    match s.ledger.getStorage op.contractId with
    | some e => e.contractStorages
    | none => ∅
  let changes := op.contractChangeStorages.entries.map fun e => (e.1, e.2)
  ensure (changes.all (checkTypes storages)) .fcAssert
  let storages ← changes.foldlM updateContractStorages storages
  return { s with ledger := s.ledger.storeStorage ⟨op.contractId, storages⟩ }

end StorageOperation

def EventOperation.evaluate (op : EventOperation) (ctx : OpContext) (s : OpState) :
    Except Exn OpState := do
  ensure ctx.evaluateContractResult .notBeResultOfExecute
  let _ ← orThrow (s.ledger.getContract op.id) .contractNotExist
  ensure (op.eventParam.length ≤ eventParamMaxLen) .eventParameterLengthOverLimit
  return { s with eventVector := s.eventVector ++ [op] }

end Achain
