import Achain.Vm
import Mathlib.Data.List.Sort

/-!
# Committing the storage of a run

While a contract runs, the storages it assigns are logged and the tables it reads are kept as they
were. When the run has ended, the two are merged into the changes of every contract, which are
checked against the types the contracts were compiled with and become operations of the result.
-/

namespace Achain.Glua

open Table

/-! ## Values -/

/-- `StorageValueTypes`. -/
inductive StorageValueTypes where
  | null | int | number | bool | string | stream
  | unknownTable | intTable | numberTable | boolTable | stringTable | streamTable
  | unknownArray | intArray | numberArray | boolArray | stringArray | streamArray
  | userdata | notSupport
  deriving DecidableEq

namespace StorageValueTypes

def isAnyTable : StorageValueTypes → Bool
  | .unknownTable | .intTable | .numberTable | .boolTable | .stringTable | .streamTable => true
  | _ => false

def isAnyArray : StorageValueTypes → Bool
  | .unknownArray | .intArray | .numberArray | .boolArray | .stringArray | .streamArray => true
  | _ => false

/-- `lua_storage_is_table`. -/
def isTable (t : StorageValueTypes) : Bool := t.isAnyTable || t.isAnyArray

/-- `get_storage_base_type`. -/
def baseType : StorageValueTypes → StorageValueTypes
  | .bool | .boolArray | .boolTable => .bool
  | .int | .intArray | .intTable => .int
  | .number | .numberArray | .numberTable => .number
  | .string | .stringArray | .stringTable => .string
  | .stream | .streamArray | .streamTable => .stream
  | _ => .null

/-- `get_item_type_in_table_or_array`. -/
def itemType : StorageValueTypes → StorageValueTypes
  | .intTable | .intArray => .int
  | .boolTable | .boolArray => .bool
  | .numberTable | .numberArray => .number
  | .stringTable | .stringArray => .string
  | .streamTable | .streamArray => .stream
  | _ => .null

end StorageValueTypes

/-- A value with its type. Of a table, only the type says what its items are. -/
inductive GluaStorageValue where
  | null
  | int (v : Int64)
  | number (bits : UInt64)
  | bool (v : Bool)
  | string (v : Str)
  | stream (v : List UInt8)
  | table (type : StorageValueTypes) (items : List (Str × GluaStorageValue))
  | userdata
  | notSupport

/-- What the code leaves to the machine: floating point numbers, what an item of a table is read as
when the table's type is not the item's, and the bytes of values that are null. -/
structure Platform where
  ofInt : Int64 → UInt64
  toInt : UInt64 → Int64
  equal : UInt64 → UInt64 → Bool
  close : UInt64 → UInt64 → Bool
  rawInt : GluaStorageValue → Int64
  rawNumber : GluaStorageValue → UInt64
  rawBool : GluaStorageValue → Bool
  rawString : GluaStorageValue → Str
  sameNull : ContractIdType → Str → Bool

namespace GluaStorageValue

variable (F : Platform)

def type : GluaStorageValue → StorageValueTypes
  | .null => .null
  | .int _ => .int
  | .number _ => .number
  | .bool _ => .bool
  | .string _ => .string
  | .stream _ => .stream
  | .table type _ => type
  | .userdata => .userdata
  | .notSupport => .notSupport

/-- The items of a table, in the order of their keys. -/
def items : GluaStorageValue → List (Str × GluaStorageValue)
  | .table _ items => items
  | _ => []

def setType (t : StorageValueTypes) : GluaStorageValue → GluaStorageValue
  | .table _ items => .table t items
  | v => v

/-- `try_parse_type`. -/
def tryParseType (t : StorageValueTypes) : GluaStorageValue → GluaStorageValue
  | .number x => if t = .int then .int (F.toInt x) else .number x
  | .int x => if t = .number then .number (F.ofInt x) else .int x
  | v => v

def find (key : Str) (items : List (Str × GluaStorageValue)) : Option GluaStorageValue :=
  (items.find? fun e => e.1 = key).map Prod.snd

mutual

/-- `GluaStorageValue::equals`. -/
def equals : GluaStorageValue → GluaStorageValue → Bool
  | .null, .null => true
  | .int x, .int y => x == y
  | .number x, .number y => F.equal x y
  | .bool x, .bool y => x == y
  | .string x, .string y => x == y
  | .table t items, .table t' items' =>
    t == t' && t.isTable && items.length == items'.length && itemsEqual items items'
  | _, _ => false

def itemsEqual : List (Str × GluaStorageValue) → List (Str × GluaStorageValue) → Bool
  | [], _ => true
  | (key, v) :: items, items' =>
    (match find key items' with
      | some v' => equals v v'
      | none => false) && itemsEqual items items'

end

/-! ## Values on the chain -/

def intValue : GluaStorageValue → Int64
  | .int v => v
  | v => F.rawInt v

def numberValue : GluaStorageValue → UInt64
  | .number v => v
  | v => F.rawNumber v

def boolValue : GluaStorageValue → Bool
  | .bool v => v
  | v => F.rawBool v

def stringValue : GluaStorageValue → Str
  | .string v => v
  | v => F.rawString v

/-- The order of strings. -/
def strLe : Str → Str → Bool
  | [], _ => true
  | _ :: _, [] => false
  | x :: s, y :: t => x.toNat < y.toNat || x == y && strLe s t

/-- A `std::map` filled from entries with different keys: it has them in the order of the keys. -/
def stdMap {V : Type} (entries : List (Str × V)) : Map Str V :=
  ((entries.insertionSort fun a b => strLe a.1 b.1 = true).map
    fun e => (⟨e.1, e.2⟩ : Sigma fun _ => V)).toAList

def itemsAs {V : Type} (read : GluaStorageValue → V) (items : List (Str × GluaStorageValue)) :
    Map Str V :=
  stdMap (items.map fun e => (e.1, read e.2))

/-- `get_storage_data_from_lua_storage`. Streams, and tables whose items have no known type, give the
default constructed value. -/
def toStorageData : GluaStorageValue → StorageDataType
  | .null => .null
  | .int v => .int v
  | .number v => .number v
  | .bool v => .bool v
  | .string v => .string v
  | .table .intTable items => .intTable (itemsAs (intValue F) items)
  | .table .intArray items => .intArray (itemsAs (intValue F) items)
  | .table .numberTable items => .numberTable (itemsAs (numberValue F) items)
  | .table .numberArray items => .numberArray (itemsAs (numberValue F) items)
  | .table .boolTable items => .boolTable (itemsAs (boolValue F) items)
  | .table .boolArray items => .boolArray (itemsAs (boolValue F) items)
  | .table .stringTable items => .stringTable (itemsAs (stringValue F) items)
  | .table .stringArray items => .stringArray (itemsAs (stringValue F) items)
  | _ => .other 0 []

end GluaStorageValue

/-! ## Changes -/

structure GluaStorageChangeItem where
  contractId : ContractIdType
  key : Str
  before : GluaStorageValue
  after : GluaStorageValue

/-- The exceptions of a commit. -/
inductive CommitError where
  | someStorageNotInit
  | unknownContract (id : ContractIdType)
  | unknownStorage (key : Str)
  | typeNotMatched (key : Str)
  | itemTypesDiffer

/-- What a commit finds in the state of the VM: the log of the assignments, the tables that were
read with what is now in their place if it is a table, and the types of the storages of the contracts
that can be opened. -/
structure CommitState where
  hasException : Bool
  changeList : List GluaStorageChangeItem
  tableReadList : List (GluaStorageChangeItem × Option GluaStorageValue)
  callingContractInitApi : Bool
  startingContractAddress : ContractIdType
  openContract : ContractIdType → Option (List (Str × StorageValueTypes))
  inSandbox : Bool
  hasEvaluateState : Bool

abbrev ContractChangesMap := Map Str GluaStorageChangeItem

abbrev AllContractsChangesMap := Map ContractIdType ContractChangesMap

namespace GluaStorageChangeItem

variable (F : Platform)

/-- `diff_storage_change_if_is_table`: what is left of a table before and after are the items that
were removed, changed or added. -/
def diffIfIsTable (c : GluaStorageChangeItem) : GluaStorageChangeItem :=
  match c.before, c.after with
  | .table t items, .table t' items' =>
    { c with
      before := .table t (items.filter fun e =>
        match GluaStorageValue.find e.1 items' with
        | none => true
        | some v => !v.equals F e.2 && e.2.type != .null)
      after := .table t' (items'.filter fun e =>
        match GluaStorageValue.find e.1 items with
        | none => true
        | some v => !e.2.equals F v && v.type != .null) }
  | _, _ => c

/-- The type of a table that was or is empty is that of the table before. -/
def keepTableType (c : GluaStorageChangeItem) : GluaStorageChangeItem :=
  if c.before.type.isAnyArray ∧ c.after.items = [] then
    { c with after := c.after.setType c.before.type }
  else if c.before.type.isTable ∧ c.before.items ≠ [] then
    { c with after := c.after.setType c.before.type }
  else c

/-- The value after a change is made to fit the type its storage was compiled with. -/
def matchType (info : StorageValueTypes) (key : Str) (c : GluaStorageChangeItem) :
    Except CommitError GluaStorageChangeItem :=
  match c.after with
  | .table t items =>
    let items := items.map fun e => (e.1, e.2.tryParseType F info.baseType)
    if !info.isTable then .error (.typeNotMatched key)
    else if items.head?.any fun e => e.2.type != info.itemType then .error (.typeNotMatched key)
    else
      let t := if t = .unknownTable ∨ t = .unknownArray then info else t
      .ok { c with after := .table t items }
  | .number x => .ok (if info = .int then { c with after := .int (F.toInt x) } else c)
  | .int x => .ok (if info = .number then { c with after := .number (F.ofInt x) } else c)
  | _ => .ok c

/-- The check that the items of a table have one type. The flag for the first item is never cleared. -/
def checkItemTypes : Bool → StorageValueTypes → List (Str × GluaStorageValue) → Bool
  | _, _, [] => true
  | true, _, e :: items => checkItemTypes true e.2.type items
  | false, t, e :: items => e.2.type == t && checkItemTypes true t items

/-- A value that is the same after as before. -/
def unchanged (c : GluaStorageChangeItem) : Bool :=
  match c.before, c.after with
  | .int x, .int y => x == y
  | .bool x, .bool y => x == y
  | .number x, .number y => F.close y x || x == y
  | .string x, .string y => x == y
  | .stream x, .stream y => x == y
  | .table t items, .table t' items' => t == t' && items.isEmpty && items'.isEmpty
  | .null, .null => F.sameNull c.contractId c.key
  | .userdata, .userdata | .notSupport, .notSupport => true
  | _, _ => false

/-- A storage of the contract that is initialised must be one it was compiled with. -/
def initEntry (properties : List (Str × StorageValueTypes)) (key : Str)
    (c : GluaStorageChangeItem) : Except CommitError GluaStorageChangeItem :=
  match properties.lookup key with
  | some info => matchType F info key c
  | none => .error (.unknownStorage key)

/-- One change of a contract, unless it changes nothing. -/
def commitEntry (inStartingContractInit : Bool) (properties : List (Str × StorageValueTypes))
    (key : Str) (c : GluaStorageChangeItem) : Except CommitError (Option GluaStorageChangeItem) := do
  let c := if c.after.type.isTable then (keepTableType c).diffIfIsTable F else c
  let c ← match properties.lookup key with
    | some info =>
      if !inStartingContractInit ∧ c.before.type ≠ .null then matchType F info key c else .ok c
    | none => .ok c
  if c.after.type.isTable ∧ !checkItemTypes true .null c.after.items then .error .itemTypesDiffer
  else .ok (if unchanged F c then none else some c)

end GluaStorageChangeItem

/-! ## The commit -/

namespace CommitState

variable (F : Platform) (o : HashOrder) (s : CommitState)

/-- The changes in the order in which they are merged: first the assignments, then the tables that
were read and are not what they were. -/
def changeItems : List GluaStorageChangeItem :=
  s.changeList ++ s.tableReadList.filterMap fun r =>
    match r.2 with
    | some after => if r.1.before.equals F after then none else some { r.1 with after := after }
    | none => none

/-- A change of a key that has one already only replaces the value after it. -/
def mergeChange (changes : AllContractsChangesMap) (c : GluaStorageChangeItem) :
    AllContractsChangesMap :=
  let contractChanges := (changes.lookup c.contractId).getD ∅
  let item := match contractChanges.lookup c.key with
    | some found => { found with after := c.after }
    | none => c
  changes.insert c.contractId (contractChanges.insert c.key item)

def changes : AllContractsChangesMap := (s.changeItems F).foldl mergeChange ∅

/-- The storages of a contract that is initialised are all set. -/
def initEntries (inStartingContractInit : Bool) (properties : List (Str × StorageValueTypes))
    (items : List (Str × GluaStorageChangeItem)) :
    Except CommitError (List (Str × GluaStorageChangeItem)) :=
  if inStartingContractInit then
    if items.length ≠ properties.length then .error .someStorageNotInit
    else items.mapM fun c => (c.2.initEntry F properties c.1).map (c.1, ·)
  else .ok items

def commitEntries (inStartingContractInit : Bool) (properties : List (Str × StorageValueTypes))
    (items : List (Str × GluaStorageChangeItem)) :
    Except CommitError (List (Option (Str × GluaStorageChangeItem))) :=
  items.mapM fun c =>
    (c.2.commitEntry F inStartingContractInit properties c.1).map (Option.map (c.1, ·))

/-- The changes of one contract, checked. The iteration is that of an unordered map. -/
def commitContract (e : ContractIdType × ContractChangesMap) :
    Except CommitError (ContractIdType × List (Str × GluaStorageChangeItem)) :=
  match s.openContract e.1 with
  | none => .error (.unknownContract e.1)
  | some properties => do
    let inStartingContractInit := s.callingContractInitApi && e.1 == s.startingContractAddress
    let items ← initEntries F inStartingContractInit properties (o.order (mapItems e.2))
    let items ← commitEntries F inStartingContractInit properties items
    return (e.1, items.reduceOption)

/-- The operation for the changes of a contract. -/
def storageOperation (e : ContractIdType × List (Str × GluaStorageChangeItem)) : StorageOperation where
  contractId := e.1
  contractChangeStorages := GluaStorageValue.stdMap (e.2.map fun c =>
    (c.1, ⟨c.2.before.toStorageData F, c.2.after.toStorageData F⟩))

/-- `commit_storage_changes_to_thinkyoung`. -/
def commitStorageChangesToThinkyoung
    (changes : List (ContractIdType × List (Str × GluaStorageChangeItem)))
    (pResultTrx : SignedTransaction) : SignedTransaction :=
  if s.hasEvaluateState then
    changes.foldl (fun t e => t.pushOp (.storage (storageOperation F e))) pResultTrx
  else pResultTrx

/-- The contract that is initialised has storages and none is set. -/
def nothingInit : Bool :=
  s.callingContractInitApi && (s.changes F).entries.isEmpty &&
    (s.openContract s.startingContractAddress).any fun properties => !properties.isEmpty

/-- `luaL_commit_storage_changes`. -/
def commitStorageChanges (pResultTrx : SignedTransaction) : Except CommitError SignedTransaction :=
  if s.hasException then .ok pResultTrx
  else if s.nothingInit F then .error .someStorageNotInit
  else do
    let changes ← (o.order (mapItems (s.changes F))).mapM (s.commitContract F o)
    if s.inSandbox then return pResultTrx
    else return s.commitStorageChangesToThinkyoung F changes pResultTrx

/-- The result transaction after the commit. -/
def resultTrx (pResultTrx : SignedTransaction) : SignedTransaction :=
  match s.commitStorageChanges F o pResultTrx with
  | .ok trx => trx
  | .error _ => pResultTrx

end CommitState

end Achain.Glua
