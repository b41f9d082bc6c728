import Achain.Types
import Achain.Lib.Table

/-!
# The contract VM

Contract code is modelled by what it asks of the VM: a `Code` either ends or asks for one operation
and goes on with its result. Tables and functions live in the state and are passed by reference. A
function is code of the contract it was loaded from, a function of the library, or the wrapper that
an import puts around the functions of a contract table; the wrapper alone pushes and pops the stack
of contract ids, whose top is the contract that storage accesses and transfers act for.
-/

namespace Achain.Glua

open Table

abbrev ContractId := Str

inductive Value where
  | nil
  | boolean (b : Bool)
  | integer (i : Int)
  | string (s : Str)
  | table (ref : Nat)
  | function (ref : Nat)
  deriving DecidableEq

namespace Value

def isTable : Value → Bool
  | table _ => true
  | _ => false

/-- `ttype`, as far as a storage entry records it. -/
def type : Value → Nat
  | nil => 0
  | boolean _ => 1
  | integer _ => 2
  | string _ => 3
  | table _ => 4
  | function _ => 5

end Value

/-- How a contract is named in an import: by its name or by its address. -/
inductive ContractRef where
  | name (name : Str)
  | address (id : ContractId)
  deriving DecidableEq

/-- Code of a function, by the next operation it asks for. -/
inductive Code where
  | ret (v : Value)
  | error
  | exit
  | newTable (k : Value → Code)
  | closure (body : List Value → Code) (k : Value → Code)
  | rawget (t : Value) (key : Str) (k : Value → Code)
  | rawset (t : Value) (key : Str) (v : Value) (k : Code)
  | index (t : Value) (key : Str) (k : Value → Code)
  | newindex (t : Value) (key : Str) (v : Value) (k : Code)
  | getmetatable (t : Value) (k : Value → Code)
  | setmetatable (t mt : Value) (k : Code)
  | event (name : Str) (a b : Value) (k : Value → Code)
  | call (f : Value) (args : List Value) (k : Value → Code)
  | importContract (contract : ContractRef) (k : Value → Code)
  | getStorage (contract : Value) (name : Str) (k : Value → Code)
  | setStorage (contract : Value) (name : Str) (v : Value) (k : Code)
  | transferFromContract (toAddress asset : Str) (amount : Int) (k : Value → Code)

structure LuaTable where
  fields : Map Str Value
  metatable : Value

/-- A function: code loaded from a contract, a function of the library, or a wrapped API function,
which is a C closure over the function and a contract id. -/
inductive Closure where
  | lua (contract : ContractId) (body : List Value → Code)
  | native (body : List Value → Code)
  | apiWrapper (api : Value) (contract : ContractId)

/-- An entry of the call stack. -/
inductive Frame where
  | lua (contract : ContractId)
  | native
  | apiWrapper (contract : ContractId)
  deriving DecidableEq

inductive OperationKind where
  | getStorage (name : Str)
  | setStorage (name : Str) (v : Value)
  | transfer (toAddress asset : Str) (amount : Int)
  deriving DecidableEq

/-- A storage access or a transfer: the contract it acts for, and the call stack it was made from. -/
structure Operation where
  kind : OperationKind
  contract : ContractId
  frames : List Frame
  deriving DecidableEq

structure LuaState where
  tables : List LuaTable
  closures : List Closure
  loaded : Map Str Value
  contractIds : List ContractId
  storage : Map (ContractId × Str) Value
  operations : List Operation
  /-- A `lua_pcall` is active, so that an error unwinds to it. -/
  inPcall : Bool
  exception : Bool
  stopped : Bool

inductive LuaError where
  | errrun
  | fuel
  deriving DecidableEq

abbrev LuaM := EStateM LuaError LuaState

/-- What the VM reads of the chain: the contracts, the one the execution started with, whether it
runs the init function, and the result code of a transfer. -/
structure Contract where
  id : ContractId
  name : Str
  module : Code
  apis : List Str

structure ChainApi where
  contracts : List Contract
  starting : ContractId
  initing : Bool
  transfer : ContractId → Str → Str → Int → Int

section Names

def indexEvent : Str := ['_', '_', 'i', 'n', 'd', 'e', 'x']
def newindexEvent : Str := ['_', '_', 'n', 'e', 'w', 'i', 'n', 'd', 'e', 'x']
def callEvent : Str := ['_', '_', 'c', 'a', 'l', 'l']
def dataField : Str := ['_', 'd', 'a', 't', 'a']
def idField : Str := ['i', 'd']
def nameField : Str := ['n', 'a', 'm', 'e']
def storageField : Str := ['s', 't', 'o', 'r', 'a', 'g', 'e']
def contractField : Str := ['c', 'o', 'n', 't', 'r', 'a', 'c', 't']
def localsField : Str := ['l', 'o', 'c', 'a', 'l', 's']
def selfName : Str := ['@', 's', 'e', 'l', 'f']

/-- `contract_special_api_names`. -/
def contractSpecialApiNames : List Str :=
  [['i', 'n', 'i', 't'], ['o', 'n', '_', 'd', 'e', 'p', 'o', 's', 'i', 't'],
    ['o', 'n', '_', 'd', 'e', 's', 't', 'r', 'o', 'y'],
    ['o', 'n', '_', 'u', 'p', 'g', 'r', 'a', 'd', 'e']]

end Names

section State

def newTable : LuaM Value :=
  modifyGet fun s => (.table s.tables.length, { s with tables := s.tables ++ [⟨∅, .nil⟩] })

def newClosure (c : Closure) : LuaM Value :=
  modifyGet fun s => (.function s.closures.length, { s with closures := s.closures ++ [c] })

def throwException : LuaM Unit := modify fun s => { s with exception := true }

def forceStop : LuaM Unit := modify fun s => { s with exception := true, stopped := true }

/-- `luaD_throw`: with no handler the error stops the VM and its raiser goes on. -/
def raise : LuaM Unit := do
  throwException
  let s ← get
  if s.inPcall then throw .errrun else forceStop

def LuaState.fields (s : LuaState) (ref : Nat) : Map Str Value :=
  (s.tables[ref]?).elim ∅ LuaTable.fields

def rawget (v : Value) (key : Str) : LuaM Value := do
  match v with
  | .table ref =>
    let s ← get
    return ((s.fields ref).lookup key).getD .nil
  | _ =>
    raise
    return .nil

/-- A field set to nil is removed. -/
def setField (fields : Map Str Value) (key : Str) (v : Value) : Map Str Value :=
  if v = .nil then fields.erase key else fields.insert key v

def rawset (t : Value) (key : Str) (v : Value) : LuaM Unit := do
  match t with
  | .table ref =>
    modify fun s =>
      { s with tables := s.tables.modify ref fun t => { t with fields := setField t.fields key v } }
  | _ => raise

def getmetatable (v : Value) : LuaM Value := do
  match v with
  | .table ref =>
    let s ← get
    return (s.tables[ref]?).elim .nil LuaTable.metatable
  | _ => return .nil

def setmetatable (v mt : Value) : LuaM Unit := do
  match v with
  | .table ref =>
    modify fun s => { s with tables := s.tables.modify ref fun t => { t with metatable := mt } }
  | _ => raise

/-- `luaT_gettmbyobj`. -/
def metamethod (v : Value) (event : Str) : LuaM Value := do
  let mt ← getmetatable v
  match mt with
  | .table ref =>
    let s ← get
    return ((s.fields ref).lookup event).getD .nil
  | _ => return .nil

/-- `get_current_using_contract_id`: the top of the stack, or the empty id. -/
def getCurrentUsingContractId : LuaM ContractId := do
  let s ← get
  return s.contractIds.headD []

end State

section Operations

variable (api : ChainApi) (frames : List Frame)

def perform (kind : OperationKind) (contract : ContractId) : LuaM Unit :=
  modify fun s => { s with operations := ⟨kind, contract, frames⟩ :: s.operations }

/-- `thinkyounglib_get_storage_impl`. -/
def getStorageImpl (contract : ContractId) (name : Str) : LuaM Value := do
  let codeContract ← getCurrentUsingContractId
  if codeContract ≠ contract then
    forceStop
    return .nil
  perform frames (.getStorage name) contract
  let s ← get
  return (s.storage.lookup (contract, name)).getD .nil

/-- `thinkyounglib_set_storage_impl`, without the checks on the elements of a table. -/
def setStorageImpl (contract : ContractId) (name : Str) (v : Value) : LuaM Unit := do
  let codeContract ← getCurrentUsingContractId
  if codeContract ≠ contract then
    forceStop
    return
  if name = [] then
    throwException
    return
  perform frames (.setStorage name v) contract
  let s ← get
  let before := (s.storage.lookup (contract, name)).getD .nil
  if v = .nil then
    forceStop
    return
  if before ≠ .nil ∧ before.type ≠ v.type ∧ before.type ≠ (Value.table 0).type then
    forceStop
    return
  if !api.initing ∧ before = .nil then
    forceStop
    return
  modify fun s => { s with storage := s.storage.insert (contract, name) v }

/-- `transfer_from_contract_to_address`: the contract is the top of the stack. -/
def transferFromContractToAddress (toAddress asset : Str) (amount : Int) : LuaM Value := do
  let contract ← getCurrentUsingContractId
  if amount ≤ 0 then
    throwException
    return .nil
  perform frames (.transfer toAddress asset amount) contract
  return .integer (api.transfer contract toAddress asset amount)

end Operations

end Achain.Glua
