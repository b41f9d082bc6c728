import Achain.Glua.Machine

/-!
# Calls, imports and the execution of a contract API

The execution of code is given by `run`, the execution of the code of a call it makes: `step` says
what one operation does, and `exec` iterates it with a bound on the number of operations.
-/

namespace Achain.Glua

open Table

section Calls

variable (api : ChainApi) (run : List Frame → Code → LuaM Value) (frames : List Frame)

/-- `contract_api_wrapper_func`: the id is pushed, the function called, and the id popped; an error
of the function skips the pop. -/
def contractApiWrapperFunc (f : Value) (contract : ContractId) (args : List Value) : LuaM Value := do
  modify fun s => { s with contractIds := contract :: s.contractIds }
  let result ← run (.apiWrapper contract :: frames) (.call f args .ret)
  modify fun s => { s with contractIds := s.contractIds.tail }
  return result

/-- `luaD_call`. A value that is no function is called through its `__call` metamethod. -/
def call (f : Value) (args : List Value) : LuaM Value := do
  let s ← get
  match f with
  | .function ref =>
    match s.closures[ref]? with
    | some (.lua contract body) => run (.lua contract :: frames) (body args)
    | some (.native body) => run (.native :: frames) (body args)
    | some (.apiWrapper g contract) => contractApiWrapperFunc run frames g contract args
    | none =>
      raise
      return .nil
  | _ =>
    let tm ← metamethod f callEvent
    match tm with
    | .function _ => run frames (.call tm (f :: args) .ret)
    | _ =>
      raise
      return .nil

/-- An access to a value that is no table: the VM is stopped where code makes it, and an error
raised where the library does. -/
def typeError : LuaM Unit :=
  match frames with
  | .lua _ :: _ => forceStop
  | _ => raise

/-- `luaV_gettable`: the field, else what the `__index` metamethod gives. -/
def index (t : Value) (key : Str) : LuaM Value := do
  match t with
  | .table _ =>
    let v ← rawget t key
    if v ≠ .nil then return v
    let tm ← metamethod t indexEvent
    match tm with
    | .nil => return .nil
    | .function _ => run frames (.call tm [t, .string key] .ret)
    | _ => run frames (.index tm key .ret)
  | _ =>
    typeError frames
    return .nil

/-- `luaV_settable`: an existing field is set, a new one goes through the `__newindex` metamethod. -/
def newindex (t : Value) (key : Str) (v : Value) : LuaM Unit := do
  match t with
  | .table _ =>
    let old ← rawget t key
    let tm ← metamethod t newindexEvent
    if old ≠ .nil ∨ tm = .nil then
      rawset t key v
      return
    match tm with
    | .function _ =>
      let _ ← run frames (.call tm [t, .string key, v] .ret)
      return
    | _ =>
      let _ ← run frames (.newindex tm key v (.ret .nil))
      return
  | _ => typeError frames

/-- `luaT_trybinTM`: the metamethod of the first operand, else of the second. -/
def event (name : Str) (a b : Value) : LuaM Value := do
  let tm ← metamethod a name
  let tm' ← metamethod b name
  let handler := if tm = .nil then tm' else tm
  if handler = .nil then
    raise
    return .nil
  run frames (.call handler [a, b] .ret)

/-- `thinkyounglib_get_storage`: the id is read from the contract table given. -/
def getStorage (contract : Value) (name : Str) : LuaM Value := do
  match contract with
  | .table _ =>
    let id ← index run frames contract idField
    match id with
    | .string id => getStorageImpl frames id name
    | _ =>
      raise
      return .nil
  | _ =>
    throwException
    return .nil

def setStorage (contract : Value) (name : Str) (v : Value) : LuaM Unit := do
  match contract with
  | .table _ =>
    let id ← index run frames contract idField
    match id with
    | .string id => setStorageImpl api frames id name v
    | _ => raise
  | _ => throwException

end Calls

section Import

/-- `glua_core_lib_contract_metatable_index`. -/
def contractMetatableIndex : List Value → Code
  | [t, .string key] => .index t dataField fun data => .index data key .ret
  | _ => .error

/-- `glua_core_lib_contract_metatable_newindex`. The test for the read-only keys compares pointers
and is never met. -/
def contractMetatableNewindex : List Value → Code
  | [t, .string key, v] =>
    .index t dataField fun data =>
      if data = .nil then .ret .nil else .newindex data key v (.ret .nil)
  | _ => .error

/-- `glua_core_lib_storage_metatable_index`. -/
def storageMetatableIndex : List Value → Code
  | [t, .string key] =>
    .index t contractField fun contract =>
      if contract.isTable then .getStorage contract key .ret else .error
  | _ => .exit

/-- `glua_core_lib_storage_metatable_new_index`. -/
def storageMetatableNewindex : List Value → Code
  | [t, .string key, v] =>
    .index t contractField fun contract =>
      if contract.isTable then .setStorage contract key v (.ret .nil) else .error
  | _ => .exit

/-- `contract_mt`, the first table of the state. -/
def contractMt : Value := .table 0

/-- `thinkyoung.storage_mt`, the second one. -/
def storageMt : Value := .table 1

/-- `create_lua_state`. -/
def createLuaState : LuaState where
  tables :=
    [⟨((∅ : Map Str Value).insert indexEvent (.function 0)).insert newindexEvent (.function 1), .nil⟩,
      ⟨((∅ : Map Str Value).insert indexEvent (.function 2)).insert newindexEvent (.function 3), .nil⟩]
  closures := [.native contractMetatableIndex, .native contractMetatableNewindex,
    .native storageMetatableIndex, .native storageMetatableNewindex]
  loaded := ∅
  contractIds := []
  storage := ∅
  operations := []
  inPcall := false
  exception := false
  stopped := false

variable (api : ChainApi) (run : List Frame → Code → LuaM Value) (frames : List Frame)

/-- `lua_fill_contract_info_for_use`. -/
def fillContractInfoForUse (contract : Value) : LuaM Unit := do
  let data ← newTable
  newindex run frames contract dataField data
  setmetatable contract contractMt
  let storage ← newTable
  newindex run frames contract storageField storage
  let storage ← index run frames contract storageField
  newindex run frames storage contractField contract
  setmetatable storage storageMt

/-- `contract_table_traverser_to_wrap_api`: a function is replaced by its wrapper, with the id that
the contract table gives. -/
def wrapApi (contract : Value) (key : Str) : LuaM Unit := do
  let v ← rawget contract key
  match v with
  | .function _ =>
    let id ← index run frames contract idField
    match id with
    | .string id =>
      let wrapped ← newClosure (.apiWrapper v id)
      newindex run frames contract key wrapped
    | _ => raise
  | _ => return

def wrapApis (contract : Value) : LuaM Unit := do
  let s ← get
  match contract with
  | .table ref => (s.fields ref).keys.forM (wrapApi run frames contract)
  | _ => return

def removeSpecialApis (contract : Value) (but : Str) : LuaM Unit :=
  (contractSpecialApiNames.filter (· ≠ but)).forM fun name =>
    newindex run frames contract name .nil

/-- The functions of the contract table are those recorded on the chain. -/
def apisMatch (fields : Map Str Value) (apis : List Str) : Bool :=
  let names := fields.keys.filter (· ≠ localsField)
  names.length == apis.length && apis.all (· ∈ names)

/-- The key a contract is kept under in `_LOADED`. -/
def ContractRef.key : ContractRef → Str
  | .name n => '@' :: 'n' :: n
  | .address id => '@' :: 'p' :: id

/-- The name a contract reached so has in its table. -/
def ContractRef.nameInLua : ContractRef → Str
  | .name n => n
  | .address _ => selfName

def ContractRef.find (r : ContractRef) (contracts : List Contract) : Option Contract :=
  match r with
  | .name n => contracts.find? (·.name = n)
  | .address id => contracts.find? (·.id = id)

/-- What an import does with the table that the module of the contract returned. -/
def prepareContract (r : ContractRef) (c : Contract) (contract : Value) : LuaM Unit := do
  fillContractInfoForUse run frames contract
  newindex run frames contract nameField (.string r.nameInLua)
  newindex run frames contract idField (.string c.id)
  if c.id ≠ api.starting then removeSpecialApis run frames contract []
  wrapApis run frames contract

def setLoaded (r : ContractRef) (v : Value) : LuaM Unit :=
  modify fun s => { s with loaded := s.loaded.insert r.key v }

/-- `luaL_import_contract_module`: the module of the contract is run by whoever imports it first. -/
def importContractModule (r : ContractRef) : LuaM Value := do
  let s ← get
  match s.loaded.lookup r.key, r.find api.contracts with
  | some v, _ => return v
  | none, none =>
    throwException
    return .nil
  | none, some c =>
    let v ← run (.lua c.id :: frames) c.module
    let s ← get
    match v with
    | .table ref =>
      if apisMatch (s.fields ref) c.apis then
        prepareContract api run frames r c v
        setLoaded r v
        return v
      else
        forceStop
        setLoaded r (.boolean true)
        return .nil
    | _ =>
      throwException
      setLoaded r (.boolean true)
      return .nil

end Import

section Execution

variable (api : ChainApi)

/-- One operation of the code of the frame on top, which goes on with the result. -/
def step (run : List Frame → Code → LuaM Value) (frames : List Frame) : Code → LuaM Value
  | .ret v => return v
  | .error => do
    raise
    return .nil
  | .exit => do
    forceStop
    return .nil
  | .newTable k => do
    let t ← newTable
    run frames (k t)
  | .closure body k => do
    match frames with
    | .lua contract :: _ =>
      let f ← newClosure (.lua contract body)
      run frames (k f)
    | _ =>
      let f ← newClosure (.native body)
      run frames (k f)
  | .rawget t key k => do
    let v ← rawget t key
    run frames (k v)
  | .rawset t key v k => do
    rawset t key v
    run frames k
  | .index t key k => do
    let v ← index run frames t key
    run frames (k v)
  | .newindex t key v k => do
    newindex run frames t key v
    run frames k
  | .getmetatable t k => do
    let mt ← getmetatable t
    run frames (k mt)
  | .setmetatable t mt k => do
    setmetatable t mt
    run frames k
  | .event name a b k => do
    let v ← event run frames name a b
    run frames (k v)
  | .call f args k => do
    let v ← call run frames f args
    run frames (k v)
  | .importContract contract k => do
    let v ← importContractModule api run frames contract
    run frames (k v)
  | .getStorage contract name k => do
    let v ← getStorage run frames contract name
    run frames (k v)
  | .setStorage contract name v k => do
    setStorage api run frames contract name v
    run frames k
  | .transferFromContract toAddress asset amount k => do
    let v ← transferFromContractToAddress api frames toAddress asset amount
    run frames (k v)

/-- Whether the frame on top runs in the VM, so that it ends when the VM is stopped. -/
def inVm : List Frame → Bool
  | .lua _ :: _ => true
  | _ => false

def exec : Nat → List Frame → Code → LuaM Value
  | 0, _, _ => throw .fuel
  | fuel + 1, frames, code => do
    let s ← get
    if s.stopped && inVm frames then return .nil
    step api (exec fuel) frames code

/-- `lua_pcall` catches what is raised. -/
def catchRun : LuaError → LuaM Unit
  | .errrun => return
  | .fuel => throw .fuel

/-- `lua_real_execute_contract_api`. -/
def executeContractApi (fuel : Nat) (r : ContractRef) (apiName arg : Str) : LuaM Unit := do
  let run := exec api fuel
  let _ ← importContractModule api run [.native] r
  let s ← get
  match s.loaded.lookup r.key, r.find api.contracts with
  | some (.table ref), some c =>
    let contract := Value.table ref
    fillContractInfoForUse run [.native] contract
    newindex run [.native] contract nameField (.string r.nameInLua)
    newindex run [.native] contract idField (.string c.id)
    removeSpecialApis run [.native] contract apiName
    let f ← index run [.native] contract apiName
    match f with
    | .function _ =>
      modify fun s => { s with inPcall := true }
      let called : LuaM Unit := do
        let _ ← call run [.native] f [contract, .string arg]
        return
      tryCatch called catchRun
      modify fun s => { s with inPcall := false }
    | _ => throwException
  | _, _ => throwException

end Execution

end Achain.Glua
