import Achain.Glua.Json
import Achain.Lib.Result

/-!
# The check of a contract's bytecode

`check_contract_proto` goes through the instructions of a function prototype and of those nested in it.
What it reads outside the arrays of a prototype, or of a constant that is no string, can be anything, or
the end of the program.
-/

namespace Achain.Glua.Bytecode

open Result

/-! ## Instructions -/

inductive OpCode where
  | opMove | opLoadk | opLoadkx | opLoadbool | opLoadnil | opGetupval | opGettabup | opGettable
  | opSettabup | opSetupval | opSettable | opNewtable | opSelf | opAdd | opSub | opMul | opMod | opPow
  | opDiv | opIdiv | opBand | opBor | opBxor | opShl | opShr | opUnm | opBnot | opNot | opLen | opConcat
  | opJmp | opEq | opLt | opLe | opTest | opTestset | opCall | opTailcall | opReturn | opForloop
  | opForprep | opTforcall | opTforloop | opSetlist | opClosure | opVararg | opExtraarg
  deriving DecidableEq

inductive OpMode where
  | iABC | iABx | iAsBx | iAx
  deriving DecidableEq

open OpCode in
/-- The order of the opcodes. -/
def opCodes : List OpCode :=
  [opMove, opLoadk, opLoadkx, opLoadbool, opLoadnil, opGetupval, opGettabup, opGettable, opSettabup,
    opSetupval, opSettable, opNewtable, opSelf, opAdd, opSub, opMul, opMod, opPow, opDiv, opIdiv, opBand,
    opBor, opBxor, opShl, opShr, opUnm, opBnot, opNot, opLen, opConcat, opJmp, opEq, opLt, opLe, opTest,
    opTestset, opCall, opTailcall, opReturn, opForloop, opForprep, opTforcall, opTforloop, opSetlist,
    opClosure, opVararg, opExtraarg]

/-- `luaP_opmodes`. -/
def OpCode.mode : OpCode → OpMode
  | .opLoadk | .opLoadkx | .opClosure => .iABx
  | .opJmp | .opForloop | .opForprep | .opTforloop => .iAsBx
  | .opExtraarg => .iAx
  | _ => .iABC

abbrev Instruction := UInt32

/-- `GET_OPCODE`, which has no enumerator for 47 to 63. -/
def getOpcode (i : Instruction) : Option OpCode := opCodes[(i &&& 0x3F).toNat]?

def getargA (i : Instruction) : Nat := ((i >>> 6) &&& 0xFF).toNat
def getargB (i : Instruction) : Nat := ((i >>> 23) &&& 0x1FF).toNat
def getargC (i : Instruction) : Nat := ((i >>> 14) &&& 0x1FF).toNat
def getargBx (i : Instruction) : Nat := ((i >>> 14) &&& 0x3FFFF).toNat

/-- `CREATE_ABC`. -/
def createABC (o a b c : UInt32) : Instruction := o ||| (a <<< 6) ||| (b <<< 23) ||| (c <<< 14)

/-- Whether a register or constant is a constant. -/
def isk (x : Nat) : Bool := x.testBit 8

/-- `INDEXK`. -/
def indexk (x : Nat) : Nat := if isk x then x - 256 else x

/-! ## Prototypes -/

inductive Constant where
  | nil
  | boolean (b : Bool)
  | number (bits : UInt64)
  | integer (i : Int64)
  | string (s : Str)
  | nullString
  deriving DecidableEq

structure Upvaldesc where
  name : Option Str
  instack : UInt8
  idx : UInt8
  deriving DecidableEq

/-- A prototype without those nested in it. -/
structure ProtoData where
  k : List Constant
  code : List Instruction
  upvalues : List Upvaldesc
  locvars : List (Option Str)

inductive Proto where
  | mk (data : ProtoData) (p : List Proto)

def Proto.data : Proto → ProtoData
  | mk data _ => data

/-- What a file with bytecode is loaded as. -/
structure LClosure where
  nupvalues : Nat
  p : Proto

/-- The contracts of the chain, and what is read where there is nothing to read: `none` ends the program. -/
structure Surroundings where
  checkContractExist : Str → Bool
  checkContractExistByAddress : Str → Bool
  strayUpvalue : ProtoData → Nat → Option Upvaldesc
  strayString : ProtoData → Nat → Option Str
  strayMode : Nat → OpMode

def globalvarWhitelist : List Str :=
  ["print", "pprint", "table", "string", "time", "math", "json", "type", "require", "Array", "Stream",
    "import_contract_from_address", "import_contract", "emit", "thinkyoung", "storage", "repl", "exit",
    "exit_repl", "self", "debugger", "exit_debugger", "caller", "caller_address", "contract_transfer",
    "contract_transfer_to", "transfer_from_contract_to_address",
    "transfer_from_contract_to_public_account", "get_chain_random", "get_transaction_fee",
    "get_transaction_id", "get_header_block_num", "wait_for_future_random", "get_waited",
    "get_contract_balance_amount", "get_chain_now", "get_current_contract_address", "pairs", "ipairs",
    "pairsByKeys", "collectgarbage", "error", "getmetatable", "_VERSION", "tostring", "tojsonstring",
    "tonumber", "tointeger", "todouble", "totable", "next", "rawequal", "rawlen", "rawget", "rawset",
    "select", "setmetatable"].map String.toList

def envName : Str := "_ENV".toList
def gName : Str := "_G".toList

def luaFunctionMaxLocalvarsCount : Nat := 128

/-! ## The check -/

/-- The check returns `false`, or the program ends. -/
inductive Stop where
  | rejects | crashes
  deriving DecidableEq

variable (S : Surroundings)

/-- `proto->upvalues[x]`. -/
def ProtoData.upvalue (proto : ProtoData) (x : Nat) : Except Stop Upvaldesc :=
  orThrow (proto.upvalues[x]?.or (S.strayUpvalue proto x)) .crashes

/-- `UPVALNAME_OF_PROTO`, as `strcmp` sees it. -/
def Upvaldesc.cname (u : Upvaldesc) : Str :=
  match u.name with
  | some name => cString name
  | none => ['-']

/-- `getstr(tsvalue(&proto->k[idx]))`, as `strcmp` sees it. -/
def ProtoData.kstr (proto : ProtoData) (idx : Nat) : Except Stop Str :=
  match proto.k[idx]? with
  | some (.string s) => .ok (cString s)
  | _ => orThrow (S.strayString proto idx) .crashes

/-- `upval_defined_in_parent`. Of all the prototypes it follows the first, the main function. -/
def upvalDefinedInParent (parent : ProtoData) (allProtos : List ProtoData) (upvaldesc : Upvaldesc) : Bool :=
  if 0 < upvaldesc.instack then upvaldesc.idx.toNat < parent.locvars.length
  else
    match allProtos with
    | [] => false
    | pp :: others =>
      match parent.upvalues[upvaldesc.idx.toNat]? with
      | some parentUpvaldesc => upvalDefinedInParent pp (pp :: others).dropLast parentUpvaldesc
      | none => false
termination_by allProtos.length
decreasing_by simp

/-- Whether the instruction before got a function that imports a contract. -/
inductive Importing where
  | no | contract | address

/-- The contract that is imported has to exist, if its name is loaded by an instruction with a `Bx`. -/
def checkImported (proto : ProtoData) (importing : Importing) (i : Instruction) : Except Stop Unit := do
  let mode := match getOpcode i with
    | some o => o.mode
    | none => S.strayMode (i &&& 0x3F).toNat
  let idx := indexk (getargBx i)
  match importing with
  | .no => pure ()
  | .contract =>
    if mode = .iABx ∧ idx < proto.k.length then
      ensure (S.checkContractExist (← proto.kstr S idx)) .rejects
  | .address =>
    if mode = .iABx ∧ idx < proto.k.length then
      ensure (S.checkContractExistByAddress (← proto.kstr S idx)) .rejects

def isEnv (u : Upvaldesc) : Bool := u.cname = envName || u.cname = gName

/-- `OP_GETUPVAL`: the name is that of upvalue `B`, but it is upvalue `C` that is looked for in the parents. -/
def checkGetupval (parents : List ProtoData) (proto : ProtoData) (i : Instruction) :
    Except Stop Importing := do
  if getargA i = 0 then return .no
  let u ← proto.upvalue S (getargB i)
  if proto.k = [] then return .no
  if u.cname ∈ globalvarWhitelist ∨ u.cname = envName then return .no
  let upvaldesc ← proto.upvalue S (getargC i)
  ensure (match parents.getLast? with
    | some parent => upvalDefinedInParent parent parents upvaldesc
    | none => false) .rejects
  return .no

def checkSetupval (proto : ProtoData) (i : Instruction) : Except Stop Importing := do
  let u ← proto.upvalue S (getargB i)
  ensure (!isEnv u) .rejects
  return .no

def checkGettabup (proto : ProtoData) (i : Instruction) : Except Stop Importing := do
  let u ← proto.upvalue S (getargB i)
  if isk (getargC i) then
    let cname ← proto.kstr S (indexk (getargC i))
    ensure (cname ∈ globalvarWhitelist || !isEnv u) .rejects
    return if cname = "import_contract".toList then .contract
      else if cname = "import_contract_address".toList then .address
      else .no
  else
    return .no

def checkSettabup (proto : ProtoData) (i : Instruction) : Except Stop Importing := do
  let u ← proto.upvalue S (getargA i)
  if isEnv u then
    if isk (getargB i) then
      let _bname ← proto.kstr S (indexk (getargB i))
      throw .rejects
    else
      throw .rejects
  else
    return .no

/-- The `switch` over the opcode. -/
def checkInstruction (parents : List ProtoData) (proto : ProtoData) (i : Instruction) :
    Except Stop Importing :=
  match getOpcode i with
  | some .opGetupval => checkGetupval S parents proto i
  | some .opSetupval => checkSetupval S proto i
  | some .opGettabup => checkGettabup S proto i
  | some .opSettabup => checkSettabup S proto i
  | _ => .ok .no

def checkCode (parents : List ProtoData) (proto : ProtoData) :
    Importing → List Instruction → Except Stop Unit
  | _, [] => .ok ()
  | importing, i :: code => do
    checkImported S proto importing i
    let importing' ← checkInstruction S parents proto i
    checkCode parents proto importing' code

mutual

/-- `check_contract_proto`, which returns `true` or not at all. -/
def checkContractProto (parents : List ProtoData) : Proto → Except Stop Unit
  | .mk proto p => do
    ensure (proto.locvars.length ≤ luaFunctionMaxLocalvarsCount) .rejects
    ensure (proto.locvars.all Option.isSome) .crashes
    checkCode S parents proto .no proto.code
    checkSubProtos (parents ++ [proto]) p

def checkSubProtos (parents : List ProtoData) : List Proto → Except Stop Unit
  | [] => .ok ()
  | q :: p => do
    checkContractProto parents q
    checkSubProtos parents p

end

end Achain.Glua.Bytecode
