import Achain.Glua.ContractProto
import Achain.Lib.Sources

/-!
# Saving and loading bytecode

`luaU_dump` writes a function prototype and those nested in it, `luaU_undump` reads them back. The
bytes come through a `ZIO`, which asks its reader for more whenever its buffer is used up. Memory is
asked for in blocks; whether a block of a size can be had is a parameter.
-/

namespace Achain.Glua.Dump

open Sources Bytecode

abbrev TString := List UInt8

/-! ## Prototypes -/

inductive TValue where
  | nil
  | boolean (b : UInt8)
  | number (bits : UInt64)
  | integer (i : Int64)
  | string (s : TString)
  deriving DecidableEq

structure Upvaldesc where
  name : Option TString
  instack : UInt8
  idx : UInt8
  deriving DecidableEq

/-- A local variable. Its type is set by the parser, where one is declared, and nowhere else. -/
structure LocVar where
  varname : Option TString
  startpc : Int32
  endpc : Int32
  vartype : Option Int32
  deriving DecidableEq

/-- A prototype without those nested in it. -/
structure ProtoData where
  source : Option TString
  linedefined : Int32
  lastlinedefined : Int32
  numparams : UInt8
  isVararg : UInt8
  maxstacksize : UInt8
  code : List Instruction
  k : List TValue
  upvalues : List Upvaldesc
  lineinfo : List Int32
  locvars : List LocVar
  deriving DecidableEq

/-- `luaF_newproto`. -/
def ProtoData.new : ProtoData := ⟨none, 0, 0, 0, 0, 0, [], [], [], [], []⟩

inductive Proto where
  | mk (data : ProtoData) (p : List Proto)

def Proto.data : Proto → ProtoData
  | mk data _ => data

def Proto.p : Proto → List Proto
  | mk _ p => p

structure LClosure where
  nupvalues : UInt8
  p : Proto

/-! ## Dumping -/

def luaiMaxshortlen : Nat := 40

/-- `ttype`, which tells short strings from long ones. -/
def TValue.ttype : TValue → UInt8
  | .nil => 0
  | .boolean _ => 1
  | .number _ => 3
  | .integer _ => 0x13
  | .string s => if s.length ≤ luaiMaxshortlen then 4 else 0x14

def dumpByte (y : UInt8) : List UInt8 := [y]
def dumpInt (x : Int32) : List UInt8 := littleEndian 4 x.toUInt32.toNat
def dumpNumber (x : UInt64) : List UInt8 := littleEndian 8 x.toNat
def dumpInteger (x : Int64) : List UInt8 := littleEndian 8 x.toUInt64.toNat

/-- How many elements an array has, an `int`. -/
def dumpSize (n : Nat) : List UInt8 := dumpInt (Int32.ofNat n)

def dumpString : Option TString → List UInt8
  | none => dumpByte 0
  | some s =>
    let size := s.length + 1
    (if size < 0xFF then dumpByte (UInt8.ofNat size) else dumpByte 0xFF ++ littleEndian 8 size) ++ s

def dumpCode (f : ProtoData) : List UInt8 :=
  dumpSize f.code.length ++ f.code.flatMap fun i => littleEndian 4 i.toNat

/-- A constant after its type. -/
def dumpValue : TValue → List UInt8
  | .nil => []
  | .boolean b => dumpByte b
  | .number x => dumpNumber x
  | .integer i => dumpInteger i
  | .string s => dumpString (some s)

def dumpConstant (o : TValue) : List UInt8 := dumpByte o.ttype ++ dumpValue o

def dumpConstants (f : ProtoData) : List UInt8 := dumpSize f.k.length ++ f.k.flatMap dumpConstant

def dumpUpvalue (u : Upvaldesc) : List UInt8 := dumpByte u.instack ++ dumpByte u.idx

def dumpUpvalues (f : ProtoData) : List UInt8 :=
  dumpSize f.upvalues.length ++ f.upvalues.flatMap dumpUpvalue

def dumpLocVar (v : LocVar) : List UInt8 := dumpString v.varname ++ (dumpInt v.startpc ++ dumpInt v.endpc)

/-- An array of the debug information, empty where it is stripped. -/
def dumpDebugArray {ι : Type} (strip : Bool) (dumpItem : ι → List UInt8) (items : List ι) :
    List UInt8 :=
  let items := if strip then [] else items
  dumpSize items.length ++ items.flatMap dumpItem

def dumpDebug (strip : Bool) (f : ProtoData) : List UInt8 :=
  dumpDebugArray strip dumpInt f.lineinfo ++ (dumpDebugArray strip dumpLocVar f.locvars ++
    dumpDebugArray strip (fun u => dumpString u.name) f.upvalues)

mutual

/-- `DumpFunction`, which never writes the source. -/
def dumpFunction (strip : Bool) : Proto → List UInt8
  | .mk f p =>
    dumpString none ++ (dumpInt f.linedefined ++ (dumpInt f.lastlinedefined ++ (dumpByte f.numparams ++
      (dumpByte f.isVararg ++ (dumpByte f.maxstacksize ++ (dumpCode f ++ (dumpConstants f ++
        (dumpUpvalues f ++ ((dumpSize p.length ++ dumpProtos strip p) ++ dumpDebug strip f)))))))))

def dumpProtos (strip : Bool) : List Proto → List UInt8
  | [] => []
  | f :: p => dumpFunction strip f ++ dumpProtos strip p

end

def luaSignature : List UInt8 := [0x1b, 0x47, 0x6c, 0x75, 0x61]
def luacVersion : UInt8 := 0x10
def luacFormat : UInt8 := 0
def luacData : List UInt8 := [0x19, 0x93, 0x0d, 0x0a, 0x1a, 0x0a]
def luacInt : Int64 := 0x5678

/-- The bits of `370.5`. -/
def luacNum : UInt64 := 0x4077280000000000

/-- The header after the signature. -/
def dumpHeaderRest : List UInt8 :=
  dumpByte luacVersion ++ (dumpByte luacFormat ++ (luacData ++ (dumpByte 4 ++ (dumpByte 8 ++ (dumpByte 4 ++
    (dumpByte 8 ++ (dumpByte 8 ++ (dumpInteger luacInt ++ dumpNumber luacNum))))))))

def dumpHeader : List UInt8 := luaSignature ++ dumpHeaderRest

def luaUDump (strip : Bool) (f : Proto) : List UInt8 :=
  dumpHeader ++ (dumpByte (UInt8.ofNat f.data.upvalues.length) ++ dumpFunction strip f)

/-! ## Buffered streams -/

/-- What is left of the buffer, and the data of the reader. -/
structure Zio (δ : Type) where
  buffer : List UInt8
  data : δ
  deriving DecidableEq

section Zio

-- The reader gives a piece of the input, which is empty, or no piece at all, at its end.
variable {δ : Type} (reader : δ → List UInt8 × δ)

/-- `luaZ_fill`, where `none` is `EOZ`. -/
def luaZFill (z : Zio δ) : Option (UInt8 × Zio δ) :=
  match reader z.data with
  | ([], _) => none
  | (b :: buff, data) => some (b, ⟨buff, data⟩)

def zgetc (z : Zio δ) : Option (UInt8 × Zio δ) :=
  match z.buffer with
  | [] => luaZFill reader z
  | b :: buff => some (b, ⟨buff, z.data⟩)

/-- Where the buffer is used up it is filled, and the byte that `luaZ_fill` takes is put back. -/
def refill (z : Zio δ) : Option {z : Zio δ // z.buffer ≠ []} :=
  if hz : z.buffer = [] then
    (luaZFill reader z).map fun x => ⟨⟨x.1 :: x.2.buffer, x.2.data⟩, List.cons_ne_nil _ _⟩
  else some ⟨z, hz⟩

/-- `luaZ_read`, where `none` is that bytes are missing. -/
def luaZRead (n : Nat) (z : Zio δ) : Option (List UInt8 × Zio δ) :=
  if n = 0 then some ([], z)
  else
    match refill reader z with
    | none => none
    | some ⟨z, hz⟩ =>
      let m := min n z.buffer.length
      have : 0 < z.buffer.length := List.length_pos_iff.2 hz
      (luaZRead (n - m) ⟨z.buffer.drop m, z.data⟩).map fun x => (z.buffer.take m ++ x.1, x.2)
termination_by n

end Zio

/-! ## Loading -/

/-- A load ends with an error of the syntax or of the memory, or does what is undefined. -/
inductive Fault where
  | errSyntax (msg : Str)
  | memory
  | undefined
  | outOfFuel
  deriving DecidableEq

/-- The chunk's name, the reader of its bytes, and the sizes of the blocks of memory that can be had. -/
structure LoadState (δ : Type) where
  name : Str
  reader : δ → List UInt8 × δ
  allocates : Nat → Bool

abbrev Loader (δ : Type) := StateT (Zio δ) (Except Fault)

section Loading

variable {δ : Type} (S : LoadState δ)

/-- The error that shows the name of the chunk. -/
def chunkError (why : Str) : Fault :=
  .errSyntax (S.name ++ ": ".toList ++ why ++ " precompiled chunk".toList)

def loadError {α : Type} (why : Str) : Loader δ α := throw (chunkError S why)

def expect (p : Prop) [Decidable p] (why : Str) : Loader δ Unit :=
  if p then pure () else loadError S why

def loadBlock (size : Nat) : Loader δ (List UInt8) := do
  match luaZRead S.reader size (← get) with
  | none => loadError S "truncated".toList
  | some (b, z) =>
    set z
    return b

def loadByte : Loader δ UInt8 := do return UInt8.ofNat (ofLittleEndian (← loadBlock S 1))

def loadInt : Loader δ Int32 := do
  return (UInt32.ofNat (ofLittleEndian (← loadBlock S 4))).toInt32

def loadInstruction : Loader δ Instruction := do
  return UInt32.ofNat (ofLittleEndian (← loadBlock S 4))

def loadNumber : Loader δ UInt64 := do return UInt64.ofNat (ofLittleEndian (← loadBlock S 8))

def loadInteger : Loader δ Int64 := do
  return (UInt64.ofNat (ofLittleEndian (← loadBlock S 8))).toInt64

/-- A block of so many bytes can be had; none is needed for no bytes. -/
def Allocated (allocates : Nat → Bool) (nsize : Nat) : Prop := nsize = 0 ∨ allocates nsize = true

instance {allocates : Nat → Bool} {nsize : Nat} : Decidable (Allocated allocates nsize) :=
  inferInstanceAs (Decidable (_ ∨ _))

def luaMRealloc (nsize : Nat) : Loader δ Unit :=
  if Allocated S.allocates nsize then pure () else throw .memory

/-- `luaM_newvector`. A size below zero is a `size_t` that is far too large. -/
def luaMNewvector (n : Int32) (size : Nat) : Loader δ Unit :=
  if n < 0 then throw .memory else luaMRealloc S (n.toInt.toNat * size)

/-- The size of the block of a string. -/
def sizelstring (l : Nat) : Nat := 24 + (l + 1)

/-- `luaS_createlngstrobj` and the bytes read into it, which go beyond it where its size overflows. -/
def loadLongString (l : Nat) : Loader δ TString := do
  if sizelstring l < 2 ^ 64 then
    luaMRealloc S (sizelstring l)
    loadBlock S l
  else throw .undefined

/-- The size of a string, with the zero at its end. -/
def loadStringSize : Loader δ Nat := do
  let size ← loadByte S
  if size = 0xFF then return ofLittleEndian (← loadBlock S 8) else return size.toNat

def loadString : Loader δ (Option TString) := do
  let size ← loadStringSize S
  if size = 0 then return none
  else if size - 1 ≤ luaiMaxshortlen then return some (← loadBlock S (size - 1))
  else return some (← loadLongString S (size - 1))

/-- `g_sizelimit`, `g_constantslimit` and `g_lineslimit`. -/
def sizelimit : Int32 := 524288000

/-- An array of elements that take `size` bytes, or nothing if it is longer than it may be. -/
def loadArray {ι : Type} (size : Nat) (item : Loader δ ι) : Loader δ (Option (List ι)) := do
  let n ← loadInt S
  if sizelimit < n then return none
  else
    luaMNewvector S n size
    return some (← times item n.toInt.toNat)

def loadCode : Loader δ (Option (List Instruction)) := loadArray S 4 (loadInstruction S)

/-- The string of a constant, which is not looked for. -/
def loadStringValue : Loader δ TValue := do
  match ← loadString S with
  | none => throw .undefined
  | some s => return .string s

def loadConstant : Loader δ TValue := do
  let t ← loadByte S
  if t = 0 then return .nil
  else if t = 1 then return .boolean (← loadByte S)
  else if t = 3 then return .number (← loadNumber S)
  else if t = 0x13 then return .integer (← loadInteger S)
  else if t = 4 ∨ t = 0x14 then loadStringValue S
  else return .nil

def loadConstants : Loader δ (Option (List TValue)) := loadArray S 16 (loadConstant S)

def loadUpvalue : Loader δ Upvaldesc := do
  let instack ← loadByte S
  let idx ← loadByte S
  return ⟨none, instack, idx⟩

def loadUpvalues : Loader δ (Option (List Upvaldesc)) := loadArray S 16 (loadUpvalue S)

def loadLocVar : Loader δ LocVar := do
  let varname ← loadString S
  let startpc ← loadInt S
  let endpc ← loadInt S
  return ⟨varname, startpc, endpc, none⟩

/-- The names of the first `n` upvalues. There is no check that there are as many. -/
def loadUpvalueNames : Nat → List Upvaldesc → Loader δ (List Upvaldesc)
  | 0, upvalues => return upvalues
  | _ + 1, [] => do
    let _name ← loadString S
    throw .undefined
  | n + 1, u :: upvalues => do
    let name ← loadString S
    let upvalues ← loadUpvalueNames n upvalues
    return { u with name } :: upvalues

def loadDebug (f : ProtoData) : Loader δ ProtoData := do
  let some lineinfo ← loadArray S 4 (loadInt S) | return f
  let n ← loadInt S
  luaMNewvector S n 24
  let locvars ← times (loadLocVar S) n.toInt.toNat
  let n ← loadInt S
  let upvalues ← loadUpvalueNames S n.toInt.toNat f.upvalues
  return { f with lineinfo, locvars, upvalues }

/-- `LoadFunction`. After an array that is too long the rest of the prototype is left as it is. -/
def loadFunction : Nat → Option TString → Loader δ Proto
  | 0, _ => throw .outOfFuel
  | fuel + 1, psource => do
    let source := (← loadString S).or psource
    let linedefined ← loadInt S
    let lastlinedefined ← loadInt S
    let numparams ← loadByte S
    let isVararg ← loadByte S
    let maxstacksize ← loadByte S
    let f := { ProtoData.new with source, linedefined, lastlinedefined, numparams, isVararg, maxstacksize }
    let some code ← loadCode S | return .mk f []
    let some k ← loadConstants S | return .mk { f with code } []
    let some upvalues ← loadUpvalues S | return .mk { f with code, k } []
    let some p ← loadArray S 8 (loadFunction fuel source) | return .mk { f with code, k, upvalues } []
    let f ← loadDebug S { f with code, k, upvalues }
    return .mk f p

def checkliteral (s : List UInt8) (msg : Str) : Loader δ Unit := do
  let buff ← loadBlock S s.length
  expect S (buff = s) msg

def fchecksize (size : UInt8) (tname : Str) : Loader δ Unit := do
  let b ← loadByte S
  expect S (b = size) (tname ++ " size mismatch in".toList)

def checkHeader : Loader δ Unit := do
  checkliteral S luaSignature.tail "not a".toList
  let version ← loadByte S
  expect S (version = luacVersion) "version mismatch in".toList
  let format ← loadByte S
  expect S (format = luacFormat) "format mismatch in".toList
  checkliteral S luacData "corrupted".toList
  fchecksize S 4 "int32_t".toList
  fchecksize S 8 "LUA_SIZE_T_TYPE".toList
  fchecksize S 4 "Instruction".toList
  fchecksize S 8 "lua_Integer".toList
  fchecksize S 8 "lua_Number".toList
  let int ← loadInteger S
  expect S (int = luacInt) "endianness mismatch in".toList
  let num ← loadNumber S
  expect S (num = luacNum) "float format mismatch in".toList

end Loading

/-- The name that errors show. -/
def chunkName (name : Str) : Str :=
  match name with
  | [] => []
  | c :: rest =>
    if c = '@' ∨ c = '=' then rest else if c = '\x1b' then "binary string".toList else name

section Undump

variable {δ : Type} (allocates : Nat → Bool) (reader : δ → List UInt8 × δ)

/-- `luaU_undump`, after the first byte of the signature. -/
def luaUUndump (fuel : Nat) (name : Str) : Loader δ LClosure := do
  let S : LoadState δ := ⟨chunkName name, reader, allocates⟩
  checkHeader S
  let nupvalues ← loadByte S
  let p ← loadFunction S fuel none
  return ⟨nupvalues, p⟩

end Undump

/-- `reader_of_stream` gives all of the stream whenever it is asked. -/
def readerOfStream (buff : List UInt8) (data : Unit) : List UInt8 × Unit := (buff, data)

/-- The stream after `luaZ_fill`, which takes the first byte whatever it is. -/
def streamZio (buff : List UInt8) : Zio Unit :=
  ((luaZFill (readerOfStream buff) ⟨[], ()⟩).map Prod.snd).getD ⟨[], ()⟩

def luaUUndumpFromStream (allocates : Nat → Bool) (fuel : Nat) (buff : List UInt8) (name : Str) :
    Except Fault LClosure :=
  (luaUUndump allocates (readerOfStream buff) fuel name (streamZio buff)).map Prod.fst

end Achain.Glua.Dump
