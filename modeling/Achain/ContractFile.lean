import Achain.Lib.KeySet
import Achain.Lib.Readers
import Mathlib.Data.List.Lex
import Mathlib.Algebra.Ring.Int.Defs
import Mathlib.Algebra.Ring.Nat

/-!
# Contract files

The two writers of `ContractApi.cpp`, `load_contract_to_file` and `save_code_to_file`, and the reader
`Code::Code(path)` of `ContractEntry.cpp`. A file is its bytes: a digest, the byte code, three sections of
names and one of storage properties, in which every string follows its length and every section its count,
as four bytes each. What the language leaves undefined is `undefined` in the reader and `none` in a writer;
an allocation succeeds.
-/

namespace Achain.ContractFile

open ByKey Readers Readers.Reader

abbrev Bytes := List UInt8

instance instLawfulBEqBytes : LawfulBEq Bytes := inferInstance

/-- `std::string` compares the bytes one by one. -/
def byteKey (s : Bytes) : List Nat := s.map UInt8.toNat

/-- `std::set<std::string>`. -/
abbrev StringSet := KeySet byteKey

/-- `std::map<std::string, V>`, in which what is inserted does not replace. -/
abbrev StringMap (V : Type) := KeySet fun e : Bytes × V => byteKey e.1

/-- Any `int` can come from a file as a `StorageValueTypes`. -/
abbrev StorageType := Int32

structure Code where
  abi : StringSet
  offlineAbi : StringSet
  events : StringSet
  storageProperties : StringMap StorageType
  byteCode : Bytes
  codeHash : Bytes

/-- `boost::uuids::detail::sha1`. -/
structure Sha1 where
  digest : Bytes → List UInt32
  length : ∀ b, (digest b).length = 5

/-- `PRINTABLE_CHAR`. -/
def printableChar (chr : UInt8) : UInt8 := if chr ≤ 9 then chr + 48 else chr + 97 - 10

def toPrintableHex (chr : UInt8) : Bytes := [printableChar (chr >>> 4), printableChar (chr &&& 0x0F)]

def digestHex (digest : List UInt32) : Bytes :=
  digest.flatMap fun d : UInt32 =>
    toPrintableHex ((d &&& 0xFF000000) >>> 24).toUInt8 ++
      toPrintableHex ((d &&& 0x00FF0000) >>> 16).toUInt8 ++
      toPrintableHex ((d &&& 0x0000FF00) >>> 8).toUInt8 ++ toPrintableHex (d &&& 0x000000FF).toUInt8

def getHash (sha : Sha1) (byteCode : Bytes) : Bytes := digestHex (sha.digest byteCode)

/-! ## Writing -/

def commonFwriteInt (n : Int32) : Bytes :=
  [((n.toUInt32 &&& 0xFF000000) >>> 24).toUInt8, ((n.toUInt32 &&& 0x00FF0000) >>> 16).toUInt8,
    ((n.toUInt32 &&& 0x0000FF00) >>> 8).toUInt8, (n.toUInt32 &&& 0x000000FF).toUInt8]

/-- The first `len` bytes of a buffer; a negative `len` is a huge `size_t`. -/
def commonFwriteStream (stream : Bytes) (len : Int32) : Option Bytes :=
  if len.toInt < 0 then none else some (stream.take len.toInt.toNat)

def writeString (s : Bytes) : Option Bytes := do
  let len := Int32.ofNat s.length
  return commonFwriteInt len ++ (← commonFwriteStream s len)

def writeStrings (count : Int32) (strings : List Bytes) : Option Bytes := do
  return commonFwriteInt count ++ (← strings.mapM writeString).flatten

def writeProperty (info : Bytes × StorageType) : Option Bytes := do
  return (← writeString info.1) ++ commonFwriteInt info.2

def writeProperties (properties : List (Bytes × StorageType)) : Option Bytes := do
  return commonFwriteInt (Int32.ofNat properties.length) ++ (← properties.mapM writeProperty).flatten

def writeDigest (digest : List UInt32) : Bytes := digest.flatMap fun d => commonFwriteInt d.toInt32

/-- What `load_contract_to_file` writes: every string of the sets, whatever count stands before them. -/
def loadContractToFile (sha : Sha1) (code : Code) : Option Bytes := do
  let byteCodeLen := Int32.ofNat code.byteCode.length
  let processed ← commonFwriteStream code.byteCode byteCodeLen
  let abi ← writeStrings (Int32.ofNat code.abi.entries.length) code.abi.entries
  let offlineAbi ← writeStrings (Int32.ofNat code.offlineAbi.entries.length) code.offlineAbi.entries
  let events ← writeStrings (Int32.ofNat code.events.entries.length) code.events.entries
  let properties ← writeProperties code.storageProperties.entries
  return writeDigest (sha.digest processed) ++ commonFwriteInt byteCodeLen ++ processed ++ abi ++
    offlineAbi ++ events ++ properties

structure GluaModuleByteStream where
  buff : Bytes
  contractApis : List Bytes
  offlineApis : List Bytes
  contractEmitEvents : List Bytes
  contractStorageProperties : StringMap StorageType

/-- An `int` that counts up to a `size()` overflows at `2 ^ 31`. -/
def intCounter (size : Nat) : Option Unit := if size < 2 ^ 31 then some () else none

/-- The apis that are not offline apis; for each of them the offline apis are gone through. -/
def onlineApis (offlineApis : List Bytes) : List Bytes → Option (List Bytes)
  | [] => some []
  | api :: apis => do
    intCounter offlineApis.length
    let rest ← onlineApis offlineApis apis
    return if api ∈ offlineApis then rest else api :: rest

def newApis (stream : GluaModuleByteStream) : Option (List Bytes) := do
  intCounter stream.contractApis.length
  onlineApis stream.offlineApis stream.contractApis

/-- A loop that runs up to `(int) size()`. -/
def saveStrings (strings : List Bytes) : Option Bytes :=
  let count := Int32.ofNat strings.length
  writeStrings count (strings.take count.toInt.toNat)

/-- What `save_code_to_file` writes. `buff.resize` throws when it is given a negative length. -/
def saveCodeToFile (sha : Sha1) (stream : GluaModuleByteStream) : Option Bytes := do
  let contractApis ← newApis stream
  let bufSize := Int32.ofNat stream.buff.length
  let buff ← commonFwriteStream stream.buff bufSize
  let apis ← saveStrings contractApis
  let offlineApis ← saveStrings stream.offlineApis
  let events ← saveStrings stream.contractEmitEvents
  let properties ← writeProperties stream.contractStorageProperties.entries
  return writeDigest (sha.digest stream.buff) ++ commonFwriteInt bufSize ++ buff ++ apis ++ offlineApis ++
    events ++ properties

/-! ## Reading -/

inductive FileException where
  | readVerifyCodeFail | readBytescodeLenFail | readBytescodeFail | verifyBytescodeSha1Fail
  | readApiCountFail | readApiLenFail | readApiFail
  | readOfflineApiCountFail | readOfflineApiLenFail | readOfflineApiFail
  | readEventsCountFail | readEventsLenFail | readEventsFail
  | readStorageCountFail | readStorageNameLenFail | readStorageNameFail | readStorageTypeFail
  deriving DecidableEq

abbrev FileReader := Reader FileException UInt8

/-- `common_fread_int`; every caller throws when it does not return 1. -/
def commonFreadInt (fails : FileException) : FileReader Int32
  | uc4 :: uc3 :: uc2 :: uc1 :: rest =>
    ⟨[], .returns (((uc4.toUInt32 <<< 24) + (uc3.toUInt32 <<< 16) + (uc2.toUInt32 <<< 8) +
      uc1.toUInt32).toInt32, rest)⟩
  | _ => ⟨[], .throws fails⟩

/-- `common_fread_octets`: `fread` of one block of `len` bytes, which returns 0 for an empty block and
where less is left. A negative `len` is a huge `size_t`, and what is left runs over the buffer. -/
def commonFreadOctets (len : Int32) (fails : FileException) : FileReader Bytes := fun rest =>
  ⟨[(len.toInt, rest.length)],
    if 0 < len.toInt ∧ len.toInt ≤ rest.length then
      .returns (rest.take len.toInt.toNat, rest.drop len.toInt.toNat)
    else if len.toInt < 0 ∧ rest ≠ [] then .undefined
    else .throws fails⟩

/-- `malloc(len + 1)`. -/
def mallocBuf (len : Int32) : FileReader Unit := if len.toInt + 1 < 2 ^ 31 then pure () else undefined

/-- `std::string(buf)` of a buffer that ends with a zero. -/
def cString (buf : Bytes) : Bytes := buf.takeWhile (· ≠ 0)

def readString (lenFails fails : FileException) : FileReader Bytes := do
  let len ← commonFreadInt lenFails
  mallocBuf len
  let buf ← commonFreadOctets len fails
  return cString buf

/-- `INIT_API_FROM_FILE`. -/
def initApiFromFile (except1 except2 except3 : FileException) : FileReader StringSet := do
  let apiCount ← commonFreadInt except1
  fold (readString except2 except3) (fun dst api => dst.insert api) apiCount.toInt.toNat .empty

def readProperty (except2 except3 except4 : FileException) : FileReader (Bytes × StorageType) := do
  let storageName ← readString except2 except3
  let storageType ← commonFreadInt except4
  return (storageName, storageType)

/-- `INIT_STORAGE_FROM_FILE`. -/
def initStorageFromFile (except1 except2 except3 except4 : FileException) :
    FileReader (StringMap StorageType) := do
  let storageCount ← commonFreadInt except1
  fold (readProperty except2 except3 except4) (fun dst info => dst.insert info)
    storageCount.toInt.toNat .empty

/-- The digest and the byte code of a file of a size; `fsize` is an `int`, what `ftell` returns is not. -/
def readByteCode (sha : Sha1) (size : Nat) : FileReader Bytes := do
  let fsize := Int32.ofNat size
  let digest ← fold (commonFreadInt .readVerifyCodeFail) (fun ds d => ds ++ [d.toUInt32]) 5 []
  let len ← commonFreadInt .readBytescodeLenFail
  let left ← left
  ensure (0 ≤ len.toInt ∧ len.toInt < fsize.toInt - (size - left : Nat)) .readBytescodeLenFail
  let byteCode ← commonFreadOctets len .readBytescodeFail
  ensure (digest = sha.digest byteCode) .verifyBytescodeSha1Fail
  return byteCode

/-- The sections of a file behind its byte code. -/
def readSections (sha : Sha1) (byteCode : Bytes) : FileReader Code := do
  let abi ← initApiFromFile .readApiCountFail .readApiLenFail .readApiFail
  let offlineAbi ←
    initApiFromFile .readOfflineApiCountFail .readOfflineApiLenFail .readOfflineApiFail
  let events ← initApiFromFile .readEventsCountFail .readEventsLenFail .readEventsFail
  let storageProperties ← initStorageFromFile .readStorageCountFail .readStorageNameLenFail
    .readStorageNameFail .readStorageTypeFail
  return {
    abi
    offlineAbi
    events
    storageProperties
    byteCode
    codeHash := getHash sha byteCode }

/-- `Code::Code(path)` on the file with the given bytes. -/
def readCode (sha : Sha1) (file : Bytes) : Run FileException UInt8 Code :=
  (do
    let byteCode ← readByteCode sha file.length
    readSections sha byteCode : FileReader Code) file

end Achain.ContractFile
