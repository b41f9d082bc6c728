import Achain.Types
import Mathlib.Data.Finset.Max
import Mathlib.Data.Finset.Sort

/-!
# Maps kept on disk

`LevelMap` reads and writes a database that has been opened, and the cached and the fast level map
keep all of its entries in memory. A call that throws leaves what it has changed until then.
-/

namespace Achain.Db

open Table

abbrev FilePath := Str

inductive DbError where
  | notOpen | alreadyOpen | levelMapOpenFailure | outOfRange
  deriving DecidableEq

/-- The writes of a batch. -/
inductive BatchWrite (K V : Type) where
  | store (key : K) (value : V)
  | remove (key : K)

/-- A `LevelMap` with the disk: the databases in the files, and the file of the open one. -/
structure LevelMap (K V : Type) where
  disk : FilePath → Option (Tab K V)
  db : Option FilePath

namespace LevelMap

variable {K V : Type} [DecidableEq K] (m : LevelMap K V)

def isOpen : Bool := m.db.isSome

def contents (dir : FilePath) : Tab K V := (m.disk dir).getD ∅

def setDisk (dir : FilePath) (t : Option (Tab K V)) : LevelMap K V :=
  { m with disk := Function.update m.disk dir t }

def «open» (dir : FilePath) (create : Bool) : Except DbError (LevelMap K V) :=
  if m.isOpen then .error .alreadyOpen
  else if (m.disk dir).isNone && !create then .error .levelMapOpenFailure
  else .ok { disk := Function.update m.disk dir (some (m.contents dir)), db := some dir }

def close : LevelMap K V := { m with db := none }

/-- The entries that an iteration from `begin` to the end goes through. -/
def entries : Tab K V := m.db.elim ∅ m.contents

def update (f : Tab K V → Tab K V) : Except DbError (LevelMap K V) :=
  match m.db with
  | none => .error .notOpen
  | some dir => .ok (m.setDisk dir (some (f (m.contents dir))))

def store (key : K) (value : V) : Except DbError (LevelMap K V) := m.update (·.insert key value)

def remove (key : K) : Except DbError (LevelMap K V) := m.update (·.erase key)

end LevelMap

/-- `level_pod_map` has the calls of a `LevelMap`, and its keys are in order. -/
abbrev LevelPodMap := LevelMap

namespace LevelPodMap

variable {K V : Type} [LinearOrder K] (m : LevelPodMap K V)

/-- The key of the last entry, if there is one. -/
def last : Except DbError (Option K) :=
  if m.isOpen then .ok m.entries.keys.max else .error .notOpen

/-- The keys from `begin` to the end. -/
def sortedKeys : List K := m.entries.keys.sort

end LevelPodMap

namespace BatchWrite

variable {K V : Type} [DecidableEq K]

def apply (t : Tab K V) : BatchWrite K V → Tab K V
  | .store key value => t.insert key value
  | .remove key => t.erase key

end BatchWrite

/-- `write_batch::commit`. -/
def LevelMap.commit {K V : Type} [DecidableEq K] (m : LevelMap K V) (batch : List (BatchWrite K V)) :
    Except DbError (LevelMap K V) :=
  m.update fun t => batch.foldl BatchWrite.apply t

/-- What a call does: the object it leaves, and the exception if it throws. -/
abbrev Outcome (S : Type) := S × Option DbError

/-! ## The cached map -/

structure CachedLevelMap (K V : Type) where
  db : LevelMap K V
  cache : Tab K V
  dirtyStore : List K
  dirtyRemove : List K
  writeThrough : Bool

namespace CachedLevelMap

variable {K V : Type} [DecidableEq K]

/-- A map that has just been constructed. -/
def start (disk : FilePath → Option (Tab K V)) : CachedLevelMap K V where
  db := ⟨disk, none⟩
  cache := ∅
  dirtyStore := []
  dirtyRemove := []
  writeThrough := true

variable (m : CachedLevelMap K V)

/-- Entries that are in the cache already stay as they are. -/
def «open» (dir : FilePath) (create writeThrough : Bool) : Outcome (CachedLevelMap K V) :=
  match m.db.open dir create with
  | .error e => (m, some e)
  | .ok db => ({ m with db := db, cache := m.cache ∪ db.entries, writeThrough := writeThrough }, none)

/-- The writes for the keys stored. `at` throws at a key that is not in the cache. -/
def storesOf (cache : Tab K V) : List K → List (BatchWrite K V) × Option DbError
  | [] => ([], none)
  | key :: keys =>
    match cache.lookup key with
    | none => ([], some .outOfRange)
    | some value => ((storesOf cache keys).1.cons (.store key value), (storesOf cache keys).2)

/-- A batch is also committed when an exception leaves its scope. -/
def flush : Outcome (CachedLevelMap K V) :=
  let stores := storesOf m.cache m.dirtyStore
  match stores.2 with
  | some e =>
    match m.db.commit stores.1 with
    | .error e => (m, some e)
    | .ok db => ({ m with db := db }, some e)
  | none =>
    match m.db.commit (stores.1 ++ m.dirtyRemove.map .remove) with
    | .error e => (m, some e)
    | .ok db => ({ m with db := db, dirtyStore := [], dirtyRemove := [] }, none)

def clear : CachedLevelMap K V :=
  { m with db := m.db.close, cache := ∅, dirtyStore := [], dirtyRemove := [] }

def close : Outcome (CachedLevelMap K V) :=
  if m.db.isOpen then
    match m.flush with
    | (m, some e) => (m, some e)
    | (m, none) => (m.clear, none)
  else (m.clear, none)

def setWriteThrough (writeThrough : Bool) : Outcome (CachedLevelMap K V) :=
  if writeThrough = m.writeThrough then (m, none)
  else if writeThrough then
    match m.flush with
    | (m, some e) => (m, some e)
    | (m, none) => ({ m with writeThrough := writeThrough }, none)
  else ({ m with writeThrough := writeThrough }, none)

def fetchOptional (key : K) : Option V := m.cache.lookup key

def store (key : K) (value : V) : Outcome (CachedLevelMap K V) :=
  let m := { m with cache := m.cache.insert key value }
  if m.writeThrough then
    match m.db.store key value with
    | .error e => (m, some e)
    | .ok db => ({ m with db := db }, none)
  else
    ({ m with dirtyStore := m.dirtyStore.insert key, dirtyRemove := m.dirtyRemove.erase key }, none)

def remove (key : K) : Outcome (CachedLevelMap K V) :=
  let m := { m with cache := m.cache.erase key }
  if m.writeThrough then
    match m.db.remove key with
    | .error e => (m, some e)
    | .ok db => ({ m with db := db }, none)
  else
    ({ m with dirtyStore := m.dirtyStore.erase key, dirtyRemove := m.dirtyRemove.insert key }, none)

end CachedLevelMap

/-! ## The fast map -/

structure FastLevelMap (K V : Type) where
  ldb : LevelMap K V
  ldbPath : Option FilePath
  ldbEnabled : Bool
  cache : Tab K V

namespace FastLevelMap

variable {K V : Type} [DecidableEq K]

/-- A map that has just been constructed. -/
def start (disk : FilePath → Option (Tab K V)) : FastLevelMap K V where
  ldb := ⟨disk, none⟩
  ldbPath := none
  ldbEnabled := true
  cache := ∅

variable (m : FastLevelMap K V)

def «open» (path : FilePath) : Outcome (FastLevelMap K V) :=
  if m.ldbPath.isSome then (m, some .alreadyOpen)
  else
    let m := { m with ldbPath := some path }
    match m.ldb.open path true with
    | .error e => (m, some e)
    | .ok ldb => ({ m with ldb := ldb, cache := m.cache ∪ ldb.entries }, none)

/-- Enabling writes all of the cache into a new database; disabling removes the file. -/
def toggleLeveldb (enabled : Bool) : Outcome (FastLevelMap K V) :=
  match m.ldbPath with
  | none => (m, some .notOpen)
  | some path =>
    if enabled = m.ldbEnabled then (m, none)
    else if enabled then
      match m.ldb.open path true with
      | .error e => (m, some e)
      | .ok ldb =>
        match ldb.update fun t => m.cache ∪ t with
        | .error e => ({ m with ldb := ldb }, some e)
        | .ok ldb => ({ m with ldb := ldb, ldbEnabled := enabled }, none)
    else ({ m with ldb := m.ldb.close.setDisk path none, ldbEnabled := enabled }, none)

def closeLdb : FastLevelMap K V := { m with ldb := m.ldb.close, ldbPath := none, cache := ∅ }

def close : Outcome (FastLevelMap K V) :=
  if m.ldbPath.isSome then
    if !m.ldbEnabled then
      match m.toggleLeveldb true with
      | (m, some e) => (m, some e)
      | (m, none) => (m.closeLdb, none)
    else (m.closeLdb, none)
  else ({ m with cache := ∅ }, none)

def find (key : K) : Option V := m.cache.lookup key

def store (key : K) (value : V) : Outcome (FastLevelMap K V) :=
  let m := { m with cache := m.cache.insert key value }
  if m.ldbEnabled then
    match m.ldb.store key value with
    | .error e => (m, some e)
    | .ok ldb => ({ m with ldb := ldb }, none)
  else (m, none)

def remove (key : K) : Outcome (FastLevelMap K V) :=
  let m := { m with cache := m.cache.erase key }
  if m.ldbEnabled then
    match m.ldb.remove key with
    | .error e => (m, some e)
    | .ok ldb => ({ m with ldb := ldb }, none)
  else (m, none)

end FastLevelMap

/-! ## Calls -/

inductive CachedCall (K V : Type) where
  | open (dir : FilePath) (create writeThrough : Bool)
  | store (key : K) (value : V)
  | remove (key : K)
  | setWriteThrough (writeThrough : Bool)
  | flush
  | close

inductive FastCall (K V : Type) where
  | open (path : FilePath)
  | store (key : K) (value : V)
  | remove (key : K)
  | toggleLeveldb (enabled : Bool)
  | close

variable {K V : Type} [DecidableEq K]

def CachedLevelMap.call (m : CachedLevelMap K V) : CachedCall K V → Outcome (CachedLevelMap K V)
  | .open dir create writeThrough => m.open dir create writeThrough
  | .store key value => m.store key value
  | .remove key => m.remove key
  | .setWriteThrough writeThrough => m.setWriteThrough writeThrough
  | .flush => m.flush
  | .close => m.close

def FastLevelMap.call (m : FastLevelMap K V) : FastCall K V → Outcome (FastLevelMap K V)
  | .open path => m.open path
  | .store key value => m.store key value
  | .remove key => m.remove key
  | .toggleLeveldb enabled => m.toggleLeveldb enabled
  | .close => m.close

/-! ## The purpose of the maps -/

/-- What the maps stand for: the entries of every file, and the file that is open. An entry stays
until it is removed or replaced, whatever the mode and however often the file is closed. -/
structure Files (K V : Type) where
  files : FilePath → Option (Tab K V)
  current : Option FilePath

namespace Files

variable (f : Files K V)

/-- The entries of the open file. -/
def entries : Tab K V := f.current.elim ∅ fun dir => (f.files dir).getD ∅

def «open» (dir : FilePath) (create : Bool) : Files K V :=
  if f.current.isSome || (f.files dir).isNone && !create then f
  else { files := Function.update f.files dir (some ((f.files dir).getD ∅)), current := some dir }

def modify (g : Tab K V → Tab K V) : Files K V :=
  match f.current with
  | none => f
  | some dir => { f with files := Function.update f.files dir (some (g ((f.files dir).getD ∅))) }

def close : Files K V := { f with current := none }

def cachedCall : CachedCall K V → Files K V
  | .open dir create _ => f.open dir create
  | .store key value => f.modify (·.insert key value)
  | .remove key => f.modify (·.erase key)
  | .setWriteThrough _ | .flush => f
  | .close => f.close

def fastCall : FastCall K V → Files K V
  | .open path => f.open path true
  | .store key value => f.modify (·.insert key value)
  | .remove key => f.modify (·.erase key)
  | .toggleLeveldb _ => f
  | .close => f.close

end Files

end Achain.Db
