import Achain.Db.LevelMap
import Achain.Lib.KeySet

/-!
# The database of potential peers

The peers a node knows of, in memory in the order in which they were seen last and with one entry for
an endpoint, and on disk under a number. A call that throws leaves what it has changed until then.
-/

namespace Achain.Net

open Table ByKey Db

structure Endpoint where
  ip : Nat
  port : Nat
  deriving DecidableEq

inductive PotentialPeerLastConnectionDisposition where
  | neverAttemptedToConnect | lastConnectionFailed | lastConnectionRejected
  | lastConnectionHandshakingFailed | lastConnectionSucceeded
  deriving DecidableEq

structure PotentialPeerEntry where
  endpoint : Endpoint
  lastSeenTime : TimePointSec
  lastConnectionDisposition : PotentialPeerLastConnectionDisposition
  lastConnectionAttemptTime : TimePointSec
  numberOfSuccessfulConnectionAttempts : Nat
  numberOfFailedConnectionAttempts : Nat
  lastError : Option Str
  deriving DecidableEq

namespace PotentialPeerEntry

/-- The entry constructed for an endpoint. -/
def new (endpoint : Endpoint) (lastSeenTime : TimePointSec) : PotentialPeerEntry where
  endpoint := endpoint
  lastSeenTime := lastSeenTime
  lastConnectionDisposition := .neverAttemptedToConnect
  lastConnectionAttemptTime := 0
  numberOfSuccessfulConnectionAttempts := 0
  numberOfFailedConnectionAttempts := 0
  lastError := none

end PotentialPeerEntry

structure PotentialPeerDatabaseEntry where
  databaseKey : Nat
  peerEntry : PotentialPeerEntry
  deriving DecidableEq

namespace PotentialPeerDatabaseEntry

variable (e : PotentialPeerDatabaseEntry)

def getLastSeenTime : TimePointSec := e.peerEntry.lastSeenTime

def getEndpoint : Endpoint := e.peerEntry.endpoint

end PotentialPeerDatabaseEntry

/-- The entries in the order of the times the peers were last seen, which have different endpoints. -/
structure PotentialPeerSet where
  entries : KeyMultiset PotentialPeerDatabaseEntry.getLastSeenTime
  unique : (entries.entries.map (·.getEndpoint)).Nodup

namespace PotentialPeerSet

def empty : PotentialPeerSet := ⟨.empty, .nil⟩

variable (s : PotentialPeerSet)

def size : Nat := s.entries.entries.length

/-- `find` in the index of the endpoints. -/
def find (endpoint : Endpoint) : Option PotentialPeerDatabaseEntry :=
  s.entries.entries.find? (·.getEndpoint == endpoint)

theorem find_eq_none {endpoint : Endpoint} :
    s.find endpoint = none ↔ ∀ e ∈ s.entries.entries, e.getEndpoint ≠ endpoint := by
  simp [find]

/-- An entry is inserted unless there is one for its endpoint. -/
def insert (e : PotentialPeerDatabaseEntry) : PotentialPeerSet :=
  if h : s.find e.getEndpoint = none then
    { entries := s.entries.insert e
      unique := by
        have hnew : e.getEndpoint ∉ s.entries.entries.map (·.getEndpoint) := by
          simpa using s.find_eq_none.1 h
        exact ((s.entries.insert_perm e).map _).nodup_iff.2 (List.nodup_cons.2 ⟨hnew, s.unique⟩) }
  else s

/-- `erase` in the index of the endpoints. -/
def erase (endpoint : Endpoint) : PotentialPeerSet where
  entries := s.entries.filter fun e => e.getEndpoint != endpoint
  unique := s.unique.sublist (List.filter_sublist.map _)

theorem pairwise_endpoint (endpoint : Endpoint) : s.entries.entries.Pairwise fun a b =>
    (a.getEndpoint == endpoint) = true → (b.getEndpoint == endpoint) = false := by
  refine (List.pairwise_map.1 s.unique).imp fun {a b} hne ha => ?_
  rw [beq_iff_eq] at ha
  rw [beq_eq_false_iff_ne, ← ha]
  exact hne.symm

/-- `modify` of the entry for the endpoint of a new one. -/
def modify (updatedentry : PotentialPeerEntry) : PotentialPeerSet where
  entries := s.entries.modify (·.getEndpoint == updatedentry.endpoint) fun e =>
    { e with peerEntry := updatedentry }
  unique := by
    have hperm := (KeyMultiset.modify_perm_map (f := fun e => { e with peerEntry := updatedentry })
      (s.pairwise_endpoint updatedentry.endpoint)).map (·.getEndpoint)
    refine hperm.nodup_iff.2 ?_
    rw [List.map_map]
    convert s.unique using 2
    funext e
    rw [Function.comp_apply]
    split_ifs with he
    · exact (beq_iff_eq.1 he).symm
    · rfl

end PotentialPeerSet

def maximumPeerdbSize : Nat := 1000

/-- `PeerDatabaseImpl`. -/
structure PeerDatabase where
  leveldb : LevelPodMap Nat PotentialPeerEntry
  potentialPeerSet : PotentialPeerSet

namespace PeerDatabase

/-- A database that has just been constructed. -/
def start (disk : FilePath → Option (Tab Nat PotentialPeerEntry)) : PeerDatabase where
  leveldb := ⟨disk, none⟩
  potentialPeerSet := .empty

variable (db : PeerDatabase)

/-- The entries of the open file in the order of their keys. -/
def stored (leveldb : LevelPodMap Nat PotentialPeerEntry) : List PotentialPeerDatabaseEntry :=
  leveldb.sortedKeys.filterMap fun key => (leveldb.entries.lookup key).map fun value => ⟨key, value⟩

/-- The set of the entries stored. -/
def loaded (leveldb : LevelPodMap Nat PotentialPeerEntry) : PotentialPeerSet :=
  (stored leveldb).foldl PotentialPeerSet.insert .empty

/-- The loop of `open` through the entries to prune. -/
def prune (db : PeerDatabase) : List PotentialPeerDatabaseEntry → Outcome PeerDatabase
  | [] => (db, none)
  | e :: entries =>
    match db.leveldb.remove e.databaseKey with
    | .error e => (db, some e)
    | .ok leveldb => prune ⟨leveldb, db.potentialPeerSet.erase e.getEndpoint⟩ entries

/-- What `open` does with the database opened. -/
def load (leveldb : LevelPodMap Nat PotentialPeerEntry) : Outcome PeerDatabase :=
  let s := loaded leveldb
  if maximumPeerdbSize < s.size then
    prune ⟨leveldb, s⟩ (s.entries.entries.drop maximumPeerdbSize)
  else (⟨leveldb, s⟩, none)

/-- A database that cannot be opened is deleted. -/
def «open» (databaseFilename : FilePath) : Outcome PeerDatabase :=
  match db.leveldb.open databaseFilename true with
  | .ok leveldb => load leveldb
  | .error .levelMapOpenFailure =>
    match (db.leveldb.setDisk databaseFilename none).open databaseFilename true with
    | .ok leveldb => load leveldb
    | .error e => ({ db with leveldb := db.leveldb.setDisk databaseFilename none }, some e)
  | .error e => (db, some e)

def close : PeerDatabase := ⟨db.leveldb.close, .empty⟩

/-- An exception of `remove` is ignored. -/
def clear : Outcome PeerDatabase :=
  if db.leveldb.isOpen then
    let leveldb := db.leveldb.sortedKeys.foldl (fun leveldb key =>
      (leveldb.remove key).toOption.getD leveldb) db.leveldb
    (⟨leveldb, .empty⟩, none)
  else (db, some .notOpen)

def erase (endpointToErase : Endpoint) : Outcome PeerDatabase :=
  match db.potentialPeerSet.find endpointToErase with
  | none => (db, none)
  | some e =>
    match db.leveldb.remove e.databaseKey with
    | .error e => (db, some e)
    | .ok leveldb => (⟨leveldb, db.potentialPeerSet.erase endpointToErase⟩, none)

/-- The key of a new entry, with the value of the variable that `last` does not assign when nothing is
stored. -/
def newDatabaseKey (unassigned : Nat) (last : Option Nat) : Nat := (last.getD unassigned + 1) % 2 ^ 32

def updateEntry (unassigned : Nat) (updatedentry : PotentialPeerEntry) : Outcome PeerDatabase :=
  match db.potentialPeerSet.find updatedentry.endpoint with
  | some e =>
    let s := db.potentialPeerSet.modify updatedentry
    match db.leveldb.store e.databaseKey updatedentry with
    | .error e => ({ db with potentialPeerSet := s }, some e)
    | .ok leveldb => (⟨leveldb, s⟩, none)
  | none =>
    match LevelPodMap.last db.leveldb with
    | .error e => (db, some e)
    | .ok last =>
      let newKey := newDatabaseKey unassigned last
      let s := db.potentialPeerSet.insert ⟨newKey, updatedentry⟩
      match db.leveldb.store newKey updatedentry with
      | .error e => ({ db with potentialPeerSet := s }, some e)
      | .ok leveldb => (⟨leveldb, s⟩, none)

def lookupEntryForEndpoint (endpointToLookup : Endpoint) : Option PotentialPeerEntry :=
  (db.potentialPeerSet.find endpointToLookup).map (·.peerEntry)

end PeerDatabase

/-- The calls. -/
inductive PeerCall where
  | open (databaseFilename : FilePath)
  | updateEntry (unassigned : Nat) (updatedentry : PotentialPeerEntry)
  | erase (endpointToErase : Endpoint)
  | clear
  | close

def PeerDatabase.call (db : PeerDatabase) : PeerCall → Outcome PeerDatabase
  | .open databaseFilename => db.open databaseFilename
  | .updateEntry unassigned updatedentry => db.updateEntry unassigned updatedentry
  | .erase endpointToErase => db.erase endpointToErase
  | .clear => db.clear
  | .close => (db.close, none)

end Achain.Net
