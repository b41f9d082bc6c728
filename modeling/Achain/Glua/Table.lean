import Achain.Glua.Compare
import Mathlib.Data.Nat.Log
import Mathlib.Data.List.Basic

/-!
# The tables of the VM

A table has an array part, for the integers from 1 to its size, and a vector of nodes for the other
keys. A key goes to the node its hash selects; the hash of a string depends on the seed of the
state. A node keeps its key when its value becomes nil. The lookups follow the chains of the nodes
and always find a key that has a node, so a table is modelled by the values of the keys and by where
the keys are: the links of the chains are left out. A key without a value stands for nil.
-/

namespace Achain.Glua

open Doubles

inductive Key where
  | string (s : Str)
  | number (n : LuaNumber)
  | boolean (b : Bool)
  deriving DecidableEq

namespace Key

@[match_pattern] abbrev integer (i : Int) : Key := number (.integer i)

@[match_pattern] abbrev float (bits : UInt64) : Key := number (.float bits)

/-- `luaV_tointeger` of a float that has to be one exactly. -/
def floatToInteger (bits : UInt64) : Option Int :=
  if (unit : Int) ∣ value bits ∧ -2 ^ 63 * unit ≤ value bits ∧ value bits < 2 ^ 63 * unit then
    some (value bits / unit)
  else none

/-- The key that a value is stored under: a float that is an integer is taken for it, and what is not a
number cannot be one. -/
def normalize : Key → Option Key
  | float bits =>
    if isNaN bits then none
    else
      match floatToInteger bits with
      | some i => some (integer i)
      | none => some (float bits)
  | k => some k

end Key

structure HashTable (V : Type) where
  values : Key → Option V
  sizearray : Nat
  nodes : List (Option Key)
  lastfree : Nat

section Hash

/-- One byte of `luaS_hash`, on 32 bits. -/
def hashByte (h : Nat) (c : Char) : Nat := h ^^^ ((h * 32 + h / 4 + c.toNat % 256) % 2 ^ 32)

def hashLoop (str : Str) (step : Nat) : Nat → Nat → Nat → Nat
  | 0, _, h => h
  | fuel + 1, l, h =>
    if step ≤ l then hashLoop str step fuel (l - step) (hashByte h (str.getD (l - 1) ' ')) else h

/-- `luaS_hash`. -/
def luaSHash (str : Str) (seed : Nat) : Nat :=
  hashLoop str (str.length / 32 + 1) str.length str.length (seed ^^^ str.length)

/-- `l_hashfloat`. `frexp` leaves a fraction from 1/2 on, of which 31 bits are taken. -/
def lHashfloat (bits : UInt64) : Nat :=
  if isNaN bits || isInfinite bits || magnitude bits == 0 then 0
  else
    let length := Nat.log2 (magnitude bits) + 1
    let n : Int := (magnitude bits * 2 ^ 31 / 2 ^ length : Nat)
    let ni := if negative bits then -n else n
    let u := ((length - unitExponent : Int) + ni) % 2 ^ 32
    if u < 2 ^ 31 then u.toNat else (2 ^ 32 - 1 - u).toNat

/-- The node the hash of a key selects among `size` ones. -/
def mainposition (seed size : Nat) : Key → Nat
  | .integer i => (i % size).toNat
  | .float bits => lHashfloat bits % ((size - 1) ||| 1)
  | .string s => luaSHash s seed % size
  | .boolean b => b.toNat % size

end Hash

/-- The index of a key that can live in the array part, or 0. -/
def arrayindex : Key → Nat
  | .integer i => if 0 < i ∧ i ≤ 2 ^ 31 then i.toNat else 0
  | _ => 0

namespace HashTable

variable {V : Type}

def empty : HashTable V := ⟨fun _ => none, 0, [], 0⟩

section Lookup

variable (t : HashTable V)

def live (k : Key) : Bool := (t.values k).isSome

def inArray (k : Key) : Bool := arrayindex k ≠ 0 && arrayindex k ≤ t.sizearray

/-- The keys of the array part from index `first + 1` on that have a value. -/
def arrayKeys (first : Nat) : List Key :=
  ((List.range' (first + 1) (t.sizearray - first)).map fun i : Nat => Key.integer i).filter t.live

/-- The keys of the nodes that have a value. -/
def nodeKeys : List Key := (t.nodes.filterMap id).filter t.live

/-- The keys that have a value, in the order of `luaH_next`. -/
def liveKeys : List Key := t.arrayKeys 0 ++ t.nodeKeys

end Lookup

section Insert

variable (seed : Nat)

/-- `getfreepos`: the last node below `lastfree` that has no key. -/
def getfreepos (nodes : List (Option Key)) : Nat → Option Nat
  | 0 => none
  | i + 1 => if nodes[i]? = some none then some i else getfreepos nodes i

/-- `luaH_newkey` without the rehash: where the main position is taken, either the key or the
colliding one, if that is not in its own main position, goes to a free node. -/
def insertNode (t : HashTable V) (k : Key) : Option (HashTable V) :=
  let mp := mainposition seed t.nodes.length k
  match t.nodes[mp]? with
  | none => none
  | some none => some { t with nodes := t.nodes.set mp (some k) }
  | some (some other) =>
    if t.live other then
      match getfreepos t.nodes t.lastfree with
      | none => none
      | some f =>
        if mainposition seed t.nodes.length other ≠ mp then
          some { t with nodes := (t.nodes.set f (some other)).set mp (some k), lastfree := f }
        else some { t with nodes := t.nodes.set f (some k), lastfree := f }
    else some { t with nodes := t.nodes.set mp (some k) }

/-- The insertion of a key into a table that has room for it. -/
def reinsert (t : HashTable V) (k : Key) : HashTable V :=
  if t.inArray k then t else (t.insertNode seed k).getD t

/-- `luaH_resize`. -/
def resize (t : HashTable V) (nasize nhsize : Nat) : HashTable V :=
  let nodes : List (Option Key) :=
    if nhsize = 0 then [] else List.replicate (2 ^ Nat.clog 2 nhsize) none
  (t.arrayKeys nasize ++ t.nodeKeys.reverse).foldl (reinsert seed)
    { t with sizearray := nasize, nodes := nodes, lastfree := nodes.length }

/-- The loop of `computesizes`, from `2 ^ i` on: the size of the array part and the number of keys
that go there. -/
def computesizesLoop (nums : Nat → Nat) (pna : Nat) : Nat → Nat → Nat → Nat → Nat → Nat × Nat
  | 0, _, _, na, optimal => (optimal, na)
  | fuel + 1, i, a, na, optimal =>
    if pna > 2 ^ i / 2 then
      if nums i > 0 ∧ a + nums i > 2 ^ i / 2 then
        computesizesLoop nums pna fuel (i + 1) (a + nums i) (a + nums i) (2 ^ i)
      else computesizesLoop nums pna fuel (i + 1) (a + nums i) na optimal
    else (optimal, na)

/-- `computesizes`. -/
def computesizes (nums : Nat → Nat) (pna : Nat) : Nat × Nat := computesizesLoop nums pna 32 0 0 0 0

/-- The keys whose index is above `2 ^ (i - 1)` and at most `2 ^ i`. -/
def slice (keys : List Key) (i : Nat) : Nat :=
  keys.countP fun k => arrayindex k ≠ 0 && Nat.clog 2 (arrayindex k) == i

/-- `rehash`, for a key to be inserted. -/
def rehash (t : HashTable V) (k : Key) : HashTable V :=
  let keys := t.liveKeys ++ [k]
  let sizes := computesizes (slice keys) (keys.countP fun k => arrayindex k ≠ 0)
  t.resize seed sizes.1 (keys.length - sizes.2)

/-- `luaH_set`: a key without a place gets one. -/
def place (t : HashTable V) (k : Key) : HashTable V :=
  if t.inArray k ∨ some k ∈ t.nodes then t
  else
    match t.insertNode seed k with
    | some t' => t'
    | none => (t.rehash seed k).reinsert seed k

/-- Stores a value, or nothing for nil. A key gets a place in both cases. -/
def set (t : HashTable V) (k : Key) (v : Option V) : HashTable V :=
  { t.place seed k with values := Function.update t.values k v }

/-- `luaH_resizearray`. -/
def resizearray (t : HashTable V) (nasize : Nat) : HashTable V := t.resize seed nasize t.nodes.length

/-- `luaH_resize` for the sizes a constructor gives. -/
def ofSizes (narray nhash : Nat) : HashTable V := empty.resize seed narray nhash

end Insert

section Traversal

variable (t : HashTable V)

/-- The key at a position of the traversal: first the array part, then the nodes. -/
def slot (i : Nat) : Option Key :=
  if i < t.sizearray then some (.integer (i + 1)) else (t.nodes[i - t.sizearray]?).join

/-- `findindex_of_sorted_table`: the position after that of a key. -/
def findindex : Option Key → Option Nat
  | none => some 0
  | some k =>
    if t.inArray k then some (arrayindex k)
    else if some k ∈ t.nodes then some (t.nodes.idxOf (some k) + 1 + t.sizearray) else none

/-- `luaH_next`, from a position on. -/
def nextFrom (i : Nat) : Option Key :=
  (List.range' i (t.sizearray + t.nodes.length - i)).findSome? fun i =>
    (t.slot i).filter t.live

/-- `luaH_next`: the key that follows, or none at the end. A key without a place is an error. -/
def next (key : Option Key) : Option (Option Key) := (t.findindex key).map t.nextFrom

/-- `luaH_get`. -/
def get (k : Key) : Option V := k.normalize.bind t.values

end Traversal

end HashTable

end Achain.Glua
