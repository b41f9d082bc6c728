import Achain.Glua.Sort
import Achain.Glua.Table

/-!
# The pairs of a table

`pairs` collects the keys of a table with the `next` of the VM, numbers in one list and the texts of all
others in a second one, sorts both and returns an iterator over the lists, which looks the values up by
what the lists hold.
-/

namespace Achain.Glua

namespace Key

/-- The number that a key is, if its type is that. -/
def number? : Key → Option LuaNumber
  | number n => some n
  | _ => none

/-- `tostring` of a key of another type. -/
def tostring? : Key → Option Str
  | number _ => none
  | string s => some s
  | boolean true => some "true".toList
  | boolean false => some "false".toList

end Key

section Sorting

variable {α : Type} (less : α → α → Bool) (clock : Nat → Nat) (readings : Nat)

def intMax : Nat := 2 ^ 31 - 1

/-- `table.sort` of a list without holes, with the readings of the clock before and after it. -/
def tableSort : List α → Option (List α × Nat)
  | [] => some ([], readings)
  | [x] => some ([x], readings)
  | x :: y :: l =>
    let a := x :: y :: l
    if a.length < intMax then
      match (memoryArray less clock).sort a.length ⟨fun i => a.getD (i - 1) x, readings⟩ with
      | .ok _ s => some ((List.range' 1 a.length).map s.values, s.readings)
      | .error _ _ => none
    else none

end Sorting

namespace HashTable

variable {V : Type} (t : HashTable V)

/-- The keys that the loop over `__old_pairs` goes through after a key. -/
def keysAfter : Nat → Option Key → Option (List Key)
  | 0, _ => none
  | fuel + 1, key => do
    match ← t.next key with
    | none => some []
    | some k => return k :: (← keysAfter fuel (some k))

/-- The iterator of `__real_pairs_by_keys_func`, for the number of its call. -/
def iterate (intHashes : List LuaNumber) (hashes : List Str) (i : Nat) : Option (Key × Option V) :=
  if i ≤ intHashes.length then
    intHashes[i - 1]?.map fun n => (.number n, t.get (.number n))
  else hashes[i - intHashes.length - 1]?.map fun s => (.string s, t.get (.string s))

/-- A `for` loop with the iterator, from a call on. -/
def forLoop (intHashes : List LuaNumber) (hashes : List Str) : Nat → Nat → List (Key × Option V)
  | 0, _ => []
  | fuel + 1, i =>
    match t.iterate intHashes hashes i with
    | none => []
    | some p => p :: forLoop intHashes hashes fuel (i + 1)

/-- What `for k, v in pairs(t)` goes through, if `pairs` does not fail. -/
def pairs (clock : Nat → Nat) : Option (List (Key × Option V)) := do
  let keys ← t.keysAfter (t.sizearray + t.nodes.length + 1) none
  let (intHashes, readings) ← tableSort ltNum clock 0 (keys.filterMap Key.number?)
  let (hashes, _) ←
    tableSort (fun l r => decide (lStrcmp l r < 0)) clock readings (keys.filterMap Key.tostring?)
  return t.forLoop intHashes hashes (intHashes.length + hashes.length + 1) 1

end HashTable

end Achain.Glua
