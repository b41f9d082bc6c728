import Achain.Glua.Machine

/-!
# The quicksort of `table.sort`

The sort works in place on an array read and written by index, from 1, with a comparison that may
run code. The pivot of a large interval is chosen from the machine's clock once a partition was too
imbalanced.
-/

namespace Achain.Glua

/-- The array under sort, its comparison, and the number made of the readings of the clock. -/
structure SortArray (σ V : Type) where
  geti : Nat → EStateM LuaError σ V
  seti : Nat → V → EStateM LuaError σ Unit
  comp : V → V → EStateM LuaError σ Bool
  randomizePivot : EStateM LuaError σ Nat

/-- Arrays larger than this may use randomized pivots. -/
def ranLimit : Nat := 100

/-- An element in the second or third quarter of the interval. -/
def choosePivot (lo up rnd : Nat) : Nat :=
  let r4 := (up - lo) / 4
  rnd % (r4 * 2) + (lo + r4)

def pivotIndex (lo up rnd : Nat) : Nat :=
  if up - lo < ranLimit ∨ rnd = 0 then (lo + up) / 2 else choosePivot lo up rnd

namespace SortArray

variable {σ V : Type} (A : SortArray σ V)

def set2 (i j : Nat) (vi vj : V) : EStateM LuaError σ Unit := do
  A.seti i vi
  A.seti j vj

/-- Repeats `++i` while `a[i] < P`. -/
def scanUp (pivot : V) (up : Nat) : Nat → Nat → EStateM LuaError σ (Nat × V)
  | 0, _ => throw .fuel
  | fuel + 1, i => do
    let v ← A.geti (i + 1)
    let less ← A.comp v pivot
    if less then
      if i + 1 = up - 1 then throw .errrun else scanUp pivot up fuel (i + 1)
    else return (i + 1, v)

/-- Repeats `--j` while `P < a[j]`. -/
def scanDown (pivot : V) (i : Nat) : Nat → Nat → EStateM LuaError σ (Nat × V)
  | 0, _ => throw .fuel
  | fuel + 1, j => do
    let v ← A.geti (j - 1)
    let less ← A.comp pivot v
    if less then
      if j - 1 < i then throw .errrun else scanDown pivot i fuel (j - 1)
    else return (j - 1, v)

def partitionLoop (pivot : V) (up : Nat) : Nat → Nat → Nat → EStateM LuaError σ Nat
  | 0, _, _ => throw .fuel
  | fuel + 1, i, j => do
    let upper ← A.scanUp pivot up up i
    let lower ← A.scanDown pivot upper.1 (j + 1) j
    if lower.1 < upper.1 then
      A.set2 (up - 1) upper.1 upper.2 pivot
      return upper.1
    else
      A.set2 upper.1 lower.1 lower.2 upper.2
      partitionLoop pivot up fuel upper.1 lower.1

/-- Partitions the interval around the pivot, which stands at `up - 1`. -/
def partition (lo up : Nat) (pivot : V) : EStateM LuaError σ Nat :=
  A.partitionLoop pivot up up lo (up - 1)

/-- Sorts the elements at `lo` and `up`. -/
def sortEnds (lo up : Nat) : EStateM LuaError σ Unit := do
  let vlo ← A.geti lo
  let vup ← A.geti up
  let less ← A.comp vup vlo
  if less then A.set2 lo up vup vlo else return

/-- Puts the element at `p` between those at `lo` and `up`. -/
def sortMiddle (lo p up : Nat) : EStateM LuaError σ Unit := do
  let vp ← A.geti p
  let vlo ← A.geti lo
  let less ← A.comp vp vlo
  if less then A.set2 p lo vlo vp
  else
    let vup ← A.geti up
    let less ← A.comp vup vp
    if less then A.set2 p up vup vp else return

/-- Moves the element at `p` to `up - 1` and returns it. -/
def movePivot (p up : Nat) : EStateM LuaError σ V := do
  let pivot ← A.geti p
  let v ← A.geti (up - 1)
  A.set2 p (up - 1) v pivot
  return pivot

/-- A new random number if the larger interval left exceeds 128 times the smaller one. -/
def rerandomize (larger smaller rnd : Nat) : EStateM LuaError σ Nat :=
  if larger / 128 > smaller then A.randomizePivot else return rnd

def auxsort : Nat → Nat → Nat → Nat → EStateM LuaError σ Unit
  | 0, _, _, _ => throw .fuel
  | fuel + 1, lo, up, rnd =>
    if lo < up then do
      A.sortEnds lo up
      if up - lo = 1 then return
      let p := pivotIndex lo up rnd
      A.sortMiddle lo p up
      if up - lo = 2 then return
      let pivot ← A.movePivot p up
      let p ← A.partition lo up pivot
      if p - lo < up - p then
        auxsort fuel lo (p - 1) rnd
        let rnd ← A.rerandomize (up - (p + 1)) (p - lo) rnd
        auxsort fuel (p + 1) up rnd
      else
        auxsort fuel (p + 1) up rnd
        let rnd ← A.rerandomize (p - 1 - lo) (up - p) rnd
        auxsort fuel lo (p - 1) rnd
    else return

/-- `sort`, for an array of `n` elements. -/
def sort (n : Nat) : EStateM LuaError σ Unit :=
  if n > 1 then A.auxsort n 1 n 0 else return

end SortArray

/-- An array in memory, with the number of readings of the clock so far. -/
structure SortState (V : Type) where
  values : Nat → V
  readings : Nat

/-- Sorting an array in memory with a comparison that runs no code. -/
def memoryArray {V : Type} (less : V → V → Bool) (clock : Nat → Nat) : SortArray (SortState V) V where
  geti i := do
    let s ← get
    return s.values i
  seti i v := modify fun s => { s with values := Function.update s.values i v }
  comp a b := return less a b
  randomizePivot := modifyGet fun s => (clock s.readings, { s with readings := s.readings + 1 })

/-- Sorting an array in memory by a key, with the given readings of the clock. -/
def sortArray {V K : Type} [LT K] [DecidableLT K] (key : V → K) (clock : Nat → Nat) :
    SortArray (SortState V) V :=
  memoryArray (fun a b => decide (key a < key b)) clock

end Achain.Glua
