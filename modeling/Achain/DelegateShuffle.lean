import Achain.ExtendChain
import Achain.Lib.Loops

/-!
# The shuffle of the delegates

`update_active_delegate_list` step by step: the indexes are 32 bits wide, a hash gives four words of
64 bits, and the program may divide by no choices or read past the end of the list or of the hash.
-/

namespace Achain

open Result

/-- `fc::sha256`: the four words of a hash. -/
abbrev Sha256 := Vector UInt64 4

/-- What the shuffle must not do. -/
inductive ShuffleFault where
  | pastWords
  | divisionByZero
  | pastDelegates
  | endless
  deriving DecidableEq

structure ShuffleState where
  activeDel : List AccountIdType
  randSeed : Sha256
  i : UInt32
  x : UInt32

/-- `std::swap` of two elements of a vector. -/
def swapDelegates (l : List AccountIdType) (i j : UInt32) : Except ShuffleFault (List AccountIdType) := do
  let a ← orThrow l[i.toNat]? .pastDelegates
  let b ← orThrow l[j.toNat]? .pastDelegates
  return (l.set i.toNat b).set j.toNat a

section Shuffle

variable (hash : Sha256 → Sha256) (numDel : Nat)

/-- A pass of the loop over the delegates. -/
def shufflePass (s : ShuffleState) : Except ShuffleFault (ShuffleState ⊕ List AccountIdType) :=
  if s.i.toNat < numDel then do
    let r ← orThrow s.randSeed[s.x.toNat]? .pastWords
    let choices := UInt32.ofNat (numDel - s.i.toNat)
    ensure (choices != 0) .divisionByZero
    let j := (r % choices.toUInt64).toUInt32 + s.i
    let activeDel ← swapDelegates s.activeDel s.i j
    let x := (s.x + 1) &&& 3
    return .inl
      { activeDel := activeDel
        randSeed := if x == 0 then hash s.randSeed else s.randSeed
        i := s.i + 1
        x := x }
  else .ok (.inr s.activeDel)

/-- The loop over the delegates, which goes no further than its passes through a list. -/
def shuffleDelegates (randSeed : Sha256) (l : List AccountIdType) :
    Except ShuffleFault (List AccountIdType) :=
  Loops.iterate .endless (shufflePass hash l.length) (l.length + 1) ⟨l, randSeed, 0, 0⟩

/-- `update_active_delegate_list`, with the hash of a random seed and that of a hash. -/
def storeActiveDelegates (hashSeed : Nat → Sha256) (db : ChainDatabase) (blockNum : Nat) (l : Ledger) :
    Except ShuffleFault Ledger :=
  if blockNum % numDelegates ≠ 0 then .ok l
  else do
    let activeDel ← shuffleDelegates hash (hashSeed l.currentRandomSeed)
      db.tables.nextRoundActiveDelegates
    return l.storeProperty .activeDelegateListId (.delegates activeDel)

/-- The word of a pass: a hash gives four, and is hashed again for the next four. -/
def hashWord (randSeed : Sha256) (i : Nat) : UInt64 :=
  (Nat.iterate hash (i / 4) randSeed)[i % 4]

end Shuffle

end Achain
