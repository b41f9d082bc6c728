import Achain.ExtendChain
import Mathlib.Data.Rat.Floor

/-!
# The block at a time

`find_block_num` looks for the last block that is not after a time. It keeps a block that is not after
it and one that is, and looks next where the time would be if the blocks between them were evenly spaced.
-/

namespace Achain

open Result

namespace ChainDatabase

variable (db : ChainDatabase)

/-- `get_block_header` of a block number. -/
def blockHeaderAt (blockNum : Nat) : Except Exn SignedBlockHeader := do
  let id ← orThrow (db.blockNumToId.lookup blockNum) .unknownBlock
  let b ← orThrow (db.blockIdToFullBlock.lookup id) .unknownBlock
  return b.toSignedBlockHeader

end ChainDatabase

/-- Two block numbers with the times of their blocks, and a time between these. -/
structure TimeBracket (time : TimePointSec) where
  start : Nat
  stop : Nat
  startTime : TimePointSec
  stopTime : TimePointSec
  le_time : startTime ≤ time
  time_lt : time < stopTime

namespace TimeBracket

variable {time : TimePointSec} (b : TimeBracket time)

/-- How far the time is from one block to the other. -/
def relative : ℚ := (time - b.startTime : ℚ) / (b.stopTime - b.startTime)

/-- The block to look at next. -/
def mid : Nat :=
  let mid := b.start + ⌊(b.stop - b.start : ℚ) * b.relative⌋₊
  if mid = b.start then mid + 1 else mid

theorem relative_nonneg : 0 ≤ b.relative := by
  have h₁ : (b.startTime : ℚ) ≤ time := Nat.cast_le.2 b.le_time
  have h₂ : (time : ℚ) < b.stopTime := Nat.cast_lt.2 b.time_lt
  exact div_nonneg (by linarith) (by linarith)

theorem relative_lt_one : b.relative < 1 := by
  have h₁ : (b.startTime : ℚ) ≤ time := Nat.cast_le.2 b.le_time
  have h₂ : (time : ℚ) < b.stopTime := Nat.cast_lt.2 b.time_lt
  rw [relative, div_lt_one (by linarith)]
  linarith

/-- The block to look at next is strictly between the two. -/
theorem mid_bounds (h : b.start + 1 < b.stop) : b.start < b.mid ∧ b.mid < b.stop := by
  have hwidth : (0 : ℚ) < b.stop - b.start := by
    have : (b.start : ℚ) < b.stop := Nat.cast_lt.2 (by omega)
    linarith
  have hfloor : ⌊(b.stop - b.start : ℚ) * b.relative⌋₊ < b.stop - b.start := by
    rw [Nat.floor_lt (mul_nonneg hwidth.le b.relative_nonneg), Nat.cast_sub (by omega)]
    exact mul_lt_of_lt_one_right hwidth b.relative_lt_one
  unfold mid
  simp only
  split_ifs <;> omega

end TimeBracket

section Search

variable (db : ChainDatabase) (time : TimePointSec)

/-- The loop of `find_block_num`. -/
def searchBlock (b : TimeBracket time) : Except Exn Nat :=
  if _hgap : b.start + 1 < b.stop then do
    let header ← db.blockHeaderAt b.mid
    if hmid : time < header.timestamp then
      searchBlock { b with
        stop := b.mid
        stopTime := header.timestamp
        time_lt := hmid }
    else
      searchBlock { b with
        start := b.mid
        startTime := header.timestamp
        le_time := Nat.le_of_not_lt hmid }
  else .ok b.start
termination_by b.stop - b.start
decreasing_by
  all_goals
    have := b.mid_bounds _hgap
    omega

/-- `find_block_num`. -/
def findBlockNum : Except Exn Nat := do
  let start ← db.blockHeaderAt 1
  if hstart : time ≤ start.timestamp then return 1
  else do
    let stop ← db.blockHeaderAt db.headBlockHeader.blockNum
    if hstop : stop.timestamp ≤ time then return db.headBlockHeader.blockNum
    else
      searchBlock db time
        { start := 1
          stop := db.headBlockHeader.blockNum
          startTime := start.timestamp
          stopTime := stop.timestamp
          le_time := Nat.le_of_not_le hstart
          time_lt := Nat.lt_of_not_le hstop }

end Search

end Achain
