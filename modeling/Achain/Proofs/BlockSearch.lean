import Achain.BlockSearch
import Achain.Genesis
import Mathlib.Order.Bounds.Basic

/-!
# The last block that is not after a time

On a chain whose blocks come one after the other, no block before a block is after a time that this one
is not after. So what the search keeps of its bracket is that the blocks up to its start are not after
the time, and those from its stop on are.
-/

namespace Achain

open Table Result

/-- The blocks of a chain, with their times in order. -/
structure ChainDatabase.Timed (db : ChainDatabase) (stamp : Nat → TimePointSec) : Prop where
  pos : 0 < db.headBlockHeader.blockNum
  header : ∀ n, 1 ≤ n → n ≤ db.headBlockHeader.blockNum →
    ∃ header, db.blockHeaderAt n = .ok header ∧ header.timestamp = stamp n
  increasing : ∀ m n, 1 ≤ m → m < n → n ≤ db.headBlockHeader.blockNum → stamp m < stamp n

section Search

variable {db : ChainDatabase} {stamp : Nat → TimePointSec} {time : TimePointSec}

/-- The blocks of the chain that are not after a time. -/
def notAfter (db : ChainDatabase) (stamp : Nat → TimePointSec) (time : TimePointSec) : Set Nat :=
  {n | 1 ≤ n ∧ n ≤ db.headBlockHeader.blockNum ∧ stamp n ≤ time}

/-- A bracket holds the times of two blocks of the chain. -/
structure TimeBracket.OnChain (db : ChainDatabase) (stamp : Nat → TimePointSec)
    (b : TimeBracket time) : Prop where
  pos : 1 ≤ b.start
  lt : b.start < b.stop
  le : b.stop ≤ db.headBlockHeader.blockNum
  startTime : b.startTime = stamp b.start
  stopTime : b.stopTime = stamp b.stop

theorem ChainDatabase.Timed.le_of_notAfter (h : db.Timed stamp) {m n : Nat}
    (hm : m ∈ notAfter db stamp time) (hn : 1 ≤ n) (htime : time < stamp n) : m < n := by
  obtain ⟨-, hle, hstamp⟩ := hm
  by_contra hnm
  rcases (Nat.le_of_not_lt hnm).eq_or_lt with rfl | hlt
  · exact absurd htime (Nat.not_lt_of_le hstamp)
  · have := h.increasing n m hn hlt hle
    exact absurd htime (Nat.not_lt_of_le (this.le.trans hstamp))

/-- The search ends at the last block that is not after the time. -/
theorem searchBlock_greatest (h : db.Timed stamp) (b : TimeBracket time) (hb : b.OnChain db stamp) :
    ∃ n, searchBlock db time b = .ok n ∧ IsGreatest (notAfter db stamp time) n := by
  fun_induction searchBlock db time b with
  | case1 b hgap ihstop ihstart =>
    obtain ⟨hstart, hstop⟩ := b.mid_bounds hgap
    have hpos : 1 ≤ b.mid := hb.pos.trans hstart.le
    obtain ⟨header, hheader, hstamp⟩ := h.header b.mid hpos (hstop.le.trans hb.le)
    rw [hheader, ok_bind]
    by_cases hmid : time < header.timestamp
    · rw [dif_pos hmid]
      exact ihstop header hmid ⟨hb.pos, hstart, hstop.le.trans hb.le, hb.startTime, hstamp⟩
    · rw [dif_neg hmid]
      exact ihstart header hmid ⟨hpos, hstop, hb.le, hstamp, hb.stopTime⟩
  | case2 b hgap =>
    refine ⟨b.start, rfl, ⟨hb.pos, hb.lt.le.trans hb.le, ?_⟩, fun m hm => ?_⟩
    · rw [← hb.startTime]
      exact b.le_time
    · have := h.le_of_notAfter hm (hb.pos.trans hb.lt.le) (hb.stopTime ▸ b.time_lt)
      have := hb.lt
      omega

/-- `find_block_num` returns the last block that is not after a time, or the first block. -/
theorem findBlockNum_greatest (h : db.Timed stamp) (time : TimePointSec) :
    ∃ n, findBlockNum db time = .ok n ∧
      if time ≤ stamp 1 then n = 1
      else IsGreatest {n | 1 ≤ n ∧ n ≤ db.headBlockHeader.blockNum ∧ stamp n ≤ time} n := by
  obtain ⟨first, hfirst, hstamp⟩ := h.header 1 le_rfl h.pos
  obtain ⟨last, hlast, hstop⟩ := h.header _ h.pos le_rfl
  rw [findBlockNum, hfirst, ok_bind, ← hstamp]
  split_ifs with hstart
  · exact ⟨1, rfl, rfl⟩
  · rw [hlast, ok_bind]
    by_cases hend : last.timestamp ≤ time
    · rw [dif_pos hend]
      exact ⟨_, rfl, ⟨h.pos, le_rfl, hstop ▸ hend⟩, fun m hm => hm.2.1⟩
    · rw [dif_neg hend]
      refine searchBlock_greatest h _ ⟨le_rfl, ?_, le_rfl, hstamp, hstop⟩
      have hne : db.headBlockHeader.blockNum ≠ 1 := fun hone => by
        rw [hone] at hstop
        rw [← hstamp] at hstop
        exact hend (hstop ▸ Nat.le_of_not_le hstart)
      exact lt_of_le_of_ne h.pos hne.symm

end Search

/-- A chain of three blocks, at the times 10, 20 and 50. -/
def ChainDatabase.threeBlocks : ChainDatabase where
  tables := .empty false
  verifyTransactionSignatures := true
  generatingBlock := false
  headBlockId := 3
  headBlockHeader := (FullBlock.plain 3 2 50 []).toSignedBlockHeader
  blockIdToFullBlock := (((∅ : Tab BlockIdType FullBlock).insert 1 (.plain 1 0 10 [])).insert 2
    (.plain 2 1 20 [])).insert 3 (.plain 3 2 50 [])
  blockIdToUndoState := ∅
  blockNumToId := (((∅ : Tab Nat BlockIdType).insert 1 1).insert 2 2).insert 3 3
  forkDb := ∅
  forkNumberDb := ∅
  futureBlocks := []

theorem ChainDatabase.threeBlocks_timed :
    ChainDatabase.threeBlocks.Timed fun n => [0, 10, 20, 50].getD n 0 := by
  refine ⟨by decide, fun n hpos hle => ?_, fun m n hpos hlt hle => ?_⟩
  · change n ≤ 3 at hle
    obtain rfl | rfl | rfl : n = 1 ∨ n = 2 ∨ n = 3 := by omega
    · exact ⟨_, rfl, rfl⟩
    · exact ⟨_, rfl, rfl⟩
    · exact ⟨_, rfl, rfl⟩
  · change n ≤ 3 at hle
    obtain ⟨rfl, rfl⟩ | ⟨rfl, rfl⟩ | ⟨rfl, rfl⟩ : m = 1 ∧ n = 2 ∨ m = 1 ∧ n = 3 ∨ m = 2 ∧ n = 3 := by
      omega
    all_goals decide

/-- The second of three blocks is the last that is not after 30. -/
theorem findBlockNum_threeBlocks :
    ∃ n, findBlockNum .threeBlocks 30 = .ok n ∧
      if 30 ≤ 10 then n = 1
      else IsGreatest
        {n | 1 ≤ n ∧ n ≤ ChainDatabase.threeBlocks.headBlockHeader.blockNum ∧
          [0, 10, 20, 50].getD n 0 ≤ 30} n :=
  findBlockNum_greatest ChainDatabase.threeBlocks_timed 30

end Achain
