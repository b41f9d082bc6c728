import Achain.BlockSteps
import Achain.Proofs.MainChain

/-!
# An undo that fails

`pop_block` marks the head as not included and takes its number from the index before it looks for
the undo state, and takes the previous block as the head before it looks for its header. Where one
of the two is missing the exception leaves these writes behind. Nothing is left behind exactly where
both are there, where the head is not known at all, or where the head was neither included nor
indexed.
-/

namespace Achain

open Table Result Stateful

variable {N : Node} {db db' : ChainDatabase} {d : BlockForkData} {undo : PendingChainState}
  {header : SignedBlockHeader} {e : Exn}

/-! ## The run of `pop_block` -/

/-- The head marked as not included, and its number free. -/
def ChainDatabase.unindexed (db : ChainDatabase) (d : BlockForkData) : ChainDatabase :=
  { db with
    forkDb := db.forkDb.insert db.headBlockId { d with isIncluded := false }
    blockNumToId := db.blockNumToId.erase db.headBlockHeader.blockNum }

/-- The undo state written back and the previous block taken as the head. -/
def ChainDatabase.undone (N : Node) (db : ChainDatabase) (d : BlockForkData)
    (undo : PendingChainState) : ChainDatabase :=
  { db.unindexed d with
    tables := db.tables.applyChanges N.P undo
    headBlockId := db.headBlockHeader.previous }

theorem markIncluded_false (hd : db.forkDb.lookup db.headBlockId = some d) :
    markIncluded db db.headBlockId false =
      .ok (db.forkDb.insert db.headBlockId { d with isIncluded := false }) := by
  rw [markIncluded, hd]
  rfl

/-- The first write of `pop_block`. -/
theorem unmarkHead_run (hd : db.forkDb.lookup db.headBlockId = some d) :
    DbM.ofExcept (fun db => do
      let forkDb ← markIncluded db db.headBlockId false
      return { db with forkDb := forkDb }) db =
        .ok () { db with
          forkDb := db.forkDb.insert db.headBlockId { d with isIncluded := false } } := by
  rw [DbM.ofExcept, markIncluded_false hd]
  rfl

theorem ofExcept_of_ok {f : ChainDatabase → Except Exn ChainDatabase} (h : f db = .ok db') :
    DbM.ofExcept f db = .ok () db' := by
  rw [DbM.ofExcept, h]

theorem ofExcept_of_error {f : ChainDatabase → Except Exn ChainDatabase} (h : f db = .error e) :
    DbM.ofExcept f db = .error e db := by
  rw [DbM.ofExcept, h]

section Run

variable (hnum : db.headBlockHeader.blockNum ≠ 0)

theorem popBlockSteps_bottom (h : db.headBlockHeader.blockNum = 0) :
    popBlockSteps N db = .ok () db := by
  rw [popBlockSteps, get_bind, if_pos h]
  rfl

include hnum

theorem popBlockSteps_unknown (hd : db.forkDb.lookup db.headBlockId = none) :
    popBlockSteps N db = .error .unknownBlock db := by
  rw [popBlockSteps, get_bind, if_neg hnum]
  refine bind_of_error (ofExcept_of_error ?_)
  rw [markIncluded, hd]
  rfl

variable (hd : db.forkDb.lookup db.headBlockId = some d)

include hd

theorem popBlockSteps_noUndo (hundo : db.blockIdToUndoState.lookup db.headBlockId = none) :
    popBlockSteps N db = .error .fcAssert (db.unindexed d) := by
  rw [popBlockSteps, get_bind, if_neg hnum]
  refine (bind_of_ok (unmarkHead_run hd)).trans ?_
  rw [modify_bind, get_bind]
  dsimp only
  rw [hundo]
  rfl

variable (hundo : db.blockIdToUndoState.lookup db.headBlockId = some undo)

include hundo

/-- Where the undo state is there, what is left is to read the header of the previous block. -/
theorem popBlockSteps_undone : popBlockSteps N db = DbM.ofExcept (fun s => do
    let header ← s.headerOf db.headBlockHeader.previous
    return { s with headBlockHeader := header }) (db.undone N d undo) := by
  rw [popBlockSteps, get_bind, if_neg hnum]
  refine (bind_of_ok (unmarkHead_run hd)).trans ?_
  rw [modify_bind, get_bind]
  dsimp only
  rw [hundo]
  rfl

theorem popBlockSteps_headless (hheader : db.headerOf db.headBlockHeader.previous = .error e) :
    popBlockSteps N db = .error e (db.undone N d undo) := by
  rw [popBlockSteps_undone hnum hd hundo]
  refine ofExcept_of_error ?_
  rw [show (db.undone N d undo).headerOf db.headBlockHeader.previous = .error e from hheader]
  rfl

theorem popBlockSteps_done (hheader : db.headerOf db.headBlockHeader.previous = .ok header) :
    popBlockSteps N db = .ok () { db.undone N d undo with headBlockHeader := header } := by
  rw [popBlockSteps_undone hnum hd hundo]
  refine ofExcept_of_ok ?_
  rw [show (db.undone N d undo).headerOf db.headBlockHeader.previous = .ok header from hheader]
  rfl

end Run

/-- Where the previous block is known, the steps are those of `popBlockM`. -/
theorem popBlockSteps_eq (hheader : db.headerOf db.headBlockHeader.previous = .ok header) :
    popBlockSteps N db = popBlockM N db := by
  unfold popBlockM popBlock
  by_cases hnum : db.headBlockHeader.blockNum = 0
  · rw [popBlockSteps_bottom hnum, if_pos hnum]
  rw [if_neg hnum]
  cases hd : db.forkDb.lookup db.headBlockId with
  | none =>
    have hmark : markIncluded db db.headBlockId false = .error .unknownBlock := by
      rw [markIncluded, hd]
      rfl
    rw [popBlockSteps_unknown hnum hd, hmark]
    rfl
  | some d =>
    rw [markIncluded_false hd]
    cases hundo : db.blockIdToUndoState.lookup db.headBlockId with
    | none =>
      rw [popBlockSteps_noUndo hnum hd hundo]
      rfl
    | some undo =>
      rw [popBlockSteps_done hnum hd hundo hheader]
      simp only [ok_bind, orThrow_some, hheader]
      rfl

theorem Rooted.headerOf {id : BlockIdType} {path : List BlockIdType}
    (h : Rooted db.blockIdToFullBlock id path) : ∃ header, db.headerOf id = .ok header := by
  unfold ChainDatabase.headerOf
  cases h with
  | genesis => exact ⟨_, rfl⟩
  | block hb hne _ =>
    rw [if_neg hne, hb]
    exact ⟨_, rfl⟩

/-- In a tree of blocks the block before the head is known. -/
theorem ForkTree.headerOf_previous (h : ForkTree N db) :
    ∃ header, db.headerOf db.headBlockHeader.previous = .ok header := by
  rcases h.header with ⟨-, hempty⟩ | ⟨b, hb, hheader⟩
  · rw [hempty]
    exact ⟨_, rfl⟩
  · obtain ⟨path, hroot⟩ := h.head
    obtain ⟨b', q, -, hb', hrest⟩ := hroot.ne_zero_inv (h.blockId _ b hb).2
    rw [hb, Option.some_inj] at hb'
    subst hb'
    rw [hheader]
    exact hrest.headerOf

/-- In a tree of blocks the steps of `pop_block` are those of `popBlockM`. -/
theorem ForkTree.popBlockSteps_eq (h : ForkTree N db) : popBlockSteps N db = Achain.popBlockM N db := by
  obtain ⟨header, hheader⟩ := h.headerOf_previous
  exact Achain.popBlockSteps_eq hheader

/-! ## What a failed undo leaves -/

/-- The head, the index of the numbers, the fork flags and the tables are the same. -/
structure Untouched (db db' : ChainDatabase) : Prop where
  headBlockId : db'.headBlockId = db.headBlockId
  headBlockHeader : db'.headBlockHeader = db.headBlockHeader
  blockNumToId : db'.blockNumToId = db.blockNumToId
  forkDb : db'.forkDb = db.forkDb
  tables : db'.tables = db.tables

/-- Where `pop_block` throws, nothing has changed. -/
def FailsCleanly (N : Node) (db : ChainDatabase) : Prop :=
  ∀ e db', popBlockSteps N db = .error e db' → Untouched db db'

/-- Nothing that `pop_block` removes before it looks for the undo state is there. -/
def ChainDatabase.Unindexed (db : ChainDatabase) : Prop :=
  ¬db.Included db.headBlockId ∧ db.headBlockHeader.blockNum ∉ db.blockNumToId

/-- The states in which a failure of `pop_block` leaves nothing behind: there is no head to pop, or
it is not known; the undo state and the block before it are there; or nothing is written before the
one that is missing. -/
def CleanUndo (N : Node) (db : ChainDatabase) : Prop :=
  db.headBlockHeader.blockNum = 0 ∨ db.headBlockId ∉ db.forkDb ∨
    (db.headBlockId ∈ db.blockIdToUndoState ∧
      (db.headBlockHeader.previous = 0 ∨ db.headBlockHeader.previous ∈ db.blockIdToFullBlock)) ∨
    (db.Unindexed ∧ ∀ undo, db.blockIdToUndoState.lookup db.headBlockId = some undo →
      db.headBlockHeader.previous = db.headBlockId ∧ db.tables.applyChanges N.P undo = db.tables)

theorem headerOf_error_iff {id : BlockIdType} :
    (∃ e, db.headerOf id = .error e) ↔ ¬(id = 0 ∨ id ∈ db.blockIdToFullBlock) := by
  unfold ChainDatabase.headerOf
  by_cases hzero : id = 0
  · simp [hzero]
  · rw [if_neg hzero]
    cases hb : db.blockIdToFullBlock.lookup id with
    | none => simp [hzero, Finmap.lookup_eq_none.1 hb, orThrow]
    | some b => simp [Finmap.mem_of_lookup_eq_some hb, pure, Except.pure]

/-- The first two writes change nothing exactly where the head was neither included nor indexed. -/
theorem unindexed_same_iff (hd : db.forkDb.lookup db.headBlockId = some d) :
    ((db.unindexed d).forkDb = db.forkDb ∧ (db.unindexed d).blockNumToId = db.blockNumToId) ↔
      db.Unindexed := by
  refine and_congr ?_ erase_eq_self_iff
  constructor
  · rintro h ⟨d', hd', hincluded⟩
    rw [hd, Option.some_inj] at hd'
    subst hd'
    rw [← lookup_eq_of_insert_eq h hd] at hincluded
    cases hincluded
  · intro h
    have hfalse : d.isIncluded = false := by
      cases hincluded : d.isIncluded with
      | false => rfl
      | true => exact absurd ⟨d, hd, hincluded⟩ h
    refine insert_lookup_self (hd.trans ?_)
    rw [← hfalse]

/-- `pop_block` fails cleanly exactly in these states. -/
theorem failsCleanly_iff (N : Node) (db : ChainDatabase) : FailsCleanly N db ↔ CleanUndo N db := by
  by_cases hnum : db.headBlockHeader.blockNum = 0
  · refine iff_of_true (fun e db' h => ?_) (.inl hnum)
    rw [popBlockSteps_bottom hnum] at h
    cases h
  cases hd : db.forkDb.lookup db.headBlockId with
  | none =>
    refine iff_of_true (fun e db' h => ?_) (.inr (.inl (Finmap.lookup_eq_none.1 hd)))
    rw [popBlockSteps_unknown hnum hd] at h
    cases h
    exact ⟨rfl, rfl, rfl, rfl, rfl⟩
  | some d =>
    have hknown := Finmap.mem_of_lookup_eq_some hd
    cases hundo : db.blockIdToUndoState.lookup db.headBlockId with
    | none =>
      have hrun := popBlockSteps_noUndo (N := N) hnum hd hundo
      have hno : db.headBlockId ∉ db.blockIdToUndoState := Finmap.lookup_eq_none.1 hundo
      have hsame : FailsCleanly N db ↔ db.Unindexed := by
        rw [← unindexed_same_iff hd]
        constructor
        · intro h
          obtain ⟨-, -, hindex, hfork, -⟩ := h _ _ hrun
          exact ⟨hfork, hindex⟩
        · rintro ⟨hfork, hindex⟩ e db' h
          rw [hrun] at h
          cases h
          exact ⟨rfl, rfl, hindex, hfork, rfl⟩
      rw [hsame, CleanUndo]
      simp [hnum, hknown, hno, hundo]
    | some undo =>
      have hmem := Finmap.mem_of_lookup_eq_some hundo
      by_cases hprev : db.headBlockHeader.previous = 0 ∨
          db.headBlockHeader.previous ∈ db.blockIdToFullBlock
      · refine iff_of_true (fun e db' h => ?_) (.inr (.inr (.inl ⟨hmem, hprev⟩)))
        cases hheader : db.headerOf db.headBlockHeader.previous with
        | ok header =>
          rw [popBlockSteps_done hnum hd hundo hheader] at h
          cases h
        | error e' => exact absurd hprev (headerOf_error_iff.1 ⟨e', hheader⟩)
      · obtain ⟨e, hheader⟩ := headerOf_error_iff.2 hprev
        have hrun := popBlockSteps_headless (N := N) hnum hd hundo hheader
        have hsame : FailsCleanly N db ↔ db.Unindexed ∧
            db.headBlockHeader.previous = db.headBlockId ∧
              db.tables.applyChanges N.P undo = db.tables := by
          rw [← unindexed_same_iff hd]
          constructor
          · intro h
            obtain ⟨hhead, -, hindex, hfork, htables⟩ := h _ _ hrun
            exact ⟨⟨hfork, hindex⟩, hhead, htables⟩
          · rintro ⟨⟨hfork, hindex⟩, hhead, htables⟩ e' db' h
            rw [hrun] at h
            cases h
            exact ⟨hhead, rfl, hindex, hfork, htables⟩
        rw [hsame, CleanUndo]
        simp [hnum, hknown, hprev, hundo]

/-- A node that saves no undo state before the second block. -/
def Node.unsaved : Node := { Node.plain with config := ⟨0, ∅, 2⟩ }

/-- After the first block of such a node the head has no undo state, and its failed undo leaves it
marked as not included. -/
theorem popBlock_leaves_marks :
    ∃ db₀ db, initializeGenesis Node.unsaved.P .plain false = .ok db₀ ∧
      Pushed .unsaved (fun _ => True) db₀ db ∧ ¬FailsCleanly .unsaved db := by
  have hpush : returns (initializeGenesis Node.unsaved.P .plain false) (fun db =>
      let db := final (pushBlock .unsaved 100 (.plain 1 0 10 [])) db
      db.headBlockHeader.blockNum == 1 && (db.blockIdToUndoState.lookup db.headBlockId).isNone &&
        (db.forkDb.lookup db.headBlockId).any BlockForkData.isIncluded) = true := by
    decide +kernel
  obtain ⟨db₀, h₀, hend⟩ := exists_of_returns hpush
  refine ⟨db₀, _, h₀, .push 100 (.plain 1 0 10 []) .start trivial, ?_⟩
  dsimp only at hend
  generalize final (pushBlock .unsaved 100 (.plain 1 0 10 [])) db₀ = db at hend
  simp only [Bool.and_eq_true, beq_iff_eq, Option.isNone_iff_eq_none, Option.any_eq_true] at hend
  obtain ⟨⟨hnum, hundo⟩, d, hd, hincluded⟩ := hend
  intro h
  have hrun := popBlockSteps_noUndo (N := .unsaved) (by rw [hnum]; decide) hd hundo
  exact ((unindexed_same_iff hd).1 ⟨(h _ _ hrun).forkDb, (h _ _ hrun).blockNumToId⟩).1
    ⟨d, hd, hincluded⟩

end Achain
