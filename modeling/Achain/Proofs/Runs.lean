import Achain.Proofs.Blocks
import Achain.Lib.Stateful
import Achain.PushBlock

/-!
# Runs of the chain

Whatever `push_block` does to the chain is a sequence of three kinds of steps: a known block extends
the head, the head is popped, or something other than the tables, the undo states and the head
changes. An invariant of the chain is one of these steps.
-/

namespace Achain

open Table Result Stateful

variable {N : Node} {K : FullBlock → Prop} {db db' db₀ : ChainDatabase}

/-- The chain itself is the same: the tables, the undo states and the head. -/
structure SameChain (db db' : ChainDatabase) : Prop where
  tables : db'.tables = db.tables
  headBlockId : db'.headBlockId = db.headBlockId
  headBlockHeader : db'.headBlockHeader = db.headBlockHeader
  blockIdToUndoState : db'.blockIdToUndoState = db.blockIdToUndoState

/-- The blocks known are stored under their ids and satisfy `K`. -/
def Known (N : Node) (K : FullBlock → Prop) (db : ChainDatabase) : Prop :=
  ∀ id b, db.blockIdToFullBlock.lookup id = some b → N.B.id b.toSignedBlockHeader = id ∧ K b

/-- One step of a run in which every block that is accepted satisfies `K`. -/
inductive Step (N : Node) (K : FullBlock → Prop) (db : ChainDatabase) : ChainDatabase → Prop
  | extend {db' : ChainDatabase} (clock : TimePointSec) (b : FullBlock) :
      db.blockIdToFullBlock.lookup (N.B.id b.toSignedBlockHeader) = some b → K b →
      extendChain N db clock b = .ok db' → Step N K db db'
  | pop {db' : ChainDatabase} : popBlock N db = .ok db' → Step N K db db'
  | other {db' : ChainDatabase} : SameChain db db' →
      (∀ id, id ∈ db.blockIdToFullBlock → id ∈ db'.blockIdToFullBlock) →
      (Known N K db → Known N K db') → Step N K db db'

/-- A run from one state of the database to another. -/
abbrev Reaches (N : Node) (K : FullBlock → Prop) : ChainDatabase → ChainDatabase → Prop :=
  Relation.ReflTransGen (Step N K)

/-- What every step keeps is kept by a run. -/
theorem Reaches.keeps {I : ChainDatabase → Prop} (hstep : ∀ {db db'}, Step N K db db' → I db → I db')
    (h : Reaches N K db db') (hdb : I db) : I db' := by
  induction h with
  | refl => exact hdb
  | tail _ hs ih => exact hstep hs ih

/-! ## The search for a fork -/

theorem fetchFork_keeps {I : ChainDatabase → Prop} (id : BlockIdType) : Keeps I (fetchFork id) := by
  refine .get_bind fun db _ => ?_
  split
  · exact .pure _
  · exact .throw _

/-- What follows a fetched block starts in a state that has the block. -/
theorem fetchBlock_bind_keeps {I : ChainDatabase → Prop} {α : Type} {id : BlockIdType}
    {f : FullBlock → DbM α} (hf : ∀ b db, I db → db.blockIdToFullBlock.lookup id = some b →
      I (final (f b) db)) :
    Keeps I (fetchBlock id >>= f) := by
  intro db h
  have hrun : (fetchBlock id >>= f) db = EStateM.bind (fetchBlock id) f db := rfl
  cases hb : db.blockIdToFullBlock.lookup id with
  | none =>
    have hfetch : fetchBlock id db = .error .unknownBlock db := by
      rw [fetchBlock, get_bind]
      simp only [hb]
      rfl
    rw [final, hrun, EStateM.bind, hfetch]
    exact h
  | some b =>
    have hfetch : fetchBlock id db = .ok b db := by
      rw [fetchBlock, get_bind]
      simp only [hb]
      rfl
    rw [final, hrun, EStateM.bind, hfetch]
    exact hf b db h hb

theorem forkHistory_keeps {I : ChainDatabase → Prop} : ∀ (fuel : Nat) (id : BlockIdType),
    Keeps I (forkHistory fuel id)
  | 0, _ => .throw _
  | fuel + 1, id => by
    unfold forkHistory
    refine fetchBlock_bind_keeps fun b db h _ => ?_
    have hrest : Keeps I (do
        let data ← fetchFork b.previous
        if !data.isLinked then throw .fcAssert
        else if data.isIncluded then return [id, b.previous]
        else do
          let rest ← forkHistory fuel b.previous
          return id :: rest : DbM (List BlockIdType)) := by
      refine .bind (fetchFork_keeps _) fun data => .ite (.throw _) (.ite (.pure _) ?_)
      exact .bind (forkHistory_keeps fuel _) fun _ => .pure _
    exact Keeps.ite (.pure _) hrest db h

/-- A property that the steps of the search for a fork keep: popping the head, extending it by a
known block, and noting a block from the future. -/
structure SearchKeeps (N : Node) (clock : TimePointSec) (pushed : BlockIdType)
    (I : ChainDatabase → Prop) : Prop where
  known : ∀ db id b, I db → db.blockIdToFullBlock.lookup id = some b →
    N.B.id b.toSignedBlockHeader = id
  pop : Keeps I (popBlockM N)
  extend : ∀ db b, I db →
    db.blockIdToFullBlock.lookup (N.B.id b.toSignedBlockHeader) = some b →
    I (final (extendChainM N clock b) db)
  future : ∀ db, I db → I { db with futureBlocks := db.futureBlocks.insert pushed }

namespace SearchKeeps

variable {clock : TimePointSec} {pushed : BlockIdType} {I : ChainDatabase → Prop}
  (h : SearchKeeps N clock pushed I)

include h

theorem popUntil (id : BlockIdType) : ∀ fuel : Nat, Keeps I (popUntil N id fuel)
  | 0 => .throw _
  | fuel + 1 => .get_bind fun _ _ => .ite (.pure _) (.bind h.pop fun _ => popUntil id fuel)

theorem switchToFork (id : BlockIdType) : Keeps I (switchToFork N clock id) := by
  refine .get_bind fun db _ => .ite (.pure _) (.bind (forkHistory_keeps _ _) fun history =>
    .bind (h.popUntil _ _) fun _ => .forM (fun id => fetchBlock_bind_keeps fun b db hdb hb => ?_) _)
  obtain rfl := h.known db id b hdb hb
  exact h.extend db b hdb hb

theorem tryForks : ∀ ids : List BlockIdType, Keeps I (tryForks N clock pushed ids)
  | [] => .pure _
  | id :: ids => by
    unfold Achain.tryForks
    refine .bind (fetchFork_keeps id) fun data => .ite (tryForks ids) ?_
    refine .bind (.tryCatch (.bind (h.switchToFork id) fun _ => .pure _) fun e => ?_)
      fun _ => .ite (.pure _) (tryForks ids)
    dsimp only
    split_ifs
    · exact .bind (.modify h.future) fun _ => .pure _
    · exact .pure _

theorem tryNumbers : ∀ num : Nat, Keeps I (tryNumbers N clock pushed num)
  | 0 => .pure _
  | num + 1 => .get_bind fun _ _ => .bind (h.tryForks _) fun _ => .ite (.pure _) (tryNumbers num)

end SearchKeeps

/-! ## The computations on the block tree -/

/-- The run so far, and what is known at its end. -/
structure Running (N : Node) (K : FullBlock → Prop) (db₀ db : ChainDatabase) : Prop where
  reaches : Reaches N K db₀ db
  known : Known N K db

namespace Running

/-- A change that leaves the chain and the blocks known alone. -/
theorem same (h : Running N K db₀ db) (hchain : SameChain db db')
    (hblocks : db'.blockIdToFullBlock = db.blockIdToFullBlock) : Running N K db₀ db' := by
  have hknown : Known N K db' := by
    unfold Known
    rw [hblocks]
    exact h.known
  refine ⟨h.reaches.tail (.other hchain ?_ fun _ => hknown), hknown⟩
  intro id hid
  rw [hblocks]
  exact hid

theorem storeFork (id : BlockIdType) (data : BlockForkData) :
    Keeps (Running N K db₀) (storeFork id data) :=
  .modify fun _ h => h.same ⟨rfl, rfl, rfl, rfl⟩ rfl

theorem markDescendants (change : BlockForkData → BlockForkData) :
    ∀ (fuel : Nat) (ids : List BlockIdType),
      Keeps (Running N K db₀) (markDescendants change fuel ids)
  | 0, _ => .pure _
  | _ + 1, [] => .pure _
  | fuel + 1, id :: ids => by
    unfold Achain.markDescendants
    refine .bind (.foldlM (fun next id => ?_) _ _) fun next => markDescendants change fuel _
    exact .bind (fetchFork_keeps id) fun data => .bind (storeFork id _) fun _ => .pure _

theorem markInvalidFrom (ids : List BlockIdType) :
    Keeps (Running N K db₀) (markInvalidFrom ids) :=
  .get_bind fun _ _ => markDescendants _ _ _

theorem markInvalid (id : BlockIdType) : Keeps (Running N K db₀) (markInvalid id) :=
  .bind (fetchFork_keeps id) fun _ => .bind (storeFork id _) fun _ => markInvalidFrom _

theorem markAsUnchecked (id : BlockIdType) : Keeps (Running N K db₀) (markAsUnchecked id) :=
  .bind (fetchFork_keeps id) fun _ => .bind (storeFork id _) fun _ =>
    .get_bind fun _ _ => markDescendants _ _ _

theorem recursiveMarkAsLinked : ∀ (fuel : Nat) (ids : List BlockIdType)
    (best : Nat × BlockIdType × BlockForkData),
      Keeps (Running N K db₀) (recursiveMarkAsLinked fuel ids best)
  | 0, _, _ => .pure _
  | _ + 1, [], _ => .pure _
  | fuel + 1, id :: ids, best => by
    unfold Achain.recursiveMarkAsLinked
    refine .bind (.foldlM (fun acc id => ?_) _ _) fun r => recursiveMarkAsLinked fuel _ _
    refine .bind (fetchFork_keeps id) fun data => .bind (storeFork id _) fun _ => ?_
    exact fetchBlock_bind_keeps fun b db h _ => h

theorem storeAndIndex {b : FullBlock} (hK : K b) :
    Keeps (Running N K db₀) (storeAndIndex (N.B.id b.toSignedBlockHeader) b) := by
  refine .bind (.modify fun db h => ?_) fun _ => .get_bind fun db _ =>
    .bind (storeFork _ _) fun _ => .get_bind fun db _ => ?_
  · have hknown : Known N K { db with
        blockIdToFullBlock := db.blockIdToFullBlock.insert (N.B.id b.toSignedBlockHeader) b
        forkNumberDb := db.forkNumberDb.insert b.blockNum ((db.forkNumberDb.lookup
          b.blockNum).getD [] ++ [N.B.id b.toSignedBlockHeader]) } := by
      intro id b' hb'
      by_cases hid : id = N.B.id b.toSignedBlockHeader
      · subst hid
        rw [Finmap.lookup_insert] at hb'
        obtain rfl := Option.some.inj hb'
        exact ⟨rfl, hK⟩
      · rw [Finmap.lookup_insert_of_ne _ hid] at hb'
        exact h.known id b' hb'
    refine ⟨h.reaches.tail (.other ⟨rfl, rfl, rfl, rfl⟩ ?_ fun _ => hknown), hknown⟩
    intro id hid
    exact Finmap.mem_insert.2 (.inr hid)
  · split
    · refine .bind (storeFork _ _) fun _ => .ite (.pure _) (.ite ?_ ?_)
      · exact .bind (markInvalidFrom _) fun _ => .pure _
      · exact .get_bind fun _ _ => .bind (recursiveMarkAsLinked _ _ _) fun _ => .pure _
    · exact .bind (storeFork _ _) fun _ => .pure _

theorem clearInvalidationOfFutureBlocks (clock : TimePointSec) :
    Keeps (Running N K db₀) (clearInvalidationOfFutureBlocks clock) := by
  refine .get_bind fun db _ => .bind (.filterM (fun id => ?_) _) fun keep =>
    .bind (.modify fun _ h => h.same ⟨rfl, rfl, rfl, rfl⟩ rfl) fun _ => .forM markAsUnchecked keep
  exact fetchBlock_bind_keeps fun b db h _ => h

/-- A block fetched extends the chain or is marked as invalid. -/
theorem extendChainM {clock : TimePointSec} {b : FullBlock} (h : Running N K db₀ db)
    (hb : db.blockIdToFullBlock.lookup (N.B.id b.toSignedBlockHeader) = some b) :
    Running N K db₀ (final (extendChainM N clock b) db) := by
  have hmark : ∀ e, Keeps (Running N K db₀)
      (do Achain.markInvalid (N.B.id b.toSignedBlockHeader); throw e : DbM Unit) :=
    fun e => .bind (markInvalid _) fun _ => .throw e
  rw [Achain.extendChainM, final_tryCatch, DbM.ofExcept]
  cases hext : extendChain N db clock b with
  | ok db' =>
    have hsame : db'.blockIdToFullBlock = db.blockIdToFullBlock := by
      simp only [extendChain, bind_eq_ok, pure_eq_ok] at hext
      obtain ⟨p, -, undo, -, forkDb, -, rfl⟩ := hext
      rfl
    have hknown : Known N K db' := by
      unfold Known
      rw [hsame]
      exact h.known
    exact ⟨h.reaches.tail (.extend clock b hb (h.known _ b hb).2 hext), hknown⟩
  | error e => exact hmark e db h

theorem popBlockM : Keeps (Running N K db₀) (popBlockM N) := by
  intro db h
  unfold final Achain.popBlockM
  cases hpop : popBlock N db with
  | ok db' =>
    have hsame : db'.blockIdToFullBlock = db.blockIdToFullBlock := by
      unfold popBlock at hpop
      split_ifs at hpop
      · rw [ok_eq_ok.1 hpop]
      · simp only [bind_eq_ok, pure_eq_ok] at hpop
        obtain ⟨_, -, _, -, _, -, rfl⟩ := hpop
        rfl
    have hknown : Known N K db' := by
      unfold Known
      rw [hsame]
      exact h.known
    exact ⟨h.reaches.tail (.pop hpop), hknown⟩
  | error e =>
    cases hmark : markIncluded db db.headBlockId false with
    | ok forkDb => exact h.same ⟨rfl, rfl, rfl, rfl⟩ rfl
    | error e => exact h

theorem search (clock : TimePointSec) (pushed : BlockIdType) :
    SearchKeeps N clock pushed (Running N K db₀) where
  known _ id b h hb := (h.known id b hb).1
  pop := popBlockM
  extend _ _ h hb := h.extendChainM hb
  future _ h := h.same ⟨rfl, rfl, rfl, rfl⟩ rfl

/-- A call of `push_block` is a run. -/
theorem pushBlock (clock : TimePointSec) {b : FullBlock} (hK : K b) :
    Keeps (Running N K db₀) (pushBlock N clock b) := by
  refine .get_bind fun db _ => .ite (.throw _) (.ite (.pure _) ?_)
  refine .bind (storeAndIndex hK) fun longest => .ite ?_ (clearInvalidationOfFutureBlocks clock)
  refine fetchBlock_bind_keeps fun b' db h _ => ?_
  exact Keeps.ite ((search clock _).tryNumbers _) (.pure _) db h

end Running

/-- The states of the database after any sequence of calls of `push_block`, whether they return or
throw. -/
inductive Pushed (N : Node) (K : FullBlock → Prop) (db₀ : ChainDatabase) : ChainDatabase → Prop
  | start : Pushed N K db₀ db₀
  | push {db : ChainDatabase} (clock : TimePointSec) (b : FullBlock) : Pushed N K db₀ db → K b →
      Pushed N K db₀ (final (pushBlock N clock b) db)

/-- The state after blocks are pushed at one time. -/
def pushes (N : Node) (clock : TimePointSec) (bs : List FullBlock) (db : ChainDatabase) :
    ChainDatabase :=
  bs.foldl (fun db b => final (pushBlock N clock b) db) db

theorem Pushed.pushes {clock : TimePointSec} : ∀ {bs : List FullBlock} {db : ChainDatabase},
    Pushed N K db₀ db → (∀ b ∈ bs, K b) → Pushed N K db₀ (pushes N clock bs db)
  | [], _, h, _ => h
  | b :: _, _, h, hbs => (h.push clock b (hbs b List.mem_cons_self)).pushes fun b' hb' =>
    hbs b' (List.mem_cons_of_mem b hb')

theorem Pushed.running (h : Pushed N K db₀ db) (h₀ : Known N K db₀) : Running N K db₀ db := by
  induction h with
  | start => exact ⟨.refl, h₀⟩
  | push clock b _ hK ih => exact Running.pushBlock clock hK _ ih

end Achain
