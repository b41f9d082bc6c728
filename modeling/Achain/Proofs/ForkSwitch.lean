import Achain.Proofs.FailedUndo
import Achain.Proofs.Selection

/-!
# Popping down to a fork point

`switch_to_fork` pops the head until it is the last block of the history. Where every block numbered
`0` or `1` is the first block, each pop that returns takes one block off the path from the head to
the genesis block, and the fork point is on it: the loop gets there, or a block on the way has no
undo state and the pop throws. A block numbered `0` may follow any head, though, and `pop_block`
does nothing to such a head, so the loop never leaves it.
-/

namespace Achain

open Table Result Stateful Levels

variable {N : Node} {db db' s : ChainDatabase} {clock : TimePointSec} {b : FullBlock}
  {id a : BlockIdType} {path l q : List BlockIdType} {n : ℕ}

/-! ## The loop -/

/-- The states the pop loop passes through, with the number of blocks popped. -/
inductive PopVisits (N : Node) (a : BlockIdType) : ℕ → ChainDatabase → ChainDatabase → Prop
  | start {db : ChainDatabase} : PopVisits N a 0 db db
  | next {n : ℕ} {db db' s : ChainDatabase} : db.headBlockId ≠ a →
      popBlockSteps N db = .ok () db' → PopVisits N a n db' s → PopVisits N a (n + 1) db s

/-- The loop gets to the block. -/
def PopLoopReaches (N : Node) (a : BlockIdType) (db : ChainDatabase) : Prop :=
  ∃ n s, PopVisits N a n db s ∧ s.headBlockId = a

/-- The loop comes to an end, at the block or at a pop that throws, and each pop that returns takes
one block off the path from the head. -/
structure PopLoopEnds (N : Node) (a : BlockIdType) (db : ChainDatabase) : Prop where
  shortens : ∀ n s s', PopVisits N a n db s → s.headBlockId ≠ a → popBlockSteps N s = .ok () s' →
    ∃ x path, Rooted s.blockIdToFullBlock s.headBlockId (x :: path) ∧
      Rooted s'.blockIdToFullBlock s'.headBlockId path
  ends : ∃ n s, PopVisits N a n db s ∧
    (s.headBlockId = a ∨ ∃ e s', popBlockSteps N s = .error e s')

/-- Every block of the chain above another one has an undo state. -/
def UndoneTo (db : ChainDatabase) (a : BlockIdType) : Prop :=
  ∀ l q, Rooted db.blockIdToFullBlock db.headBlockId (l ++ q) →
    Rooted db.blockIdToFullBlock a q → ∀ x ∈ l, x ∈ db.blockIdToUndoState

/-- A head numbered `0` is never left. -/
theorem PopVisits.stuck (h : PopVisits N a n db s) (hnum : db.headBlockHeader.blockNum = 0) :
    s = db := by
  induction h with
  | start => rfl
  | next _ hrun _ ih =>
    rw [popBlockSteps_bottom hnum] at hrun
    cases hrun
    exact ih hnum

/-! ## What holds while blocks are popped -/

/-- The path from the head, on which every block included is. -/
structure PopInv (N : Node) (db : ChainDatabase) (path : List BlockIdType) : Prop
    extends HeadPath N db path where
  included : ∀ id, db.Included id → id = 0 ∨ id ∈ path

namespace PopInv

theorem of_same (h : PopInv N db path) (htree : ForkTree N db')
    (hnumbered : ∀ id b, db'.blockIdToFullBlock.lookup id = some b → b.Numbered)
    (hsub : ∀ id b, db.blockIdToFullBlock.lookup id = some b →
      db'.blockIdToFullBlock.lookup id = some b)
    (hhead : db'.headBlockId = db.headBlockId) (hincluded : ∀ id, db'.Included id → db.Included id) :
    PopInv N db' path :=
  ⟨h.toHeadPath.of_same htree hnumbered hsub hhead, fun id hid => h.included id (hincluded id hid)⟩

theorem popped {x : BlockIdType} (h : PopInv N db (x :: path)) (hp : Popped db db') :
    PopInv N db' path := by
  obtain ⟨rfl, -⟩ := h.rooted.cons_inv
  obtain ⟨d, -, hfork⟩ := hp.forkDb
  refine ⟨h.toHeadPath.popped hp, fun id hid => ?_⟩
  rcases (ChainInv.included_insert hfork id).1 hid with ⟨-, hfalse⟩ | ⟨hne, hid⟩
  · cases hfalse
  · rcases h.included id hid with hzero | hmem
    · exact .inl hzero
    · exact .inr ((List.mem_cons.1 hmem).resolve_left hne)

theorem blockNum (h : PopInv N db (id :: path)) : db.headBlockHeader.blockNum ≠ 0 := by
  rw [h.header.1]
  exact Nat.succ_ne_zero _

theorem popBlockM (h : PopInv N db path) : ∃ path, PopInv N (final (popBlockM N) db) path := by
  have htree := ForkTree.popBlockM db h.tree
  rcases popBlockM_final N db with hsame | hp | ⟨d, hd, hnum, hfail⟩
  · rw [hsame]
    exact ⟨path, h⟩
  · cases path with
    | nil => exact absurd h.header.1 hp.blockNum
    | cons x path => exact ⟨path, h.popped hp⟩
  · rw [hfail] at htree ⊢
    refine ⟨path, h.of_same htree h.numbered (fun _ _ hb => hb) rfl fun k hk => ?_⟩
    rcases (ChainInv.included_insert rfl k).1 hk with ⟨-, hfalse⟩ | ⟨-, hk⟩
    · cases hfalse
    · exact hk

theorem extendChainM (h : PopInv N db path)
    (hb : db.blockIdToFullBlock.lookup (N.B.id b.toSignedBlockHeader) = some b) :
    ∃ path, PopInv N (final (extendChainM N clock b) db) path := by
  have htree : ForkTree N (final (Achain.extendChainM N clock b) db) := h.tree.extendChainM hb
  rcases extendChainM_cases N db clock b with ⟨db', hext, hrun⟩ | ⟨e, -, hrun⟩
  · rw [final, hrun]
    have hg := extendChain_grown hext
    obtain ⟨d, -, hfork⟩ := hg.forkDb
    refine ⟨_, h.toHeadPath.grown hg hb, fun id hid => ?_⟩
    rw [List.mem_cons]
    rcases (ChainInv.included_insert hfork id).1 hid with ⟨hnew, -⟩ | ⟨-, hid⟩
    · exact .inr (.inl hnew)
    · exact (h.included id hid).imp_right .inr
  · obtain ⟨m, hrun', hm⟩ := extendChainM_error h.tree (Finmap.mem_of_lookup_eq_some hb) hrun
    rw [final, hrun'] at htree ⊢
    exact ⟨path, h.of_same htree h.numbered (fun _ _ hb => hb) rfl
      fun k hk => (ChainInv.included_of_marked hm (fun _ => rfl) k).1 hk⟩

theorem search {pushed : BlockIdType} : SearchKeeps N clock pushed
    fun db => (∃ path, PopInv N db path) ∧ pushed ∈ db.blockIdToFullBlock where
  known db id b h hb := by
    obtain ⟨⟨path, h⟩, -⟩ := h
    exact (h.tree.blockId id b hb).1
  pop db h := by
    obtain ⟨⟨path, h⟩, hmem⟩ := h
    exact ⟨h.popBlockM, h.tree.popBlockM_sameShape.blocks ▸ hmem⟩
  extend db b h hb := by
    obtain ⟨⟨path, h⟩, hmem⟩ := h
    exact ⟨h.extendChainM hb, (h.tree.extendChainM_sameShape clock hb).blocks ▸ hmem⟩
  future db h := by
    obtain ⟨⟨path, h⟩, hmem⟩ := h
    have htree := ((ForkTree.search clock).future db ⟨h.tree, hmem⟩).1
    exact ⟨⟨path, h.of_same htree h.numbered (fun _ _ hb => hb) rfl fun _ hk => hk⟩, hmem⟩

theorem indexed {r : BlockIdType × BlockForkData} (h : PopInv N db path)
    (hi : Indexed db (N.B.id b.toSignedBlockHeader) b r db')
    (hunknown : ¬(db.forkDb.lookup (N.B.id b.toSignedBlockHeader)).any BlockForkData.isKnown)
    (hb : b.Numbered) : PopInv N db' path := by
  have hnotMem := (h.tree.unknown hunknown).2.1
  refine h.of_same (hi.forkTree h.tree rfl hunknown) (fun x b' hb' => ?_) (fun x b' hb' => ?_)
    hi.chain.headBlockId fun k => (ChainInv.indexed_included h.tree hi hunknown k).1
  · by_cases hx : x = N.B.id b.toSignedBlockHeader
    · rw [hx, hi.mem, Option.some_inj] at hb'
      exact hb' ▸ hb
    · rw [hi.block_of_ne hx] at hb'
      exact h.numbered x b' hb'
  · rw [hi.block_of_ne]
    · exact hb'
    · rintro rfl
      exact hnotMem (Finmap.mem_of_lookup_eq_some hb')

theorem clearInvalidation (h : PopInv N db path) :
    PopInv N (final (clearInvalidationOfFutureBlocks clock) db) path := by
  obtain ⟨m, hrun, hm⟩ := clearInvalidation_ok h.tree clock
  have htree := ForkTree.clearInvalidation clock db h.tree
  rw [final, hrun] at htree ⊢
  exact h.of_same htree h.numbered (fun _ _ hb => hb) rfl
    fun k => (ChainInv.included_of_marked hm (fun _ => rfl) k).1

theorem pushBlock (h : PopInv N db path) (clock : TimePointSec) (hb : b.Numbered) :
    ∃ path, PopInv N (final (pushBlock N clock b) db) path := by
  rw [final]
  have hpushing := pushBlock_pushing h.tree clock b
  generalize Achain.pushBlock N clock b db = result at hpushing ⊢
  cases hpushing with
  | old => exact ⟨path, h⟩
  | known => exact ⟨path, h⟩
  | unlinked hplaces _ hi _ => exact ⟨path, (h.indexed hi hplaces.unknown hb).clearInvalidation⟩
  | low hplaces _ hi => exact ⟨path, h.indexed hi hplaces.unknown hb⟩
  | search hplaces _ hi _ _ _ =>
    exact (search.tryNumbers _ _ ⟨⟨path, h.indexed hi hplaces.unknown hb⟩,
      Finmap.mem_of_lookup_eq_some hi.mem⟩).1

/-- The states in which a search switches to a fork. -/
theorem switching (h : PopInv N db path) (hb : b.Numbered)
    (hcall : PushCalls N clock b db s (.switchToFork id)) : ∃ path, PopInv N s path := by
  cases hcall with
  | search hplaces hrun hlink hlongest hlt hc =>
    obtain ⟨r', db'', hrun', hi⟩ := storeAndIndex_indexed h.tree rfl hplaces.unknown
    rw [hrun] at hrun'
    cases hrun'
    have hsearch : SearchKeeps N clock (N.B.id b.toSignedBlockHeader) _ := search
    have hkeeps : SwitchKeeps N clock (N.B.id b.toSignedBlockHeader) (fun _ _ => True)
        fun db => (∃ path, PopInv N db path) ∧ N.B.id b.toSignedBlockHeader ∈ db.blockIdToFullBlock :=
      ⟨fun db id _ hI _ _ _ _ => hsearch.switchToFork id db hI, hsearch.future⟩
    rcases hkeeps.numberCalls hc ⟨⟨path, h.indexed hi hplaces.unknown hb⟩,
      Finmap.mem_of_lookup_eq_some hi.mem⟩ fun _ _ _ => trivial with
      ⟨_, -, hI⟩ | ⟨_, _, -, -, hswitch⟩
    · exact hI.1
    · cases hswitch

/-! ## The end of the loop -/

/-- A head above the fork point is popped where it has an undo state, and the pop throws where it has
none. -/
theorem pop_step (h : PopInv N db (id :: path)) :
    (db.headBlockId ∈ db.blockIdToUndoState ∧
      ∃ db', popBlockSteps N db = .ok () db' ∧ Popped db db') ∨
      (db.headBlockId ∉ db.blockIdToUndoState ∧ ∃ e s', popBlockSteps N db = .error e s') := by
  obtain ⟨rfl, -, b, hb, -⟩ := h.rooted.cons_inv
  obtain ⟨d, hd⟩ := Finmap.mem_iff.1 (h.tree.stored _ (Finmap.mem_of_lookup_eq_some hb))
  obtain ⟨header, hheader⟩ := h.tree.headerOf_previous
  cases hundo : db.blockIdToUndoState.lookup db.headBlockId with
  | none => exact .inr ⟨Finmap.lookup_eq_none.1 hundo, _, _, popBlockSteps_noUndo h.blockNum hd hundo⟩
  | some undo =>
    refine .inl ⟨Finmap.mem_of_lookup_eq_some hundo, _,
      popBlockSteps_done h.blockNum hd hundo hheader, ?_⟩
    exact ⟨h.blockNum, ⟨d, hd, rfl⟩, Finmap.mem_of_lookup_eq_some hundo, rfl, rfl, rfl, rfl, rfl,
      hheader, rfl⟩

/-- From a state whose head is above the fork point the loop gets there exactly if the blocks on the
way have undo states, and comes to an end in any case. -/
theorem loop : ∀ {l : List BlockIdType}
    {db : ChainDatabase}, PopInv N db (l ++ q) → Rooted db.blockIdToFullBlock a q →
      PopLoopEnds N a db ∧ (PopLoopReaches N a db ↔ ∀ x ∈ l, x ∈ db.blockIdToUndoState)
  | [], db, h, ha => by
    have hhead : db.headBlockId = a := h.rooted.id_unique ha
    refine ⟨⟨fun n s s' hv hne _ => ?_, 0, db, .start, .inl hhead⟩, ?_⟩
    · cases hv with
      | start => exact absurd hhead hne
      | next hne' => exact absurd hhead hne'
    · exact iff_of_true ⟨0, db, .start, hhead⟩ fun x hx => absurd hx List.not_mem_nil
  | x :: l, db, h, ha => by
    obtain ⟨rfl, hne0, b, hb, hrest⟩ := h.rooted.cons_inv
    have hne : db.headBlockId ≠ a := by
      rintro rfl
      have hlen := congrArg List.length (h.rooted.unique ha)
      rw [List.length_append, List.length_cons] at hlen
      omega
    rcases h.pop_step with ⟨hundo, db', hrun, hp⟩ | ⟨hundo, e, s', hrun⟩
    · obtain ⟨hends, hreaches⟩ := loop (h.popped hp) (hp.blocks ▸ ha)
      have hvisits : ∀ n s, PopVisits N a n db s →
          (n = 0 ∧ s = db) ∨ ∃ m, n = m + 1 ∧ PopVisits N a m db' s := by
        intro n s hv
        cases hv with
        | start => exact .inl ⟨rfl, rfl⟩
        | next _ hrun' hv =>
          rw [hrun] at hrun'
          cases hrun'
          exact .inr ⟨_, rfl, hv⟩
      refine ⟨⟨fun n s s' hv hs hrun' => ?_, ?_⟩, ?_⟩
      · rcases hvisits n s hv with ⟨-, rfl⟩ | ⟨m, -, hv⟩
        · rw [hrun] at hrun'
          cases hrun'
          exact ⟨_, _, h.rooted, (h.popped hp).rooted⟩
        · exact hends.shortens m s s' hv hs hrun'
      · obtain ⟨n, s, hv, hend⟩ := hends.ends
        exact ⟨n + 1, s, .next hne hrun hv, hend⟩
      · rw [List.forall_mem_cons]
        constructor
        · rintro ⟨n, s, hv, hs⟩
          rcases hvisits n s hv with ⟨-, rfl⟩ | ⟨m, -, hv⟩
          · exact absurd hs hne
          · exact ⟨hundo, hp.undoStates ▸ hreaches.1 ⟨m, s, hv, hs⟩⟩
        · rintro ⟨-, hall⟩
          obtain ⟨m, s, hv, hs⟩ := hreaches.2 (hp.undoStates ▸ hall)
          exact ⟨m + 1, s, .next hne hrun hv, hs⟩
    · have hvisits : ∀ n s, PopVisits N a n db s → s = db := by
        intro n s hv
        cases hv with
        | start => rfl
        | next _ hrun' =>
          rw [hrun] at hrun'
          cases hrun'
      refine ⟨⟨fun n s s'' hv _ hrun' => ?_, 0, db, .start, .inr ⟨e, s', hrun⟩⟩, ?_⟩
      · rw [hvisits n s hv, hrun] at hrun'
        cases hrun'
      · refine iff_of_false ?_ fun hall => hundo (hall _ (List.mem_cons_self ..))
        rintro ⟨n, s, hv, hs⟩
        rw [hvisits n s hv] at hs
        exact hne hs

theorem ends (h : PopInv N db path) {history : List BlockIdType} (hist : History db id history) :
    PopLoopEnds N (history.getLastD 0) db ∧
      (PopLoopReaches N (history.getLastD 0) db ↔ UndoneTo db (history.getLastD 0)) := by
  have hlast : history.getLastD 0 = 0 ∨ db.Included (history.getLastD 0) := hist.last_included
  have hmem : history.getLastD 0 = 0 ∨ history.getLastD 0 ∈ path :=
    hlast.elim .inl (h.included _)
  obtain ⟨l, q, rfl, ha⟩ : ∃ l q, path = l ++ q ∧
      Rooted db.blockIdToFullBlock (history.getLastD 0) q := by
    rcases hmem with hzero | hmem
    · rw [hzero]
      exact ⟨path, [], (List.append_nil path).symm, .genesis⟩
    · obtain ⟨l, q, hpath, hr⟩ := h.rooted.of_mem hmem
      exact ⟨l, _, hpath, hr⟩
  obtain ⟨hends, hreaches⟩ := loop h ha
  refine ⟨hends, hreaches.trans ⟨fun hall l' q' hhead hq x hx => ?_, fun hall => hall l q h.rooted ha⟩⟩
  obtain rfl := hq.unique ha
  rw [List.append_cancel_right (hhead.unique h.rooted)] at hx
  exact hall x hx

end PopInv

theorem initializeGenesis_popInv {g : GenesisState} {on : Bool}
    (h : initializeGenesis N.P g on = .ok db) : PopInv N db [] := by
  have hchain := initializeGenesis_chainInv h
  exact ⟨hchain.headPath, fun id hid => (hchain.included id).1 hid⟩

/-- The states between two calls of `push_block`, and those in which a call switches to a fork, where
every block pushed satisfies `K`. -/
inductive Occurs (N : Node) (K : FullBlock → Prop) (db₀ : ChainDatabase) : ChainDatabase → Prop
  | between {db : ChainDatabase} : Pushed N K db₀ db → Occurs N K db₀ db
  | switching {db s : ChainDatabase} {clock : TimePointSec} {b : FullBlock} {id : BlockIdType} :
      Pushed N K db₀ db → K b → PushCalls N clock b db s (.switchToFork id) → Occurs N K db₀ s

theorem Pushed.popInv {db₀ : ChainDatabase} (h : Pushed N FullBlock.Numbered db₀ db)
    (h₀ : ∃ path, PopInv N db₀ path) : ∃ path, PopInv N db path := by
  induction h with
  | start => exact h₀
  | push clock b _ hb ih =>
    obtain ⟨path, h⟩ := ih
    exact h.pushBlock clock hb

theorem Occurs.popInv {db₀ : ChainDatabase} (h : Occurs N FullBlock.Numbered db₀ s)
    (h₀ : ∃ path, PopInv N db₀ path) : ∃ path, PopInv N s path := by
  cases h with
  | between hrun => exact hrun.popInv h₀
  | switching hrun hb hcall =>
    obtain ⟨path, h⟩ := hrun.popInv h₀
    exact h.switching hb hcall

/-- Where the blocks numbered `0` or `1` are first blocks, the pop loop of a switch to any linked
block comes to an end, and gets to the fork point exactly if the blocks above it have undo states. -/
theorem switch_pops_end (N : Node) (g : GenesisState) (on : Bool) (db₀ s : ChainDatabase)
    (h₀ : initializeGenesis N.P g on = .ok db₀) (hoccurs : Occurs N FullBlock.Numbered db₀ s)
    (id : BlockIdType) (hne : id ≠ 0) (hlinked : s.Linked id) :
    ∃ history, forkHistory (s.forkDepth + 1) id s = .ok history s ∧
      PopLoopEnds N (history.getLastD 0) s ∧
      (PopLoopReaches N (history.getLastD 0) s ↔ UndoneTo s (history.getLastD 0)) := by
  obtain ⟨path, h⟩ := hoccurs.popInv ⟨[], initializeGenesis_popInv h₀⟩
  obtain ⟨p, hr⟩ := h.tree.rooted id hlinked
  obtain ⟨history, hhist⟩ := forkHistory_of_linked h.tree hr hne hlinked
    ((h.tree.path_length_le hr).le.trans (Nat.le_succ s.forkDepth))
  exact ⟨history, hhist, h.ends (forkHistory_history hhist)⟩

/-- Two first blocks at different times: switching from one to the other. -/
theorem switch_pops_end_two_first :
    ∃ db₀ s history, initializeGenesis Node.plain.P .plain false = .ok db₀ ∧
      Pushed .plain FullBlock.Numbered db₀ s ∧ s.headBlockId = 1010 ∧
      forkHistory (s.forkDepth + 1) 1020 s = .ok history s ∧
      PopLoopEnds .plain (history.getLastD 0) s ∧
      (PopLoopReaches .plain (history.getLastD 0) s ↔ UndoneTo s (history.getLastD 0)) := by
  obtain ⟨db₀, s, h₀, hpushed, hend⟩ := exists_pushed (N := .plain) (g := .plain) (K := FullBlock.Numbered)
    (p := fun db => db.headBlockId == 1010 && (db.forkDb.lookup 1020).any BlockForkData.isLinked)
    100 [.plain 1 0 10 [], .plain 1 0 20 []]
    (by simp [FullBlock.Numbered, FullBlock.plain]) (by decide +kernel)
  simp only [Bool.and_eq_true, beq_iff_eq, Option.any_eq_true] at hend
  obtain ⟨hhead, d, hd, hlinked⟩ := hend
  obtain ⟨history, hrun, hloop⟩ := switch_pops_end .plain .plain false db₀ s h₀ (.between hpushed)
    1020 (by decide) ⟨d, hd, hlinked⟩
  exact ⟨db₀, s, history, h₀, hpushed, hhead, hrun, hloop⟩

/-- A block numbered `0` and one numbered `1` after it, then another first block: a switch to that
one pops the second block, and then the block numbered `0` without end. -/
theorem zero_number_never_left :
    ∃ db₀ s history, initializeGenesis Node.plain.P .plain false = .ok db₀ ∧
      Pushed .plain (fun _ => True) db₀ s ∧ s.Linked 1030 ∧
      forkHistory (s.forkDepth + 1) 1030 s = .ok history s ∧
      ¬PopLoopReaches .plain (history.getLastD 0) s ∧
      ¬PopLoopEnds .plain (history.getLastD 0) s := by
  obtain ⟨db₀, s, h₀, hpushed, hend⟩ := exists_pushed (N := .plain) (g := .plain) (K := fun _ => True)
    (p := fun db =>
      db.headBlockId == 1011020 && (db.forkDb.lookup 1030).any BlockForkData.isLinked &&
        yields (forkHistory (db.forkDepth + 1) 1030 db) (fun history _ => history.getLastD 0 == 0) &&
        yields (popBlockSteps .plain db) fun _ db' =>
          db'.headBlockId == 1010 && db'.headBlockHeader.blockNum == 0)
    100 [.plain 0 0 10 [], .plain 1 1010 20 [], .plain 1 0 30 []] (fun _ _ => trivial)
    (by decide +kernel)
  simp only [Bool.and_eq_true, beq_iff_eq, Option.any_eq_true] at hend
  obtain ⟨⟨⟨hhead, d, hd, hlinked⟩, hlast⟩, hpop⟩ := hend
  rcases @forkHistory_cases s (s.forkDepth + 1) 1030 with ⟨e, he⟩ | ⟨history, hhist, -⟩
  · rw [he] at hlast
    cases hlast
  rw [hhist] at hlast
  have hlast : history.getLastD 0 = 0 := by simpa [yields] using hlast
  obtain ⟨u, s', hrun, hpop⟩ := exists_of_yields hpop
  simp only [Bool.and_eq_true, beq_iff_eq] at hpop
  obtain ⟨hhead', hnum⟩ := hpop
  -- The first state is left by one pop, and the one after it never.
  have hvisits : ∀ n x, PopVisits .plain 0 n s x → x.headBlockId ≠ 0 ∧
      ∃ x', popBlockSteps .plain x = .ok () x' := by
    intro n x hv
    cases hv with
    | start => exact ⟨hhead ▸ by decide, s', hrun⟩
    | next _ hrun' hv =>
      rw [hrun] at hrun'
      cases hrun'
      obtain rfl := hv.stuck hnum
      exact ⟨hhead' ▸ by decide, _, popBlockSteps_bottom hnum⟩
  refine ⟨db₀, s, history, h₀, hpushed, ⟨d, hd, hlinked⟩, hhist, ?_, ?_⟩
  · rw [hlast]
    rintro ⟨n, x, hv, hx⟩
    exact (hvisits n x hv).1 hx
  · rw [hlast]
    rintro ⟨-, n, x, hv, hx | ⟨e, x', hx⟩⟩
    · exact (hvisits n x hv).1 hx
    · obtain ⟨x'', hx''⟩ := (hvisits n x hv).2
      rw [hx] at hx''
      cases hx''

end Achain
