import Achain.Proofs.FailedUndo
import Achain.Proofs.ForkFlags

/-!
# A block that is rejected

While a block is validated the undo store, the note of the pay and the extend status are written,
and each check may throw. Whatever throws, the chain is as it was: only the block and everything
after it become invalid. The writes one by one and the computation that changes the database only
where it returns come to the same.
-/

namespace Achain

open Table Result Stateful Levels MemberM

variable {N : Node} {clock : TimePointSec} {db : ChainDatabase} {b : FullBlock} {e : Exn}

/-! ## Computations that read the database -/

section Reads

variable {α β : Type} {m : ChainMembers}

/-- The computation returns and throws as the other one does, and leaves the database as it is. -/
def Reads (x : MemberM α) (m : ChainMembers) (y : Except Exn α) : Prop :=
  match y with
  | .ok a => ∃ m', x m = .ok a m' ∧ m'.db = m.db
  | .error e => ∃ m', x m = .error e m' ∧ m'.db = m.db

namespace Reads

theorem reads (f : ChainDatabase → Except Exn α) : Reads (MemberM.reads f) m (f m.db) := by
  unfold Reads MemberM.reads
  cases f m.db with
  | ok a => exact ⟨m, rfl, rfl⟩
  | error e => exact ⟨m, rfl, rfl⟩

theorem pure (a : α) : Reads (pure a : MemberM α) m (.ok a) := ⟨m, rfl, rfl⟩

theorem bind {x : MemberM α} {k : α → MemberM β} {y : Except Exn α} {g : α → Except Exn β}
    (hx : Reads x m y) (hk : ∀ a m', m'.db = m.db → Reads (k a) m' (g a)) :
    Reads (x >>= k) m (y >>= g) := by
  cases y with
  | error e =>
    obtain ⟨m', hrun, hdb⟩ := hx
    exact ⟨m', bind_of_error hrun, hdb⟩
  | ok a =>
    obtain ⟨m', hrun, hdb⟩ := hx
    have hrest := hk a m' hdb
    rw [ok_bind]
    unfold Reads at hrest ⊢
    cases hg : g a with
    | ok c =>
      rw [hg] at hrest
      obtain ⟨m'', hrun', hdb'⟩ := hrest
      exact ⟨m'', (bind_of_ok hrun).trans hrun', hdb'.trans hdb⟩
    | error e =>
      rw [hg] at hrest
      obtain ⟨m'', hrun', hdb'⟩ := hrest
      exact ⟨m'', (bind_of_ok hrun).trans hrun', hdb'.trans hdb⟩

theorem get_bind {k : ChainMembers → MemberM β} {y : Except Exn β} (hk : Reads (k m) m y) :
    Reads (get >>= k) m y := hk

/-- A member other than the database is written. -/
theorem modify_bind {u : ChainMembers → ChainMembers} {k : PUnit → MemberM β} {y : Except Exn β}
    (hu : (u m).db = m.db) (hk : Reads (k ()) (u m) y) : Reads (modify u >>= k) m y := by
  unfold Reads at hk ⊢
  cases y with
  | ok a =>
    obtain ⟨m', hrun, hdb⟩ := hk
    exact ⟨m', hrun, hdb.trans hu⟩
  | error e =>
    obtain ⟨m', hrun, hdb⟩ := hk
    exact ⟨m', hrun, hdb.trans hu⟩

end Reads

end Reads

theorem payDelegateSteps_reads (signee : PublicKeyType) (l : Ledger) (m : ChainMembers) :
    Reads (payDelegateSteps N signee l) m (payDelegate N m.db signee l) := by
  refine .bind (.reads _) fun base m₁ h₁ => ?_
  rw [← h₁]
  refine .bind (.reads _) fun delegate m₂ h₂ => ?_
  refine .bind (.reads _) fun entry m₃ h₃ => ?_
  refine .bind (.reads _) fun _ m₄ h₄ => ?_
  refine .get_bind ?_
  rw [← h₂, ← h₃, ← h₄]
  refine .bind (.reads _) fun _ m₅ h₅ => ?_
  refine .modify_bind rfl ?_
  exact .bind (.reads _) fun _ m₆ h₆ => .pure _

/-- Saving the undo state throws before the first of its writes. -/
theorem saveUndoStateSteps_run (p : PendingChainState) :
    saveUndoStateSteps N b p db = match saveUndoState N db b p with
      | .ok undo => .ok () { db with blockIdToUndoState := undo }
      | .error e => .error e db := by
  unfold saveUndoStateSteps saveUndoState
  by_cases hmin : b.blockNum < N.config.minUndoBlock
  · rw [if_pos hmin, if_pos hmin]
    rfl
  rw [if_neg hmin, if_neg hmin]
  unfold ChainDatabase.recentUndoStates
  dsimp only
  by_cases hmax : maxUndoHistory < b.blockNum
  · rw [if_pos hmax, if_pos hmax]
    cases hold : db.blockNumToId.lookup (b.blockNum - maxUndoHistory) with
    | none =>
      rw [get_bind]
      simp only [hold]
      rfl
    | some old =>
      rw [get_bind]
      simp only [hold]
      rfl
  · rw [if_neg hmax, if_neg hmax]
    rfl

/-! ## The validation -/

theorem evaluateBlockSteps_reads (m : ChainMembers) :
    Reads (evaluateBlockSteps N clock b) m (evaluateBlock N m.db clock b) := by
  refine .bind (.reads _) fun signee m₁ h₁ => ?_
  rw [← h₁]
  refine .bind (.reads _) fun _ m₂ h₂ => ?_
  refine .get_bind ?_
  rw [← h₂]
  refine .bind (.reads _) fun l m₃ h₃ => ?_
  rw [← h₃]
  refine .bind (.reads _) fun p m₄ h₄ => ?_
  rw [← h₄]
  refine .bind (payDelegateSteps_reads _ _ _) fun l m₅ h₅ => ?_
  refine .get_bind ?_
  rw [← h₅]
  exact .pure _

/-- What a block leads to, with the undo states there are then. -/
def ChainDatabase.accepted (N : Node) (db : ChainDatabase) (clock : TimePointSec) (b : FullBlock) :
    Except Exn (PendingChainState × Tab BlockIdType PendingChainState) := do
  let p ← evaluateBlock N db clock b
  let undo ← saveUndoState N db b p
  return (p, undo)

/-- The validation returns where the block can be evaluated and its undo state saved; where it
throws, the database is as it was. -/
theorem validateBlock_run (m : ChainMembers) :
    match m.db.accepted N clock b with
    | .ok r => ∃ m', validateBlock N clock b m = .ok r.1 m' ∧
        m'.db = { m.db with blockIdToUndoState := r.2 }
    | .error e => ∃ m', validateBlock N clock b m = .error e m' ∧ m'.db = m.db := by
  have hread : Reads (evaluateBlockSteps N clock b) m (evaluateBlock N m.db clock b) :=
    evaluateBlockSteps_reads m
  unfold ChainDatabase.accepted
  unfold Reads at hread
  cases hp : evaluateBlock N m.db clock b with
  | error e =>
    rw [hp] at hread
    obtain ⟨m', hrun, hdb⟩ := hread
    exact ⟨m', bind_of_error hrun, hdb⟩
  | ok p =>
    rw [hp] at hread
    obtain ⟨m', hrun, hdb⟩ := hread
    have hsave : saveUndoStateSteps N b p m'.db = _ := saveUndoStateSteps_run p
    rw [ok_bind, ← hdb]
    cases hundo : saveUndoState N m'.db b p with
    | error e =>
      rw [hundo] at hsave
      refine ⟨m', (bind_of_ok hrun).trans (bind_of_error ?_), rfl⟩
      rw [onDatabase, hsave]
    | ok undo =>
      rw [hundo] at hsave
      have hset : onDatabase (saveUndoStateSteps N b p) m' =
          .ok () { m' with db := { m'.db with blockIdToUndoState := undo } } := by
        rw [onDatabase, hsave]
      refine ⟨{ m' with
        db := { m'.db with blockIdToUndoState := undo }
        blockExtendStatus := some (N.B.id b.toSignedBlockHeader, 1) }, ?_, rfl⟩
      exact (bind_of_ok hrun).trans ((bind_of_ok hset).trans rfl)

/-! ## The whole of `extend_chain` -/

theorem extendChain_rejected (h : db.accepted N clock b = .error e) :
    extendChain N db clock b = .error e := by
  unfold ChainDatabase.accepted at h
  unfold extendChain
  cases hp : evaluateBlock N db clock b with
  | error e' =>
    rw [hp, error_bind] at h
    rw [Except.error.inj h]
    rfl
  | ok p =>
    rw [hp, ok_bind] at h
    dsimp only
    rw [ok_bind]
    cases hundo : saveUndoState N db b p with
    | error e' =>
      rw [hundo, error_bind] at h
      rw [Except.error.inj h]
      rfl
    | ok undo =>
      rw [hundo] at h
      cases h

/-- The database with an accepted block on it, before the purge. -/
def ChainDatabase.committed (N : Node) (db : ChainDatabase) (b : FullBlock) (p : PendingChainState)
    (d : BlockForkData) : ChainDatabase :=
  { db with
    tables := db.tables.applyChanges N.P p
    forkDb := db.forkDb.insert (N.B.id b.toSignedBlockHeader)
      { d with isIncluded := true, isValid := some true }
    headBlockId := N.B.id b.toSignedBlockHeader
    headBlockHeader := b.toSignedBlockHeader
    blockNumToId := db.blockNumToId.insert b.blockNum (N.B.id b.toSignedBlockHeader) }

variable {d : BlockForkData} {r : PendingChainState × Tab BlockIdType PendingChainState}

theorem extendChain_accepted (h : db.accepted N clock b = .ok r)
    (hd : db.forkDb.lookup (N.B.id b.toSignedBlockHeader) = some d) :
    extendChain N db clock b =
      let db := { db with blockIdToUndoState := r.2 }.committed N b r.1 d
      .ok { db with tables := db.tables.purge (db.now clock) } := by
  simp only [ChainDatabase.accepted, bind_eq_ok, pure_eq_ok] at h
  obtain ⟨p, hp, undo, hundo, rfl⟩ := h
  unfold extendChain markIncluded
  simp only [hp, hundo, hd, ok_bind, orThrow_some]
  rfl

theorem commitBlock_run (p : PendingChainState)
    (hd : db.forkDb.lookup (N.B.id b.toSignedBlockHeader) = some d) :
    commitBlock N b p db = .ok () (db.committed N b p d) := by
  have hmark : DbM.ofExcept (fun db => do
      let forkDb ← markIncluded db (N.B.id b.toSignedBlockHeader) true
      return { db with forkDb := forkDb })
        { db with tables := db.tables.applyChanges N.P p } =
      .ok () { db with
        tables := db.tables.applyChanges N.P p
        forkDb := db.forkDb.insert (N.B.id b.toSignedBlockHeader)
          { d with isIncluded := true, isValid := some true } } := by
    refine ofExcept_of_ok ?_
    rw [markIncluded, hd]
    rfl
  exact (bind_of_ok hmark).trans rfl

/-- Where the validation throws, the block is marked as invalid and the exception thrown on. -/
theorem extendChainSteps_rejected {m m' : ChainMembers} {db' : ChainDatabase}
    (hrun : validateBlock N clock b m = .error e m') (hdb : m'.db = m.db)
    (hmark : markInvalid (N.B.id b.toSignedBlockHeader) m.db = .ok () db') :
    ∃ m'', extendChainSteps N clock b m = .error e m'' ∧ m''.db = db' := by
  have hset : onDatabase (markInvalid (N.B.id b.toSignedBlockHeader)) m' =
      .ok () { m' with db := db' } := by
    rw [onDatabase, hdb, hmark]
  refine ⟨{ m' with
    db := db'
    blockExtendStatus := some (N.B.id b.toSignedBlockHeader, 2) }, ?_, rfl⟩
  refine bind_of_error ((tryCatch_of_error (bind_of_error hrun)).trans ?_)
  exact (bind_of_ok hset).trans rfl

/-- Where the validation returns, the block is written and the chain extended. -/
theorem extendChainSteps_accepted {m m' : ChainMembers} {p : PendingChainState}
    (hrun : validateBlock N clock b m = .ok p m')
    (hd : m'.db.forkDb.lookup (N.B.id b.toSignedBlockHeader) = some d) :
    ∃ m'', extendChainSteps N clock b m = .ok () m'' ∧
      m''.db = let db := m'.db.committed N b p d
        { db with tables := db.tables.purge (db.now clock) } := by
  have hset : onDatabase (commitBlock N b p) m' =
      .ok () { m' with db := m'.db.committed N b p d } := by
    rw [onDatabase, commitBlock_run p hd]
  refine ⟨_, (bind_of_ok (tryCatch_of_ok ((bind_of_ok hrun).trans
    ((bind_of_ok hset).trans rfl)))).trans rfl, rfl⟩

/-- On the database of a tree of blocks the writes one by one come to what `extendChainM` does. -/
theorem extendChainSteps_eq {m : ChainMembers} (h : ForkTree N m.db)
    (hid : N.B.id b.toSignedBlockHeader ∈ m.db.blockIdToFullBlock) :
    match extendChainM N clock b m.db with
    | .ok _ db' => ∃ m', extendChainSteps N clock b m = .ok () m' ∧ m'.db = db'
    | .error e db' => ∃ m', extendChainSteps N clock b m = .error e m' ∧ m'.db = db' := by
  have hval := @validateBlock_run N clock b m
  obtain ⟨d, hd⟩ := Finmap.mem_iff.1 (h.stored _ hid)
  cases hacc : m.db.accepted N clock b with
  | ok r =>
    rw [hacc] at hval
    obtain ⟨m', hrun, hdb⟩ := hval
    have hd' : m'.db.forkDb.lookup (N.B.id b.toSignedBlockHeader) = some d := by
      rw [hdb]
      exact hd
    obtain ⟨m'', hsteps, hdb'⟩ := extendChainSteps_accepted hrun hd'
    rw [hdb] at hdb'
    have hext := extendChain_accepted hacc hd
    rcases extendChainM_cases N m.db clock b with ⟨db', hext', hM⟩ | ⟨e, hext', -⟩
    · rw [hM]
      rw [hext, ok_eq_ok] at hext'
      exact ⟨m'', hsteps, hdb'.trans hext'⟩
    · rw [hext] at hext'
      cases hext'
  | error e =>
    rw [hacc] at hval
    obtain ⟨m', hrun, hdb⟩ := hval
    have hext := extendChain_rejected hacc
    rcases extendChainM_cases N m.db clock b with ⟨db', hext', -⟩ | ⟨e', hext', hM⟩
    · rw [hext] at hext'
      cases hext'
    · rw [hext] at hext'
      cases hext'
      obtain ⟨t, hmark, -⟩ := markInvalid_ok h (h.stored _ hid)
      rw [hM.trans ((bind_of_ok hmark).trans rfl)]
      exact extendChainSteps_rejected hrun hdb hmark

/-! ## The calls of a search -/

section Calls

variable {id : BlockIdType} {s : ChainDatabase} {b' : FullBlock}

/-- The block that `extend_chain` is called on is known and linked, in a tree of blocks. -/
structure Extending (N : Node) (s : ChainDatabase) (b : FullBlock) : Prop where
  tree : ForkTree N s
  block : s.blockIdToFullBlock.lookup (N.B.id b.toSignedBlockHeader) = some b
  linked : s.Linked (N.B.id b.toSignedBlockHeader)

theorem ExtendCalled.extending {ids : List BlockIdType} (h : ExtendCalled N clock ids db s b)
    (htree : ForkTree N db) (hlinked : ∀ x ∈ ids, db.Linked x) : Extending N s b := by
  induction h with
  | @here id ids db b hb =>
    obtain rfl := (htree.blockId id b hb).1
    exact ⟨htree, hb, hlinked _ (List.mem_cons_self ..)⟩
  | @next id ids db db' s b b' hb hrun _ ih =>
    obtain rfl := (htree.blockId id b hb).1
    have htree' : ForkTree N (final (extendChainM N clock b) db) := htree.extendChainM hb
    have hshape := htree.extendChainM_sameShape clock hb
    rw [final, hrun] at htree' hshape
    exact ih htree' fun x hx => (hshape.linked x).2 (hlinked x (List.mem_cons_of_mem _ hx))

theorem SwitchCalls.extending (h : SwitchCalls N clock id db s (.extendChain b))
    (htree : ForkTree N db) (hlinked : db.Linked id) : Extending N s b := by
  cases h with
  | @extend history db' _ _ hne hhist hpops hcalled =>
    have htree' := ForkTree.popUntil (history.getLastD 0) (db.forkDepth + 1) db htree
    have hshape := htree.popUntil_sameShape (history.getLastD 0) (db.forkDepth + 1)
    rw [final, hpops] at htree' hshape
    refine hcalled.extending htree' fun x hx => (hshape.linked x).2 ?_
    exact (forkHistory_history hhist).linked hlinked x (List.mem_reverse.1 hx)

theorem ForkCalls.linked {pushed : BlockIdType} {ids : List BlockIdType} {c : ChainCall}
    (h : ForkCalls N clock pushed ids db s c) (hc : c = .switchToFork id) : s.Linked id := by
  induction h with
  | switch hd hlink =>
    cases hc
    exact linked_of_canLink hd hlink
  | inside hd hlink hs =>
    subst hc
    cases hs
  | skip _ _ _ ih => exact ih hc
  | failed _ _ _ _ ih => exact ih hc

theorem NumberCalls.linked {pushed : BlockIdType} {num : Nat} {c : ChainCall}
    (h : NumberCalls N clock pushed num db s c) (hc : c = .switchToFork id) : s.Linked id := by
  induction h with
  | here hf => exact hf.linked hc
  | next _ _ ih => exact ih hc

/-- A block is switched to where it is linked. -/
def switchedLinked (s : ChainDatabase) (c : ChainCall) : Prop :=
  ∀ id, c = .switchToFork id → s.Linked id

theorem PushCalls.extending (h : PushCalls N clock b db s (.extendChain b'))
    (htree : ForkTree N db) : Extending N s b' := by
  cases h with
  | search hplaces hrun hlink hlongest hlt hc =>
    obtain ⟨r', db'', hrun', hi⟩ := storeAndIndex_indexed htree rfl hplaces.unknown
    rw [hrun] at hrun'
    cases hrun'
    have hswitches := @ForkTree.switches N clock _ _
      (Finmap.mem_of_lookup_eq_some hi.mem)
    have hkeeps : SwitchKeeps N clock (N.B.id b.toSignedBlockHeader) switchedLinked _ :=
      ⟨fun db id data hI hd hl _ hcalls => hswitches.switch db id data hI hd hl trivial
        fun _ _ _ => trivial, hswitches.future⟩
    rcases hkeeps.numberCalls hc ⟨hi.forkTree htree rfl hplaces.unknown, rfl⟩
      fun s c hs id hid => hs.linked hid with ⟨id, hid, -⟩ | ⟨db', id, hI, hlinked, hs⟩
    · cases hid
    · exact hs.extending hI.1 (hlinked id rfl)

end Calls

/-! ## What a rejected block leaves -/

/-- Everything but the fork flags is the same, and in the flags a block and everything after it are
invalid. -/
structure OnlyInvalid (id : BlockIdType) (db db' : ChainDatabase) : Prop where
  rest : db' = { db with forkDb := db'.forkDb }
  inside : ∀ k, After db.next id k →
    db'.forkDb.lookup k = (db.forkDb.lookup k).map fun d => { d with isValid := some false }
  outside : ∀ k, ¬After db.next id k → db'.forkDb.lookup k = db.forkDb.lookup k

theorem Extending.markInvalid (h : Extending N db b) :
    ∃ db', markInvalid (N.B.id b.toSignedBlockHeader) db = .ok () db' ∧
      OnlyInvalid (N.B.id b.toSignedBlockHeader) db db' := by
  obtain ⟨hblock, hne⟩ := h.tree.blockId _ b h.block
  obtain ⟨m, hmark, hm⟩ := markInvalid_ok h.tree
    (h.tree.stored _ (Finmap.mem_of_lookup_eq_some h.block))
  have hwithin : ∀ k, After db.next (N.B.id b.toSignedBlockHeader) k ↔
      Within db.next (db.forkDepth + 1) [N.B.id b.toSignedBlockHeader] k := by
    refine fun k => ⟨fun hafter => ?_, ForkTree.after_of_within⟩
    exact h.tree.within_of_after hne hafter
      (h.tree.rooted_of_after hafter (h.tree.rooted _ h.linked))
  exact ⟨_, hmark, rfl, fun k hk => hm.inside k ((hwithin k).1 hk),
    fun k hk => hm.outside k fun hw => hk ((hwithin k).2 hw)⟩

/-- Whatever `extend_chain` throws before it writes into the tables, in whatever state it is called,
the block and everything after it become invalid and nothing else changes. -/
theorem rejected_leaves_no_trace (N : Node) (g : GenesisState) (on : Bool)
    (db₀ db : ChainDatabase) (h₀ : initializeGenesis N.P g on = .ok db₀)
    (hrun : Pushed N (fun _ => True) db₀ db) (clock : TimePointSec) (b b' : FullBlock)
    (m m' : ChainMembers) (hcall : PushCalls N clock b db m.db (.extendChain b')) (e : Exn)
    (hthrow : validateBlock N clock b' m = .error e m') :
    ∃ m'', extendChainSteps N clock b' m = .error e m'' ∧
      OnlyInvalid (N.B.id b'.toSignedBlockHeader) m.db m''.db := by
  have hext := hcall.extending (hrun.forkTree (initializeGenesis_forkTree h₀))
  obtain ⟨db', hmark, honly⟩ := hext.markInvalid
  have hval := @validateBlock_run N clock b' m
  cases hacc : m.db.accepted N clock b' with
  | ok r =>
    rw [hacc] at hval
    obtain ⟨m₁, hrun₁, -⟩ := hval
    rw [hthrow] at hrun₁
    cases hrun₁
  | error e' =>
    rw [hacc] at hval
    obtain ⟨m₁, hrun₁, hdb⟩ := hval
    rw [hthrow] at hrun₁
    cases hrun₁
    obtain ⟨m'', hsteps, rfl⟩ := extendChainSteps_rejected hthrow hdb hmark
    exact ⟨m'', hsteps, honly⟩

/-- A first block at a time that starts no slot comes after the block that follows it. -/
theorem rejected_leaves_no_trace_before_child :
    ∃ db₀ db m e m'' b', initializeGenesis Node.plain.P .plain false = .ok db₀ ∧
      Pushed .plain (fun _ => True) db₀ db ∧
      PushCalls .plain 100 (.plain 1 0 15 []) db m.db (.extendChain b') ∧
      extendChainSteps .plain 100 b' m = .error e m'' ∧
      OnlyInvalid (Node.plain.B.id b'.toSignedBlockHeader) m.db m''.db ∧
      ¬m.db.Invalid 1016020 ∧ m''.db.Invalid 1016020 := by
  obtain ⟨db₀, db, h₀, hpushed, hend⟩ := exists_pushed (N := .plain) (g := .plain) (K := fun _ => True)
    (p := fun db => (pushCalls .plain 100 (.plain 1 0 15 []) db).any fun x => x.2.extends fun b' =>
      !yields (validateBlock .plain 100 b' ⟨x.1, 0, none⟩) (fun _ _ => true) &&
        decide (¬x.1.Invalid 1016020 ∧
          (final (extendChainSteps .plain 100 b') ⟨x.1, 0, none⟩).db.Invalid 1016020))
    100 [.plain 2 1015 20 []] (fun _ _ => trivial) (by decide +kernel)
  obtain ⟨s, b', hcall, hend⟩ := exists_extension hend
  rw [Bool.and_eq_true, decide_eq_true_eq] at hend
  obtain ⟨hval, hbefore, hafter⟩ := hend
  cases hthrow : validateBlock .plain 100 b' ⟨s, 0, none⟩ with
  | ok p m' =>
    rw [hthrow] at hval
    cases hval
  | error e m' =>
    obtain ⟨m'', hsteps, honly⟩ := rejected_leaves_no_trace .plain .plain false db₀ db h₀ hpushed
      100 _ b' ⟨s, 0, none⟩ m' hcall e hthrow
    rw [final, hsteps] at hafter
    exact ⟨db₀, db, ⟨s, 0, none⟩, e, m'', b', h₀, hpushed, hcall, hsteps, honly, hbefore, hafter⟩

end Achain
