import Achain.Lib.Rewind
import Achain.Proofs.Calls
import Achain.Proofs.GenesisTables

/-!
# What blocks keep, and undoing them

A property of the tables that every accepted block keeps holds in every state `push_block` passes
through, also where blocks have been popped: the undo state of a block leads back to tables that
read like those before it.
-/

namespace Achain

open Table Result Stateful Levels Rewind

variable {N : Node} {K : FullBlock → Prop} {G : ChainTables → Prop} {I : ChainDatabase → Prop}
  {db db' db₀ s : ChainDatabase} {clock : TimePointSec} {b b' : FullBlock} {c c' : ChainTables}
  {id : BlockIdType} {path : List BlockIdType}

/-! ## The steps of a search -/

/-- A property that accepting a known block and popping the head keep, and that depends only on the
chain and on the blocks known. -/
structure Lasting (N : Node) (I : ChainDatabase → Prop) : Prop where
  extend : ∀ {db db' clock b}, ForkTree N db →
    db.blockIdToFullBlock.lookup (N.B.id b.toSignedBlockHeader) = some b →
    extendChain N db clock b = .ok db' → I db → I db'
  pop : ∀ {db db'}, ForkTree N db → popBlock N db = .ok db' → I db → I db'
  same : ∀ {db db'}, I db → SameChain db db' →
    (∀ id b, db.blockIdToFullBlock.lookup id = some b →
      db'.blockIdToFullBlock.lookup id = some b) → I db'

namespace Lasting

variable (h : Lasting N I)

include h

theorem popBlockM (htree : ForkTree N db) (hdb : I db) : I (final (popBlockM N) db) := by
  unfold final Achain.popBlockM
  cases hpop : popBlock N db with
  | ok db' => exact h.pop htree hpop hdb
  | error e =>
    cases hmark : markIncluded db db.headBlockId false with
    | ok forkDb => exact h.same hdb ⟨rfl, rfl, rfl, rfl⟩ fun _ _ hb => hb
    | error e => exact hdb

theorem extendChainM (htree : ForkTree N db)
    (hb : db.blockIdToFullBlock.lookup (N.B.id b.toSignedBlockHeader) = some b) (hdb : I db) :
    I (final (extendChainM N clock b) db) := by
  rcases extendChainM_cases N db clock b with ⟨db', hext, hrun⟩ | ⟨e, -, hrun⟩
  · rw [final, hrun]
    exact h.extend htree hb hext hdb
  · obtain ⟨m, hrun', -⟩ := extendChainM_error htree (Finmap.mem_of_lookup_eq_some hb) hrun
    rw [final, hrun']
    exact h.same hdb ⟨rfl, rfl, rfl, rfl⟩ fun _ _ hb => hb

theorem search {pushed : BlockIdType} : SearchKeeps N clock pushed
    fun db => (ForkTree N db ∧ pushed ∈ db.blockIdToFullBlock) ∧ I db where
  known _ id b hI hb := (hI.1.1.blockId id b hb).1
  pop db hI := ⟨(ForkTree.search clock).pop db hI.1, h.popBlockM hI.1.1 hI.2⟩
  extend db b hI hb := ⟨(ForkTree.search clock).extend db b hI.1 hb, h.extendChainM hI.1.1 hb hI.2⟩
  future db hI := ⟨(ForkTree.search clock).future db hI.1,
    h.same hI.2 ⟨rfl, rfl, rfl, rfl⟩ fun _ _ hb => hb⟩

/-- Placing a block leaves the chain alone. -/
theorem indexed {r : BlockIdType × BlockForkData} (htree : ForkTree N db)
    (hi : Indexed db (N.B.id b.toSignedBlockHeader) b r db') (hplaces : Places N db b)
    (hdb : I db) : (ForkTree N db' ∧ N.B.id b.toSignedBlockHeader ∈ db'.blockIdToFullBlock) ∧
      I db' := by
  have hnotMem := (htree.unknown hplaces.unknown).2.1
  refine ⟨⟨hi.forkTree htree rfl hplaces.unknown, Finmap.mem_of_lookup_eq_some hi.mem⟩, ?_⟩
  obtain ⟨htables, hid, hheader, -, hundo, -⟩ := hi.chain
  refine h.same hdb ⟨htables, hid, hheader, hundo⟩ fun x b' hb' => ?_
  rw [hi.block_of_ne]
  · exact hb'
  · rintro rfl
    exact hnotMem (Finmap.mem_of_lookup_eq_some hb')

theorem clearInvalidation (htree : ForkTree N db) (hdb : I db) :
    I (final (clearInvalidationOfFutureBlocks clock) db) := by
  obtain ⟨m, hrun, -⟩ := clearInvalidation_ok htree clock
  rw [final, hrun]
  exact h.same hdb ⟨rfl, rfl, rfl, rfl⟩ fun _ _ hb => hb

theorem pushBlock (htree : ForkTree N db) (hdb : I db) :
    I (final (pushBlock N clock b) db) := by
  rw [final]
  have hpushing := pushBlock_pushing htree clock b
  generalize Achain.pushBlock N clock b db = result at hpushing ⊢
  cases hpushing with
  | old => exact hdb
  | known => exact hdb
  | unlinked hplaces _ hi _ =>
    obtain ⟨⟨htree', -⟩, hdb'⟩ := h.indexed htree hi hplaces hdb
    exact h.clearInvalidation htree' hdb'
  | low hplaces _ hi => exact (h.indexed htree hi hplaces hdb).2
  | search hplaces _ hi _ _ _ =>
    exact (h.search.tryNumbers _ _ (h.indexed htree hi hplaces hdb)).2

theorem pushed (hrun : Pushed N K db₀ db) (htree : ForkTree N db₀) (hdb : I db₀) :
    ForkTree N db ∧ I db := by
  induction hrun with
  | start => exact ⟨htree, hdb⟩
  | push clock b _ _ ih => exact ⟨ForkTree.pushBlock clock b _ ih.1, h.pushBlock ih.1 ih.2⟩

/-! The states in which a search calls `extend_chain`. -/

theorem extendCalled {ids : List BlockIdType} (hcall : ExtendCalled N clock ids db s b)
    (htree : ForkTree N db) (hdb : I db) :
    ForkTree N s ∧ I s ∧ s.blockIdToFullBlock.lookup (N.B.id b.toSignedBlockHeader) = some b := by
  induction hcall with
  | @here id ids db b hb =>
    obtain rfl := (htree.blockId id b hb).1
    exact ⟨htree, hdb, hb⟩
  | @next id ids db db' s b b' hb hrun _ ih =>
    obtain rfl := (htree.blockId id b hb).1
    have htree' : ForkTree N (final (Achain.extendChainM N clock b) db) := htree.extendChainM hb
    have hdb' : I (final (Achain.extendChainM N clock b) db) := h.extendChainM htree hb hdb
    rw [final, hrun] at htree' hdb'
    exact ih htree' hdb'

theorem switchCalls {pushed : BlockIdType} (hcall : SwitchCalls N clock id db s (.extendChain b))
    (hdb : (ForkTree N db ∧ pushed ∈ db.blockIdToFullBlock) ∧ I db) :
    ForkTree N s ∧ I s ∧ s.blockIdToFullBlock.lookup (N.B.id b.toSignedBlockHeader) = some b := by
  cases hcall with
  | @extend history db' _ _ hne hhist hpops hcalled =>
    have hsearch : SearchKeeps N clock pushed _ := h.search
    have hpopped := hsearch.popUntil (history.getLastD 0) (db.forkDepth + 1) db hdb
    rw [final, hpops] at hpopped
    exact h.extendCalled hcalled hpopped.1.1 hpopped.2

theorem pushCalls (hcall : PushCalls N clock b db s (.extendChain b')) (htree : ForkTree N db)
    (hdb : I db) :
    ForkTree N s ∧ I s ∧
      s.blockIdToFullBlock.lookup (N.B.id b'.toSignedBlockHeader) = some b' := by
  cases hcall with
  | search hplaces hrun hlink hlongest hlt hc =>
    obtain ⟨r', db'', hrun', hi⟩ := storeAndIndex_indexed htree rfl hplaces.unknown
    rw [hrun] at hrun'
    cases hrun'
    have hsearch : SearchKeeps N clock (N.B.id b.toSignedBlockHeader) _ := h.search
    have hkeeps : SwitchKeeps N clock (N.B.id b.toSignedBlockHeader) (fun _ _ => True) _ :=
      ⟨fun db id _ hI _ _ _ _ => hsearch.switchToFork id db hI, hsearch.future⟩
    rcases hkeeps.numberCalls hc (h.indexed htree hi hplaces hdb) fun _ _ _ => trivial with
      ⟨_, hswitch, -⟩ | ⟨db', id, hI, -, hswitch⟩
    · cases hswitch
    · exact h.switchCalls hswitch hI

end Lasting

/-! ## Tables that read the same -/

/-- The tables read the same: the properties, and what is keyed by its entries. -/
structure SameReads (c c' : ChainTables) : Prop where
  property : ∀ k, c'.propertyIdToEntry.lookup k = c.propertyIdToEntry.lookup k
  account : ∀ k, c'.accountIdToEntry.lookup k = c.accountIdToEntry.lookup k
  asset : ∀ k, c'.assetIdToEntry.lookup k = c.assetIdToEntry.lookup k
  balance : ∀ k, c'.balanceIdToEntry.lookup k = c.balanceIdToEntry.lookup k
  contract : ∀ k, c'.contractIdToEntry.lookup k = c.contractIdToEntry.lookup k

/-- What is read after a pending state is written depends on what was read before. -/
theorem SameReads.applyChanges {P : Primitives} (h : SameReads c c') (u : PendingChainState) :
    SameReads (c.applyChanges P u) (c'.applyChanges P u) := by
  have hw := ChainTables.written (P := P) c u
  have hw' := ChainTables.written (P := P) c' u
  refine ⟨fun k => ?_, fun k => ?_, fun k => ?_, fun k => ?_, fun k => ?_⟩
  · rw [hw.lookupProperty, hw'.lookupProperty, funext h.property]
  · rw [hw.lookupAccount, hw'.lookupAccount, funext h.account]
  · rw [hw.lookupAsset, hw'.lookupAsset, funext h.asset]
  · rw [hw.lookupBalance, hw'.lookupBalance, funext h.balance]
  · rw [hw.lookupContract, hw'.lookupContract, funext h.contract]

/-- The undo state of a block leads back to tables that read like those before the block. -/
theorem Extended.undo_sameReads {p : PendingChainState} (h : Extended N db clock b p db') :
    SameReads db.tables (db'.tables.applyChanges N.P (p.getUndoState N.P)) := by
  have hw := ChainTables.written (P := N.P) db'.tables (p.getUndoState N.P)
  obtain ⟨hprev, hproperty, haccount, hasset, -, hbalance, -, hcontract, -⟩ :=
    Ledger.undone (P := N.P) p.ledger _ rfl
  have hview := h.prev
  refine ⟨fun k => ?_, fun k => ?_, fun k => ?_, fun k => ?_, fun k => ?_⟩
  · have hread := hproperty k
    rw [Ledger.getProperty, hprev, hview] at hread
    rw [hw.lookupProperty, funext h.lookupProperty]
    exact hread
  · have hread := haccount k
    rw [Ledger.getAccount, hprev, hview] at hread
    rw [hw.lookupAccount, funext h.lookupAccount]
    exact hread
  · have hread := hasset k
    rw [Ledger.getAsset, hprev, hview] at hread
    rw [hw.lookupAsset, funext h.lookupAsset]
    exact hread
  · have hread := hbalance k
    rw [Ledger.getBalance, hprev, hview] at hread
    rw [hw.lookupBalance, funext h.lookupBalance]
    exact hread
  · have hread := hcontract k
    rw [Ledger.getContract, hprev, hview] at hread
    rw [hw.lookupContract, funext h.lookupContract]
    exact hread

/-! ## What blocks keep -/

/-- A property of the tables that every accepted block keeps, and what is checked of each block. -/
structure BlocksKeep (N : Node) (G : ChainTables → Prop) (K : FullBlock → Prop) : Prop where
  same : ∀ {c c'}, SameReads c c' → G c → G c'
  extend : ∀ {db db' clock b}, extendChain N db clock b = .ok db' → G db.tables →
    K b ∧ G db'.tables

/-- The blocks below the head have been checked, and undoing them one by one leads to tables with
the property. -/
structure OnPath (N : Node) (G : ChainTables → Prop) (K : FullBlock → Prop) (db : ChainDatabase)
    (path : List BlockIdType) : Prop where
  rooted : Rooted db.blockIdToFullBlock db.headBlockId path
  checked : ∀ id ∈ path, ∀ b, db.blockIdToFullBlock.lookup id = some b → K b
  saved : ∀ id ∈ db.blockIdToUndoState, ∃ b, db.blockIdToFullBlock.lookup id = some b ∧
    N.config.minUndoBlock ≤ b.blockNum
  rewinds : Rewinds (ChainTables.applyChanges N.P) G db.blockIdToUndoState.lookup path db.tables

namespace OnPath

theorem extend (hG : BlocksKeep N G K) (h : OnPath N G K db path) (htree : ForkTree N db)
    (hb : db.blockIdToFullBlock.lookup (N.B.id b.toSignedBlockHeader) = some b)
    (hext : extendChain N db clock b = .ok db') :
    OnPath N G K db' (N.B.id b.toSignedBlockHeader :: path) := by
  obtain ⟨p, hp⟩ := extendChain_ok hext
  have hg := extendChain_grown hext
  obtain ⟨hK, htables⟩ := hG.extend hext h.rewinds.here
  have hrooted : Rooted db.blockIdToFullBlock (N.B.id b.toSignedBlockHeader)
      (N.B.id b.toSignedBlockHeader :: path) :=
    .block hb (htree.blockId _ b hb).2 (hg.previous ▸ h.rooted)
  have hcases := saveUndoState_cases hp.undo
  constructor
  · rw [hg.blocks, hg.headBlockId]
    exact hrooted
  · intro id hid b' hb'
    rw [hg.blocks] at hb'
    rcases List.mem_cons.1 hid with rfl | hid
    · rw [hb, Option.some_inj] at hb'
      exact hb' ▸ hK
    · exact h.checked id hid b' hb'
  · intro id hid
    rw [hg.blocks]
    rcases hcases with ⟨-, hsame⟩ | ⟨hmin, -, hrest⟩
    · rw [hsame] at hid
      exact h.saved id hid
    · by_cases hnew : id = N.B.id b.toSignedBlockHeader
      · exact ⟨b, hnew ▸ hb, hmin⟩
      · obtain ⟨u, hu⟩ := Finmap.mem_iff.1 hid
        exact h.saved id (Finmap.mem_of_lookup_eq_some (hrest id hnew u hu))
  · refine h.rewinds.step (R := SameReads) hG.same (fun u hs => hs.applyChanges u) htables
      (List.nodup_cons.1 hrooted.nodup).1 (fun id hid u hu => ?_) fun u hu => ?_
    · rcases hcases with ⟨-, hsame⟩ | ⟨-, -, hrest⟩
      · exact hsame ▸ hu
      · exact hrest id hid u hu
    · rcases hcases with ⟨hlow, hsame⟩ | ⟨-, hnew, -⟩
      · -- a block too low for an undo state has none from an earlier time either
        rw [hsame] at hu
        obtain ⟨b', hb', hmin⟩ := h.saved _ (Finmap.mem_of_lookup_eq_some hu)
        rw [hb, Option.some_inj] at hb'
        subst hb'
        exact absurd hlow (Nat.not_lt.2 hmin)
      · rw [hnew, Option.some_inj] at hu
        exact hu ▸ hp.undo_sameReads

theorem pop (h : OnPath N G K db path) (htree : ForkTree N db)
    (hpop : popBlock N db = .ok db') : ∃ path, OnPath N G K db' path := by
  rcases popBlock_popped hpop with ⟨-, rfl⟩ | hp
  · exact ⟨path, h⟩
  obtain ⟨b, q, hb, hheader, hrest⟩ := htree.head_block hp.blockNum
  have hne := (htree.blockId _ b hb).2
  obtain ⟨b', q', rfl, hb', hrest'⟩ := h.rooted.ne_zero_inv hne
  obtain rfl : q' = q := by
    rw [hb, Option.some_inj] at hb'
    subst hb'
    rw [hheader] at hrest
    exact hrest'.unique hrest
  have htables : ∃ u, db.blockIdToUndoState.lookup db.headBlockId = some u ∧
      db'.tables = db.tables.applyChanges N.P u := by
    unfold popBlock at hpop
    rw [if_neg hp.blockNum] at hpop
    simp only [bind_eq_ok, orThrow_eq_ok, pure_eq_ok] at hpop
    obtain ⟨_, -, u, hu, _, -, rfl⟩ := hpop
    exact ⟨u, hu, rfl⟩
  obtain ⟨u, hu, htables⟩ := htables
  refine ⟨q', ?_, ?_, ?_, ?_⟩
  · rw [hp.blocks, hp.headBlockId]
    exact hrest
  · rw [hp.blocks]
    exact fun id hid => h.checked id (List.mem_cons_of_mem _ hid)
  · rw [hp.blocks, hp.undoStates]
    exact h.saved
  · rw [hp.undoStates, htables]
    exact h.rewinds.undo hu

theorem same (h : OnPath N G K db path) (hsame : SameChain db db')
    (hsub : ∀ id b, db.blockIdToFullBlock.lookup id = some b →
      db'.blockIdToFullBlock.lookup id = some b) : OnPath N G K db' path := by
  obtain ⟨htables, hid, -, hundo⟩ := hsame
  constructor
  · rw [hid]
    exact h.rooted.mono hsub
  · intro id hmem b' hb'
    obtain ⟨b, hb⟩ := Finmap.mem_iff.1 (h.rooted.mem_blocks id hmem).2
    rw [hsub id b hb, Option.some_inj] at hb'
    exact hb' ▸ h.checked id hmem b hb
  · rw [hundo]
    intro id hmem
    obtain ⟨b, hb, hmin⟩ := h.saved id hmem
    exact ⟨b, hsub id b hb, hmin⟩
  · rw [htables, hundo]
    exact h.rewinds

end OnPath

namespace BlocksKeep

variable (hG : BlocksKeep N G K)

include hG

theorem lasting : Lasting N fun db => ∃ path, OnPath N G K db path where
  extend htree hb hext hdb := by
    obtain ⟨path, h⟩ := hdb
    exact ⟨_, h.extend hG htree hb hext⟩
  pop htree hpop hdb := by
    obtain ⟨path, h⟩ := hdb
    exact h.pop htree hpop
  same hdb hsame hsub := by
    obtain ⟨path, h⟩ := hdb
    exact ⟨path, h.same hsame hsub⟩

/-- Every state in which a call of `push_block` in a run calls `extend_chain`. -/
theorem extending {g : GenesisState} {on : Bool} {L : FullBlock → Prop}
    (h₀ : initializeGenesis N.P g on = .ok db₀) (hgenesis : G db₀.tables)
    (hrun : Pushed N L db₀ db) (hcall : PushCalls N clock b' db s (.extendChain b)) :
    ForkTree N s ∧ ∃ path, OnPath N G K s path := by
  obtain ⟨-, hid, -, hblocks, hundo⟩ := initializeGenesis_ok h₀
  have hstart : OnPath N G K db₀ [] := by
    refine ⟨?_, nofun, ?_, hgenesis⟩
    · rw [hid]
      exact .genesis
    · rw [hundo]
      exact fun id hmem => absurd hmem Finmap.notMem_empty
  obtain ⟨htree, hdb⟩ := hG.lasting.pushed hrun (initializeGenesis_forkTree h₀) ⟨_, hstart⟩
  obtain ⟨htree', hs, -⟩ := hG.lasting.pushCalls hcall htree hdb
  exact ⟨htree', hs⟩

end BlocksKeep

end Achain
