import Achain.Proofs.Passes

/-!
# The tree of the blocks known

Whatever blocks are pushed, and in whatever order, the blocks known form a tree by their previous
links: a block is among those after its previous one, and one that is linked is so through linked
blocks down to the genesis block.
-/

namespace Achain

open Table Result Stateful Levels

variable {N : Node} {db : ChainDatabase}

/-! ## The tree -/

def ChainDatabase.Linked (db : ChainDatabase) (id : BlockIdType) : Prop :=
  ∃ d, db.forkDb.lookup id = some d ∧ d.isLinked = true

/-- The blocks known form a tree, whatever their flags of validity. -/
structure ForkTree (N : Node) (db : ChainDatabase) : Prop where
  genesis : ∃ g, db.forkDb.lookup 0 = some g ∧ g.isLinked = true ∧ g.isKnown = true ∧
    g.isValid = some true
  blockId : ∀ id b, db.blockIdToFullBlock.lookup id = some b →
    N.B.id b.toSignedBlockHeader = id ∧ id ≠ 0
  known : ∀ id d, db.forkDb.lookup id = some d → id ≠ 0 →
    (d.isKnown = true ↔ id ∈ db.blockIdToFullBlock)
  stored : ∀ id, id ∈ db.blockIdToFullBlock → id ∈ db.forkDb
  parent : ∀ id b, db.blockIdToFullBlock.lookup id = some b → id ∈ db.next b.previous
  child : ∀ id, ∀ c ∈ db.next id, ∃ b, db.blockIdToFullBlock.lookup c = some b ∧ b.previous = id
  linked : ∀ id b, db.blockIdToFullBlock.lookup id = some b → db.Linked id → db.Linked b.previous
  rooted : ∀ id, db.Linked id → ∃ path, Rooted db.blockIdToFullBlock id path
  placeholder : ∀ id d, db.forkDb.lookup id = some d → d.isKnown = false →
    d.isLinked = false ∧ d.isValid = none ∧ d.isIncluded = false
  number : ∀ n id, id ∈ (db.forkNumberDb.lookup n).getD [] ↔
    ∃ b, db.blockIdToFullBlock.lookup id = some b ∧ b.blockNum = n
  future : ∀ id ∈ db.futureBlocks, id ∈ db.blockIdToFullBlock
  head : ∃ path, Rooted db.blockIdToFullBlock db.headBlockId path
  header : db.headBlockId = 0 ∧ db.headBlockHeader = .empty ∨
    ∃ b, db.blockIdToFullBlock.lookup db.headBlockId = some b ∧
      db.headBlockHeader = b.toSignedBlockHeader

/-- What of the fork data places a block in the tree. -/
def BlockForkData.shape (d : BlockForkData) : List BlockIdType × Bool × Bool :=
  (d.nextBlocks, d.isLinked, d.isKnown)

/-- The same blocks in the same tree: only the validity and the inclusion of known blocks may
differ. -/
structure SameShape (db db' : ChainDatabase) : Prop where
  blocks : db'.blockIdToFullBlock = db.blockIdToFullBlock
  numbers : db'.forkNumberDb = db.forkNumberDb
  shape : ∀ k, (db'.forkDb.lookup k).map BlockForkData.shape =
    (db.forkDb.lookup k).map BlockForkData.shape
  outside : ∀ k, k ∉ db.blockIdToFullBlock → db'.forkDb.lookup k = db.forkDb.lookup k

namespace SameShape

variable {db' db'' : ChainDatabase}

theorem of_eq (hblocks : db'.blockIdToFullBlock = db.blockIdToFullBlock)
    (hnumbers : db'.forkNumberDb = db.forkNumberDb) (hfork : db'.forkDb = db.forkDb) :
    SameShape db db' :=
  ⟨hblocks, hnumbers, fun k => by rw [hfork], fun k _ => by rw [hfork]⟩

theorem trans (h : SameShape db db') (h' : SameShape db' db'') : SameShape db db'' where
  blocks := h'.blocks.trans h.blocks
  numbers := h'.numbers.trans h.numbers
  shape k := (h'.shape k).trans (h.shape k)
  outside k hk := (h'.outside k (h.blocks ▸ hk)).trans (h.outside k hk)

theorem data (h : SameShape db db') {k : BlockIdType} {d' : BlockForkData}
    (hd' : db'.forkDb.lookup k = some d') :
    ∃ d, db.forkDb.lookup k = some d ∧ d'.shape = d.shape := by
  have hshape := h.shape k
  rw [hd'] at hshape
  obtain ⟨d, hd, heq⟩ := Option.map_eq_some_iff.1 hshape.symm
  exact ⟨d, hd, heq.symm⟩

theorem data' (h : SameShape db db') {k : BlockIdType} {d : BlockForkData}
    (hd : db.forkDb.lookup k = some d) :
    ∃ d', db'.forkDb.lookup k = some d' ∧ d'.shape = d.shape := by
  have hshape := h.shape k
  rw [hd] at hshape
  obtain ⟨d', hd', heq⟩ := Option.map_eq_some_iff.1 hshape
  exact ⟨d', hd', heq⟩

theorem next (h : SameShape db db') : db'.next = db.next := by
  funext k
  have hnext : ∀ o : Option BlockForkData, (o.map BlockForkData.nextBlocks).getD [] =
      ((o.map BlockForkData.shape).map Prod.fst).getD [] := by
    intro o
    cases o <;> rfl
  unfold ChainDatabase.next
  rw [hnext, hnext, h.shape k]

theorem linked (h : SameShape db db') (k : BlockIdType) : db'.Linked k ↔ db.Linked k := by
  constructor
  · rintro ⟨d', hd', hl⟩
    obtain ⟨d, hd, heq⟩ := h.data hd'
    exact ⟨d, hd, (congrArg (·.2.1) heq).symm.trans hl⟩
  · rintro ⟨d, hd, hl⟩
    obtain ⟨d', hd', heq⟩ := h.data' hd
    exact ⟨d', hd', (congrArg (·.2.1) heq).trans hl⟩

/-- Changed flags of known blocks. -/
theorem of_marked {change : BlockForkData → BlockForkData} {S : BlockIdType → Prop}
    {m : Tab BlockIdType BlockForkData} (hm : Marked change S db.forkDb m)
    (hchange : ∀ d, (change d).shape = d.shape) (hS : ∀ k, S k → k ∈ db.blockIdToFullBlock) :
    SameShape db { db with forkDb := m } where
  blocks := rfl
  numbers := rfl
  shape k := by
    show (m.lookup k).map _ = _
    by_cases hk : S k
    · rw [hm.inside k hk, Option.map_map]
      cases db.forkDb.lookup k with
      | none => rfl
      | some d => exact congrArg some (hchange d)
    · rw [hm.outside k hk]
  outside k hk := hm.outside k fun hSk => hk (hS k hSk)

end SameShape

namespace ForkTree

variable {db' : ChainDatabase}

theorem genesis_notMem (h : ForkTree N db) : 0 ∉ db.blockIdToFullBlock := by
  intro hmem
  obtain ⟨b, hb⟩ := Finmap.mem_iff.1 hmem
  exact (h.blockId 0 b hb).2 rfl

theorem closed (h : ForkTree N db) : ∀ id, ∀ c ∈ db.next id,
    c ∈ db.forkDb ∧ c ∈ db.blockIdToFullBlock := by
  intro id c hc
  obtain ⟨b, hb, -⟩ := h.child id c hc
  have hmem := Finmap.mem_of_lookup_eq_some hb
  exact ⟨h.stored c hmem, hmem⟩

theorem of_sameShape (h : ForkTree N db) (hs : SameShape db db')
    (hfuture : ∀ id ∈ db'.futureBlocks, id ∈ db.blockIdToFullBlock)
    (hhead : ∃ path, Rooted db.blockIdToFullBlock db'.headBlockId path)
    (hheader : db'.headBlockId = 0 ∧ db'.headBlockHeader = .empty ∨
      ∃ b, db.blockIdToFullBlock.lookup db'.headBlockId = some b ∧
        db'.headBlockHeader = b.toSignedBlockHeader) : ForkTree N db' where
  genesis := by
    rw [hs.outside 0 h.genesis_notMem]
    exact h.genesis
  blockId := by
    rw [hs.blocks]
    exact h.blockId
  known id d' hd' hne := by
    obtain ⟨d, hd, heq⟩ := hs.data hd'
    rw [hs.blocks, ← h.known id d hd hne, show d'.isKnown = d.isKnown from congrArg (·.2.2) heq]
  stored id hid := by
    rw [hs.blocks] at hid
    obtain ⟨d, hd⟩ := Finmap.mem_iff.1 (h.stored id hid)
    obtain ⟨d', hd', -⟩ := hs.data' hd
    exact Finmap.mem_of_lookup_eq_some hd'
  parent := by
    rw [hs.blocks, hs.next]
    exact h.parent
  child := by
    rw [hs.blocks, hs.next]
    exact h.child
  linked id b hb hl := by
    rw [hs.blocks] at hb
    rw [hs.linked] at hl ⊢
    exact h.linked id b hb hl
  rooted id hl := by
    rw [hs.blocks]
    exact h.rooted id ((hs.linked id).1 hl)
  placeholder id d' hd' hk := by
    obtain ⟨d, hd, heq⟩ := hs.data hd'
    have hk' : d.isKnown = false := (congrArg (·.2.2) heq).symm.trans hk
    have hmem : id ∉ db.blockIdToFullBlock := by
      intro hmem
      by_cases hid : id = 0
      · exact h.genesis_notMem (hid ▸ hmem)
      · rw [(h.known id d hd hid).2 hmem] at hk'
        cases hk'
    rw [hs.outside id hmem] at hd'
    exact h.placeholder id d' hd' hk
  number := by
    rw [hs.blocks, hs.numbers]
    exact h.number
  future id hid := by
    rw [hs.blocks]
    exact hfuture id hid
  head := by
    rw [hs.blocks]
    exact hhead
  header := by
    rw [hs.blocks]
    exact hheader

/-- Flags changed by a pass over known blocks. -/
theorem marked {change : BlockForkData → BlockForkData} {S : BlockIdType → Prop}
    {m : Tab BlockIdType BlockForkData} (h : ForkTree N db) (hm : Marked change S db.forkDb m)
    (hchange : ∀ d, (change d).shape = d.shape) (hS : ∀ k, S k → k ∈ db.blockIdToFullBlock) :
    ForkTree N { db with forkDb := m } :=
  h.of_sameShape (.of_marked hm hchange hS) h.future h.head h.header

/-- What a pass that starts at known blocks reaches is known. -/
theorem known_of_within (h : ForkTree N db) {n : Nat} {ids : List BlockIdType}
    (hids : ∀ id ∈ ids, id ∈ db.blockIdToFullBlock) {k : BlockIdType}
    (hk : Within db.next n ids k) : k ∈ db.blockIdToFullBlock := by
  obtain ⟨a, ha, hafter⟩ := hk.after
  cases hafter with
  | refl => exact hids k ha
  | tail _ hlast => exact (h.closed _ k hlast).2

/-- The pass from a block itself and the one from those after it. -/
theorem within_cons {next : BlockIdType → List BlockIdType} {n : Nat} {id k : BlockIdType} :
    (k = id ∨ Within next n (next id) k) ↔ Within next (n + 1) [id] k := by
  rw [within_succ, List.mem_singleton, List.flatMap_singleton]

theorem path_length_le (h : ForkTree N db) {x : BlockIdType} {path : List BlockIdType}
    (hr : Rooted db.blockIdToFullBlock x path) : path.length < db.forkDepth := by
  -- The path and the genesis block below it are different ids of the fork database.
  have hnodup : (0 :: path).Nodup :=
    List.nodup_cons.2 ⟨fun hmem => (hr.mem_blocks 0 hmem).1 rfl, hr.nodup⟩
  have hsub : (0 :: path).toFinset ⊆ db.forkDb.keys := by
    intro k hk
    rw [List.mem_toFinset] at hk
    rw [Finmap.mem_keys]
    rcases List.mem_cons.1 hk with rfl | hk
    · obtain ⟨g, hg, -⟩ := h.genesis
      exact Finmap.mem_of_lookup_eq_some hg
    · exact h.stored k (hr.mem_blocks k hk).2
  have hcard := Finset.card_le_card hsub
  rw [List.toFinset_card_of_nodup hnodup, List.length_cons] at hcard
  exact hcard

theorem mem_path_of_after (h : ForkTree N db) {id x : BlockIdType} (hid : id ≠ 0)
    (hafter : After db.next id x) {path : List BlockIdType}
    (hr : Rooted db.blockIdToFullBlock x path) : id ∈ path := by
  induction hafter generalizing path with
  | refl =>
    obtain ⟨b, q, rfl, -⟩ := hr.ne_zero_inv hid
    exact List.mem_cons_self ..
  | @tail y z _ hz ih =>
    obtain ⟨b, hb, rfl⟩ := h.child y z hz
    obtain ⟨b', q, rfl, hb', hrest⟩ := hr.ne_zero_inv (h.blockId z b hb).2
    rw [hb, Option.some_inj] at hb'
    subst hb'
    exact List.mem_cons_of_mem _ (ih hrest)

/-- A pass that starts at a block reaches the rooted blocks whose path it is on. -/
theorem within_iff (h : ForkTree N db) {id x : BlockIdType} (hid : id ≠ 0)
    {path : List BlockIdType} (hr : Rooted db.blockIdToFullBlock x path) :
    Within db.next (db.forkDepth + 1) [id] x ↔ id ∈ path := by
  constructor
  · intro hw
    obtain ⟨a, ha, hafter⟩ := hw.after
    rw [List.mem_singleton] at ha
    subst ha
    exact h.mem_path_of_after hid hafter hr
  · intro hmem
    obtain ⟨l, q, rfl, -⟩ := hr.of_mem hmem
    refine (hr.down h.parent).within (List.mem_singleton_self id) ?_
    have hlength := h.path_length_le hr
    simp only [List.length_append, List.length_cons, List.length_nil] at hlength ⊢
    omega

end ForkTree

/-- A flag set on a block and on everything after it. -/
theorem markFrom_ok {change : BlockForkData → BlockForkData} (hf : Flags change)
    (h : ForkTree N db) {id : BlockIdType} {d : BlockForkData}
    (hd : db.forkDb.lookup id = some d) :
    ∃ m, (do
        storeFork id (change d)
        markDescendants change (← get).forkDepth d.nextBlocks : DbM Unit) db =
          .ok () { db with forkDb := m } ∧
      Marked change (Within db.next (db.forkDepth + 1) [id]) db.forkDb m := by
  have hfirst : Marked change (· = id) db.forkDb (db.forkDb.insert id (change d)) := .insert hd
  have hnext : ({ db with forkDb := db.forkDb.insert id (change d) } : ChainDatabase).next =
      db.next := next_of_marked hf hfirst
  have hdepth : ({ db with forkDb := db.forkDb.insert id (change d) } : ChainDatabase).forkDepth =
      db.forkDepth := hfirst.depth
  have hd' : d.nextBlocks = db.next id := by
    unfold ChainDatabase.next
    rw [hd]
    rfl
  obtain ⟨m, hrun, hm⟩ := markDescendants_ok hf db.forkDepth d.nextBlocks
    { db with forkDb := db.forkDb.insert id (change d) }
    (fun k c hc => (hfirst.mem c).2 (h.closed k c (hnext ▸ hc)).1)
    fun k hk => (hfirst.mem k).2 (h.closed id k (hd' ▸ hk)).1
  refine ⟨m, ?_, ?_⟩
  · refine (modify_bind _ _ _).trans ((get_bind _ _).trans ?_)
    rw [hdepth]
    exact hrun
  · rw [hnext, hd'] at hm
    exact (hfirst.trans hf hm).congr fun k => ForkTree.within_cons

theorem invalid_flags : Flags fun d => { d with isValid := some false } :=
  ⟨fun _ => rfl, fun _ => rfl⟩

theorem unchecked_flags : Flags fun d => { d with isValid := none } := ⟨fun _ => rfl, fun _ => rfl⟩

/-- `mark_invalid` marks a block and everything after it. -/
theorem markInvalid_ok (h : ForkTree N db) {id : BlockIdType} (hid : id ∈ db.forkDb) :
    ∃ m, markInvalid id db = .ok () { db with forkDb := m } ∧
      Marked (fun d => { d with isValid := some false })
        (Within db.next (db.forkDepth + 1) [id]) db.forkDb m := by
  obtain ⟨d, hd⟩ := Finmap.mem_iff.1 hid
  obtain ⟨m, hrun, hm⟩ := markFrom_ok invalid_flags h hd
  exact ⟨m, (bind_of_ok (fetchFork_ok hd)).trans hrun, hm⟩

/-- `mark_as_unchecked` clears a block and everything after it. -/
theorem markAsUnchecked_ok (h : ForkTree N db) {id : BlockIdType} (hid : id ∈ db.forkDb) :
    ∃ m, markAsUnchecked id db = .ok () { db with forkDb := m } ∧
      Marked (fun d => { d with isValid := none })
        (Within db.next (db.forkDepth + 1) [id]) db.forkDb m := by
  obtain ⟨d, hd⟩ := Finmap.mem_iff.1 hid
  obtain ⟨m, hrun, hm⟩ := markFrom_ok unchecked_flags h hd
  exact ⟨m, (bind_of_ok (fetchFork_ok hd)).trans hrun, hm⟩

/-! ## Extending and popping -/

variable {db' : ChainDatabase} {clock : TimePointSec} {b : FullBlock}

/-- What `extend_chain` does to the blocks and the head, and what it has checked of the header. -/
structure Grown (N : Node) (db : ChainDatabase) (b : FullBlock) (db' : ChainDatabase) : Prop where
  forkDb : ∃ d, db.forkDb.lookup (N.B.id b.toSignedBlockHeader) = some d ∧
    db'.forkDb = db.forkDb.insert (N.B.id b.toSignedBlockHeader)
      { d with isIncluded := true, isValid := some true }
  blocks : db'.blockIdToFullBlock = db.blockIdToFullBlock
  numbers : db'.forkNumberDb = db.forkNumberDb
  future : db'.futureBlocks = db.futureBlocks
  headBlockId : db'.headBlockId = N.B.id b.toSignedBlockHeader
  headBlockHeader : db'.headBlockHeader = b.toSignedBlockHeader
  blockNumToId : db'.blockNumToId = db.blockNumToId.insert b.blockNum
    (N.B.id b.toSignedBlockHeader)
  previous : b.previous = db.headBlockId
  number : b.blockNum ≤ 1 ∨ b.blockNum = db.headBlockHeader.blockNum + 1
  timestamp : b.blockNum ≤ 1 ∨ db.headBlockHeader.timestamp < b.timestamp
  undo : ∃ p, saveUndoState N db b p = .ok db'.blockIdToUndoState

theorem extendChain_grown (h : extendChain N db clock b = .ok db') : Grown N db b db' := by
  have hsame := h
  simp only [extendChain, bind_eq_ok, pure_eq_ok] at hsame
  obtain ⟨p, hp, undo, hundo, forkDb, hfork, rfl⟩ := hsame
  obtain ⟨pay, ⟨hblock⟩⟩ := evaluateBlock_ok hp
  have hheader := hblock.header
  simp only [verifyHeader, bind_eq_ok, ensure_eq_ok, exists_const, Bool.or_eq_true,
    decide_eq_true_eq, beq_iff_eq] at hheader
  simp only [markIncluded, bind_eq_ok, orThrow_eq_ok, pure_eq_ok, if_true] at hfork
  obtain ⟨d, hd, rfl⟩ := hfork
  exact ⟨⟨d, hd, rfl⟩, rfl, rfl, rfl, rfl, rfl, rfl, hheader.2.1, hheader.1, hheader.2.2.2.1,
    p, hundo⟩

/-- What `pop_block` does to the blocks and the head where there is a head to pop. -/
structure Popped (db db' : ChainDatabase) : Prop where
  blockNum : db.headBlockHeader.blockNum ≠ 0
  forkDb : ∃ d, db.forkDb.lookup db.headBlockId = some d ∧
    db'.forkDb = db.forkDb.insert db.headBlockId { d with isIncluded := false }
  undo : db.headBlockId ∈ db.blockIdToUndoState
  blocks : db'.blockIdToFullBlock = db.blockIdToFullBlock
  numbers : db'.forkNumberDb = db.forkNumberDb
  future : db'.futureBlocks = db.futureBlocks
  undoStates : db'.blockIdToUndoState = db.blockIdToUndoState
  headBlockId : db'.headBlockId = db.headBlockHeader.previous
  headBlockHeader : db.headerOf db.headBlockHeader.previous = .ok db'.headBlockHeader
  blockNumToId : db'.blockNumToId = db.blockNumToId.erase db.headBlockHeader.blockNum

theorem popBlock_popped (h : popBlock N db = .ok db') :
    db.headBlockHeader.blockNum = 0 ∧ db' = db ∨ Popped db db' := by
  unfold popBlock at h
  split_ifs at h with hnum
  · exact .inl ⟨hnum, (ok_eq_ok.1 h).symm⟩
  · simp only [bind_eq_ok, orThrow_eq_ok, pure_eq_ok] at h
    obtain ⟨forkDb, hfork, u, hu, header, hheader, rfl⟩ := h
    simp only [markIncluded, bind_eq_ok, orThrow_eq_ok, pure_eq_ok, Bool.false_eq_true, if_false]
      at hfork
    obtain ⟨d, hd, rfl⟩ := hfork
    exact .inr ⟨hnum, ⟨d, hd, rfl⟩, Finmap.mem_of_lookup_eq_some hu, rfl, rfl, rfl, rfl, rfl,
      hheader, rfl⟩

/-- The state after `pop_block`, whether it returns or throws: where it throws, the head may have
been marked as not included and its number taken from the index. -/
theorem popBlockM_final (N : Node) (db : ChainDatabase) :
    final (popBlockM N) db = db ∨ Popped db (final (popBlockM N) db) ∨
      ∃ d, db.forkDb.lookup db.headBlockId = some d ∧ db.headBlockHeader.blockNum ≠ 0 ∧
        final (popBlockM N) db = { db with
          forkDb := db.forkDb.insert db.headBlockId { d with isIncluded := false }
          blockNumToId := db.blockNumToId.erase db.headBlockHeader.blockNum } := by
  unfold final popBlockM
  cases hpop : popBlock N db with
  | ok db' =>
    rcases popBlock_popped hpop with ⟨-, rfl⟩ | h
    · exact .inl rfl
    · exact .inr (.inl h)
  | error e =>
    cases hmark : markIncluded db db.headBlockId false with
    | error e => exact .inl rfl
    | ok forkDb =>
      have hnum : db.headBlockHeader.blockNum ≠ 0 := by
        intro hnum
        unfold popBlock at hpop
        rw [if_pos hnum] at hpop
        cases hpop
      simp only [markIncluded, bind_eq_ok, orThrow_eq_ok, pure_eq_ok, Bool.false_eq_true, if_false]
        at hmark
      obtain ⟨d, hd, rfl⟩ := hmark
      exact .inr (.inr ⟨d, hd, hnum, rfl⟩)

/-- One block's flags changed. -/
theorem SameShape.insert {id : BlockIdType} {d d' : BlockForkData}
    (hd : db.forkDb.lookup id = some d) (hfork : db'.forkDb = db.forkDb.insert id d')
    (hshape : d'.shape = d.shape) (hid : id ∈ db.blockIdToFullBlock)
    (hblocks : db'.blockIdToFullBlock = db.blockIdToFullBlock)
    (hnumbers : db'.forkNumberDb = db.forkNumberDb) : SameShape db db' where
  blocks := hblocks
  numbers := hnumbers
  shape k := by
    rw [hfork]
    by_cases hk : k = id
    · rw [hk, Finmap.lookup_insert, hd]
      exact congrArg some hshape
    · rw [Finmap.lookup_insert_of_ne _ hk]
  outside k hk := by
    rw [hfork, Finmap.lookup_insert_of_ne]
    rintro rfl
    exact hk hid

namespace ForkTree

/-- The head that is popped is a known block. -/
theorem head_block (h : ForkTree N db) (hnum : db.headBlockHeader.blockNum ≠ 0) :
    ∃ b path, db.blockIdToFullBlock.lookup db.headBlockId = some b ∧
      db.headBlockHeader = b.toSignedBlockHeader ∧
      Rooted db.blockIdToFullBlock db.headBlockHeader.previous path := by
  rcases h.header with ⟨-, hempty⟩ | ⟨b, hb, hheader⟩
  · rw [hempty] at hnum
    exact absurd rfl hnum
  · obtain ⟨path, hr⟩ := h.head
    obtain ⟨b', q, rfl, hb', hrest⟩ := hr.ne_zero_inv (h.blockId _ b hb).2
    rw [hb, Option.some_inj] at hb'
    subst hb'
    rw [hheader]
    exact ⟨b, q, hb, rfl, hrest⟩

theorem grown_sameShape (hg : Grown N db b db')
    (hb : db.blockIdToFullBlock.lookup (N.B.id b.toSignedBlockHeader) = some b) :
    SameShape db db' := by
  obtain ⟨d, hd, hfork⟩ := hg.forkDb
  exact .insert hd hfork rfl (Finmap.mem_of_lookup_eq_some hb) hg.blocks hg.numbers

theorem grown (h : ForkTree N db) (hg : Grown N db b db')
    (hb : db.blockIdToFullBlock.lookup (N.B.id b.toSignedBlockHeader) = some b) :
    ForkTree N db' := by
  obtain ⟨path, hr⟩ := h.head
  refine h.of_sameShape (grown_sameShape hg hb) (hg.future ▸ h.future)
    ⟨N.B.id b.toSignedBlockHeader :: path, ?_⟩ (.inr ⟨b, ?_, hg.headBlockHeader⟩)
  · rw [hg.headBlockId]
    exact .block hb (h.blockId _ b hb).2 (hg.previous ▸ hr)
  · rw [hg.headBlockId]
    exact hb

theorem popped_sameShape (h : ForkTree N db) (hp : Popped db db') : SameShape db db' := by
  obtain ⟨b, path, hb, -, -⟩ := h.head_block hp.blockNum
  obtain ⟨d, hd, hfork⟩ := hp.forkDb
  exact .insert hd hfork rfl (Finmap.mem_of_lookup_eq_some hb) hp.blocks hp.numbers

theorem popped (h : ForkTree N db) (hp : Popped db db') : ForkTree N db' := by
  obtain ⟨b, path, hb, hheader, hrest⟩ := h.head_block hp.blockNum
  refine h.of_sameShape (h.popped_sameShape hp) (hp.future ▸ h.future) ⟨path, ?_⟩ ?_
  · rw [hp.headBlockId]
    exact hrest
  · have hof := hp.headBlockHeader
    rw [hp.headBlockId]
    unfold ChainDatabase.headerOf at hof
    split_ifs at hof with hzero
    · exact .inl ⟨hzero, (ok_eq_ok.1 hof).symm⟩
    · simp only [bind_eq_ok, orThrow_eq_ok, pure_eq_ok] at hof
      obtain ⟨b', hb', heq⟩ := hof
      exact .inr ⟨b', hb', heq.symm⟩

/-- Popping changes whether a block is included and nothing else of the tree. -/
theorem popBlockM_sameShape (h : ForkTree N db) : SameShape db (final (popBlockM N) db) := by
  rcases popBlockM_final N db with hsame | hp | ⟨d, hd, hnum, hfail⟩
  · rw [hsame]
    exact .of_eq rfl rfl rfl
  · exact h.popped_sameShape hp
  · obtain ⟨b, path, hb, -, -⟩ := h.head_block hnum
    rw [hfail]
    exact .insert hd rfl rfl (Finmap.mem_of_lookup_eq_some hb) rfl rfl

theorem popBlockM : Keeps (ForkTree N) (popBlockM N) := by
  intro db h
  have hshape := h.popBlockM_sameShape
  rcases popBlockM_final N db with hsame | hp | ⟨d, hd, hnum, hfail⟩
  · rw [hsame]
    exact h
  · exact h.popped hp
  · rw [hfail] at hshape ⊢
    exact h.of_sameShape hshape h.future h.head h.header

theorem markAsUnchecked (h : ForkTree N db) {id : BlockIdType} (hid : id ∈ db.blockIdToFullBlock) :
    ForkTree N (final (markAsUnchecked id) db) := by
  obtain ⟨m, hrun, hm⟩ := markAsUnchecked_ok h (h.stored id hid)
  unfold final
  rw [hrun]
  refine h.marked hm (fun _ => rfl) fun k hk => h.known_of_within ?_ hk
  intro k hk
  rw [List.mem_singleton.1 hk]
  exact hid

end ForkTree

/-- A block that extends the chain does so, or it and everything after it is marked as invalid. -/
theorem extendChainM_cases (N : Node) (db : ChainDatabase) (clock : TimePointSec) (b : FullBlock) :
    (∃ db', extendChain N db clock b = .ok db' ∧ extendChainM N clock b db = .ok () db') ∨
      ∃ e, extendChain N db clock b = .error e ∧
        extendChainM N clock b db =
          (do markInvalid (N.B.id b.toSignedBlockHeader); throw e : DbM Unit) db := by
  cases hext : extendChain N db clock b with
  | ok db' =>
    refine .inl ⟨db', rfl, tryCatch_of_ok ?_⟩
    show DbM.ofExcept (fun db => extendChain N db clock b) db = _
    rw [DbM.ofExcept, hext]
  | error e =>
    refine .inr ⟨e, rfl, tryCatch_of_error ?_⟩
    show DbM.ofExcept (fun db => extendChain N db clock b) db = _
    rw [DbM.ofExcept, hext]

theorem extendChainM_error {e : Exn} (h : ForkTree N db)
    (hid : N.B.id b.toSignedBlockHeader ∈ db.blockIdToFullBlock)
    (hrun : extendChainM N clock b db =
      (do markInvalid (N.B.id b.toSignedBlockHeader); throw e : DbM Unit) db) :
    ∃ m, extendChainM N clock b db = .error e { db with forkDb := m } ∧
      Marked (fun d => { d with isValid := some false })
        (Within db.next (db.forkDepth + 1) [N.B.id b.toSignedBlockHeader]) db.forkDb m := by
  obtain ⟨m, hmark, hm⟩ := markInvalid_ok h (h.stored _ hid)
  exact ⟨m, hrun.trans ((bind_of_ok hmark).trans rfl), hm⟩

namespace ForkTree

/-- Extending changes the validity and the inclusion of blocks and nothing else of the tree. -/
theorem extendChainM_sameShape (h : ForkTree N db) (clock : TimePointSec)
    (hb : db.blockIdToFullBlock.lookup (N.B.id b.toSignedBlockHeader) = some b) :
    SameShape db (final (extendChainM N clock b) db) := by
  have hmem := Finmap.mem_of_lookup_eq_some hb
  rcases extendChainM_cases N db clock b with ⟨db', hext, hrun⟩ | ⟨e, -, hrun⟩
  · rw [final, hrun]
    exact grown_sameShape (extendChain_grown hext) hb
  · obtain ⟨m, hrun', hm⟩ := extendChainM_error h hmem hrun
    rw [final, hrun']
    refine .of_marked hm (fun _ => rfl) fun k hk => h.known_of_within ?_ hk
    intro k hk
    rw [List.mem_singleton.1 hk]
    exact hmem

theorem extendChainM (h : ForkTree N db)
    (hb : db.blockIdToFullBlock.lookup (N.B.id b.toSignedBlockHeader) = some b) :
    ForkTree N (final (extendChainM N clock b) db) := by
  have hshape := h.extendChainM_sameShape clock hb
  rcases extendChainM_cases N db clock b with ⟨db', hext, hrun⟩ | ⟨e, -, hrun⟩
  · rw [final, hrun]
    exact h.grown (extendChain_grown hext) hb
  · obtain ⟨m, hrun', -⟩ := extendChainM_error h (Finmap.mem_of_lookup_eq_some hb) hrun
    rw [final, hrun'] at hshape ⊢
    exact h.of_sameShape hshape h.future h.head h.header

end ForkTree

end Achain
