import Achain.Proofs.ForkTree

/-!
# Placing a block in the tree

What `store_and_index` does with a block not known before, and that the tree stays one through any
sequence of calls of `push_block`.
-/

namespace Achain

open Table Result Stateful Levels

variable {N : Node} {db db' : ChainDatabase} {clock : TimePointSec} {b : FullBlock}

/-! ## Placing a block -/

/-- The database with a new block known and placed after its previous one, before the block itself
has been looked up in the tree. -/
def ChainDatabase.placed (db : ChainDatabase) (id : BlockIdType) (b : FullBlock) : ChainDatabase :=
  let prev := (db.forkDb.lookup b.previous).getD .empty
  { db with
    blockIdToFullBlock := db.blockIdToFullBlock.insert id b
    forkNumberDb := db.forkNumberDb.insert b.blockNum
      ((db.forkNumberDb.lookup b.blockNum).getD [] ++ [id])
    forkDb := db.forkDb.insert b.previous { prev with nextBlocks := prev.nextBlocks.insert id } }

/-- The fork data of the previous block, this block after it. -/
def ChainDatabase.previousData (db : ChainDatabase) (id : BlockIdType) (b : FullBlock) :
    BlockForkData :=
  let prev := (db.forkDb.lookup b.previous).getD .empty
  { prev with nextBlocks := prev.nextBlocks.insert id }

/-- The fork data of a block that no other one has named as its previous one. -/
def BlockForkData.fresh (prev : BlockForkData) : BlockForkData :=
  ⟨[], prev.isLinked, if prev.invalid then some false else none, false, true⟩

theorem storeAndIndex_eq (id : BlockIdType) (b : FullBlock) (db : ChainDatabase) :
    storeAndIndex id b db =
      (match (db.placed id b).forkDb.lookup id with
      | some placeholder => do
        let data := placeholder.received (db.previousData id b)
        storeFork id data
        if !(db.previousData id b).isLinked then return (id, data)
        else if (db.previousData id b).invalid then do
          markInvalidFrom data.nextBlocks
          return (id, data)
        else do
          let (_, longest) ← recursiveMarkAsLinked (← get).forkDepth data.nextBlocks (0, 0, .empty)
          return longest
      | none => do
        storeFork id (db.previousData id b).fresh
        return (id, (db.previousData id b).fresh) : DbM (BlockIdType × BlockForkData))
        (db.placed id b) := by
  show (match (db.placed id b).forkDb.lookup id with
    | some placeholder => _
    | none => _ : DbM (BlockIdType × BlockForkData)) (db.placed id b) = _
  cases (db.placed id b).forkDb.lookup id <;> rfl

/-- The database with a new block placed in the tree. -/
def ChainDatabase.withBlock (db : ChainDatabase) (id : BlockIdType) (b : FullBlock)
    (data : BlockForkData) : ChainDatabase :=
  { db.placed id b with forkDb := (db.placed id b).forkDb.insert id data }

section Place

variable {id : BlockIdType} {data : BlockForkData}

theorem withBlock_fork (db : ChainDatabase) (id : BlockIdType) (b : FullBlock)
    (data : BlockForkData) (k : BlockIdType) : (db.withBlock id b data).forkDb.lookup k =
      if k = id then some data else if k = b.previous then some (db.previousData id b)
      else db.forkDb.lookup k := by
  show ((db.placed id b).forkDb.insert id data).lookup k = _
  split_ifs with hid hprev
  · rw [hid, Finmap.lookup_insert]
  · rw [Finmap.lookup_insert_of_ne _ hid, hprev]
    exact Finmap.lookup_insert _
  · rw [Finmap.lookup_insert_of_ne _ hid]
    exact Finmap.lookup_insert_of_ne _ hprev

theorem withBlock_block (db : ChainDatabase) (id : BlockIdType) (b : FullBlock)
    (data : BlockForkData) (k : BlockIdType) :
    (db.withBlock id b data).blockIdToFullBlock.lookup k =
      if k = id then some b else db.blockIdToFullBlock.lookup k := by
  show (db.blockIdToFullBlock.insert id b).lookup k = _
  split_ifs with hid
  · rw [hid, Finmap.lookup_insert]
  · exact Finmap.lookup_insert_of_ne _ hid

/-- The blocks after each block once the new one is placed. -/
theorem withBlock_next (hnext : data.nextBlocks = (db.placed id b).next id) (k : BlockIdType) :
    (db.withBlock id b data).next k =
      if k = b.previous then (db.next k).insert id else db.next k := by
  have hplaced : (db.placed id b).next k =
      if k = b.previous then (db.next k).insert id else db.next k := by
    unfold ChainDatabase.next ChainDatabase.placed
    dsimp only
    split_ifs with hprev
    · rw [hprev, Finmap.lookup_insert]
      cases db.forkDb.lookup b.previous <;> rfl
    · rw [Finmap.lookup_insert_of_ne _ hprev]
  rw [← hplaced]
  by_cases hk : k = id
  · rw [hk, ← hnext]
    unfold ChainDatabase.next
    rw [withBlock_fork, if_pos rfl]
    rfl
  · unfold ChainDatabase.next
    show (((db.placed id b).forkDb.insert id data).lookup k |>.map _).getD [] = _
    rw [Finmap.lookup_insert_of_ne _ hk]

namespace ForkTree

/-- A block not known before is neither the genesis block nor stored, and what the fork database may
have under its id is a placeholder. -/
theorem unknown (h : ForkTree N db)
    (hunknown : ¬ (db.forkDb.lookup id).any BlockForkData.isKnown) :
    id ≠ 0 ∧ id ∉ db.blockIdToFullBlock ∧ ¬ db.Linked id := by
  have hknown : ∀ d, db.forkDb.lookup id = some d → d.isKnown = false := by
    intro d hd
    rw [hd] at hunknown
    simpa using hunknown
  refine ⟨?_, fun hmem => ?_, ?_⟩
  · rintro rfl
    obtain ⟨g, hg, -, hk, -⟩ := h.genesis
    rw [hknown g hg] at hk
    cases hk
  · obtain ⟨b, hb⟩ := Finmap.mem_iff.1 hmem
    obtain ⟨d, hd⟩ := Finmap.mem_iff.1 (h.stored id hmem)
    have hk := (h.known id d hd (h.blockId id b hb).2).2 hmem
    rw [hknown d hd] at hk
    cases hk
  · rintro ⟨d, hd, hl⟩
    rw [(h.placeholder id d hd (hknown d hd)).1] at hl
    cases hl

theorem withBlock_linked (h : ForkTree N db)
    (hunknown : ¬ (db.forkDb.lookup id).any BlockForkData.isKnown)
    (hlinked : data.isLinked = true ↔ db.Linked b.previous) (k : BlockIdType) :
    (db.withBlock id b data).Linked k ↔ k = id ∧ db.Linked b.previous ∨ db.Linked k := by
  have hprev : ∀ k, k = b.previous →
      ((db.previousData id b).isLinked = true ↔ db.Linked k) := by
    rintro k rfl
    unfold ChainDatabase.Linked ChainDatabase.previousData
    cases db.forkDb.lookup b.previous with
    | none => simp [BlockForkData.empty]
    | some d => simp
  unfold ChainDatabase.Linked
  rw [withBlock_fork]
  by_cases hk : k = id
  · rw [if_pos hk]
    subst hk
    constructor
    · rintro ⟨d, hd, hl⟩
      rw [Option.some_inj] at hd
      exact .inl ⟨rfl, hlinked.1 (hd ▸ hl)⟩
    · rintro (⟨-, hl⟩ | hl)
      · exact ⟨data, rfl, hlinked.2 hl⟩
      · exact absurd hl (h.unknown hunknown).2.2
  · rw [if_neg hk]
    simp only [hk, false_and, false_or]
    split_ifs with hp
    · rw [← ChainDatabase.Linked, ← hprev k hp]
      simp
    · rfl

/-- Placing a block that was not known keeps the tree. -/
theorem withBlock (h : ForkTree N db) (hid : N.B.id b.toSignedBlockHeader = id)
    (hunknown : ¬ (db.forkDb.lookup id).any BlockForkData.isKnown)
    (hnext : data.nextBlocks = (db.placed id b).next id) (hknown : data.isKnown = true)
    (hlinked : data.isLinked = true ↔ db.Linked b.previous) :
    ForkTree N (db.withBlock id b data) := by
  obtain ⟨hne, hnotMem, hnotLinked⟩ := h.unknown hunknown
  have hlink := h.withBlock_linked hunknown hlinked
  have hmono : ∀ k b', db.blockIdToFullBlock.lookup k = some b' →
      (db.withBlock id b data).blockIdToFullBlock.lookup k = some b' := by
    intro k b' hb'
    rw [withBlock_block, if_neg]
    · exact hb'
    · rintro rfl
      exact hnotMem (Finmap.mem_of_lookup_eq_some hb')
  have hmem : ∀ k, k ∈ (db.withBlock id b data).blockIdToFullBlock ↔
      k = id ∨ k ∈ db.blockIdToFullBlock := fun k => Finmap.mem_insert
  refine ⟨?_, fun k b' hb' => ?_, fun k d hd hk => ?_, fun k hk => ?_, fun k b' hb' => ?_,
    fun k c hc => ?_, fun k b' hb' hl => ?_, fun k hl => ?_, fun k d hd hk => ?_, fun n k => ?_,
    fun k hk => (hmem k).2 (.inr (h.future k hk)), ?_, ?_⟩
  · obtain ⟨g, hg, hrest⟩ := h.genesis
    rw [withBlock_fork, if_neg (Ne.symm hne)]
    split_ifs with hprev
    · refine ⟨_, rfl, ?_⟩
      unfold ChainDatabase.previousData
      rw [← hprev, hg]
      exact hrest
    · exact ⟨g, hg, hrest⟩
  · rw [withBlock_block] at hb'
    split_ifs at hb' with hk
    · rw [Option.some_inj] at hb'
      rw [← hb', hk]
      exact ⟨hid, hne⟩
    · exact h.blockId k b' hb'
  · rw [withBlock_fork] at hd
    rw [hmem]
    split_ifs at hd with hk' hprev
    · rw [Option.some_inj] at hd
      rw [← hd, hknown]
      simp [hk']
    · rw [Option.some_inj] at hd
      subst hd
      unfold ChainDatabase.previousData
      rw [← hprev]
      simp only [hk', false_or]
      cases hlookup : db.forkDb.lookup k with
      | none =>
        simp only [Option.getD_none, BlockForkData.empty, Bool.false_eq_true, false_iff]
        intro hmem'
        have hstored := h.stored k hmem'
        rw [← Finmap.lookup_isSome, hlookup] at hstored
        cases hstored
      | some d => exact h.known k d hlookup hk
    · rw [h.known k d hd hk]
      simp [hk']
  · rw [← Finmap.lookup_isSome, withBlock_fork]
    split_ifs with hk' hprev
    · rfl
    · rfl
    · rw [Finmap.lookup_isSome]
      exact h.stored k (((hmem k).1 hk).resolve_left hk')
  · rw [withBlock_next hnext]
    rw [withBlock_block] at hb'
    split_ifs at hb' with hk
    · rw [Option.some_inj] at hb'
      subst hb'
      rw [if_pos rfl, hk]
      exact List.mem_insert_self
    · have hold := h.parent k b' hb'
      split_ifs
      · exact List.mem_insert_of_mem hold
      · exact hold
  · rw [withBlock_next hnext] at hc
    have hold : c ∈ db.next k → ∃ b', (db.withBlock id b data).blockIdToFullBlock.lookup c =
        some b' ∧ b'.previous = k := by
      intro hc
      obtain ⟨b', hb', hprev⟩ := h.child k c hc
      exact ⟨b', hmono c b' hb', hprev⟩
    split_ifs at hc with hk
    · rcases List.mem_insert_iff.1 hc with rfl | hc
      · exact ⟨b, by rw [withBlock_block, if_pos rfl], hk.symm⟩
      · exact hold hc
    · exact hold hc
  · rw [hlink] at hl ⊢
    rw [withBlock_block] at hb'
    split_ifs at hb' with hk
    · rw [Option.some_inj] at hb'
      subst hb' hk
      exact .inr (hl.elim And.right fun hl => absurd hl hnotLinked)
    · exact .inr (h.linked k b' hb' (hl.resolve_left fun hl => hk hl.1))
  · rw [hlink] at hl
    rcases hl with ⟨rfl, hl⟩ | hl
    · obtain ⟨path, hr⟩ := h.rooted _ hl
      refine ⟨k :: path, .block (by rw [withBlock_block, if_pos rfl]) hne (hr.mono hmono)⟩
    · obtain ⟨path, hr⟩ := h.rooted _ hl
      exact ⟨path, hr.mono hmono⟩
  · rw [withBlock_fork] at hd
    split_ifs at hd with hk' hprev
    · rw [Option.some_inj] at hd
      rw [← hd, hknown] at hk
      cases hk
    · rw [Option.some_inj] at hd
      subst hd
      unfold ChainDatabase.previousData at hk ⊢
      rw [← hprev] at hk ⊢
      cases hlookup : db.forkDb.lookup k with
      | none => exact ⟨rfl, rfl, rfl⟩
      | some d =>
        rw [hlookup] at hk
        exact h.placeholder k d hlookup hk
    · exact h.placeholder k d hd hk
  · have hnumbers : ((db.withBlock id b data).forkNumberDb.lookup n).getD [] =
        if n = b.blockNum then (db.forkNumberDb.lookup n).getD [] ++ [id]
        else (db.forkNumberDb.lookup n).getD [] := by
      show ((db.forkNumberDb.insert b.blockNum _).lookup n).getD [] = _
      split_ifs with hn
      · rw [hn, Finmap.lookup_insert]
        rfl
      · rw [Finmap.lookup_insert_of_ne _ hn]
    have hold := h.number n k
    have hnotOld : ∀ b', db.blockIdToFullBlock.lookup id ≠ some b' :=
      fun b' hb' => hnotMem (Finmap.mem_of_lookup_eq_some hb')
    rw [hnumbers, withBlock_block]
    by_cases hk : k = id
    · subst hk
      rw [if_pos rfl]
      have hnot : k ∉ (db.forkNumberDb.lookup n).getD [] := by
        rw [hold]
        rintro ⟨b', hb', -⟩
        exact hnotOld b' hb'
      split_ifs with hn
      · simp [hn]
      · simp only [hnot, Option.some.injEq, exists_eq_left', false_iff]
        exact fun h => hn h.symm
    · rw [if_neg hk, ← hold]
      split_ifs <;> simp [hk]
  · obtain ⟨path, hr⟩ := h.head
    exact ⟨path, hr.mono hmono⟩
  · rcases h.header with hzero | ⟨b', hb', hheader⟩
    · exact .inl hzero
    · exact .inr ⟨b', hmono _ b' hb', hheader⟩

end ForkTree

/-- What `store_and_index` returns and leaves behind. A block that fills a placeholder passes on what
its previous block is to everything after it: that it is invalid, or that it is linked. -/
inductive Indexed (db : ChainDatabase) (id : BlockIdType) (b : FullBlock) :
    BlockIdType × BlockForkData → ChainDatabase → Prop
  | fresh : (db.placed id b).forkDb.lookup id = none →
      Indexed db id b (id, (db.previousData id b).fresh)
        (db.withBlock id b (db.previousData id b).fresh)
  | orphan {ph : BlockForkData} : (db.placed id b).forkDb.lookup id = some ph →
      (db.previousData id b).isLinked = false →
      Indexed db id b (id, ph.received (db.previousData id b))
        (db.withBlock id b (ph.received (db.previousData id b)))
  | invalid {ph : BlockForkData} {m : Tab BlockIdType BlockForkData} :
      (db.placed id b).forkDb.lookup id = some ph → (db.previousData id b).isLinked = true →
      (db.previousData id b).invalid = true →
      Marked (fun d => { d with isValid := some false })
        (Within (db.withBlock id b (ph.received (db.previousData id b))).next
          (db.withBlock id b (ph.received (db.previousData id b))).forkDepth ph.nextBlocks)
        (db.withBlock id b (ph.received (db.previousData id b))).forkDb m →
      Indexed db id b (id, ph.received (db.previousData id b))
        { db.withBlock id b (ph.received (db.previousData id b)) with forkDb := m }
  | linked {ph : BlockForkData} {m : Tab BlockIdType BlockForkData}
      {best : Nat × BlockIdType × BlockForkData} :
      (db.placed id b).forkDb.lookup id = some ph → (db.previousData id b).isLinked = true →
      (db.previousData id b).invalid = false →
      Marked (fun d => { d with isLinked := true })
        (Within (db.withBlock id b (ph.received (db.previousData id b))).next
          (db.withBlock id b (ph.received (db.previousData id b))).forkDepth ph.nextBlocks)
        (db.withBlock id b (ph.received (db.previousData id b))).forkDb m →
      Highest (db.withBlock id b (ph.received (db.previousData id b)))
        (Within (db.withBlock id b (ph.received (db.previousData id b))).next
          (db.withBlock id b (ph.received (db.previousData id b))).forkDepth ph.nextBlocks)
        (0, 0, .empty) best →
      Indexed db id b best.2
        { db.withBlock id b (ph.received (db.previousData id b)) with forkDb := m }

theorem previousData_linked (db : ChainDatabase) (id : BlockIdType) (b : FullBlock) :
    (db.previousData id b).isLinked = true ↔ db.Linked b.previous := by
  unfold ChainDatabase.Linked ChainDatabase.previousData
  cases db.forkDb.lookup b.previous with
  | none => simp [BlockForkData.empty]
  | some d => simp

theorem placed_next_of_some {ph : BlockForkData} (h : (db.placed id b).forkDb.lookup id = some ph)
    (prev : BlockForkData) : (ph.received prev).nextBlocks = (db.placed id b).next id := by
  unfold ChainDatabase.next
  rw [h]
  rfl

namespace ForkTree

/-- What has been put under the id of an unknown block is a placeholder. -/
theorem placed_unknown (h : ForkTree N db)
    (hunknown : ¬ (db.forkDb.lookup id).any BlockForkData.isKnown) {ph : BlockForkData}
    (hph : (db.placed id b).forkDb.lookup id = some ph) :
    ph.isKnown = false ∧ ph.isLinked = false ∧ ph.isValid = none ∧ ph.isIncluded = false := by
  have hold : ∀ d, db.forkDb.lookup id = some d →
      d.isKnown = false ∧ d.isLinked = false ∧ d.isValid = none ∧ d.isIncluded = false := by
    intro d hd
    have hk : d.isKnown = false := by
      rw [hd] at hunknown
      simpa using hunknown
    exact ⟨hk, h.placeholder id d hd hk⟩
  unfold ChainDatabase.placed at hph
  dsimp only at hph
  by_cases hprev : id = b.previous
  · rw [hprev, Finmap.lookup_insert, Option.some_inj] at hph
    subst hph
    cases hlookup : db.forkDb.lookup b.previous with
    | none => exact ⟨rfl, rfl, rfl, rfl⟩
    | some d => exact hold d (hprev ▸ hlookup)
  · rw [Finmap.lookup_insert_of_ne _ hprev] at hph
    exact hold ph hph

theorem fresh (h : ForkTree N db) (hid : N.B.id b.toSignedBlockHeader = id)
    (hunknown : ¬ (db.forkDb.lookup id).any BlockForkData.isKnown)
    (hnone : (db.placed id b).forkDb.lookup id = none) :
    ForkTree N (db.withBlock id b (db.previousData id b).fresh) := by
  refine h.withBlock hid hunknown ?_ rfl (previousData_linked db id b)
  unfold ChainDatabase.next
  rw [hnone]
  rfl

theorem received (h : ForkTree N db) (hid : N.B.id b.toSignedBlockHeader = id)
    (hunknown : ¬ (db.forkDb.lookup id).any BlockForkData.isKnown) {ph : BlockForkData}
    (hph : (db.placed id b).forkDb.lookup id = some ph) :
    ForkTree N (db.withBlock id b (ph.received (db.previousData id b))) := by
  refine h.withBlock hid hunknown (placed_next_of_some hph _) rfl ?_
  rw [← previousData_linked db id b]
  simp [BlockForkData.received, (h.placed_unknown hunknown hph).2.1]

/-- A pass that links what is after a linked block. -/
theorem link (h : ForkTree N db) {n : Nat} {k : BlockIdType} (hk : db.Linked k)
    {m : Tab BlockIdType BlockForkData}
    (hm : Marked (fun d => { d with isLinked := true }) (Within db.next n (db.next k))
      db.forkDb m) : ForkTree N { db with forkDb := m } := by
  have hnext : ({ db with forkDb := m } : ChainDatabase).next = db.next :=
    next_of_marked linked_flags hm
  have hS : ∀ x, Within db.next n (db.next k) x → x ∈ db.blockIdToFullBlock :=
    fun x hx => h.known_of_within (fun c hc => (h.closed k c hc).2) hx
  have hdata : ∀ x d', m.lookup x = some d' → ∃ d, db.forkDb.lookup x = some d ∧
      d'.isKnown = d.isKnown ∧ (x ∉ db.blockIdToFullBlock → d' = d) := by
    intro x d' hd'
    by_cases hx : Within db.next n (db.next k) x
    · rw [hm.inside x hx] at hd'
      obtain ⟨d, hd, rfl⟩ := Option.map_eq_some_iff.1 hd'
      exact ⟨d, hd, rfl, fun hnot => absurd (hS x hx) hnot⟩
    · rw [hm.outside x hx] at hd'
      exact ⟨d', hd', rfl, fun _ => rfl⟩
  have hlinked : ∀ x, ({ db with forkDb := m } : ChainDatabase).Linked x ↔
      Within db.next n (db.next k) x ∨ db.Linked x := by
    intro x
    unfold ChainDatabase.Linked
    by_cases hx : Within db.next n (db.next k) x
    · obtain ⟨d, hd⟩ := Finmap.mem_iff.1 (h.stored x (hS x hx))
      simp only [hx, true_or, iff_true]
      refine ⟨{ d with isLinked := true }, ?_, rfl⟩
      rw [show m.lookup x = _ from hm.inside x hx, hd]
      rfl
    · simp only [hx, false_or]
      rw [show m.lookup x = _ from hm.outside x hx]
  -- What the pass links is rooted, as it is after the linked block it starts from.
  have hrooted : ∀ x, After db.next k x → ∃ path, Rooted db.blockIdToFullBlock x path := by
    intro x hafter
    induction hafter with
    | refl => exact h.rooted k hk
    | @tail y z _ hz ih =>
      obtain ⟨path, hr⟩ := ih
      obtain ⟨b, hb, rfl⟩ := h.child y z hz
      exact ⟨z :: path, .block hb (h.blockId z b hb).2 hr⟩
  refine ⟨?_, h.blockId, fun x d' hd' hne => ?_, fun x hx => (hm.mem x).2 (h.stored x hx), ?_, ?_,
    fun x b hb hl => ?_, fun x hl => ?_, fun x d' hd' hk => ?_, h.number, h.future, h.head,
    h.header⟩
  · obtain ⟨g, hg, hrest⟩ := h.genesis
    refine ⟨g, ?_, hrest⟩
    rw [show m.lookup 0 = _ from hm.outside 0 fun h0 => h.genesis_notMem (hS 0 h0)]
    exact hg
  · obtain ⟨d, hd, hknown, -⟩ := hdata x d' hd'
    rw [hknown]
    exact h.known x d hd hne
  · rw [hnext]
    exact h.parent
  · rw [hnext]
    exact h.child
  · rw [hlinked] at hl ⊢
    rcases hl with ⟨i, hi, hx⟩ | hl
    · cases i with
      | zero =>
        obtain ⟨b', hb', rfl⟩ := h.child k x hx
        rw [hb, Option.some_inj] at hb'
        exact .inr (hb' ▸ hk)
      | succ i =>
        obtain ⟨y, hy, hxy⟩ := List.mem_flatMap.1 hx
        obtain ⟨b', hb', rfl⟩ := h.child y x hxy
        rw [hb, Option.some_inj] at hb'
        exact .inl ⟨i, Nat.lt_of_succ_lt hi, hb' ▸ hy⟩
    · exact .inr (h.linked x b hb hl)
  · rw [hlinked] at hl
    rcases hl with hw | hl
    · obtain ⟨a, ha, hafter⟩ := hw.after
      exact hrooted x (.head ha hafter)
    · exact h.rooted x hl
  · obtain ⟨d, hd, hknown, hsame⟩ := hdata x d' hd'
    have hnot : x ∉ db.blockIdToFullBlock := by
      intro hmem
      obtain ⟨b, hb⟩ := Finmap.mem_iff.1 hmem
      rw [hknown, (h.known x d hd (h.blockId x b hb).2).2 hmem] at hk
      cases hk
    obtain rfl := hsame hnot
    exact h.placeholder x d' hd hk

end ForkTree

theorem withBlock_next_received (db : ChainDatabase) (id : BlockIdType) (b : FullBlock)
    (ph : BlockForkData) :
    (db.withBlock id b (ph.received (db.previousData id b))).next id = ph.nextBlocks := by
  unfold ChainDatabase.next
  rw [withBlock_fork, if_pos rfl]
  rfl

theorem storeAndIndex_indexed (h : ForkTree N db) (hid : N.B.id b.toSignedBlockHeader = id)
    (hunknown : ¬ (db.forkDb.lookup id).any BlockForkData.isKnown) :
    ∃ r db', storeAndIndex id b db = .ok r db' ∧ Indexed db id b r db' := by
  cases hph : (db.placed id b).forkDb.lookup id with
  | none =>
    refine ⟨_, _, ?_, .fresh hph⟩
    rw [storeAndIndex_eq, hph]
    rfl
  | some ph =>
    have htree := h.received hid hunknown hph
    have hnext := withBlock_next_received db id b ph
    have hids : ∀ c ∈ ph.nextBlocks,
        c ∈ (db.withBlock id b (ph.received (db.previousData id b))).forkDb ∧
        c ∈ (db.withBlock id b (ph.received (db.previousData id b))).blockIdToFullBlock := by
      intro c hc
      exact htree.closed id c (hnext ▸ hc)
    cases hl : (db.previousData id b).isLinked with
    | false =>
      refine ⟨_, _, ?_, .orphan hph hl⟩
      rw [storeAndIndex_eq, hph]
      refine (modify_bind _ _ _).trans ?_
      simp only [hl, Bool.not_false, if_true]
      rfl
    | true =>
      cases hinv : (db.previousData id b).invalid with
      | true =>
        obtain ⟨m, hrun, hm⟩ := markDescendants_ok invalid_flags
          (db.withBlock id b (ph.received (db.previousData id b))).forkDepth ph.nextBlocks _
          (fun k c hc => (htree.closed k c hc).1) fun c hc => (hids c hc).1
        refine ⟨_, _, ?_, .invalid hph hl hinv hm⟩
        rw [storeAndIndex_eq, hph]
        refine (modify_bind _ _ _).trans ?_
        simp only [hl, hinv, Bool.not_true, Bool.false_eq_true, if_false, if_true]
        exact (bind_of_ok ((get_bind _ _).trans hrun)).trans rfl
      | false =>
        obtain ⟨m, best, hrun, hm, hbest⟩ := recursiveMarkAsLinked_ok
          (db.withBlock id b (ph.received (db.previousData id b))).forkDepth ph.nextBlocks
          (0, 0, .empty) _ htree.closed hids
        refine ⟨_, _, ?_, .linked hph hl hinv hm hbest⟩
        rw [storeAndIndex_eq, hph]
        refine (modify_bind _ _ _).trans ?_
        simp only [hl, hinv, Bool.not_true, Bool.false_eq_true, if_false]
        refine (get_bind _ _).trans ((bind_of_ok hrun).trans rfl)

theorem Indexed.forkTree {r : BlockIdType × BlockForkData} (hi : Indexed db id b r db')
    (h : ForkTree N db) (hid : N.B.id b.toSignedBlockHeader = id)
    (hunknown : ¬ (db.forkDb.lookup id).any BlockForkData.isKnown) : ForkTree N db' := by
  cases hi with
  | fresh hph => exact h.fresh hid hunknown hph
  | orphan hph _ => exact h.received hid hunknown hph
  | @invalid ph m hph hl hinv hm =>
    have htree := h.received hid hunknown hph
    refine htree.marked hm (fun _ => rfl) fun k hk => htree.known_of_within (fun c hc => ?_) hk
    rw [← withBlock_next_received db id b ph] at hc
    exact (htree.closed id c hc).2
  | @linked ph m best hph hl hinv hm _ =>
    have htree := h.received hid hunknown hph
    have hlinked : (db.withBlock id b (ph.received (db.previousData id b))).Linked id := by
      refine ⟨_, (withBlock_fork ..).trans (if_pos rfl), ?_⟩
      simp [BlockForkData.received, hl]
    rw [← withBlock_next_received db id b ph] at hm
    exact htree.link hlinked hm

end Place

/-! ## The tree over whole runs -/

namespace ForkTree

theorem search (clock : TimePointSec) {pushed : BlockIdType} :
    SearchKeeps N clock pushed fun db => ForkTree N db ∧ pushed ∈ db.blockIdToFullBlock where
  known db id b h hb := (h.1.blockId id b hb).1
  pop db h := by
    refine ⟨popBlockM db h.1, ?_⟩
    rw [h.1.popBlockM_sameShape.blocks]
    exact h.2
  extend db b h hb := by
    refine ⟨h.1.extendChainM hb, ?_⟩
    rw [(h.1.extendChainM_sameShape clock hb).blocks]
    exact h.2
  future db h := by
    refine ⟨h.1.of_sameShape (.of_eq rfl rfl rfl) (fun id hid => ?_) h.1.head h.1.header, h.2⟩
    rcases List.mem_insert_iff.1 hid with rfl | hid
    · exact h.2
    · exact h.1.future id hid

end ForkTree

/-- The blocks from the future that are not given up yet. -/
def ChainDatabase.keptFuture (db : ChainDatabase) (clock : TimePointSec) : List BlockIdType :=
  db.futureBlocks.filter fun id => (db.blockIdToFullBlock.lookup id).any fun b =>
    !(futureBlockLifetime < clock - b.timestamp)

theorem mem_keptFuture {clock : TimePointSec} {id : BlockIdType} (h : id ∈ db.keptFuture clock) :
    id ∈ db.futureBlocks :=
  List.mem_of_mem_filter h

theorem forM_markAsUnchecked_ok : ∀ (ids : List BlockIdType) (db : ChainDatabase),
    ForkTree N db → (∀ id ∈ ids, id ∈ db.blockIdToFullBlock) →
      ∃ m, (ids.forM markAsUnchecked : DbM Unit) db = .ok () { db with forkDb := m } ∧
        Marked (fun d => { d with isValid := none })
          (fun k => ∃ id ∈ ids, Within db.next (db.forkDepth + 1) [id] k) db.forkDb m
  | [], db, _, _ => by
    refine ⟨db.forkDb, rfl, fun k hk => ?_, fun k _ => rfl⟩
    obtain ⟨id, hid, -⟩ := hk
    cases hid
  | id :: ids, db, h, hids => by
    have hid := hids id (List.mem_cons_self ..)
    obtain ⟨m₁, hrun₁, hm₁⟩ := markAsUnchecked_ok h (h.stored id hid)
    have htree := h.markAsUnchecked hid
    rw [final, hrun₁] at htree
    have hnext : ({ db with forkDb := m₁ } : ChainDatabase).next = db.next :=
      next_of_marked unchecked_flags hm₁
    have hdepth : ({ db with forkDb := m₁ } : ChainDatabase).forkDepth = db.forkDepth := hm₁.depth
    obtain ⟨m, hrun, hm⟩ := forM_markAsUnchecked_ok ids { db with forkDb := m₁ } htree
      fun k hk => hids k (List.mem_cons_of_mem _ hk)
    refine ⟨m, (bind_of_ok hrun₁).trans hrun, ?_⟩
    rw [hnext, hdepth] at hm
    refine (hm₁.trans unchecked_flags hm).congr fun k => ?_
    simp

/-- `clear_invalidation_of_future_blocks` clears the blocks it keeps and everything after them. -/
theorem clearInvalidation_ok (h : ForkTree N db) (clock : TimePointSec) :
    ∃ m, clearInvalidationOfFutureBlocks clock db =
        .ok () { db with forkDb := m, futureBlocks := db.keptFuture clock } ∧
      Marked (fun d => { d with isValid := none })
        (fun k => ∃ id ∈ db.keptFuture clock, Within db.next (db.forkDepth + 1) [id] k)
        db.forkDb m := by
  have hfuture : ∀ id ∈ db.keptFuture clock, id ∈ db.blockIdToFullBlock :=
    fun id hid => h.future id (mem_keptFuture hid)
  have htree : ForkTree N { db with futureBlocks := db.keptFuture clock } :=
    h.of_sameShape (.of_eq rfl rfl rfl) hfuture h.head h.header
  obtain ⟨m, hrun, hm⟩ := forM_markAsUnchecked_ok (db.keptFuture clock) _ htree hfuture
  refine ⟨m, ?_, hm⟩
  have hfilter : (db.futureBlocks.filterM fun id => do
      let b ← fetchBlock id
      return !(futureBlockLifetime < clock - b.timestamp) : DbM (List BlockIdType)) db =
        .ok (db.keptFuture clock) db := by
    refine filterM_of_ok fun id hid => ?_
    obtain ⟨b, hb⟩ := Finmap.mem_iff.1 (h.future id hid)
    rw [hb]
    exact (bind_of_ok (fetchBlock_ok hb)).trans rfl
  exact (get_bind _ _).trans ((bind_of_ok hfilter).trans ((modify_bind _ _ _).trans hrun))

/-- The block to switch to is known where it can be linked. -/
theorem Indexed.block {id : BlockIdType} {r : BlockIdType × BlockForkData}
    (hi : Indexed db id b r db') (hlink : r.2.canLink = true) :
    ∃ b', db'.blockIdToFullBlock.lookup r.1 = some b' := by
  cases hi with
  | fresh | orphan | invalid => exact ⟨b, Finmap.lookup_insert _⟩
  | linked _ _ _ _ hbest =>
    rcases hbest.choice with rfl | ⟨x, b', d, -, hb', -, -, rfl⟩
    · cases hlink
    · exact ⟨b', hb'⟩

/-- A block that `push_block` places: not older than the undo history, and not known. -/
structure Places (N : Node) (db : ChainDatabase) (b : FullBlock) : Prop where
  recent : ¬ (maxUndoHistory < db.headBlockHeader.blockNum ∧
    b.blockNum ≤ db.headBlockHeader.blockNum - maxUndoHistory)
  unknown : ¬ (db.forkDb.lookup (N.B.id b.toSignedBlockHeader)).any BlockForkData.isKnown

/-- What a call of `push_block` comes down to. -/
inductive Pushing (N : Node) (clock : TimePointSec) (b : FullBlock) (db : ChainDatabase) :
    EStateM.Result Exn ChainDatabase Unit → Prop
  | old : Pushing N clock b db (.error .fcAssert db)
  | known : Pushing N clock b db (.ok () db)
  | unlinked {r : BlockIdType × BlockForkData} {db₁ : ChainDatabase} : Places N db b →
      storeAndIndex (N.B.id b.toSignedBlockHeader) b db = .ok r db₁ →
      Indexed db (N.B.id b.toSignedBlockHeader) b r db₁ → r.2.canLink = false →
      Pushing N clock b db (clearInvalidationOfFutureBlocks clock db₁)
  | low {r : BlockIdType × BlockForkData} {db₁ : ChainDatabase} : Places N db b →
      storeAndIndex (N.B.id b.toSignedBlockHeader) b db = .ok r db₁ →
      Indexed db (N.B.id b.toSignedBlockHeader) b r db₁ → Pushing N clock b db (.ok () db₁)
  | search {r : BlockIdType × BlockForkData} {db₁ : ChainDatabase} {longest : FullBlock} :
      Places N db b → storeAndIndex (N.B.id b.toSignedBlockHeader) b db = .ok r db₁ →
      Indexed db (N.B.id b.toSignedBlockHeader) b r db₁ → r.2.canLink = true →
      db₁.blockIdToFullBlock.lookup r.1 = some longest →
      db.headBlockHeader.blockNum < longest.blockNum →
      Pushing N clock b db
        (tryNumbers N clock (N.B.id b.toSignedBlockHeader) longest.blockNum db₁)

theorem pushBlock_pushing (h : ForkTree N db) (clock : TimePointSec) (b : FullBlock) :
    Pushing N clock b db (pushBlock N clock b db) := by
  unfold Achain.pushBlock
  rw [get_bind]
  dsimp only
  split_ifs with hold hknown
  · exact .old
  · exact .known
  · obtain ⟨r, db₁, hrun, hi⟩ := storeAndIndex_indexed h rfl hknown
    rw [bind_of_ok hrun]
    split_ifs with hlink
    · obtain ⟨longest, hlongest⟩ := hi.block hlink
      rw [bind_of_ok (fetchBlock_ok hlongest)]
      split_ifs with hlt
      · exact .search ⟨hold, hknown⟩ hrun hi hlink hlongest hlt
      · exact .low ⟨hold, hknown⟩ hrun hi
    · exact .unlinked ⟨hold, hknown⟩ hrun hi (Bool.eq_false_iff.2 hlink)

theorem Indexed.block_of_ne {id x : BlockIdType} {r : BlockIdType × BlockForkData}
    (hi : Indexed db id b r db') (hx : x ≠ id) :
    db'.blockIdToFullBlock.lookup x = db.blockIdToFullBlock.lookup x := by
  cases hi <;> exact Finmap.lookup_insert_of_ne _ hx

/-- What placing a block leaves alone. -/
structure Apart (db db' : ChainDatabase) : Prop where
  tables : db'.tables = db.tables
  headBlockId : db'.headBlockId = db.headBlockId
  headBlockHeader : db'.headBlockHeader = db.headBlockHeader
  blockNumToId : db'.blockNumToId = db.blockNumToId
  blockIdToUndoState : db'.blockIdToUndoState = db.blockIdToUndoState
  futureBlocks : db'.futureBlocks = db.futureBlocks

theorem Indexed.chain {id : BlockIdType} {r : BlockIdType × BlockForkData}
    (hi : Indexed db id b r db') : Apart db db' := by
  cases hi <;> exact ⟨rfl, rfl, rfl, rfl, rfl, rfl⟩

theorem Indexed.mem {id : BlockIdType} {r : BlockIdType × BlockForkData}
    (hi : Indexed db id b r db') : db'.blockIdToFullBlock.lookup id = some b := by
  cases hi <;> exact Finmap.lookup_insert _

namespace ForkTree

theorem clearInvalidation (clock : TimePointSec) :
    Keeps (ForkTree N) (clearInvalidationOfFutureBlocks clock) := by
  intro db h
  obtain ⟨m, hrun, hm⟩ := clearInvalidation_ok h clock
  have hmarked : ForkTree N { db with forkDb := m } := by
    refine h.marked hm (fun _ => rfl) fun k hk => ?_
    obtain ⟨id, hid, hw⟩ := hk
    refine h.known_of_within (fun x hx => ?_) hw
    rw [List.mem_singleton.1 hx]
    exact h.future id (mem_keptFuture hid)
  rw [final, hrun]
  exact hmarked.of_sameShape (.of_eq rfl rfl rfl)
    (fun id hid => hmarked.future id (mem_keptFuture hid)) hmarked.head hmarked.header

/-- The blocks known form a tree after every call of `push_block`. -/
theorem pushBlock (clock : TimePointSec) (b : FullBlock) :
    Keeps (ForkTree N) (pushBlock N clock b) := by
  intro db h
  rw [final]
  have hpush := pushBlock_pushing h clock b
  generalize Achain.pushBlock N clock b db = result at hpush ⊢
  cases hpush with
  | old => exact h
  | known => exact h
  | unlinked hplaces _ hi _ => exact clearInvalidation clock _ (hi.forkTree h rfl hplaces.unknown)
  | low hplaces _ hi => exact hi.forkTree h rfl hplaces.unknown
  | search hplaces _ hi _ _ _ =>
    exact ((search clock).tryNumbers _ _ ⟨hi.forkTree h rfl hplaces.unknown,
      Finmap.mem_of_lookup_eq_some hi.mem⟩).1

end ForkTree

/-- The tree of a new chain is the genesis block. -/
theorem initializeGenesis_forkTree {g : GenesisState} {on : Bool}
    (h : initializeGenesis N.P g on = .ok db) : ForkTree N db := by
  simp only [initializeGenesis, bind_eq_ok, ensure_eq_ok, pure_eq_ok, exists_const] at h
  obtain ⟨-, -, rfl⟩ := h
  have hlookup : ∀ id : BlockIdType, (Finmap.singleton 0 ⟨[], true, some true, true, true⟩ :
      Tab BlockIdType BlockForkData).lookup id =
        if id = 0 then some ⟨[], true, some true, true, true⟩ else none := by
    intro id
    split_ifs with hid
    · rw [hid, Finmap.lookup_singleton_eq]
    · exact Finmap.lookup_eq_none.2 fun hmem => hid ((Finmap.mem_singleton _ _ _).1 hmem)
  have hblock : ∀ (id : BlockIdType) (b : FullBlock),
      (∅ : Tab BlockIdType FullBlock).lookup id ≠ some b := by
    intro id b hb
    rw [Finmap.lookup_empty] at hb
    cases hb
  refine ⟨⟨_, Finmap.lookup_singleton_eq, rfl, rfl, rfl⟩, fun id b hb => absurd hb (hblock id b),
    fun id d hd hne => ?_, fun id hid => absurd hid Finmap.notMem_empty,
    fun id b hb => absurd hb (hblock id b), fun id c hc => ?_, fun id b hb => absurd hb (hblock id b),
    fun id hl => ?_, fun id d hd hk => ?_, fun n id => ?_, fun id hid => absurd hid List.not_mem_nil,
    ⟨[], .genesis⟩, .inl ⟨rfl, rfl⟩⟩
  · rw [hlookup, if_neg hne] at hd
    cases hd
  · unfold ChainDatabase.next at hc
    rw [hlookup] at hc
    split_ifs at hc <;> cases hc
  · obtain ⟨d, hd, -⟩ := hl
    rw [hlookup] at hd
    split_ifs at hd with hid
    · rw [hid]
      exact ⟨[], .genesis⟩
  · rw [hlookup] at hd
    split_ifs at hd
    rw [← Option.some_inj.1 hd] at hk
    cases hk
  · simp [Finmap.lookup_empty]

end Achain
