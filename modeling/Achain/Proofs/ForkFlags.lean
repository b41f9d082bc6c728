import Achain.Proofs.Calls
import Achain.Proofs.GenesisTables

/-!
# The flags of the blocks known

A block is linked as its previous one is, invalid where its previous one is, and valid only where
its previous one is. Two things break this. A block that fills a placeholder after an invalid block
marks what is after it as invalid and does not link it. Blocks from the future are cleared with
everything after them, also where the block before is invalid or the chain itself is after them.
-/

namespace Achain

open Table Result Stateful Levels

variable {N : Node} {db db' : ChainDatabase} {clock : TimePointSec} {b : FullBlock}
  {id : BlockIdType}

/-! ## The flags -/

/-- A block has been found valid or invalid. -/
def ChainDatabase.Flagged (db : ChainDatabase) (id : BlockIdType) (v : Bool) : Prop :=
  ∃ d, db.forkDb.lookup id = some d ∧ d.isValid = some v

instance (db : ChainDatabase) (id : BlockIdType) (v : Bool) : Decidable (db.Flagged id v) :=
  decidable_of_iff ((db.forkDb.lookup id).any (·.isValid == some v)) (by
    simp only [Option.any_eq_true, beq_iff_eq, ChainDatabase.Flagged])

abbrev ChainDatabase.Valid (db : ChainDatabase) (id : BlockIdType) : Prop := db.Flagged id true
abbrev ChainDatabase.Invalid (db : ChainDatabase) (id : BlockIdType) : Prop := db.Flagged id false

/-- A known block is among those after its previous one and has its flags as that one has. -/
structure FollowsPrevious (db : ChainDatabase) (id : BlockIdType) (b : FullBlock) : Prop where
  next : id ∈ db.next b.previous
  linked : db.Linked id ↔ b.previous = 0 ∨
    (db.forkDb.lookup b.previous).any BlockForkData.isKnown ∧ db.Linked b.previous
  invalid : db.Invalid b.previous → db.Invalid id
  valid : db.Valid id → db.Valid b.previous ∨ b.previous = 0

/-- Every block known follows its previous one. -/
def ForkFlags (db : ChainDatabase) : Prop :=
  ∀ id, (db.forkDb.lookup id).any BlockForkData.isKnown → id ≠ 0 →
    ∃ b, db.blockIdToFullBlock.lookup id = some b ∧ FollowsPrevious db id b

theorem Flagged.not {v : Bool} (h : db.Flagged id v) : ¬ db.Flagged id (!v) := by
  obtain ⟨d, hd, hv⟩ := h
  rintro ⟨d', hd', hv'⟩
  rw [hd, Option.some_inj] at hd'
  rw [← hd', hv, Option.some_inj] at hv'
  cases v <;> cases hv'

/-- The blocks found valid or invalid are linked, and agree with their previous blocks. -/
structure Validity (db : ChainDatabase) : Prop where
  invalid : ∀ id b, db.blockIdToFullBlock.lookup id = some b → db.Invalid b.previous →
    db.Invalid id
  valid : ∀ id b, db.blockIdToFullBlock.lookup id = some b → db.Valid id → db.Valid b.previous
  checked : ∀ id v, db.Flagged id v → db.Linked id
  head : db.Valid db.headBlockId

/-- What is after a linked block is linked. -/
def LinkedDown (db : ChainDatabase) : Prop :=
  ∀ id b, db.blockIdToFullBlock.lookup id = some b → db.Linked b.previous → db.Linked id

theorem Validity.congr (h : Validity db) (hblocks : db'.blockIdToFullBlock = db.blockIdToFullBlock)
    (hflags : ∀ k v, db'.Flagged k v ↔ db.Flagged k v)
    (hlinked : ∀ k, db.Linked k → db'.Linked k) (hhead : db.Valid db'.headBlockId) :
    Validity db' := by
  refine ⟨fun k b hb hinv => ?_, fun k b hb hval => ?_, fun k v hk => ?_, (hflags _ _).2 hhead⟩
  · exact (hflags _ _).2 (h.invalid k b (hblocks ▸ hb) ((hflags _ _).1 hinv))
  · exact (hflags _ _).2 (h.valid k b (hblocks ▸ hb) ((hflags _ _).1 hval))
  · exact hlinked k (h.checked k v ((hflags k v).1 hk))

structure FlagInv (N : Node) (db : ChainDatabase) : Prop where
  tree : ForkTree N db
  down : LinkedDown db
  validity : Validity db

theorem FlagInv.forkFlags (h : FlagInv N db) : ForkFlags db := by
  intro id hk hne
  obtain ⟨d, hd, hk⟩ := Option.any_eq_true .. |>.1 hk
  obtain ⟨b, hb⟩ := Finmap.mem_iff.1 ((h.tree.known id d hd hne).1 hk)
  refine ⟨b, hb, h.tree.parent id b hb, ⟨fun hl => ?_, ?_⟩, h.validity.invalid id b hb,
    fun hv => .inl (h.validity.valid id b hb hv)⟩
  · have hprev := h.tree.linked id b hb hl
    obtain ⟨p, hp, hpl⟩ := hprev
    refine .inr ⟨?_, p, hp, hpl⟩
    rw [hp]
    by_contra hunknown
    rw [Option.any_some, Bool.not_eq_true] at hunknown
    rw [(h.tree.placeholder _ p hp hunknown).1] at hpl
    cases hpl
  · rintro (hzero | ⟨-, hl⟩)
    · obtain ⟨g, hg, hgl, -⟩ := h.tree.genesis
      exact h.down id b hb (hzero ▸ ⟨g, hg, hgl⟩)
    · exact h.down id b hb hl

/-! ## The passes -/

namespace ForkTree

/-- What is after a rooted block is rooted. -/
theorem rooted_of_after (h : ForkTree N db) {x y : BlockIdType} (hafter : After db.next x y)
    (hx : ∃ path, Rooted db.blockIdToFullBlock x path) :
    ∃ path, Rooted db.blockIdToFullBlock y path := by
  induction hafter with
  | refl => exact hx
  | @tail y z _ hz ih =>
    obtain ⟨path, hr⟩ := ih
    obtain ⟨b, hb, rfl⟩ := h.child y z hz
    exact ⟨z :: path, .block hb (h.blockId z b hb).2 hr⟩

/-- A pass from a block reaches every rooted block after it. -/
theorem within_of_after (h : ForkTree N db) {x y : BlockIdType} (hx : x ≠ 0)
    (hafter : After db.next x y) (hy : ∃ path, Rooted db.blockIdToFullBlock y path) :
    Within db.next (db.forkDepth + 1) [x] y := by
  obtain ⟨path, hr⟩ := hy
  exact (h.within_iff hx hr).2 (h.mem_path_of_after hx hafter hr)

theorem after_of_within {n : Nat} {x y : BlockIdType} (hw : Within db.next n [x] y) :
    After db.next x y := by
  obtain ⟨a, ha, hafter⟩ := hw.after
  rw [List.mem_singleton] at ha
  exact ha ▸ hafter

/-- A block after another one is that one, or its previous block is after it. -/
theorem after_previous (h : ForkTree N db) {x y : BlockIdType} (hafter : After db.next x y)
    {b : FullBlock} (hb : db.blockIdToFullBlock.lookup y = some b) :
    y = x ∨ After db.next x b.previous := by
  cases hafter with
  | refl => exact .inl rfl
  | @tail z _ hz hy =>
    obtain ⟨b', hb', rfl⟩ := h.child _ y hy
    rw [hb, Option.some_inj] at hb'
    exact .inr (hb' ▸ hz)

end ForkTree

section Marked

variable {v : Option Bool} {S : BlockIdType → Prop} {m : Tab BlockIdType BlockForkData}

theorem flagged_of_marked
    (hm : Marked (fun d => { d with isValid := v }) S db.forkDb m) {w : Bool} :
    ({ db with forkDb := m } : ChainDatabase).Flagged id w ↔
      S id ∧ v = some w ∧ id ∈ db.forkDb ∨ ¬ S id ∧ db.Flagged id w := by
  unfold ChainDatabase.Flagged
  by_cases hid : S id
  · simp only [hid, true_and, not_true_eq_false, false_and, or_false]
    rw [show ({ db with forkDb := m } : ChainDatabase).forkDb.lookup id = _ from hm.inside id hid]
    constructor
    · rintro ⟨d, hd, hv⟩
      obtain ⟨d', hd', rfl⟩ := Option.map_eq_some_iff.1 hd
      exact ⟨hv, Finmap.mem_of_lookup_eq_some hd'⟩
    · rintro ⟨hv, hmem⟩
      obtain ⟨d, hd⟩ := Finmap.mem_iff.1 hmem
      exact ⟨{ d with isValid := v }, by rw [hd]; rfl, hv⟩
  · simp only [hid, false_and, not_false_eq_true, true_and, false_or]
    rw [show ({ db with forkDb := m } : ChainDatabase).forkDb.lookup id = _ from hm.outside id hid]

theorem flagged_of_linked (hm : Marked (fun d => { d with isLinked := true }) S db.forkDb m)
    {w : Bool} : ({ db with forkDb := m } : ChainDatabase).Flagged id w ↔ db.Flagged id w := by
  unfold ChainDatabase.Flagged
  by_cases hid : S id
  · rw [show ({ db with forkDb := m } : ChainDatabase).forkDb.lookup id = _ from hm.inside id hid]
    cases db.forkDb.lookup id <;> simp
  · rw [show ({ db with forkDb := m } : ChainDatabase).forkDb.lookup id = _ from hm.outside id hid]

/-- Marking blocks as invalid or unchecked, down to everything after them. A block is not cleared
while the one before it stays invalid. -/
theorem FlagInv.mark (h : FlagInv N db)
    (hm : Marked (fun d => { d with isValid := v }) S db.forkDb m) (hv : v ≠ some true)
    (hknown : ∀ k, S k → k ∈ db.blockIdToFullBlock)
    (hdown : ∀ k b, db.blockIdToFullBlock.lookup k = some b → db.Linked k → S b.previous → S k)
    (hup : v = none → ∀ k b, db.blockIdToFullBlock.lookup k = some b → S k →
      db.Invalid b.previous → S b.previous)
    (hlinked : v ≠ none → ∀ k, S k → db.Linked k) (hhead : ¬ S db.headBlockId) :
    FlagInv N { db with forkDb := m } := by
  have hshape : SameShape db { db with forkDb := m } := .of_marked hm (fun _ => rfl) hknown
  refine ⟨h.tree.marked hm (fun _ => rfl) hknown, fun k b hb hl => ?_, fun k b hb hinv => ?_,
    fun k b hb hval => ?_, fun k w hk => ?_, ?_⟩
  · rw [hshape.linked] at hl ⊢
    exact h.down k b hb hl
  · rw [ChainDatabase.Invalid, flagged_of_marked hm] at hinv ⊢
    have hmem := h.tree.stored k (Finmap.mem_of_lookup_eq_some hb)
    rcases hinv with ⟨hS, hfalse, -⟩ | ⟨hS, hinv⟩
    · have hl := h.down k b hb (hlinked (by rw [hfalse]; exact Option.some_ne_none _) _ hS)
      exact .inl ⟨hdown k b hb hl hS, hfalse, hmem⟩
    · by_cases hk : S k
      · refine .inl ⟨hk, ?_, hmem⟩
        cases hvcase : v with
        | none => exact absurd (hup hvcase k b hb hk hinv) hS
        | some w =>
          cases w with
          | true => exact absurd hvcase hv
          | false => rfl
      · exact .inr ⟨hk, h.validity.invalid k b hb hinv⟩
  · rw [ChainDatabase.Valid, flagged_of_marked hm] at hval ⊢
    rcases hval with ⟨-, htrue, -⟩ | ⟨hk, hval⟩
    · exact absurd htrue hv
    · exact .inr ⟨fun hS => hk (hdown k b hb (h.validity.checked k true hval) hS),
        h.validity.valid k b hb hval⟩
  · rw [hshape.linked]
    rcases (flagged_of_marked hm).1 hk with ⟨hS, hw, -⟩ | ⟨-, hk⟩
    · exact hlinked (by rw [hw]; exact Option.some_ne_none _) k hS
    · exact h.validity.checked k w hk
  · exact (flagged_of_marked hm).2 (.inr ⟨hhead, h.validity.head⟩)

end Marked

/-! ## The search -/

namespace FlagInv

theorem linked_of_after (h : FlagInv N db) {x y : BlockIdType} (hx : db.Linked x)
    (hafter : After db.next x y) : db.Linked y := by
  induction hafter with
  | refl => exact hx
  | @tail y z _ hz ih =>
    obtain ⟨b, hb, rfl⟩ := h.tree.child y z hz
    exact h.down z b hb ih

/-- The next head fails and is marked as invalid with everything after it. -/
theorem markInvalid (h : FlagInv N db) (hb : db.blockIdToFullBlock.lookup id = some b)
    (hprev : b.previous = db.headBlockId) (hid : db.Linked id) {m : Tab BlockIdType BlockForkData}
    (hm : Marked (fun d => { d with isValid := some false })
      (Within db.next (db.forkDepth + 1) [id]) db.forkDb m) :
    FlagInv N { db with forkDb := m } := by
  have hne := (h.tree.blockId id b hb).2
  have hS : ∀ k, Within db.next (db.forkDepth + 1) [id] k ↔ After db.next id k := by
    intro k
    refine ⟨ForkTree.after_of_within, fun hafter => h.tree.within_of_after hne hafter ?_⟩
    exact h.tree.rooted k (h.linked_of_after hid hafter)
  refine h.mark (hm.congr hS) (by simp) (fun k hk => ?_) (fun k b' hb' _ hk => ?_) (fun h => ?_)
    (fun _ k hk => h.linked_of_after hid hk) fun hhead => ?_
  · cases hk with
    | refl => exact Finmap.mem_of_lookup_eq_some hb
    | tail _ hlast => exact (h.tree.closed _ k hlast).2
  · exact hk.tail (h.tree.parent k b' hb')
  · cases h
  · -- The block would be on its own path.
    obtain ⟨path, hr⟩ := h.tree.head
    have hpath : Rooted db.blockIdToFullBlock id (id :: path) := .block hb hne (hprev ▸ hr)
    exact (List.nodup_cons.1 hpath.nodup).1 (h.tree.mem_path_of_after hne hhead hr)

theorem flagged_insert {d d' : BlockForkData} (hd : db.forkDb.lookup id = some d)
    (hfork : db'.forkDb = db.forkDb.insert id d') (hvalid : d'.isValid = d.isValid)
    {k : BlockIdType} {v : Bool} : db'.Flagged k v ↔ db.Flagged k v := by
  unfold ChainDatabase.Flagged
  rw [hfork]
  by_cases hk : k = id
  · rw [hk, Finmap.lookup_insert, hd]
    simp [hvalid]
  · rw [Finmap.lookup_insert_of_ne _ hk]

theorem of_flags (h : FlagInv N db) (htree : ForkTree N db') (hshape : SameShape db db')
    (hflags : ∀ k v, db'.Flagged k v ↔ db.Flagged k v) (hhead : db.Valid db'.headBlockId) :
    FlagInv N db' := by
  refine ⟨htree, fun k b hb hl => ?_, h.validity.congr hshape.blocks hflags
    (fun k hl => (hshape.linked k).2 hl) hhead⟩
  rw [hshape.linked] at hl ⊢
  exact h.down k b (hshape.blocks ▸ hb) hl

theorem popBlockM : Keeps (FlagInv N) (popBlockM N) := by
  intro db h
  have htree := ForkTree.popBlockM db h.tree
  have hshape := h.tree.popBlockM_sameShape
  rcases popBlockM_final N db with hsame | hp | ⟨d, hd, hnum, hfail⟩
  · rw [hsame]
    exact h
  · obtain ⟨b, path, hb, hheader, -⟩ := h.tree.head_block hp.blockNum
    obtain ⟨d, hd, hfork⟩ := hp.forkDb
    refine h.of_flags htree hshape (fun k v => flagged_insert hd hfork rfl) ?_
    rw [hp.headBlockId, hheader]
    exact h.validity.valid _ b hb h.validity.head
  · have hfork : (final (Achain.popBlockM N) db).forkDb =
        db.forkDb.insert db.headBlockId { d with isIncluded := false } := by rw [hfail]
    refine h.of_flags htree hshape (fun k v => flagged_insert hd hfork rfl) ?_
    rw [hfail]
    exact h.validity.head

/-- The next head is valid, as the head is. -/
theorem grown (h : FlagInv N db) (hg : Grown N db b db')
    (hb : db.blockIdToFullBlock.lookup (N.B.id b.toSignedBlockHeader) = some b)
    (hid : db.Linked (N.B.id b.toSignedBlockHeader)) : FlagInv N db' := by
  have hshape := ForkTree.grown_sameShape hg hb
  obtain ⟨d, hd, hfork⟩ := hg.forkDb
  have hflags : ∀ k v, db'.Flagged k v ↔
      k = N.B.id b.toSignedBlockHeader ∧ v = true ∨
        k ≠ N.B.id b.toSignedBlockHeader ∧ db.Flagged k v := by
    intro k v
    unfold ChainDatabase.Flagged
    rw [hfork]
    by_cases hk : k = N.B.id b.toSignedBlockHeader
    · rw [hk, Finmap.lookup_insert]
      simp [eq_comm]
    · rw [Finmap.lookup_insert_of_ne _ hk]
      simp [hk]
  refine ⟨h.tree.grown hg hb, fun k b' hb' hl => ?_, fun k b' hb' hinv => ?_,
    fun k b' hb' hval => ?_, fun k v hk => ?_, ?_⟩
  · rw [hshape.linked] at hl ⊢
    exact h.down k b' (hshape.blocks ▸ hb') hl
  · rw [hshape.blocks] at hb'
    rw [ChainDatabase.Invalid, hflags] at hinv ⊢
    obtain ⟨-, hinv⟩ := hinv.resolve_left (by simp)
    refine .inr ⟨?_, h.validity.invalid k b' hb' hinv⟩
    rintro rfl
    rw [hb, Option.some_inj] at hb'
    rw [← hb', hg.previous] at hinv
    exact Flagged.not h.validity.head hinv
  · rw [hshape.blocks] at hb'
    rw [ChainDatabase.Valid, hflags] at hval ⊢
    by_cases hprev : b'.previous = N.B.id b.toSignedBlockHeader
    · exact .inl ⟨hprev, rfl⟩
    · refine .inr ⟨hprev, ?_⟩
      rcases hval with ⟨rfl, -⟩ | ⟨-, hval⟩
      · rw [hb, Option.some_inj] at hb'
        rw [← hb', hg.previous]
        exact h.validity.head
      · exact h.validity.valid k b' hb' hval
  · rw [hshape.linked]
    rcases (hflags k v).1 hk with ⟨rfl, -⟩ | ⟨-, hk⟩
    · exact hid
    · exact h.validity.checked k v hk
  · rw [ChainDatabase.Valid, hflags, hg.headBlockId]
    exact .inl ⟨rfl, rfl⟩

theorem extendChainM (h : FlagInv N db)
    (hb : db.blockIdToFullBlock.lookup (N.B.id b.toSignedBlockHeader) = some b)
    (hprev : b.previous = db.headBlockId) (hid : db.Linked (N.B.id b.toSignedBlockHeader)) :
    FlagInv N (final (extendChainM N clock b) db) := by
  rcases extendChainM_cases N db clock b with ⟨db', hext, hrun⟩ | ⟨e, -, hrun⟩
  · rw [final, hrun]
    exact h.grown (extendChain_grown hext) hb hid
  · obtain ⟨m, hrun', hm⟩ := extendChainM_error h.tree (Finmap.mem_of_lookup_eq_some hb) hrun
    rw [final, hrun']
    exact h.markInvalid hb hprev hid hm

theorem search {pushed : BlockIdType} : SwitchKeeps N clock pushed (fun _ _ => True)
    fun db => FlagInv N db ∧ pushed ∈ db.blockIdToFullBlock where
  switch db id data h hd hlink _ _ := by
    refine switchToFork_keeps (E := fun _ _ => True)
      (I := fun db => FlagInv N db ∧ pushed ∈ db.blockIdToFullBlock) (fun db h => h.1.tree)
      (fun db b h hb hprev hid _ => ?_) h (linked_of_canLink hd hlink)
      (fun history _ _ _ => ?_) fun _ _ _ => trivial
    · refine ⟨h.1.extendChainM hb hprev hid, ?_⟩
      rw [(h.1.tree.extendChainM_sameShape clock hb).blocks]
      exact h.2
    · refine ⟨?_, ?_⟩
      · have hpops : ∀ fuel, Keeps (FlagInv N) (popUntil N (history.getLastD 0) fuel) := by
          intro fuel
          induction fuel with
          | zero => exact .throw _
          | succ fuel ih => exact .get_bind fun _ _ => .ite (.pure _) (.bind popBlockM fun _ => ih)
        exact hpops _ db h.1
      · rw [(h.1.tree.popUntil_sameShape _ _).blocks]
        exact h.2
  future db h := by
    refine ⟨?_, h.2⟩
    have htree := ((ForkTree.search clock).future db ⟨h.1.tree, h.2⟩).1
    exact h.1.of_flags htree (.of_eq rfl rfl rfl) (fun _ _ => Iff.rfl) h.1.validity.head

end FlagInv

/-! ## Placing a block -/

section Place

variable {data : BlockForkData}

theorem withBlock_flagged {k : BlockIdType} {v : Bool} : (db.withBlock id b data).Flagged k v ↔
    k = id ∧ data.isValid = some v ∨ k ≠ id ∧ db.Flagged k v := by
  unfold ChainDatabase.Flagged
  rw [withBlock_fork]
  by_cases hk : k = id
  · simp [hk]
  · rw [if_neg hk]
    simp only [hk, false_and, ne_eq, not_false_eq_true, true_and, false_or]
    split_ifs with hprev
    · subst hprev
      unfold ChainDatabase.previousData
      cases db.forkDb.lookup b.previous <;> simp [BlockForkData.empty]
    · rfl

/-- What a new block is marked with: not valid, and invalid where its previous block is, in which
case nothing is after it yet. -/
structure NewFlags (db : ChainDatabase) (id : BlockIdType) (b : FullBlock) (data : BlockForkData) :
    Prop where
  valid : data.isValid ≠ some true
  invalid : db.Invalid b.previous → data.isValid = some false
  last : data.isValid = some false → data.isLinked = true ∧ db.next id = [] ∧ b.previous ≠ id

theorem previousData_invalid (db : ChainDatabase) (id : BlockIdType) (b : FullBlock) :
    (db.previousData id b).invalid = true ↔ db.Invalid b.previous := by
  unfold ChainDatabase.Invalid ChainDatabase.Flagged ChainDatabase.previousData
  cases db.forkDb.lookup b.previous with
  | none => simp [BlockForkData.empty, BlockForkData.invalid]
  | some d => simp [BlockForkData.invalid]

/-- What a block after a linked one fills was a placeholder before. -/
theorem ForkTree.mem_of_placed (h : ForkTree N db)
    (hunknown : ¬ (db.forkDb.lookup id).any BlockForkData.isKnown) {ph : BlockForkData}
    (hph : (db.placed id b).forkDb.lookup id = some ph)
    (hl : (db.previousData id b).isLinked = true) : id ∈ db.forkDb := by
  unfold ChainDatabase.placed at hph
  dsimp only at hph
  by_cases hprev : id = b.previous
  · rw [previousData_linked db id b, ← hprev] at hl
    exact absurd hl (h.unknown hunknown).2.2
  · rw [Finmap.lookup_insert_of_ne _ hprev] at hph
    exact Finmap.mem_of_lookup_eq_some hph

namespace FlagInv

theorem withBlock_validity (h : FlagInv N db)
    (hunknown : ¬ (db.forkDb.lookup id).any BlockForkData.isKnown)
    (hlinked : data.isLinked = true ↔ db.Linked b.previous) (hnew : NewFlags db id b data) :
    Validity (db.withBlock id b data) := by
  obtain ⟨hne, hnotMem, hnotLinked⟩ := h.tree.unknown hunknown
  have hflag : ∀ k v, db.Flagged k v → k ≠ id := by
    rintro k v hk rfl
    exact hnotLinked (h.validity.checked k v hk)
  have hlink := h.tree.withBlock_linked hunknown hlinked
  refine ⟨fun k b' hb' hinv => ?_, fun k b' hb' hval => ?_, fun k v hk => ?_, ?_⟩
  · rw [ChainDatabase.Invalid, withBlock_flagged] at hinv ⊢
    rw [withBlock_block] at hb'
    split_ifs at hb' with hk
    · rw [Option.some_inj] at hb'
      subst hb'
      rcases hinv with ⟨hprev, hfalse⟩ | ⟨-, hinv⟩
      · exact absurd hprev (hnew.last hfalse).2.2
      · exact .inl ⟨hk, hnew.invalid hinv⟩
    · rcases hinv with ⟨hprev, hfalse⟩ | ⟨-, hinv⟩
      · have hmem := h.tree.parent k b' hb'
        rw [hprev, (hnew.last hfalse).2.1] at hmem
        cases hmem
      · exact .inr ⟨hk, h.validity.invalid k b' hb' hinv⟩
  · rw [ChainDatabase.Valid, withBlock_flagged] at hval ⊢
    obtain ⟨hk, hval⟩ := hval.resolve_left fun hid => hnew.valid hid.2
    rw [withBlock_block, if_neg hk] at hb'
    have hprev := h.validity.valid k b' hb' hval
    exact .inr ⟨hflag _ _ hprev, hprev⟩
  · rw [hlink]
    rcases withBlock_flagged.1 hk with ⟨rfl, hv⟩ | ⟨-, hk⟩
    · cases v with
      | true => exact absurd hv hnew.valid
      | false => exact .inl ⟨rfl, hlinked.1 (hnew.last hv).1⟩
    · exact .inr (h.validity.checked k v hk)
  · exact withBlock_flagged.2 (.inr ⟨hflag _ _ h.validity.head, h.validity.head⟩)

theorem withBlock_down (h : FlagInv N db)
    (hunknown : ¬ (db.forkDb.lookup id).any BlockForkData.isKnown)
    (hlinked : data.isLinked = true ↔ db.Linked b.previous)
    (hlast : db.next id = [] ∨ ¬ db.Linked b.previous) : LinkedDown (db.withBlock id b data) := by
  have hlink := h.tree.withBlock_linked hunknown hlinked
  intro k b' hb' hl
  rw [hlink] at hl ⊢
  rw [withBlock_block] at hb'
  split_ifs at hb' with hk
  · rw [Option.some_inj] at hb'
    subst hb'
    exact .inl ⟨hk, hl.elim And.right fun hl => hl⟩
  · refine .inr (h.down k b' hb' (hl.resolve_left fun hid => ?_))
    rcases hlast with hnil | hprev
    · have hmem := h.tree.parent k b' hb'
      rw [hid.1, hnil] at hmem
      cases hmem
    · exact hprev hid.2

/-- A block that fills a placeholder links what is after it. -/
theorem link (htree : ForkTree N db) (hvalidity : Validity db) (hid : db.Linked id) (hne : id ≠ 0)
    (hdown : ∀ k b, db.blockIdToFullBlock.lookup k = some b → b.previous ≠ id →
      db.Linked b.previous → db.Linked k) {m : Tab BlockIdType BlockForkData}
    (hm : Marked (fun d => { d with isLinked := true }) (Within db.next db.forkDepth (db.next id))
      db.forkDb m) : FlagInv N { db with forkDb := m } := by
  have hlinked : ∀ k, ({ db with forkDb := m } : ChainDatabase).Linked k ↔
      Within db.next db.forkDepth (db.next id) k ∧ k ∈ db.forkDb ∨ db.Linked k := by
    intro k
    unfold ChainDatabase.Linked
    by_cases hk : Within db.next db.forkDepth (db.next id) k
    · rw [show ({ db with forkDb := m } : ChainDatabase).forkDb.lookup k = _ from hm.inside k hk,
        ← Finmap.lookup_isSome]
      cases db.forkDb.lookup k <;> simp [hk]
    · rw [show ({ db with forkDb := m } : ChainDatabase).forkDb.lookup k = _ from hm.outside k hk]
      simp [hk]
  have hafter : ∀ k, After db.next id k → k ∈ db.forkDb →
      ({ db with forkDb := m } : ChainDatabase).Linked k := by
    intro k hk hmem
    have hw := htree.within_of_after hne hk (htree.rooted_of_after hk (htree.rooted id hid))
    rcases ForkTree.within_cons.2 hw with rfl | hw
    · exact (hlinked k).2 (.inr hid)
    · exact (hlinked k).2 (.inl ⟨hw, hmem⟩)
  refine ⟨htree.link hid hm, fun k b hb hl => ?_,
    hvalidity.congr rfl (fun _ _ => flagged_of_linked hm) (fun k hl => (hlinked k).2 (.inr hl))
      hvalidity.head⟩
  have hmem := htree.stored k (Finmap.mem_of_lookup_eq_some hb)
  have hparent := htree.parent k b hb
  by_cases hprev : b.previous = id
  · exact hafter k (.single (hprev ▸ hparent)) hmem
  · rcases (hlinked _).1 hl with ⟨hw, -⟩ | hl
    · obtain ⟨a, ha, hprevAfter⟩ := hw.after
      exact hafter k ((Relation.ReflTransGen.head ha hprevAfter).tail hparent) hmem
    · exact (hlinked k).2 (.inr (hdown k b hb hprev hl))

/-- A block placed keeps the flags, unless it fills a placeholder after an invalid block. -/
theorem indexed {r : BlockIdType × BlockForkData} (h : FlagInv N db) (hi : Indexed db id b r db')
    (hid : N.B.id b.toSignedBlockHeader = id)
    (hunknown : ¬ (db.forkDb.lookup id).any BlockForkData.isKnown)
    (hfilled : id ∈ db.forkDb → ¬ db.Invalid b.previous) : FlagInv N db' := by
  have htree := hi.forkTree h.tree hid hunknown
  obtain ⟨hne, hnotMem, hnotLinked⟩ := h.tree.unknown hunknown
  have hprevInvalid := previousData_invalid db id b
  cases hi with
  | fresh hnone =>
    have hprev : b.previous ≠ id := by
      intro hprev
      unfold ChainDatabase.placed at hnone
      dsimp only at hnone
      rw [hprev, Finmap.lookup_insert] at hnone
      cases hnone
    have hnil : db.next id = [] := by
      unfold ChainDatabase.placed at hnone
      dsimp only at hnone
      rw [Finmap.lookup_insert_of_ne _ (Ne.symm hprev)] at hnone
      unfold ChainDatabase.next
      rw [hnone]
      rfl
    refine ⟨htree, h.withBlock_down hunknown (previousData_linked db id b) (.inl hnil),
      h.withBlock_validity hunknown (previousData_linked db id b) ⟨?_, ?_, ?_⟩⟩
    · show (if (db.previousData id b).invalid then some false else none) ≠ some true
      split_ifs <;> simp
    · intro hinv
      show (if (db.previousData id b).invalid then some false else none) = some false
      rw [if_pos (hprevInvalid.2 hinv)]
    · intro hfalse
      have hfalse : (if (db.previousData id b).invalid then some false else none) = some false :=
        hfalse
      split_ifs at hfalse with hinv
      refine ⟨?_, hnil, hprev⟩
      exact (previousData_linked db id b).2 (h.validity.checked _ _ (hprevInvalid.1 hinv))
  | @orphan ph hph hl =>
    obtain ⟨-, hphl, hphv, -⟩ := h.tree.placed_unknown hunknown hph
    have hprev : ¬ db.Linked b.previous := by
      rw [← previousData_linked db id b, hl]
      exact Bool.false_ne_true
    have hlinked : (ph.received (db.previousData id b)).isLinked = true ↔ db.Linked b.previous := by
      rw [← previousData_linked db id b]
      simp [BlockForkData.received, hphl]
    have hvalid : (ph.received (db.previousData id b)).isValid = none := by
      simp [BlockForkData.received, hl, hphv]
    refine ⟨htree, h.withBlock_down hunknown hlinked (.inr hprev),
      h.withBlock_validity hunknown hlinked ⟨?_, fun hinv => ?_, fun hfalse => ?_⟩⟩
    · rw [hvalid]
      exact (Option.some_ne_none _).symm
    · exact absurd (h.validity.checked _ _ hinv) hprev
    · rw [hvalid] at hfalse
      cases hfalse
  | @invalid ph m hph hl hinv hm =>
    exact absurd (hprevInvalid.1 hinv) (hfilled (h.tree.mem_of_placed hunknown hph hl))
  | @linked ph m best hph hl hinv hm _ =>
    obtain ⟨-, hphl, hphv, -⟩ := h.tree.placed_unknown hunknown hph
    have hprevLinked := (previousData_linked db id b).1 hl
    have hlinked : (ph.received (db.previousData id b)).isLinked = true ↔ db.Linked b.previous := by
      rw [← previousData_linked db id b]
      simp [BlockForkData.received, hphl]
    have hvalid : (ph.received (db.previousData id b)).isValid = none := by
      simp [BlockForkData.received, hinv, hphv]
    have hnew : NewFlags db id b (ph.received (db.previousData id b)) := by
      refine ⟨?_, fun h => ?_, fun hfalse => ?_⟩
      · rw [hvalid]
        exact (Option.some_ne_none _).symm
      · rw [hprevInvalid.2 h] at hinv
        cases hinv
      · rw [hvalid] at hfalse
        cases hfalse
    have hvalidity := h.withBlock_validity hunknown hlinked hnew
    have hlink : ∀ k, (db.withBlock id b (ph.received (db.previousData id b))).Linked k ↔
        k = id ∧ db.Linked b.previous ∨ db.Linked k := h.tree.withBlock_linked hunknown hlinked
    rw [← withBlock_next_received db id b ph] at hm
    refine link (h.tree.received hid hunknown hph) hvalidity ((hlink id).2 (.inl ⟨rfl, hprevLinked⟩))
      hne (fun k b' hb' hprev hl' => ?_) hm
    rw [hlink] at hl' ⊢
    rw [withBlock_block] at hb'
    split_ifs at hb' with hk
    · exact .inl ⟨hk, hprevLinked⟩
    · exact .inr (h.down k b' hb' (hl'.resolve_left fun hid => hprev hid.1))

end FlagInv

end Place

/-! ## Clearing blocks from the future -/

/-- A block of the chain: on the path from the head. -/
def ChainDatabase.OnChain (db : ChainDatabase) (id : BlockIdType) : Prop :=
  ∃ path, Rooted db.blockIdToFullBlock db.headBlockId path ∧ id ∈ path

/-- The blocks cleared can be cleared: the chain is not after them, and where the block before one
of them is invalid, it is cleared as well. -/
structure Clearable (db : ChainDatabase) (kept : List BlockIdType) : Prop where
  chain : ∀ x ∈ kept, ¬ db.OnChain x
  previous : ∀ x ∈ kept, ∀ b, db.blockIdToFullBlock.lookup x = some b → db.Invalid b.previous →
    ∃ y ∈ kept, After db.next y b.previous

theorem FlagInv.clearInvalidation (h : FlagInv N db) (hc : Clearable db (db.keptFuture clock)) :
    FlagInv N (final (clearInvalidationOfFutureBlocks clock) db) := by
  obtain ⟨m, hrun, hm⟩ := clearInvalidation_ok h.tree clock
  have hne : ∀ x ∈ db.keptFuture clock, x ≠ 0 := by
    intro x hx
    obtain ⟨b, hb⟩ := Finmap.mem_iff.1 (h.tree.future x (mem_keptFuture hx))
    exact (h.tree.blockId x b hb).2
  have hS : ∀ k, (∃ x ∈ db.keptFuture clock, After db.next x k) → db.Linked k →
      ∃ x ∈ db.keptFuture clock, Within db.next (db.forkDepth + 1) [x] k := by
    rintro k ⟨x, hx, hafter⟩ hl
    exact ⟨x, hx, h.tree.within_of_after (hne x hx) hafter (h.tree.rooted k hl)⟩
  have hmarked : FlagInv N { db with forkDb := m } := by
    refine h.mark hm (by simp) (fun k hk => ?_) (fun k b hb hl hk => ?_) (fun _ k b hb hk hinv => ?_)
      (fun h => absurd rfl h) fun hhead => ?_
    · obtain ⟨x, hx, hw⟩ := hk
      refine h.tree.known_of_within (fun y hy => ?_) hw
      rw [List.mem_singleton.1 hy]
      exact h.tree.future x (mem_keptFuture hx)
    · obtain ⟨x, hx, hw⟩ := hk
      exact hS k ⟨x, hx, (ForkTree.after_of_within hw).tail (h.tree.parent k b hb)⟩ hl
    · obtain ⟨x, hx, hw⟩ := hk
      refine hS _ ?_ (h.validity.checked _ _ hinv)
      rcases h.tree.after_previous (ForkTree.after_of_within hw) hb with rfl | hafter
      · exact hc.previous k hx b hb hinv
      · exact ⟨x, hx, hafter⟩
    · obtain ⟨x, hx, hw⟩ := hhead
      obtain ⟨path, hr⟩ := h.tree.head
      exact hc.chain x hx ⟨path, hr, h.tree.mem_path_of_after (hne x hx)
        (ForkTree.after_of_within hw) hr⟩
  have htree := ForkTree.clearInvalidation clock db h.tree
  rw [final, hrun] at htree ⊢
  exact hmarked.of_flags htree (.of_eq rfl rfl rfl) (fun _ _ => Iff.rfl) hmarked.validity.head

/-! ## Pushing a block -/

/-- A block after which no fork is tried: its previous block cannot be linked, or the block fills a
placeholder and everything after it is numbered `0`. -/
def ClearsFuture (db : ChainDatabase) (id : BlockIdType) (b : FullBlock) : Prop :=
  ¬ (db.Linked b.previous ∧ ¬ db.Invalid b.previous) ∨
    id ∈ db.forkDb ∧ ∀ x b', After db.next id x → db.blockIdToFullBlock.lookup x = some b' →
      b'.blockNum = 0

section Pushed

variable {r : BlockIdType × BlockForkData} {x : BlockIdType} {b' : FullBlock}

theorem Indexed.next_mono (hi : Indexed db id b r db') (y : BlockIdType) :
    ∀ c ∈ db.next y, c ∈ db'.next y := by
  have hplaced : ∀ data : BlockForkData, data.nextBlocks = (db.placed id b).next id →
      ∀ c ∈ db.next y, c ∈ (db.withBlock id b data).next y := by
    intro data hnext c hc
    rw [withBlock_next hnext]
    split_ifs
    · exact List.mem_insert_of_mem hc
    · exact hc
  intro c hc
  cases hi with
  | fresh hnone =>
    refine hplaced _ ?_ c hc
    unfold ChainDatabase.next
    rw [hnone]
    rfl
  | orphan hph _ => exact hplaced _ (placed_next_of_some hph _) c hc
  | @invalid ph m hph _ _ hm =>
    have hnext : ({ db.withBlock id b (ph.received (db.previousData id b)) with forkDb := m } :
        ChainDatabase).next = _ := next_of_marked invalid_flags hm
    rw [hnext]
    exact hplaced _ (placed_next_of_some hph _) c hc
  | @linked ph m best hph _ _ hm _ =>
    have hnext : ({ db.withBlock id b (ph.received (db.previousData id b)) with forkDb := m } :
        ChainDatabase).next = _ := next_of_marked linked_flags hm
    rw [hnext]
    exact hplaced _ (placed_next_of_some hph _) c hc

/-- A block placed makes no block known before invalid. -/
theorem FlagInv.indexed_invalid (h : FlagInv N db) (hi : Indexed db id b r db')
    (hunknown : ¬ (db.forkDb.lookup id).any BlockForkData.isKnown)
    (hfilled : id ∈ db.forkDb → ¬ db.Invalid b.previous)
    (hx : db.blockIdToFullBlock.lookup x = some b') (hinv : db'.Invalid b'.previous) :
    db.Invalid b'.previous := by
  cases hi with
  | fresh hnone =>
    rcases withBlock_flagged.1 hinv with ⟨hprev, -⟩ | ⟨-, hinv⟩
    · have hmem := (Indexed.fresh hnone).next_mono _ x (h.tree.parent x b' hx)
      rw [hprev] at hmem
      unfold ChainDatabase.next at hmem
      rw [withBlock_fork, if_pos rfl] at hmem
      cases hmem
    · exact hinv
  | @orphan ph hph hl =>
    rcases withBlock_flagged.1 hinv with ⟨-, hfalse⟩ | ⟨-, hinv⟩
    · simp [BlockForkData.received, hl, (h.tree.placed_unknown hunknown hph).2.2.1] at hfalse
    · exact hinv
  | @invalid ph m hph hl hprev hm =>
    exact absurd ((previousData_invalid db id b).1 hprev)
      (hfilled (h.tree.mem_of_placed hunknown hph hl))
  | @linked ph m best hph hl hprev hm _ =>
    have hinv := (flagged_of_linked hm).1 hinv
    rcases withBlock_flagged.1 hinv with ⟨-, hfalse⟩ | ⟨-, hinv⟩
    · simp [BlockForkData.received, hprev, (h.tree.placed_unknown hunknown hph).2.2.1] at hfalse
    · exact hinv

/-- What is linked before a block is placed is not after it. -/
theorem ForkTree.linked_of_after_withBlock {data : BlockForkData} (h : ForkTree N db)
    (htree : ForkTree N (db.withBlock id b data))
    (hunknown : ¬ (db.forkDb.lookup id).any BlockForkData.isKnown)
    (hafter : After (db.withBlock id b data).next id x) (hx : db.Linked x) : db.Linked id := by
  induction hafter with
  | refl => exact hx
  | @tail y z _ hz ih =>
    obtain ⟨b', hb', rfl⟩ := htree.child y z hz
    rw [withBlock_block, if_neg] at hb'
    · exact ih (h.linked z b' hb' hx)
    · rintro rfl
      exact (h.unknown hunknown).2.2 hx

theorem FlagInv.clearsFuture (h : FlagInv N db) (hi : Indexed db id b r db')
    (hid : N.B.id b.toSignedBlockHeader = id)
    (hunknown : ¬ (db.forkDb.lookup id).any BlockForkData.isKnown)
    (hlink : r.2.canLink = false) : ClearsFuture db id b := by
  have hprevLinked := previousData_linked db id b
  have hprevInvalid := previousData_invalid db id b
  cases hi with
  | fresh hnone =>
    refine .inl fun hprev => ?_
    have hinv : (db.previousData id b).invalid = false :=
      Bool.eq_false_iff.2 fun hinv => hprev.2 (hprevInvalid.1 hinv)
    unfold BlockForkData.fresh at hlink
    rw [hprevLinked.2 hprev.1, hinv] at hlink
    cases hlink
  | orphan hph hl =>
    refine .inl fun hprev => ?_
    rw [hprevLinked.2 hprev.1] at hl
    cases hl
  | invalid hph hl hinv hm => exact .inl fun hprev => hprev.2 (hprevInvalid.1 hinv)
  | @linked ph m best hph hl hinv hm hbest =>
    refine .inr ⟨h.tree.mem_of_placed hunknown hph hl, fun x b' hafter hb' => ?_⟩
    have htree := h.tree.received hid hunknown hph
    have hnotLinked := (h.tree.unknown hunknown).2.2
    have hnext := withBlock_next (placed_next_of_some hph (db.previousData id b))
    have hx : x ≠ id := by
      rintro rfl
      exact (h.tree.unknown hunknown).2.1 (Finmap.mem_of_lookup_eq_some hb')
    have hlinked : (db.withBlock id b (ph.received (db.previousData id b))).Linked id := by
      refine ⟨_, (withBlock_fork ..).trans (if_pos rfl), ?_⟩
      simp [BlockForkData.received, hl]
    have hwithin : Within (db.withBlock id b (ph.received (db.previousData id b))).next
        (db.withBlock id b (ph.received (db.previousData id b))).forkDepth ph.nextBlocks x := by
      have hafter' : After (db.withBlock id b (ph.received (db.previousData id b))).next id x := by
        refine Relation.ReflTransGen.mono (fun a c hc => ?_) _ _ hafter
        rw [hnext]
        split_ifs
        · exact List.mem_insert_of_mem hc
        · exact hc
      have hw := htree.within_of_after (h.tree.unknown hunknown).1 hafter'
        (htree.rooted_of_after hafter' (htree.rooted id hlinked))
      rw [← withBlock_next_received db id b ph]
      exact (ForkTree.within_cons.2 hw).resolve_left hx
    have hbound := hbest.bound x b' hwithin (by rw [withBlock_block, if_neg hx, hb'])
    rcases hbest.choice with rfl | ⟨y, b'', d, hy, hb'', hd, -, rfl⟩
    · exact Nat.le_zero.1 hbound
    · -- The highest block after the new one is not invalid: it was not linked before.
      exfalso
      have hflag : (db.withBlock id b (ph.received (db.previousData id b))).Invalid y := by
        refine ⟨d, hd, ?_⟩
        simpa [BlockForkData.canLink, BlockForkData.invalid] using hlink
      have hyLinked : db.Linked y := by
        rcases withBlock_flagged.1 hflag with ⟨-, hfalse⟩ | ⟨-, hflag⟩
        · simp [BlockForkData.received, hinv, (h.tree.placed_unknown hunknown hph).2.2.1] at hfalse
        · exact h.validity.checked y false hflag
      obtain ⟨c, hc, hcafter⟩ := hy.after
      rw [← withBlock_next_received db id b ph] at hc
      refine hnotLinked (h.tree.linked_of_after_withBlock htree hunknown ?_ hyLinked)
      exact .head hc hcafter

end Pushed

/-- What a block pushed must meet for the flags to be kept: if it fills a placeholder, it is not
after an invalid block; and if blocks from the future are cleared, they can be. -/
def SafePush (N : Node) (db : ChainDatabase) (clock : TimePointSec) (b : FullBlock) : Prop :=
  Places N db b →
    (N.B.id b.toSignedBlockHeader ∈ db.forkDb → ¬ db.Invalid b.previous) ∧
    (ClearsFuture db (N.B.id b.toSignedBlockHeader) b → Clearable db (db.keptFuture clock))

theorem FlagInv.pushBlock (h : FlagInv N db) (hsafe : SafePush N db clock b) :
    FlagInv N (final (pushBlock N clock b) db) := by
  rw [final]
  have hpush := pushBlock_pushing h.tree clock b
  generalize Achain.pushBlock N clock b db = result at hpush ⊢
  cases hpush with
  | old => exact h
  | known => exact h
  | low hplaces _ hi => exact h.indexed hi rfl hplaces.unknown (hsafe hplaces).1
  | search hplaces _ hi _ _ _ =>
    exact (search.tryNumbers _ _ ⟨h.indexed hi rfl hplaces.unknown (hsafe hplaces).1,
      Finmap.mem_of_lookup_eq_some hi.mem⟩ fun _ _ _ => trivial).1
  | @unlinked r db₁ hplaces _ hi hlink =>
    obtain ⟨hfilled, hclear⟩ := hsafe hplaces
    have hunknown := hplaces.unknown
    obtain ⟨hchain, hprevious⟩ := hclear (h.clearsFuture hi rfl hunknown hlink)
    have h₁ := h.indexed hi rfl hunknown hfilled
    have hne : ∀ x ∈ db.futureBlocks, x ≠ N.B.id b.toSignedBlockHeader := by
      rintro x hx rfl
      exact (h.tree.unknown hunknown).2.1 (h.tree.future _ hx)
    have hkept : db₁.keptFuture clock = db.keptFuture clock := by
      unfold ChainDatabase.keptFuture
      rw [hi.chain.futureBlocks]
      exact List.filter_congr fun x hx => by rw [hi.block_of_ne (hne x hx)]
    refine h₁.clearInvalidation ⟨fun x hx => ?_, fun x hx b' hb' hinv => ?_⟩
    · rw [hkept] at hx
      rintro ⟨path, hr, hmem⟩
      obtain ⟨path', hr'⟩ := h.tree.head
      refine hchain x hx ⟨path', hr', ?_⟩
      rw [hi.chain.headBlockId] at hr
      have hsub : ∀ k b', db.blockIdToFullBlock.lookup k = some b' →
          db₁.blockIdToFullBlock.lookup k = some b' := by
        intro k b' hb'
        rw [hi.block_of_ne]
        · exact hb'
        · rintro rfl
          exact (h.tree.unknown hunknown).2.1 (Finmap.mem_of_lookup_eq_some hb')
      rw [(hr'.mono hsub).unique hr]
      exact hmem
    · rw [hkept] at hx ⊢
      rw [hi.block_of_ne (hne x (mem_keptFuture hx))] at hb'
      obtain ⟨y, hy, hafter⟩ := hprevious x hx b' hb' (h.indexed_invalid hi hunknown hfilled hb' hinv)
      exact ⟨y, hy, Relation.ReflTransGen.mono (fun a c hc => hi.next_mono a c hc) _ _ hafter⟩

theorem initializeGenesis_flagInv {g : GenesisState} {on : Bool}
    (h : initializeGenesis N.P g on = .ok db) : FlagInv N db := by
  have htree := initializeGenesis_forkTree h
  obtain ⟨-, hhead, -, hblocks, -⟩ := initializeGenesis_ok h
  have hblock : ∀ id b, db.blockIdToFullBlock.lookup id ≠ some b := by
    intro id b hb
    rw [hblocks, Finmap.lookup_empty] at hb
    cases hb
  refine ⟨htree, fun id b hb => absurd hb (hblock id b), fun id b hb => absurd hb (hblock id b),
    fun id b hb => absurd hb (hblock id b), ?_, ?_⟩
  · rintro id v ⟨d, hd, hv⟩
    refine ⟨d, hd, ?_⟩
    simp only [initializeGenesis, bind_eq_ok, ensure_eq_ok, pure_eq_ok, exists_const] at h
    obtain ⟨-, -, rfl⟩ := h
    have hid : id = 0 :=
      (Finmap.mem_singleton _ _ _).1 (Finmap.mem_of_lookup_eq_some hd)
    rw [hid] at hd
    rw [← Option.some_inj.1 (Finmap.lookup_singleton_eq.symm.trans hd)]
  · obtain ⟨gd, hgd, -, -, hvalid⟩ := htree.genesis
    rw [hhead]
    exact ⟨gd, hgd, hvalid⟩

/-- Every block known follows its previous one, in every state after blocks that fill no placeholder
after an invalid block and clear only blocks from the future that can be cleared. -/
theorem fork_flags_follow (N : Node) (g : GenesisState) (on : Bool) (db₀ db : ChainDatabase)
    (h₀ : initializeGenesis N.P g on = .ok db₀) (hrun : PushRun N (SafePush N) db₀ db) :
    ForkFlags db := by
  refine FlagInv.forkFlags (N := N) ?_
  induction hrun with
  | start => exact initializeGenesis_flagInv h₀
  | push clock b _ hsafe ih => exact ih.pushBlock hsafe

/-- A push onto the chain of the ids `path` that fills no placeholder after an invalid block, while no
block from the future is on the chain or after an invalid block. -/
def SafeOnPath (N : Node) (path : List BlockIdType) (db : ChainDatabase) (clock : TimePointSec)
    (b : FullBlock) : Prop :=
  Rooted db.blockIdToFullBlock db.headBlockId path ∧
    (db.forkDb.lookup (N.B.id b.toSignedBlockHeader) = none ∨ ¬ db.Invalid b.previous) ∧
    ∀ x ∈ db.keptFuture clock, x ∉ path ∧
      ∀ b' ∈ db.blockIdToFullBlock.lookup x, ¬ db.Invalid b'.previous

instance (N : Node) (path : List BlockIdType) (db : ChainDatabase) (clock : TimePointSec)
    (b : FullBlock) : Decidable (SafeOnPath N path db clock b) := by
  unfold SafeOnPath
  infer_instance

theorem SafeOnPath.safe {path : List BlockIdType} (h : SafeOnPath N path db clock b) :
    SafePush N db clock b := by
  obtain ⟨hpath, hfilled, hkept⟩ := h
  refine fun _ => ⟨fun hmem => ?_, fun _ => ⟨?_, fun x hx b' hb' hinv => ?_⟩⟩
  · exact hfilled.resolve_left (Option.isSome_iff_ne_none.1 (Finmap.lookup_isSome.2 hmem))
  · rintro x hx ⟨path', hr, hmem⟩
    rw [hr.unique hpath] at hmem
    exact (hkept x hx).1 hmem
  · exact absurd hinv ((hkept x hx).2 b' hb')

/-- Block 2 is received before block 1. Of two blocks after it one is from the future, and the other, at
no time of a slot, is invalid. A block after the invalid one is received when the time of the other has
come, whose flag is cleared. -/
theorem fork_flags_follow_orphan :
    ∃ db₀ db, initializeGenesis Node.plain.P .plain false = .ok db₀ ∧
      PushRun .plain (SafePush .plain) db₀ db ∧ db.headBlockId = 1011020 ∧
      db.futureBlocks = [1011021060] ∧ db.Invalid 1011021025 ∧ db.Invalid 1011021026070 ∧
      ¬ db.Invalid 1011021060 ∧ ForkFlags db := by
  have hpush : returns (initializeGenesis Node.plain.P .plain false) (fun db₀ =>
      let db₁ := final (pushBlock .plain 30 (.plain 2 1010 20 [])) db₀
      let db₂ := final (pushBlock .plain 30 (.plain 1 0 10 [])) db₁
      let db₃ := final (pushBlock .plain 30 (.plain 3 1011020 60 [])) db₂
      let db₄ := final (pushBlock .plain 30 (.plain 3 1011020 25 [])) db₃
      let db₅ := final (pushBlock .plain 70 (.plain 4 1011021025 70 [])) db₄
      decide (SafeOnPath .plain [] db₀ 30 (.plain 2 1010 20 []) ∧
        SafeOnPath .plain [] db₁ 30 (.plain 1 0 10 []) ∧
        SafeOnPath .plain [1011020, 1010] db₂ 30 (.plain 3 1011020 60 []) ∧
        SafeOnPath .plain [1011020, 1010] db₃ 30 (.plain 3 1011020 25 []) ∧
        SafeOnPath .plain [1011020, 1010] db₄ 70 (.plain 4 1011021025 70 []) ∧
        db₅.headBlockId = 1011020 ∧ db₅.futureBlocks = [1011021060] ∧ db₅.Invalid 1011021025 ∧
        db₅.Invalid 1011021026070 ∧ ¬ db₅.Invalid 1011021060)) = true := by decide +kernel
  obtain ⟨db₀, h₀, hsafe⟩ := exists_of_returns hpush
  obtain ⟨hsafe₀, hsafe₁, hsafe₂, hsafe₃, hsafe₄, hhead, hfuture, hinvalid, hafter, hcleared⟩ :=
    of_decide_eq_true hsafe
  have hrun : PushRun .plain (SafePush .plain) db₀ _ := .push 70 _ (.push 30 _ (.push 30 _
    (.push 30 _ (.push 30 _ .start hsafe₀.safe) hsafe₁.safe) hsafe₂.safe) hsafe₃.safe) hsafe₄.safe
  exact ⟨db₀, _, h₀, hrun, hhead, hfuture, hinvalid, hafter, hcleared,
    fork_flags_follow .plain .plain false db₀ _ h₀ hrun⟩

/-- Block 1 has no time of a slot and is invalid. Block 3 is received before block 2, which follows
block 1: then block 2 is linked and block 3, which follows it, is not. -/
theorem filled_after_invalid_not_linked :
    ∃ db₀ db, initializeGenesis Node.plain.P .plain false = .ok db₀ ∧
      PushRun .plain (fun _ _ _ => True) db₀ db ∧ ¬ ForkFlags db := by
  have hpush : returns (initializeGenesis Node.plain.P .plain false) (fun db =>
      let db := final (pushBlock .plain 50 (.plain 1 0 5 [])) db
      let db := final (pushBlock .plain 50 (.plain 3 1006020 30 [])) db
      let db := final (pushBlock .plain 50 (.plain 2 1005 20 [])) db
      (db.forkDb.lookup 1006021030).any (fun d => d.isKnown && !d.isLinked) &&
        (db.forkDb.lookup 1006020).any (fun d => d.isKnown && d.isLinked) &&
        (db.blockIdToFullBlock.lookup 1006021030).any (·.previous == 1006020)) = true := by
    decide +kernel
  obtain ⟨db₀, h₀, hend⟩ := exists_of_returns hpush
  refine ⟨db₀, _, h₀, .push 50 (.plain 2 1005 20 []) (.push 50 (.plain 3 1006020 30 [])
    (.push 50 (.plain 1 0 5 []) .start trivial) trivial) trivial, fun hflags => ?_⟩
  dsimp only at hend
  generalize final (pushBlock .plain 50 (.plain 2 1005 20 [])) _ = db at hend hflags
  simp only [Bool.and_eq_true] at hend
  obtain ⟨⟨hlast, hmiddle⟩, hblock⟩ := hend
  obtain ⟨d, hd, hknown⟩ := Option.any_eq_true .. |>.1 hlast
  obtain ⟨p, hp, hplinked⟩ := Option.any_eq_true .. |>.1 hmiddle
  obtain ⟨b', hb', hprev⟩ := Option.any_eq_true .. |>.1 hblock
  simp only [Bool.and_eq_true, Bool.not_eq_true', beq_iff_eq] at hknown hplinked hprev
  obtain ⟨b, hb, hfollows⟩ := hflags 1006021030 (by rw [hd]; exact hknown.1) (by decide)
  rw [hb, Option.some_inj] at hb'
  obtain ⟨d', hd', hl⟩ := hfollows.linked.2 (.inr ⟨by rw [hb', hprev, hp]; exact hplinked.1,
    p, by rw [hb', hprev, hp], hplinked.2⟩)
  rw [hd, Option.some_inj] at hd'
  rw [← hd', hknown.2] at hl
  cases hl

end Achain
