import Achain.Proofs.ForkFlags
import Achain.Proofs.MainChain

/-!
# The fork selected

Where `pop_block` takes the head off the chain and whether a block is accepted depends only on the
block and the chain below it, a search never ends below the head it started from: the blocks of that
head's chain are accepted again, and a fork that is not switched to is left marked as invalid.
-/

namespace Achain

open Table Result Stateful Levels

/-- Which blocks are valid on which chains. -/
abbrev ValidOn := FullBlock → List BlockIdType → Prop

variable {N : Node} {V : ValidOn} {db db' : ChainDatabase} {clock : TimePointSec} {b : FullBlock}
  {id : BlockIdType} {path : List BlockIdType}

/-- Each block of a path is valid on the part below it. -/
def Sound (V : ValidOn) (blocks : Tab BlockIdType FullBlock) : List BlockIdType → Prop
  | [] => True
  | id :: path => (∀ b, blocks.lookup id = some b → V b path) ∧ Sound V blocks path

theorem Sound.mono {blocks blocks' : Tab BlockIdType FullBlock}
    (hsub : ∀ id b, blocks.lookup id = some b → blocks'.lookup id = some b) :
    ∀ {path : List BlockIdType}, (∀ x ∈ path, x ∈ blocks) →
      (Sound V blocks' path ↔ Sound V blocks path)
  | [], _ => Iff.rfl
  | x :: path, hmem => by
    obtain ⟨b, hb⟩ := Finmap.mem_iff.1 (hmem x List.mem_cons_self)
    have hrest := mono hsub fun y hy => hmem y (List.mem_cons_of_mem x hy)
    simp only [Sound, hrest, hb, hsub x b hb]

theorem Sound.of_append {blocks : Tab BlockIdType FullBlock} : ∀ {l q : List BlockIdType},
    Sound V blocks (l ++ q) → Sound V blocks q
  | [], _, h => h
  | _ :: _, _, h => of_append h.2

/-- What holds of the chain and of the blocks marked as invalid in every state of a search. -/
structure Selected (N : Node) (V : ValidOn) (db : ChainDatabase) (path : List BlockIdType) :
    Prop where
  tree : ForkTree N db
  rooted : Rooted db.blockIdToFullBlock db.headBlockId path
  included : ∀ id, db.Included id ↔ id = 0 ∨ id ∈ path
  linked : ∀ x ∈ path, db.Linked x
  sound : Sound V db.blockIdToFullBlock path
  invalid : ∀ x, db.Invalid x → ∃ q, Rooted db.blockIdToFullBlock x q ∧
    ¬ Sound V db.blockIdToFullBlock q

/-- The same tree, with no block marked as invalid any less. -/
structure Onward (db db' : ChainDatabase) : Prop where
  shape : SameShape db db'
  invalid : ∀ x, db.Invalid x → db'.Invalid x

theorem Onward.refl (db : ChainDatabase) : Onward db db := ⟨.of_eq rfl rfl rfl, fun _ h => h⟩

theorem Onward.trans {db'' : ChainDatabase} (h : Onward db db') (h' : Onward db' db'') :
    Onward db db'' :=
  ⟨h.shape.trans h'.shape, fun x hx => h'.invalid x (h.invalid x hx)⟩

namespace Selected

theorem not_invalid (h : Selected N V db path) {q : List BlockIdType}
    (hr : Rooted db.blockIdToFullBlock id q) (hsound : Sound V db.blockIdToFullBlock q) :
    ¬ db.Invalid id := by
  intro hinvalid
  obtain ⟨q', hr', hnot⟩ := h.invalid id hinvalid
  rw [hr'.unique hr] at hnot
  exact hnot hsound

/-- The header of the head is that of its block. -/
theorem headNumber (h : Selected N V db path)
    (hb : db.blockIdToFullBlock.lookup db.headBlockId = some b) :
    db.headBlockHeader.blockNum = b.blockNum := by
  rcases h.tree.header with ⟨hzero, -⟩ | ⟨b', hb', hheader⟩
  · exact absurd hzero (h.tree.blockId _ b hb).2
  · rw [hb, Option.some_inj] at hb'
    rw [hheader, hb']

/-! ## Extending and popping -/

theorem grown_invalid (hg : Grown N db b db') (k : BlockIdType) :
    db'.Invalid k ↔ k ≠ N.B.id b.toSignedBlockHeader ∧ db.Invalid k := by
  obtain ⟨d, -, hfork⟩ := hg.forkDb
  unfold ChainDatabase.Invalid ChainDatabase.Flagged
  rw [hfork]
  by_cases hk : k = N.B.id b.toSignedBlockHeader
  · rw [hk, Finmap.lookup_insert]
    simp
  · rw [Finmap.lookup_insert_of_ne _ hk]
    simp [hk]

theorem grown (h : Selected N V db path) (hg : Grown N db b db')
    (hb : db.blockIdToFullBlock.lookup (N.B.id b.toSignedBlockHeader) = some b)
    (hlinked : db.Linked (N.B.id b.toSignedBlockHeader)) (hV : V b path) :
    Selected N V db' (N.B.id b.toSignedBlockHeader :: path) ∧ Onward db db' := by
  have hne := (h.tree.blockId _ b hb).2
  have hshape := ForkTree.grown_sameShape hg hb
  have hroot : Rooted db.blockIdToFullBlock (N.B.id b.toSignedBlockHeader)
      (N.B.id b.toSignedBlockHeader :: path) := .block hb hne (hg.previous ▸ h.rooted)
  have hsound : Sound V db.blockIdToFullBlock (N.B.id b.toSignedBlockHeader :: path) := by
    refine ⟨fun b' hb' => ?_, h.sound⟩
    rw [hb, Option.some_inj] at hb'
    exact hb' ▸ hV
  obtain ⟨d, -, hfork⟩ := hg.forkDb
  refine ⟨⟨h.tree.grown hg hb, ?_, fun k => ?_, fun x hx => ?_, ?_, fun x hx => ?_⟩, hshape,
    fun x hx => ?_⟩
  · rw [hg.blocks, hg.headBlockId]
    exact hroot
  · rw [ChainInv.included_insert hfork, h.included, List.mem_cons]
    by_cases hk : k = N.B.id b.toSignedBlockHeader <;> simp [hk]
  · rw [hshape.linked]
    rcases List.mem_cons.1 hx with rfl | hx
    · exact hlinked
    · exact h.linked x hx
  · rw [hg.blocks]
    exact hsound
  · rw [hg.blocks]
    exact h.invalid x ((grown_invalid hg x).1 hx).2
  · refine (grown_invalid hg x).2 ⟨?_, hx⟩
    rintro rfl
    exact h.not_invalid hroot hsound hx

theorem popped {x : BlockIdType} (h : Selected N V db (x :: path)) (hp : Popped db db') :
    Selected N V db' path ∧ Onward db db' := by
  obtain ⟨rfl, hne, b, hb, hrest⟩ := h.rooted.cons_inv
  obtain ⟨b', -, hb', hheader, -⟩ := h.tree.head_block hp.blockNum
  rw [hb, Option.some_inj] at hb'
  subst hb'
  obtain ⟨d, hd, hfork⟩ := hp.forkDb
  have hnotMem := (List.nodup_cons.1 h.rooted.nodup).1
  have hshape := h.tree.popped_sameShape hp
  have hflags : ∀ k, db'.Invalid k ↔ db.Invalid k := fun k =>
    FlagInv.flagged_insert hd hfork rfl
  refine ⟨⟨h.tree.popped hp, ?_, fun k => ?_, fun x hx => ?_, ?_, fun x hx => ?_⟩, hshape,
    fun x hx => (hflags x).2 hx⟩
  · rw [hp.blocks, hp.headBlockId, hheader]
    exact hrest
  · rw [ChainInv.included_insert hfork, h.included, List.mem_cons]
    by_cases hk : k = db.headBlockId
    · simp [hk, hne, hnotMem]
    · simp [hk]
  · exact (hshape.linked x).2 (h.linked x (List.mem_cons_of_mem _ hx))
  · rw [hp.blocks]
    exact h.sound.2
  · rw [hp.blocks]
    exact h.invalid x ((hflags x).1 hx)

/-- The path of a block after another one goes through that one. -/
theorem path_of_after (h : ForkTree N db) {x y : BlockIdType} (hafter : After db.next x y)
    (hx : Rooted db.blockIdToFullBlock x path) :
    ∃ l, Rooted db.blockIdToFullBlock y (l ++ path) := by
  induction hafter with
  | refl => exact ⟨[], hx⟩
  | @tail y z _ hz ih =>
    obtain ⟨l, hr⟩ := ih
    obtain ⟨b, hb, rfl⟩ := h.child y z hz
    exact ⟨z :: l, .block hb (h.blockId z b hb).2 hr⟩

/-- Marking what is after a block that is not valid on its chain. -/
theorem marked (h : Selected N V db path) {q : List BlockIdType}
    (hr : Rooted db.blockIdToFullBlock id q) (hnot : ¬ Sound V db.blockIdToFullBlock q)
    (hid : id ∈ db.blockIdToFullBlock) {n : Nat} {m : Tab BlockIdType BlockForkData}
    (hm : Marked (fun d => { d with isValid := some false }) (Within db.next n [id]) db.forkDb m) :
    Selected N V { db with forkDb := m } path ∧ Onward db { db with forkDb := m } := by
  have hknown : ∀ k, Within db.next n [id] k → k ∈ db.blockIdToFullBlock := by
    intro k hk
    refine h.tree.known_of_within (fun x hx => ?_) hk
    rw [List.mem_singleton.1 hx]
    exact hid
  have hshape : SameShape db { db with forkDb := m } := .of_marked hm (fun _ => rfl) hknown
  have hflags : ∀ k, ({ db with forkDb := m } : ChainDatabase).Flagged k false ↔
      Within db.next n [id] k ∧ some false = some false ∧ k ∈ db.forkDb ∨
        ¬ Within db.next n [id] k ∧ db.Flagged k false := fun k => flagged_of_marked hm
  refine ⟨⟨h.tree.marked hm (fun _ => rfl) hknown, h.rooted,
    fun k => (ChainInv.included_of_marked hm (fun _ => rfl) k).trans (h.included k),
    fun x hx => (hshape.linked x).2 (h.linked x hx), h.sound, fun x hx => ?_⟩, hshape,
    fun x hx => (hflags x).2 ?_⟩
  · rcases (hflags x).1 hx with ⟨hw, -⟩ | ⟨-, hold⟩
    · obtain ⟨l, hr'⟩ := path_of_after h.tree (ForkTree.after_of_within hw) hr
      exact ⟨_, hr', fun hsound => hnot hsound.of_append⟩
    · exact h.invalid x hold
  · by_cases hw : Within db.next n [id] x
    · exact .inl ⟨hw, rfl, h.tree.stored x (hknown x hw)⟩
    · exact .inr ⟨hw, hx⟩

end Selected

/-! ## The calls assumed -/

/-- `pop_block` returns, with the previous block as the head. -/
def PopReturns (N : Node) (db : ChainDatabase) : Prop :=
  ∃ db', popBlock N db = .ok db' ∧ db'.headBlockId = db.headBlockHeader.previous

/-- `extend_chain` accepts a block where it is valid on the chain. -/
def ExtendDecides (N : Node) (clock : TimePointSec) (V : ValidOn) (db : ChainDatabase)
    (b : FullBlock) : Prop :=
  ∀ path, Rooted db.blockIdToFullBlock db.headBlockId path →
    ((∃ db', extendChain N db clock b = .ok db') ↔ V b path)

def IdealCall (N : Node) (clock : TimePointSec) (V : ValidOn) (db : ChainDatabase) :
    ChainCall → Prop
  | .switchToFork _ => True
  | .popBlock => PopReturns N db
  | .extendChain b => ExtendDecides N clock V db b

namespace Selected

theorem popBlockM_ok {x : BlockIdType} (h : Selected N V db (x :: path)) (hpop : PopReturns N db) :
    ∃ db', popBlockM N db = .ok () db' ∧ Selected N V db' path ∧ Onward db db' := by
  obtain ⟨db', hrun, hhead⟩ := hpop
  refine ⟨db', by rw [Achain.popBlockM, hrun], ?_⟩
  rcases popBlock_popped hrun with ⟨-, rfl⟩ | hp
  · -- A block is not its own previous one.
    exfalso
    obtain ⟨rfl, hne, b, hb, hrest⟩ := h.rooted.cons_inv
    rcases h.tree.header with ⟨hzero, -⟩ | ⟨b', hb', hheader⟩
    · exact hne hzero
    · rw [hb, Option.some_inj] at hb'
      subst hb'
      rw [hheader] at hhead
      rw [show b.previous = db'.headBlockId from hhead.symm] at hrest
      exact List.cons_ne_self _ _ (hrest.unique h.rooted).symm
  · exact h.popped hp

/-- Popping down to a block of the chain. -/
theorem popUntil {a : BlockIdType} {q : List BlockIdType} {l : List BlockIdType} {fuel : Nat}
    (h : Selected N V db (l ++ q)) (ha : Rooted db.blockIdToFullBlock a q) (hfuel : l.length < fuel)
    (hcalls : ∀ s, PopCalled N a fuel db s → PopReturns N s) :
    ∃ db', popUntil N a fuel db = .ok () db' ∧ Selected N V db' q ∧ Onward db db' := by
  induction l generalizing db fuel with
  | nil =>
    obtain ⟨fuel, rfl⟩ : ∃ k, fuel = k + 1 := ⟨fuel - 1, by omega⟩
    rw [popUntil_succ, if_pos (h.rooted.id_unique ha)]
    exact ⟨db, rfl, h, .refl db⟩
  | cons x l ih =>
    obtain ⟨fuel, rfl⟩ : ∃ k, fuel = k + 1 := ⟨fuel - 1, by omega⟩
    have hhead : db.headBlockId ≠ a := by
      rintro rfl
      have hlength := congrArg List.length (h.rooted.unique ha)
      rw [List.length_append, List.length_cons] at hlength
      omega
    obtain ⟨db₁, hrun, h₁, honward⟩ := h.popBlockM_ok (hcalls db (.here hhead))
    obtain ⟨db₂, hrun₂, h₂, honward₂⟩ := ih h₁ (honward.shape.blocks ▸ ha)
      (by rw [List.length_cons] at hfuel; omega) fun s hs => hcalls s (.next hhead hrun hs)
    rw [popUntil_succ, if_neg hhead, bind_of_ok hrun]
    exact ⟨db₂, hrun₂, h₂, honward.trans honward₂⟩

theorem extendChainM (h : Selected N V db path)
    (hb : db.blockIdToFullBlock.lookup (N.B.id b.toSignedBlockHeader) = some b)
    (hprev : b.previous = db.headBlockId) (hlinked : db.Linked (N.B.id b.toSignedBlockHeader))
    (hcall : ExtendDecides N clock V db b) :
    (∃ db' path', extendChainM N clock b db = .ok () db' ∧ Selected N V db' path' ∧ Onward db db' ∧
        db'.headBlockId = N.B.id b.toSignedBlockHeader) ∨
      ∃ e db', extendChainM N clock b db = .error e db' ∧ Selected N V db' path ∧ Onward db db' ∧
        ∀ y, After db.next (N.B.id b.toSignedBlockHeader) y → db'.Invalid y := by
  have hmem := Finmap.mem_of_lookup_eq_some hb
  have hne := (h.tree.blockId _ b hb).2
  rcases extendChainM_cases N db clock b with ⟨db', hext, hrun⟩ | ⟨e, hext, hrun⟩
  · have hg := extendChain_grown hext
    obtain ⟨h', honward⟩ := h.grown hg hb hlinked ((hcall path h.rooted).1 ⟨db', hext⟩)
    exact .inl ⟨db', _, hrun, h', honward, hg.headBlockId⟩
  · obtain ⟨m, hrun', hm⟩ := extendChainM_error h.tree hmem hrun
    have hroot : Rooted db.blockIdToFullBlock (N.B.id b.toSignedBlockHeader)
        (N.B.id b.toSignedBlockHeader :: path) := .block hb hne (hprev ▸ h.rooted)
    have hnot : ¬ Sound V db.blockIdToFullBlock (N.B.id b.toSignedBlockHeader :: path) := by
      intro hsound
      obtain ⟨db', hok⟩ := (hcall path h.rooted).2 (hsound.1 b hb)
      rw [hext] at hok
      cases hok
    obtain ⟨h', honward⟩ := h.marked hroot hnot hmem hm
    refine .inr ⟨e, _, hrun', h', honward, fun y hy => (flagged_of_marked hm).2 (.inl ?_)⟩
    have hw := h.tree.within_of_after hne hy (h.tree.rooted_of_after hy ⟨_, hroot⟩)
    refine ⟨hw, rfl, h.tree.stored y (h.tree.known_of_within (fun x hx => ?_) hw)⟩
    rw [List.mem_singleton.1 hx]
    exact hmem

end Selected

theorem Upward.after (h : ForkTree N db) : ∀ {ids : List BlockIdType} {a : BlockIdType},
    Upward db.blockIdToFullBlock a ids → ∀ x ∈ ids, After db.next a x
  | id :: ids, a, ⟨⟨b, hb, hprev⟩, hup⟩, x, hx => by
    have hstep : After db.next a id := .single (hprev ▸ h.parent id b hb)
    rcases List.mem_cons.1 hx with rfl | hx
    · exact hstep
    · exact hstep.trans (after h hup x hx)

namespace Selected

/-- Applying the blocks of a fork: all of them, or the last one is marked as invalid. -/
theorem applyFork (clock : TimePointSec) :
    ∀ {ids : List BlockIdType} {db : ChainDatabase} {path : List BlockIdType},
    Selected N V db path → Upward db.blockIdToFullBlock db.headBlockId ids →
    (∀ x ∈ ids, db.Linked x) →
    (∀ s b, ExtendCalled N clock ids db s b → ExtendDecides N clock V s b) →
    (∃ db' path', applyFork N clock ids db = .ok () db' ∧ Selected N V db' path' ∧ Onward db db' ∧
        db'.headBlockId = ids.getLastD db.headBlockId) ∨
      ∃ e db' path', applyFork N clock ids db = .error e db' ∧ Selected N V db' path' ∧
        Onward db db' ∧ db'.Invalid (ids.getLastD db.headBlockId)
  | [], db, path, h, _, _, _ => .inl ⟨db, path, rfl, h, .refl db, rfl⟩
  | id :: ids, db, path, h, ⟨⟨b, hb, hprev⟩, hup⟩, hlinked, hcalls => by
    obtain rfl := (h.tree.blockId id b hb).1
    rw [applyFork_cons hb]
    rcases h.extendChainM hb hprev (hlinked _ List.mem_cons_self) (hcalls db b (.here hb)) with
      ⟨db₁, path₁, hrun, h₁, honward, hhead⟩ | ⟨e, db₁, hrun, h₁, honward, hinvalid⟩
    · have hlast : (N.B.id b.toSignedBlockHeader :: ids).getLastD db.headBlockId =
          ids.getLastD db₁.headBlockId := by
        rw [List.getLastD_cons, hhead]
      rw [bind_of_ok hrun, hlast]
      have hup₁ : Upward db₁.blockIdToFullBlock db₁.headBlockId ids := by
        rw [hhead]
        exact hup.of_blocks honward.shape.blocks
      rcases applyFork clock h₁ hup₁
        (fun x hx => (honward.shape.linked x).2 (hlinked x (List.mem_cons_of_mem _ hx)))
        (fun s b' hs => hcalls s b' (.next hb hrun hs)) with
        ⟨db₂, path₂, hrun₂, h₂, honward₂, hhead₂⟩ | ⟨e, db₂, path₂, hrun₂, h₂, honward₂, hinvalid₂⟩
      · exact .inl ⟨db₂, path₂, hrun₂, h₂, honward.trans honward₂, hhead₂⟩
      · exact .inr ⟨e, db₂, path₂, hrun₂, h₂, honward.trans honward₂, hinvalid₂⟩
    · rw [bind_of_error hrun]
      refine .inr ⟨e, db₁, path, rfl, h₁, honward, hinvalid _ ?_⟩
      rw [List.getLastD_cons]
      cases ids with
      | nil => exact .refl
      | cons y ids =>
        refine hup.after h.tree _ ?_
        rw [List.getLastD_eq_getLast?, List.getLast?_eq_some_getLast (List.cons_ne_nil y ids)]
        exact List.getLast_mem _

end Selected

/-- A linked block has a history. -/
theorem forkHistory_of_linked (h : ForkTree N db) {fuel : Nat} {id : BlockIdType}
    (hr : Rooted db.blockIdToFullBlock id path) (hne : id ≠ 0) (hlinked : db.Linked id)
    (hfuel : path.length ≤ fuel) : ∃ history, forkHistory fuel id db = .ok history db := by
  induction fuel generalizing id path with
  | zero =>
    obtain ⟨b, q, rfl, -⟩ := hr.ne_zero_inv hne
    exact absurd hfuel (Nat.not_succ_le_zero _)
  | succ fuel ih =>
    obtain ⟨b, q, rfl, hb, hrest⟩ := hr.ne_zero_inv hne
    rw [forkHistory_succ, bind_of_ok (fetchBlock_ok hb)]
    by_cases hzero : b.previous = 0
    · rw [if_pos hzero]
      exact ⟨_, rfl⟩
    · obtain ⟨d, hd, hl⟩ := h.linked id b hb hlinked
      rw [if_neg hzero, bind_of_ok (fetchFork_ok hd), hl]
      cases hincluded : d.isIncluded with
      | true => exact ⟨_, rfl⟩
      | false =>
        obtain ⟨history, hrun⟩ := ih hrest hzero ⟨d, hd, hl⟩ (Nat.le_of_succ_le_succ hfuel)
        exact ⟨id :: history, (bind_of_ok hrun).trans rfl⟩

namespace Selected

/-- A switch ends at the block it goes to, or leaves it marked as invalid. -/
theorem switchToFork (h : Selected N V db path) (hid : id ∈ db.blockIdToFullBlock)
    (hlinked : db.Linked id)
    (hcalls : ∀ s c, SwitchCalls N clock id db s c → IdealCall N clock V s c) :
    (∃ db' path', switchToFork N clock id db = .ok () db' ∧ Selected N V db' path' ∧
        Onward db db' ∧ db'.headBlockId = id) ∨
      ∃ e db' path', switchToFork N clock id db = .error e db' ∧ Selected N V db' path' ∧
        Onward db db' ∧ db'.Invalid id := by
  by_cases hne : id = db.headBlockId
  · exact .inl ⟨db, path, switchToFork_head hne, h, .refl db, hne.symm⟩
  · obtain ⟨b, hb⟩ := Finmap.mem_iff.1 hid
    obtain ⟨p, hr⟩ := h.tree.rooted id hlinked
    obtain ⟨history, hhist⟩ := forkHistory_of_linked h.tree hr (h.tree.blockId id b hb).2 hlinked
      ((h.tree.path_length_le hr).le.trans (Nat.le_succ db.forkDepth))
    have hist := forkHistory_history hhist
    obtain ⟨l, q, rfl, hlast⟩ := hist.last_on_path h.rooted h.included
    have hdepth := h.tree.path_length_le h.rooted
    obtain ⟨db₁, hpops, h₁, honward⟩ := h.popUntil hlast
      (by rw [List.length_append] at hdepth; omega : l.length < db.forkDepth + 1)
      fun s hs => hcalls s .popBlock (.pop hne hhist hs)
    have hhead := popUntil_head hpops
    have hup : Upward db₁.blockIdToFullBlock db₁.headBlockId history.dropLast.reverse := by
      rw [hhead]
      exact hist.upward.of_blocks honward.shape.blocks
    have hend : history.dropLast.reverse.getLastD db₁.headBlockId = id := by
      obtain ⟨l', a, rfl, hfirst⟩ := hist.split
      rw [List.dropLast_concat, List.getLastD_eq_getLast?, List.getLast?_reverse, hfirst]
      rfl
    rw [switchToFork_of_history hne hhist, bind_of_ok hpops]
    have happly := h₁.applyFork clock hup
      (fun x hx => (honward.shape.linked x).2 (hist.linked hlinked x (List.mem_reverse.1 hx)))
      fun s b hs => hcalls s (.extendChain b) (.extend hne hhist hpops hs)
    rw [hend] at happly
    rcases happly with ⟨db₂, path₂, hrun₂, h₂, honward₂, hhead₂⟩ |
      ⟨e, db₂, path₂, hrun₂, h₂, honward₂, hinvalid⟩
    · exact .inl ⟨db₂, path₂, hrun₂, h₂, honward.trans honward₂, hhead₂⟩
    · exact .inr ⟨e, db₂, path₂, hrun₂, h₂, honward.trans honward₂, hinvalid⟩

/-! ## The search -/

/-- A block that is not linked or is marked as invalid. -/
def Settled (db : ChainDatabase) (id : BlockIdType) : Prop := db.Linked id → db.Invalid id

theorem settled_onward {x : BlockIdType} (h : Settled db x) (honward : Onward db db') :
    Settled db' x :=
  fun hl => honward.invalid x (h ((honward.shape.linked x).1 hl))

/-- A block of a path that is valid all the way down. -/
def Good (V : ValidOn) (db : ChainDatabase) (id : BlockIdType) : Prop :=
  db.Linked id ∧ ∃ q, Rooted db.blockIdToFullBlock id q ∧ Sound V db.blockIdToFullBlock q

theorem not_settled (h : Selected N V db path) (hgood : Good V db id) : ¬ Settled db id := by
  obtain ⟨hl, q, hr, hsound⟩ := hgood
  exact fun hsettled => h.not_invalid hr hsound (hsettled hl)

theorem good_onward (hgood : Good V db id) (honward : Onward db db') : Good V db' id := by
  obtain ⟨hl, q, hr, hsound⟩ := hgood
  refine ⟨(honward.shape.linked id).2 hl, q, ?_⟩
  rw [honward.shape.blocks]
  exact ⟨hr, hsound⟩

theorem afterThrow {pushed : BlockIdType} {e : Exn} (h : Selected N V db path)
    (hpushed : pushed ∈ db.blockIdToFullBlock) :
    Selected N V (db.afterThrow pushed e) path ∧ Onward db (db.afterThrow pushed e) := by
  unfold ChainDatabase.afterThrow
  split_ifs
  · have htree := ((ForkTree.search 0).future db ⟨h.tree, hpushed⟩).1
    exact ⟨⟨htree, h.rooted, h.included, h.linked, h.sound, h.invalid⟩, .of_eq rfl rfl rfl,
      fun _ hx => hx⟩
  · exact ⟨h, .refl db⟩

/-- Trying blocks in turn ends at one of them, or settles them all. -/
theorem tryForks {pushed : BlockIdType} : ∀ {ids : List BlockIdType} {db : ChainDatabase}
    {path : List BlockIdType}, Selected N V db path → pushed ∈ db.blockIdToFullBlock →
    (∀ x ∈ ids, x ∈ db.blockIdToFullBlock) →
    (∀ s c, ForkCalls N clock pushed ids db s c → IdealCall N clock V s c) →
    (∃ db' path', tryForks N clock pushed ids db = .ok true db' ∧ Selected N V db' path' ∧
        Onward db db' ∧ db'.headBlockId ∈ ids) ∨
      ∃ db' path', tryForks N clock pushed ids db = .ok false db' ∧ Selected N V db' path' ∧
        Onward db db' ∧ ∀ x ∈ ids, Settled db' x
  | [], db, path, h, _, _, _ => .inr ⟨db, path, rfl, h, .refl db, fun _ hx => by cases hx⟩
  | id :: ids, db, path, h, hpushed, hids, hcalls => by
    have hid := hids id List.mem_cons_self
    have hrest : ∀ x ∈ ids, x ∈ db.blockIdToFullBlock :=
      fun x hx => hids x (List.mem_cons_of_mem id hx)
    obtain ⟨data, hd⟩ := Finmap.mem_iff.1 (h.tree.stored id hid)
    cases hlink : data.canLink with
    | false =>
      rw [tryForks_skip hd hlink]
      have hsettled : Settled db id := by
        rintro ⟨d, hd', hl⟩
        rw [hd, Option.some_inj] at hd'
        subst hd'
        rw [BlockForkData.canLink, hl, Bool.true_and, Bool.not_eq_false', BlockForkData.invalid,
          beq_iff_eq] at hlink
        exact ⟨data, hd, hlink⟩
      rcases tryForks h hpushed hrest fun s c hc => hcalls s c (.skip hd hlink hc) with
        ⟨db', path', hrun, h', honward, hhead⟩ | ⟨db', path', hrun, h', honward, hall⟩
      · exact .inl ⟨db', path', hrun, h', honward, List.mem_cons_of_mem id hhead⟩
      · refine .inr ⟨db', path', hrun, h', honward, fun x hx => ?_⟩
        rcases List.mem_cons.1 hx with rfl | hx
        · exact settled_onward hsettled honward
        · exact hall x hx
    | true =>
      rcases h.switchToFork hid (linked_of_canLink hd hlink)
        (fun s c hc => hcalls s c (.inside hd hlink hc)) with
        ⟨db', path', hrun, h', honward, hhead⟩ | ⟨e, db₁, path₁, hrun, h₁, honward, hinvalid⟩
      · exact .inl ⟨db', path', tryForks_done hd hlink hrun, h', honward, hhead ▸ List.mem_cons_self⟩
      · rw [tryForks_failed hd hlink hrun]
        obtain ⟨h₂, honward₂⟩ := h₁.afterThrow (e := e)
          (honward.shape.blocks ▸ hpushed : pushed ∈ db₁.blockIdToFullBlock)
        have honward' := honward.trans honward₂
        have hblocks := honward'.shape.blocks
        rcases tryForks h₂ (hblocks ▸ hpushed) (fun x hx => hblocks ▸ hrest x hx)
          fun s c hc => hcalls s c (.failed hd hlink hrun hc) with
          ⟨db', path', hrun', h', hon, hhead⟩ | ⟨db', path', hrun', h', hon, hall⟩
        · exact .inl ⟨db', path', hrun', h', honward'.trans hon, List.mem_cons_of_mem id hhead⟩
        · refine .inr ⟨db', path', hrun', h', honward'.trans hon, fun x hx => ?_⟩
          rcases List.mem_cons.1 hx with rfl | hx
          · exact settled_onward (fun _ => honward₂.invalid x hinvalid) hon
          · exact hall x hx

/-- Trying the numbers from one down ends at a block of the highest number that is not settled. -/
theorem tryNumbers {pushed : BlockIdType} : ∀ {num : Nat} {db : ChainDatabase}
    {path : List BlockIdType}, Selected N V db path → pushed ∈ db.blockIdToFullBlock →
    (∀ s c, NumberCalls N clock pushed num db s c → IdealCall N clock V s c) →
    ∃ db' path' n, tryNumbers N clock pushed num db = .ok () db' ∧ Selected N V db' path' ∧
      Onward db db' ∧
      (∀ x b, db.blockIdToFullBlock.lookup x = some b → n < b.blockNum → b.blockNum ≤ num →
        Settled db' x) ∧
      (n = 0 ∨ ∃ b, db.blockIdToFullBlock.lookup db'.headBlockId = some b ∧ b.blockNum = n)
  | 0, db, path, h, _, _ =>
    ⟨db, path, 0, rfl, h, .refl db, fun _ _ _ hlt hle => absurd hlt (Nat.not_lt.2 hle), .inl rfl⟩
  | num + 1, db, path, h, hpushed, hcalls => by
    have hids : ∀ x ∈ (db.forkNumberDb.lookup (num + 1)).getD [], x ∈ db.blockIdToFullBlock := by
      intro x hx
      obtain ⟨b, hb, -⟩ := (h.tree.number (num + 1) x).1 hx
      exact Finmap.mem_of_lookup_eq_some hb
    rw [tryNumbers_succ]
    rcases h.tryForks hpushed hids fun s c hc => hcalls s c (.here hc) with
      ⟨db', path', hrun, h', honward, hhead⟩ | ⟨db₁, path₁, hrun, h₁, honward, hall⟩
    · rw [bind_of_ok hrun]
      obtain ⟨b, hb, hnum⟩ := (h.tree.number (num + 1) _).1 hhead
      refine ⟨db', path', num + 1, rfl, h', honward, fun x b _ hlt hle => ?_, .inr ⟨b, hb, hnum⟩⟩
      exact absurd hlt (Nat.not_lt.2 hle)
    · rw [bind_of_ok hrun]
      have hblocks := honward.shape.blocks
      obtain ⟨db', path', n, hrun', h', hon, hsettled, hend⟩ := tryNumbers h₁ (hblocks ▸ hpushed)
        fun s c hc => hcalls s c (.next hrun hc)
      rw [hblocks] at hsettled hend
      refine ⟨db', path', n, hrun', h', honward.trans hon, fun x b hb hlt hle => ?_, hend⟩
      rcases Nat.lt_or_eq_of_le hle with hlt' | heq
      · exact hsettled x b hb hlt (Nat.le_of_lt_succ hlt')
      · exact settled_onward (hall x ((h.tree.number _ x).2 ⟨b, hb, heq⟩)) hon

end Selected

/-! ## Placing a block -/

section Place

variable {r : BlockIdType × BlockForkData} {x : BlockIdType}

theorem linked_of_marked {change : BlockForkData → BlockForkData} {S : BlockIdType → Prop}
    {m : Tab BlockIdType BlockForkData} (hm : Marked change S db.forkDb m)
    (hchange : ∀ d, d.isLinked = true → (change d).isLinked = true) (hx : db.Linked x) :
    ({ db with forkDb := m } : ChainDatabase).Linked x := by
  obtain ⟨d, hd, hl⟩ := hx
  by_cases hS : S x
  · exact ⟨change d, (hm.inside x hS).trans (by rw [hd]; rfl), hchange d hl⟩
  · exact ⟨d, (hm.outside x hS).trans hd, hl⟩

theorem Indexed.linked_mono (h : ForkTree N db) (hi : Indexed db id b r db')
    (hunknown : ¬ (db.forkDb.lookup id).any BlockForkData.isKnown) (hx : db.Linked x) :
    db'.Linked x := by
  have hreceived : ∀ ph, (db.placed id b).forkDb.lookup id = some ph →
      (db.withBlock id b (ph.received (db.previousData id b))).Linked x := by
    intro ph hph
    refine (h.withBlock_linked hunknown ?_ x).2 (.inr hx)
    rw [← previousData_linked db id b]
    simp [BlockForkData.received, (h.placed_unknown hunknown hph).2.1]
  cases hi with
  | fresh hnone =>
    have hlinked : (db.previousData id b).fresh.isLinked = true ↔ db.Linked b.previous :=
      previousData_linked db id b
    exact (h.withBlock_linked hunknown hlinked x).2 (.inr hx)
  | orphan hph _ => exact hreceived _ hph
  | invalid hph _ _ hm => exact linked_of_marked hm (fun _ hl => hl) (hreceived _ hph)
  | linked hph _ _ hm _ => exact linked_of_marked hm (fun _ _ => rfl) (hreceived _ hph)

/-- A block is invalid after another one is placed if it was before, or if it is after the block
placed and that one's previous block is invalid. -/
theorem Indexed.invalid_cases (h : ForkTree N db) (hi : Indexed db id b r db')
    (hunknown : ¬ (db.forkDb.lookup id).any BlockForkData.isKnown) (hx : db'.Invalid x) :
    db.Invalid x ∨ db.Invalid b.previous ∧ After db'.next id x := by
  have hprev := previousData_invalid db id b
  cases hi with
  | fresh hnone =>
    rcases withBlock_flagged.1 hx with ⟨rfl, hfalse⟩ | ⟨-, hx⟩
    · have hfalse : (if (db.previousData x b).invalid then some false else none) = some false := hfalse
      split_ifs at hfalse with hinv
      exact .inr ⟨hprev.1 hinv, .refl⟩
    · exact .inl hx
  | @orphan ph hph hl =>
    rcases withBlock_flagged.1 hx with ⟨-, hfalse⟩ | ⟨-, hx⟩
    · simp [BlockForkData.received, hl, (h.placed_unknown hunknown hph).2.2.1] at hfalse
    · exact .inl hx
  | @invalid ph m hph hl hinv hm =>
    have hnext : ({ db.withBlock id b (ph.received (db.previousData id b)) with forkDb := m } :
        ChainDatabase).next = _ := next_of_marked invalid_flags hm
    rw [hnext]
    rcases (flagged_of_marked hm).1 hx with ⟨hw, -⟩ | ⟨-, hx⟩
    · obtain ⟨a, ha, hafter⟩ := hw.after
      rw [← withBlock_next_received db id b ph] at ha
      exact .inr ⟨hprev.1 hinv, .head ha hafter⟩
    · rcases withBlock_flagged.1 hx with ⟨rfl, -⟩ | ⟨-, hx⟩
      · exact .inr ⟨hprev.1 hinv, .refl⟩
      · exact .inl hx
  | @linked ph m best hph hl hinv hm _ =>
    rcases withBlock_flagged.1 ((flagged_of_linked hm).1 hx) with ⟨-, hfalse⟩ | ⟨-, hx⟩
    · simp [BlockForkData.received, hinv, (h.placed_unknown hunknown hph).2.2.1] at hfalse
    · exact .inl hx

namespace Selected

theorem indexed (h : Selected N V db path) (hi : Indexed db id b r db')
    (hid : N.B.id b.toSignedBlockHeader = id)
    (hunknown : ¬ (db.forkDb.lookup id).any BlockForkData.isKnown) : Selected N V db' path := by
  have htree := hi.forkTree h.tree hid hunknown
  obtain ⟨hne, hnotMem, -⟩ := h.tree.unknown hunknown
  have hsub : ∀ k b', db.blockIdToFullBlock.lookup k = some b' →
      db'.blockIdToFullBlock.lookup k = some b' := by
    intro k b' hb'
    rw [hi.block_of_ne]
    · exact hb'
    · rintro rfl
      exact hnotMem (Finmap.mem_of_lookup_eq_some hb')
  have hsound : ∀ {y q}, Rooted db.blockIdToFullBlock y q →
      (Sound V db'.blockIdToFullBlock q ↔ Sound V db.blockIdToFullBlock q) := fun hr =>
    Sound.mono hsub fun x hx => (hr.mem_blocks x hx).2
  refine ⟨htree, ?_, fun k => ?_, fun x hx => hi.linked_mono h.tree hunknown (h.linked x hx),
    (hsound h.rooted).2 h.sound, fun x hx => ?_⟩
  · rw [hi.chain.headBlockId]
    exact h.rooted.mono hsub
  · rw [ChainInv.indexed_included h.tree hi hunknown, h.included]
  · rcases hi.invalid_cases h.tree hunknown hx with hx | ⟨hprev, hafter⟩
    · obtain ⟨q, hr, hnot⟩ := h.invalid x hx
      exact ⟨q, hr.mono hsub, fun hs => hnot ((hsound hr).1 hs)⟩
    · obtain ⟨q, hr, hnot⟩ := h.invalid _ hprev
      obtain ⟨l, hr'⟩ := path_of_after htree hafter (.block hi.mem hne (hr.mono hsub))
      exact ⟨_, hr', fun hs => hnot ((hsound hr).1 hs.of_append.2)⟩

theorem clearInvalidation (h : Selected N V db path) :
    Selected N V (final (clearInvalidationOfFutureBlocks clock) db) path := by
  obtain ⟨m, hrun, hm⟩ := clearInvalidation_ok h.tree clock
  have htree := ForkTree.clearInvalidation clock db h.tree
  rw [final, hrun] at htree ⊢
  have hinvalid : ∀ x, ({ db with forkDb := m } : ChainDatabase).Invalid x → db.Invalid x := by
    intro x hx
    rcases (flagged_of_marked hm).1 hx with ⟨-, hnone, -⟩ | ⟨-, hx⟩
    · cases hnone
    · exact hx
  exact ⟨htree, h.rooted,
    fun k => (ChainInv.included_of_marked hm (fun _ => rfl) k).trans (h.included k),
    fun x hx => linked_of_marked hm (fun _ hl => hl) (h.linked x hx), h.sound,
    fun x hx => h.invalid x (hinvalid x hx)⟩

end Selected

end Place

/-! ## Whole runs -/

/-- A push whose calls of `pop_block` and `extend_chain` do what is assumed of them. -/
def IdealPush (N : Node) (V : ValidOn) (db : ChainDatabase) (clock : TimePointSec) (b : FullBlock) :
    Prop :=
  ∀ s c, PushCalls N clock b db s c → IdealCall N clock V s c

namespace Selected

/-- A search ends at a block numbered no lower than the head it started from, with all higher blocks
settled. -/
theorem search {r : BlockIdType × BlockForkData} {longest : FullBlock} {db₁ : ChainDatabase}
    (h : Selected N V db path) (hpush : IdealPush N V db clock b) (hplaces : Places N db b)
    (hrun : storeAndIndex (N.B.id b.toSignedBlockHeader) b db = .ok r db₁)
    (hlink : r.2.canLink = true) (hlongest : db₁.blockIdToFullBlock.lookup r.1 = some longest)
    (hlt : db.headBlockHeader.blockNum < longest.blockNum) :
    ∃ db' path', pushBlock N clock b db = .ok () db' ∧ Selected N V db' path' ∧
      db.headBlockHeader.blockNum ≤ db'.headBlockHeader.blockNum ∧
      ∀ x b', db'.blockIdToFullBlock.lookup x = some b' →
        db'.headBlockHeader.blockNum < b'.blockNum → b'.blockNum ≤ longest.blockNum →
        Settled db' x := by
  obtain ⟨r', db₁', hrun', hi⟩ := storeAndIndex_indexed h.tree rfl hplaces.unknown
  rw [hrun] at hrun'
  cases hrun'
  have h₁ := h.indexed hi rfl hplaces.unknown
  obtain ⟨db', path', n, htry, h', honward, hsettled, hend⟩ :=
    h₁.tryNumbers (Finmap.mem_of_lookup_eq_some hi.mem)
      fun s c hc => hpush s c (.search hplaces hrun hlink hlongest hlt hc)
  have hblocks := honward.shape.blocks
  -- The head is the block the search has ended at.
  have hhead : n = 0 ∨ db'.headBlockHeader.blockNum = n := by
    refine hend.imp_right ?_
    rintro ⟨x, hx, rfl⟩
    rw [← hblocks] at hx
    exact h'.headNumber hx
  refine ⟨db', path', (pushBlock_search hplaces hrun hlink hlongest hlt).trans htry, h', ?_,
    fun x b' hb' hlow hle => ?_⟩
  · by_contra hnot
    have hpos : db.headBlockHeader.blockNum ≠ 0 := by omega
    obtain ⟨bh, -, hbh, hheader, -⟩ := h.tree.head_block hpos
    have hnum : db.headBlockHeader.blockNum = bh.blockNum := by rw [hheader]
    have hgood : Good V db₁ db.headBlockId := by
      have hr := h₁.rooted
      rw [hi.chain.headBlockId] at hr
      obtain ⟨_, q, rfl, -⟩ := hr.ne_zero_inv (h.tree.blockId _ bh hbh).2
      exact ⟨h₁.linked _ List.mem_cons_self, _, hr, h₁.sound⟩
    have hbh₁ : db₁.blockIdToFullBlock.lookup db.headBlockId = some bh := by
      rw [hi.block_of_ne]
      · exact hbh
      · rintro heq
        exact (h.tree.unknown hplaces.unknown).2.1 (heq ▸ Finmap.mem_of_lookup_eq_some hbh)
    refine h'.not_settled (good_onward hgood honward) (hsettled _ bh hbh₁ ?_ ?_)
    · rw [← hnum]
      omega
    · rw [← hnum]
      exact hlt.le
  · rw [hblocks] at hb'
    refine hsettled x b' hb' ?_ hle
    rcases hhead with rfl | hhead
    · exact (Nat.zero_le _).trans_lt hlow
    · exact hhead ▸ hlow

theorem pushBlock (h : Selected N V db path) (hpush : IdealPush N V db clock b) :
    ∃ path', Selected N V (final (pushBlock N clock b) db) path' := by
  rw [final]
  have hpushing := pushBlock_pushing h.tree clock b
  generalize hresult : Achain.pushBlock N clock b db = result at hpushing ⊢
  cases hpushing with
  | old => exact ⟨path, h⟩
  | known => exact ⟨path, h⟩
  | unlinked hplaces _ hi _ => exact ⟨path, (h.indexed hi rfl hplaces.unknown).clearInvalidation⟩
  | low hplaces _ hi => exact ⟨path, h.indexed hi rfl hplaces.unknown⟩
  | search hplaces hrun hi hlink hlongest hlt =>
    obtain ⟨db', path', hok, h', -⟩ := h.search hpush hplaces hrun hlink hlongest hlt
    rw [← hresult, hok]
    exact ⟨path', h'⟩

end Selected

theorem initializeGenesis_selected {g : GenesisState} {on : Bool} (V : ValidOn)
    (h : initializeGenesis N.P g on = .ok db) : Selected N V db [] := by
  have hchain : ChainInv N db [] := initializeGenesis_chainInv h
  have hflags : FlagInv N db := initializeGenesis_flagInv h
  obtain ⟨-, -, -, hblocks, -⟩ := initializeGenesis_ok h
  refine
    { tree := hchain.tree
      rooted := hchain.rooted
      included := hchain.included
      linked := fun x hx => absurd hx List.not_mem_nil
      sound := trivial
      invalid := fun x hx => ?_ }
  -- Only the genesis block is known, and it is valid.
  exfalso
  obtain ⟨path, hr⟩ := hchain.tree.rooted x (hflags.validity.checked x false hx)
  cases hr with
  | genesis =>
    obtain ⟨d, hd, hfalse⟩ := hx
    obtain ⟨d', hd', -, -, hvalid⟩ := hchain.tree.genesis
    rw [hd, Option.some_inj] at hd'
    rw [hd', hvalid] at hfalse
    cases hfalse
  | block hb =>
    rw [hblocks, Finmap.lookup_empty] at hb
    cases hb

theorem PushRun.selected {g : GenesisState} {on : Bool} {db₀ : ChainDatabase}
    (hrun : PushRun N (IdealPush N V) db₀ db) (h₀ : initializeGenesis N.P g on = .ok db₀) :
    ∃ path, Selected N V db path := by
  induction hrun with
  | start => exact ⟨[], initializeGenesis_selected V h₀⟩
  | push clock b _ hpush ih =>
    obtain ⟨path, h⟩ := ih
    exact h.pushBlock hpush

/-- After pushes whose calls do what is assumed of them, one more push does not lower the head, and
where it has tried a fork, every block above the head up to the one that started the search is not
linked or is invalid. -/
theorem longest_chain_selected (N : Node) (g : GenesisState) (on : Bool) (db₀ db : ChainDatabase)
    (h₀ : initializeGenesis N.P g on = .ok db₀) (V : ValidOn)
    (hrun : PushRun N (IdealPush N V) db₀ db) (clock : TimePointSec) (b : FullBlock)
    (hpush : IdealPush N V db clock b) (db' : ChainDatabase)
    (hreturns : pushBlock N clock b db = .ok () db') :
    db.headBlockHeader.blockNum ≤ db'.headBlockHeader.blockNum ∧
      ∀ r db₁ longest, storeAndIndex (N.B.id b.toSignedBlockHeader) b db = .ok r db₁ →
        db₁.blockIdToFullBlock.lookup r.1 = some longest →
        (∃ s c, PushCalls N clock b db s c) →
        ∀ id x, db'.blockIdToFullBlock.lookup id = some x →
          db'.headBlockHeader.blockNum < x.blockNum → x.blockNum ≤ longest.blockNum →
          ¬ (db'.Linked id ∧ ¬ db'.Invalid id) := by
  obtain ⟨path, h⟩ := hrun.selected h₀
  refine ⟨?_, fun r db₁ longest hstore hlongest ⟨s, c, hcall⟩ id x hx hlow hle => ?_⟩
  · have hpushing := pushBlock_pushing h.tree clock b
    rw [hreturns] at hpushing
    generalize hresult : EStateM.Result.ok () db' = result at hpushing
    cases hpushing with
    | old => cases hresult
    | known =>
      cases hresult
      exact le_refl _
    | @unlinked r db₁ hplaces _ hi _ =>
      obtain ⟨m, hclear, -⟩ := clearInvalidation_ok (hi.forkTree h.tree rfl hplaces.unknown) clock
      rw [hclear] at hresult
      cases hresult
      exact (congrArg SignedBlockHeader.blockNum hi.chain.headBlockHeader).ge
    | low _ _ hi =>
      cases hresult
      exact (congrArg SignedBlockHeader.blockNum hi.chain.headBlockHeader).ge
    | search hplaces hstore hi hlink hlongest hlt =>
      obtain ⟨db'', -, hok, -, hle, -⟩ := h.search hpush hplaces hstore hlink hlongest hlt
      rw [hreturns] at hok
      cases hok
      exact hle
  · cases hcall with
    | search hplaces hstore' hlink hlongest' hlt _ =>
      rw [hstore] at hstore'
      cases hstore'
      rw [hlongest, Option.some_inj] at hlongest'
      subst hlongest'
      obtain ⟨db'', -, hok, -, -, hsettled⟩ := h.search hpush hplaces hstore hlink hlongest hlt
      rw [hreturns] at hok
      cases hok
      rintro ⟨hlinked, hnot⟩
      exact hnot (hsettled id x hx hlow hle hlinked)

/-- Whether a call does what is assumed of it, where the validity of a block does not depend on the chain
below it. -/
def idealCall (N : Node) (clock : TimePointSec) (valid : FullBlock → Bool) :
    ChainDatabase × ChainCall → Bool
  | (_, .switchToFork _) => true
  | (s, .popBlock) => returns (popBlock N s) fun s' => s'.headBlockId == s.headBlockHeader.previous
  | (s, .extendChain b) => returns (extendChain N s clock b) (fun _ => true) == valid b

theorem IdealPush.of_all {valid : FullBlock → Bool}
    (h : (pushCalls N clock b db).all (idealCall N clock valid) = true) :
    IdealPush N (fun b _ => valid b = true) db clock b := by
  intro s c hc
  have hcall := List.all_eq_true.1 h _ (mem_pushCalls.2 hc)
  cases c with
  | switchToFork id => trivial
  | popBlock =>
    obtain ⟨s', hpop, hhead⟩ := exists_of_returns hcall
    exact ⟨s', hpop, beq_iff_eq.1 hhead⟩
  | extendChain b' =>
    intro path _
    have hvalid : returns (extendChain N s clock b') (fun _ => true) = valid b' := beq_iff_eq.1 hcall
    show _ ↔ valid b' = true
    rw [← hvalid]
    refine ⟨fun ⟨s', hext⟩ => by rw [hext]; rfl, fun hext => ?_⟩
    obtain ⟨s', hext, -⟩ := exists_of_returns hext
    exact ⟨s', hext⟩

/-- A fork of two blocks takes the place of the first block. A block 3 at no time of a slot follows another
block 2: its fork is applied and fails, and the head is applied again. -/
theorem longest_chain_selected_after_switch :
    ∃ db₀ db db', initializeGenesis Node.plain.P .plain false = .ok db₀ ∧
      PushRun .plain (IdealPush .plain fun b _ => (b.timestamp % blockIntervalSec == 0) = true) db₀ db ∧
      db.headBlockId = 1021030 ∧ pushBlock .plain 100 (.plain 3 1011040 45 []) db = .ok () db' ∧
      (∃ s, PushCalls .plain 100 (.plain 3 1011040 45 []) db s .popBlock) ∧
      db.headBlockHeader.blockNum ≤ db'.headBlockHeader.blockNum ∧ db'.headBlockHeader.blockNum < 3 ∧
      1011041045 ∈ db'.blockIdToFullBlock ∧
      ¬ (db'.Linked 1011041045 ∧ ¬ db'.Invalid 1011041045) := by
  have hpush : returns (initializeGenesis Node.plain.P .plain false) (fun db₀ =>
      let ideal := fun b db => (pushCalls .plain 100 b db).all
        (idealCall .plain 100 fun b => b.timestamp % blockIntervalSec == 0)
      let db₁ := final (pushBlock .plain 100 (.plain 1 0 10 [])) db₀
      let db₂ := final (pushBlock .plain 100 (.plain 1 0 20 [])) db₁
      let db₃ := final (pushBlock .plain 100 (.plain 2 1020 30 [])) db₂
      let db₄ := final (pushBlock .plain 100 (.plain 2 1010 40 [])) db₃
      ideal (.plain 1 0 10 []) db₀ && ideal (.plain 1 0 20 []) db₁ && ideal (.plain 2 1020 30 []) db₂ &&
        ideal (.plain 2 1010 40 []) db₃ && ideal (.plain 3 1011040 45 []) db₄ &&
        db₄.headBlockId == 1021030 &&
        (pushCalls .plain 100 (.plain 3 1011040 45 []) db₄).any (fun x => x.2.pops) &&
        yields (storeAndIndex 1011041045 (.plain 3 1011040 45 []) db₄) (fun r db =>
          (db.blockIdToFullBlock.lookup r.1).any fun longest => longest.blockNum == 3) &&
        yields (pushBlock .plain 100 (.plain 3 1011040 45 []) db₄) fun _ db' =>
          decide (db'.headBlockHeader.blockNum < 3) &&
            (db'.blockIdToFullBlock.lookup 1011041045).any fun b => b.blockNum == 3) = true := by
    decide +kernel
  obtain ⟨db₀, h₀, hend⟩ := exists_of_returns hpush
  simp only [Bool.and_eq_true, beq_iff_eq] at hend
  obtain ⟨⟨⟨⟨⟨⟨⟨⟨hideal₀, hideal₁⟩, hideal₂⟩, hideal₃⟩, hideal₄⟩, hhead⟩, hpop⟩, hstore⟩, hend⟩ := hend
  have hrun : PushRun .plain (IdealPush .plain fun b _ => (b.timestamp % blockIntervalSec == 0) = true)
      db₀ _ := .push 100 (.plain 2 1010 40 []) (.push 100 (.plain 2 1020 30 [])
    (.push 100 (.plain 1 0 20 []) (.push 100 (.plain 1 0 10 []) .start (.of_all hideal₀))
      (.of_all hideal₁)) (.of_all hideal₂)) (.of_all hideal₃)
  generalize final (pushBlock .plain 100 (.plain 2 1010 40 [])) _ = db at *
  obtain ⟨s, hcall⟩ := exists_pop hpop
  obtain ⟨r, db₁, hstore, hlongest⟩ := exists_of_yields hstore
  obtain ⟨⟨⟩, db', hreturns, hend⟩ := exists_of_yields hend
  obtain ⟨longest, hlongest, hthree⟩ := Option.any_eq_true .. |>.1 hlongest
  rw [Bool.and_eq_true, decide_eq_true_eq] at hend
  obtain ⟨hlow, hlast⟩ := hend
  obtain ⟨x, hx, hnum⟩ := Option.any_eq_true .. |>.1 hlast
  rw [beq_iff_eq] at hthree hnum
  obtain ⟨hle, hsettled⟩ := longest_chain_selected .plain .plain false db₀ db h₀ _ hrun 100 _
    (.of_all hideal₄) db' hreturns
  refine ⟨db₀, db, db', h₀, hrun, hhead, hreturns, ⟨s, hcall⟩, hle, hlow,
    Finmap.mem_of_lookup_eq_some hx, ?_⟩
  exact hsettled r db₁ longest hstore hlongest ⟨s, _, hcall⟩ 1011041045 x hx (hnum ▸ hlow)
    (hnum.trans hthree.symm).le

end Achain
