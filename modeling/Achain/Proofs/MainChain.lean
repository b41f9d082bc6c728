import Achain.Proofs.Calls
import Achain.Proofs.GenesisTables

/-!
# The main chain and its undo states

The blocks included are those on the path from the head to the genesis block, the index of the
numbers is that path, and every block of it that a switch to another fork pops has an undo state.
This takes two conditions: a block numbered `0` or `1`, whose number and time are not checked, is
the first block; and no fork is switched to that leaves the chain more than the undo history below
the highest block with an undo state.
-/

namespace Achain

open Table Result Stateful Levels

variable {N : Node} {db db' : ChainDatabase} {clock : TimePointSec} {b : FullBlock}
  {id : BlockIdType} {path : List BlockIdType}

/-! ## The main chain -/

def ChainDatabase.Included (db : ChainDatabase) (id : BlockIdType) : Prop :=
  ∃ d, db.forkDb.lookup id = some d ∧ d.isIncluded = true

/-- The path from the head down is what is included and what is indexed by number, and its times
increase. -/
structure MainChain (db : ChainDatabase) (path : List BlockIdType) : Prop where
  rooted : Rooted db.blockIdToFullBlock db.headBlockId path
  included : ∀ id, db.Included id ↔ id = 0 ∨ id ∈ path
  number : ∀ k id, path.reverse[k]? = some id →
    ∃ b, db.blockIdToFullBlock.lookup id = some b ∧ b.blockNum = k + 1
  index : ∀ n id, db.blockNumToId.lookup n = some id ↔ ∃ k, n = k + 1 ∧ path.reverse[k]? = some id
  times : ∀ i j : Nat, i < j → ∀ x y b b', path.reverse[i]? = some x → path.reverse[j]? = some y →
    db.blockIdToFullBlock.lookup x = some b → db.blockIdToFullBlock.lookup y = some b' →
    b.timestamp < b'.timestamp

/-- The numbers of a path count up to its length, and its times increase. -/
def Climbs (blocks : Tab BlockIdType FullBlock) : List BlockIdType → Prop
  | [] => True
  | id :: path => (∃ b, blocks.lookup id = some b ∧ b.blockNum = path.length + 1 ∧
      ∀ x ∈ path, ∀ b', blocks.lookup x = some b' → b'.timestamp < b.timestamp) ∧
    Climbs blocks path

/-- The first block, or one whose number and time are compared with those of the head. -/
def FullBlock.Numbered (b : FullBlock) : Prop := b.blockNum ≤ 1 → b.blockNum = 1 ∧ b.previous = 0

/-- What holds of the chain in every state of a search. A block of the chain without an undo state is
below the first block one is saved for, or so far below a block with one that its own has been
erased. -/
structure ChainInv (N : Node) (db : ChainDatabase) (path : List BlockIdType) : Prop where
  tree : ForkTree N db
  numbered : ∀ id b, db.blockIdToFullBlock.lookup id = some b → b.Numbered
  rooted : Rooted db.blockIdToFullBlock db.headBlockId path
  climbs : Climbs db.blockIdToFullBlock path
  included : ∀ id, db.Included id ↔ id = 0 ∨ id ∈ path
  index : ∀ n id, db.blockNumToId.lookup n = some id ↔ ∃ l q, path = l ++ id :: q ∧ n = q.length + 1
  undo : ∀ l x q, path = l ++ x :: q → x ∈ db.blockIdToUndoState ∨
    q.length + 1 < N.config.minUndoBlock ∨ ∃ y b, y ∈ db.blockIdToUndoState ∧
      db.blockIdToFullBlock.lookup y = some b ∧ q.length + 1 + maxUndoHistory ≤ b.blockNum

theorem getElem?_reverse_eq_some {α : Type} {l : List α} {k : Nat} {x : α} :
    l.reverse[k]? = some x ↔ ∃ l₁ q, l = l₁ ++ x :: q ∧ q.length = k := by
  constructor
  · intro h
    obtain ⟨hk, rfl⟩ := List.getElem?_eq_some_iff.1 h
    refine ⟨(l.reverse.drop (k + 1)).reverse, (l.reverse.take k).reverse, ?_, ?_⟩
    · apply List.reverse_injective
      rw [List.reverse_append, List.reverse_cons, List.reverse_reverse, List.reverse_reverse,
        List.append_assoc, List.singleton_append, ← List.drop_eq_getElem_cons hk,
        List.take_append_drop]
    · rw [List.length_reverse, List.length_take]
      omega
  · rintro ⟨l₁, q, rfl, rfl⟩
    simp

theorem Climbs.number {blocks : Tab BlockIdType FullBlock} : ∀ {l q : List BlockIdType}
    {x : BlockIdType}, Climbs blocks (l ++ x :: q) →
      ∃ b, blocks.lookup x = some b ∧ b.blockNum = q.length + 1 ∧
        ∀ y ∈ q, ∀ b', blocks.lookup y = some b' → b'.timestamp < b.timestamp
  | [], _, _, h => h.1
  | _ :: _, _, _, h => number h.2

theorem Climbs.mono {blocks blocks' : Tab BlockIdType FullBlock}
    (hsub : ∀ id b, blocks.lookup id = some b → blocks'.lookup id = some b) :
    ∀ {path : List BlockIdType}, (∀ x ∈ path, x ∈ blocks) → Climbs blocks path →
      Climbs blocks' path
  | [], _, _ => trivial
  | _ :: path, hmem, ⟨⟨b, hb, hnum, htime⟩, hrest⟩ => by
    refine ⟨⟨b, hsub _ b hb, hnum, fun x hx b' hb' => ?_⟩,
      mono hsub (fun x hx => hmem x (List.mem_cons_of_mem _ hx)) hrest⟩
    obtain ⟨b'', hb''⟩ := Finmap.mem_iff.1 (hmem x (List.mem_cons_of_mem _ hx))
    rw [hsub x b'' hb'', Option.some_inj] at hb'
    exact htime x hx b' (hb' ▸ hb'')

/-- The path from the head down to the genesis block. -/
structure HeadPath (N : Node) (db : ChainDatabase) (path : List BlockIdType) : Prop where
  tree : ForkTree N db
  numbered : ∀ id b, db.blockIdToFullBlock.lookup id = some b → b.Numbered
  rooted : Rooted db.blockIdToFullBlock db.headBlockId path
  climbs : Climbs db.blockIdToFullBlock path

namespace HeadPath

/-- The head's header has the number of the chain's length and the latest of its times. -/
theorem header (h : HeadPath N db path) : db.headBlockHeader.blockNum = path.length ∧
    ∀ x ∈ path, ∀ b, db.blockIdToFullBlock.lookup x = some b →
      b.timestamp ≤ db.headBlockHeader.timestamp := by
  rcases h.tree.header with ⟨hzero, hempty⟩ | ⟨b, hb, hheader⟩
  · have hr := h.rooted
    rw [hzero] at hr
    obtain rfl := Rooted.genesis.unique hr
    rw [hempty]
    exact ⟨rfl, fun x hx => absurd hx List.not_mem_nil⟩
  · obtain ⟨b', q, rfl, hb', -⟩ := h.rooted.ne_zero_inv (h.tree.blockId _ b hb).2
    obtain ⟨⟨b'', hb'', hnum, htime⟩, -⟩ := h.climbs
    rw [hb, Option.some_inj] at hb''
    subst hb''
    rw [hheader]
    refine ⟨hnum, fun x hx c hc => ?_⟩
    rcases List.mem_cons.1 hx with rfl | hx
    · rw [hb, Option.some_inj] at hc
      rw [hc]
    · exact (htime x hx c hc).le

/-- Changes elsewhere in the database. -/
theorem of_same (h : HeadPath N db path) (htree : ForkTree N db')
    (hnumbered : ∀ id b, db'.blockIdToFullBlock.lookup id = some b → b.Numbered)
    (hsub : ∀ id b, db.blockIdToFullBlock.lookup id = some b →
      db'.blockIdToFullBlock.lookup id = some b)
    (hhead : db'.headBlockId = db.headBlockId) : HeadPath N db' path where
  tree := htree
  numbered := hnumbered
  rooted := by
    rw [hhead]
    exact h.rooted.mono hsub
  climbs := h.climbs.mono hsub fun x hx => (h.rooted.mem_blocks x hx).2

/-- A block that extends the chain has the next number and a later time than every other one. -/
theorem grown_number (h : HeadPath N db path) (hg : Grown N db b db')
    (hb : db.blockIdToFullBlock.lookup (N.B.id b.toSignedBlockHeader) = some b) :
    b.blockNum = path.length + 1 ∧ ∀ x ∈ path, ∀ b', db.blockIdToFullBlock.lookup x = some b' →
      b'.timestamp < b.timestamp := by
  obtain ⟨hheader, hlatest⟩ := h.header
  have hnum : b.blockNum = path.length + 1 := by
    by_cases hle : b.blockNum ≤ 1
    · obtain ⟨hone, hprev⟩ := h.numbered _ b hb hle
      have hr := h.rooted
      rw [← hg.previous, hprev] at hr
      rw [hone, ← Rooted.genesis.unique hr]
      rfl
    · rw [hg.number.resolve_left hle, hheader]
  refine ⟨hnum, fun x hx b' hb' => ?_⟩
  have hlt : 1 < b.blockNum := by
    rw [hnum]
    exact Nat.lt_add_of_pos_left (List.length_pos_of_mem hx)
  exact (hlatest x hx b' hb').trans_lt (hg.timestamp.resolve_left (Nat.not_le.2 hlt))

theorem grown (h : HeadPath N db path) (hg : Grown N db b db')
    (hb : db.blockIdToFullBlock.lookup (N.B.id b.toSignedBlockHeader) = some b) :
    HeadPath N db' (N.B.id b.toSignedBlockHeader :: path) := by
  have hne := (h.tree.blockId _ b hb).2
  obtain ⟨hnum, htime⟩ := h.grown_number hg hb
  refine ⟨h.tree.grown hg hb, ?_, ?_, ?_⟩
  · rw [hg.blocks]
    exact h.numbered
  · rw [hg.blocks, hg.headBlockId]
    exact .block hb hne (hg.previous ▸ h.rooted)
  · rw [hg.blocks]
    exact ⟨⟨b, hb, hnum, htime⟩, h.climbs⟩

theorem popped {x : BlockIdType} (h : HeadPath N db (x :: path)) (hp : Popped db db') :
    HeadPath N db' path := by
  obtain ⟨rfl, hne, b, hb, hrest⟩ := h.rooted.cons_inv
  obtain ⟨b', -, hb', hheader', -⟩ := h.tree.head_block hp.blockNum
  rw [hb, Option.some_inj] at hb'
  subst hb'
  refine ⟨h.tree.popped hp, ?_, ?_, ?_⟩
  · rw [hp.blocks]
    exact h.numbered
  · rw [hp.blocks, hp.headBlockId, hheader']
    exact hrest
  · rw [hp.blocks]
    exact h.climbs.2

end HeadPath

namespace ChainInv

theorem headPath (h : ChainInv N db path) : HeadPath N db path :=
  ⟨h.tree, h.numbered, h.rooted, h.climbs⟩

theorem mainChain (h : ChainInv N db path) : MainChain db path where
  rooted := h.rooted
  included := h.included
  number k id hk := by
    obtain ⟨l, q, hpath, rfl⟩ := getElem?_reverse_eq_some.1 hk
    have hclimbs := h.climbs
    rw [hpath] at hclimbs
    obtain ⟨b, hb, hnum, -⟩ := hclimbs.number
    exact ⟨b, hb, hnum⟩
  index n id := by
    rw [h.index]
    constructor
    · rintro ⟨l, q, hpath, rfl⟩
      exact ⟨q.length, rfl, getElem?_reverse_eq_some.2 ⟨l, q, hpath, rfl⟩⟩
    · rintro ⟨k, rfl, hk⟩
      obtain ⟨l, q, hpath, rfl⟩ := getElem?_reverse_eq_some.1 hk
      exact ⟨l, q, hpath, rfl⟩
  times i j hij x y b b' hx hy hb hb' := by
    obtain ⟨l, q, hpath, rfl⟩ := getElem?_reverse_eq_some.1 hy
    have hclimbs := h.climbs
    rw [hpath] at hclimbs
    obtain ⟨c, hc, -, htime⟩ := hclimbs.number
    rw [hb', Option.some_inj] at hc
    subst hc
    refine htime x ?_ b hb
    -- The earlier of the two is in the part of the path below the later one.
    rw [hpath, List.reverse_append, List.reverse_cons, List.append_assoc,
      List.getElem?_append_left (by simpa using hij)] at hx
    exact List.mem_reverse.1 (List.mem_of_getElem? hx)

/-- Changes elsewhere in the database. -/
theorem of_same (h : ChainInv N db path) (htree : ForkTree N db')
    (hnumbered : ∀ id b, db'.blockIdToFullBlock.lookup id = some b → b.Numbered)
    (hsub : ∀ id b, db.blockIdToFullBlock.lookup id = some b →
      db'.blockIdToFullBlock.lookup id = some b)
    (hhead : db'.headBlockId = db.headBlockId) (hindex : db'.blockNumToId = db.blockNumToId)
    (hundo : db'.blockIdToUndoState = db.blockIdToUndoState)
    (hincluded : ∀ id, db'.Included id ↔ db.Included id) : ChainInv N db' path where
  tree := htree
  numbered := hnumbered
  rooted := (h.headPath.of_same htree hnumbered hsub hhead).rooted
  climbs := (h.headPath.of_same htree hnumbered hsub hhead).climbs
  included id := (hincluded id).trans (h.included id)
  index := by
    rw [hindex]
    exact h.index
  undo l x q hpath := by
    rw [hundo]
    rcases h.undo l x q hpath with hx | hx | ⟨y, b, hy, hb, hle⟩
    · exact .inl hx
    · exact .inr (.inl hx)
    · exact .inr (.inr ⟨y, b, hy, hsub y b hb, hle⟩)

/-! ## Extending and popping -/

theorem included_insert {d : BlockForkData} (hfork : db'.forkDb = db.forkDb.insert id d)
    (k : BlockIdType) :
    db'.Included k ↔ k = id ∧ d.isIncluded = true ∨ k ≠ id ∧ db.Included k := by
  unfold ChainDatabase.Included
  rw [hfork]
  by_cases hk : k = id
  · rw [hk, Finmap.lookup_insert]
    simp
  · rw [Finmap.lookup_insert_of_ne _ hk]
    simp [hk]

/-- The undo states after one is saved: the new one, and the old ones without the one that falls out
of the history kept. -/
theorem undo_of_saved {p : PendingChainState} (hsaved : saveUndoState N db b p =
    .ok db'.blockIdToUndoState) :
    (b.blockNum < N.config.minUndoBlock ∧ db'.blockIdToUndoState = db.blockIdToUndoState) ∨
      N.B.id b.toSignedBlockHeader ∈ db'.blockIdToUndoState ∧
        ∀ x ∈ db.blockIdToUndoState, x ∈ db'.blockIdToUndoState ∨
          maxUndoHistory < b.blockNum ∧
            db.blockNumToId.lookup (b.blockNum - maxUndoHistory) = some x := by
  unfold saveUndoState at hsaved
  split_ifs at hsaved with hmin
  · exact .inl ⟨hmin, (ok_eq_ok.1 hsaved).symm⟩
  · simp only [bind_eq_ok, pure_eq_ok] at hsaved
    obtain ⟨recent, hrecent, hundo⟩ := hsaved
    rw [← hundo]
    refine .inr ⟨Finmap.mem_insert.2 (.inl rfl), fun x hx => ?_⟩
    unfold ChainDatabase.recentUndoStates at hrecent
    split_ifs at hrecent with hold
    · simp only [bind_eq_ok, orThrow_eq_ok, pure_eq_ok] at hrecent
      obtain ⟨old, hlookup, rfl⟩ := hrecent
      by_cases hx' : x = old
      · exact .inr ⟨hold, hx' ▸ hlookup⟩
      · exact .inl (Finmap.mem_insert.2 (.inr (Finmap.mem_erase.2 ⟨hx', hx⟩)))
    · rw [← ok_eq_ok.1 hrecent]
      exact .inl (Finmap.mem_insert.2 (.inr hx))

/-- Where a block stands in the chain once it is one block longer. -/
theorem cons_split {x y : BlockIdType} {n : Nat} :
    (∃ l q, y :: path = l ++ x :: q ∧ n = q.length + 1) ↔
      x = y ∧ n = path.length + 1 ∨ ∃ l q, path = l ++ x :: q ∧ n = q.length + 1 := by
  constructor
  · rintro ⟨l, q, hpath, hlen⟩
    cases l with
    | nil =>
      obtain ⟨rfl, rfl⟩ := List.cons.inj hpath
      exact .inl ⟨rfl, hlen⟩
    | cons z l => exact .inr ⟨l, q, (List.cons.inj hpath).2, hlen⟩
  · rintro (⟨rfl, hlen⟩ | ⟨l, q, rfl, hlen⟩)
    · exact ⟨[], path, rfl, hlen⟩
    · exact ⟨y :: l, q, rfl, hlen⟩

theorem length_lt_of_split {x : BlockIdType} {n : Nat}
    (h : ∃ l q, path = l ++ x :: q ∧ n = q.length + 1) : n ≤ path.length := by
  obtain ⟨l, q, rfl, rfl⟩ := h
  rw [List.length_append, List.length_cons]
  omega

theorem number_of_split (h : ChainInv N db path) {l q : List BlockIdType} {x : BlockIdType}
    (hpath : path = l ++ x :: q) :
    ∃ b, db.blockIdToFullBlock.lookup x = some b ∧ b.blockNum = q.length + 1 := by
  have hclimbs := h.climbs
  rw [hpath] at hclimbs
  obtain ⟨b, hb, hnum, -⟩ := hclimbs.number
  exact ⟨b, hb, hnum⟩

/-- Only the undo state of the block the history reaches back to is erased, and then the new block is
high enough above it. -/
theorem grown_erased (h : ChainInv N db path) (hlt : maxUndoHistory < b.blockNum)
    {x : BlockIdType} (hlookup : db.blockNumToId.lookup (b.blockNum - maxUndoHistory) = some x)
    {b' : FullBlock} (hb' : db.blockIdToFullBlock.lookup x = some b') {n : Nat}
    (hn : n ≤ b'.blockNum) : n + maxUndoHistory ≤ b.blockNum := by
  obtain ⟨l, q, hpath, hlen⟩ := (h.index _ _).1 hlookup
  obtain ⟨b'', hb'', hnum⟩ := h.number_of_split hpath
  rw [hb', Option.some_inj] at hb''
  rw [hb'', hnum] at hn
  omega

theorem grown_undo (h : ChainInv N db path) (hg : Grown N db b db')
    (hb : db.blockIdToFullBlock.lookup (N.B.id b.toSignedBlockHeader) = some b)
    (hnum : b.blockNum = path.length + 1) {l q : List BlockIdType} {x : BlockIdType}
    (hpath : N.B.id b.toSignedBlockHeader :: path = l ++ x :: q) :
    x ∈ db'.blockIdToUndoState ∨ q.length + 1 < N.config.minUndoBlock ∨
      ∃ y b', y ∈ db'.blockIdToUndoState ∧ db.blockIdToFullBlock.lookup y = some b' ∧
        q.length + 1 + maxUndoHistory ≤ b'.blockNum := by
  obtain ⟨p, hsaved⟩ := hg.undo
  rcases undo_of_saved hsaved with ⟨hmin, hsame⟩ | ⟨hnew, hkept⟩
  · rw [hsame]
    cases l with
    | nil =>
      obtain ⟨-, rfl⟩ := List.cons.inj hpath
      exact .inr (.inl (hnum ▸ hmin))
    | cons y l => exact h.undo l x q (List.cons.inj hpath).2
  · cases l with
    | nil =>
      obtain ⟨rfl, -⟩ := List.cons.inj hpath
      exact .inl hnew
    | cons y l =>
      have hpath := (List.cons.inj hpath).2
      rcases h.undo l x q hpath with hx | hx | ⟨y, b', hy, hb', hle⟩
      · rcases hkept x hx with hx | ⟨hlt, hlookup⟩
        · exact .inl hx
        · obtain ⟨b', hb', hnum'⟩ := h.number_of_split hpath
          exact .inr (.inr ⟨_, b, hnew, hb, h.grown_erased hlt hlookup hb' hnum'.ge⟩)
      · exact .inr (.inl hx)
      · rcases hkept y hy with hy | ⟨hlt, hlookup⟩
        · exact .inr (.inr ⟨y, b', hy, hb', hle⟩)
        · exact .inr (.inr ⟨_, b, hnew, hb,
            h.grown_erased hlt hlookup hb' ((Nat.le_add_right _ _).trans hle)⟩)

theorem grown (h : ChainInv N db path) (hg : Grown N db b db')
    (hb : db.blockIdToFullBlock.lookup (N.B.id b.toSignedBlockHeader) = some b) :
    ChainInv N db' (N.B.id b.toSignedBlockHeader :: path) := by
  have hpath := h.headPath.grown hg hb
  have hnum := (h.headPath.grown_number hg hb).1
  obtain ⟨d, -, hfork⟩ := hg.forkDb
  refine ⟨hpath.tree, hpath.numbered, hpath.rooted, hpath.climbs, fun k => ?_, fun n k => ?_,
    fun l x q hpath => ?_⟩
  · rw [included_insert hfork, h.included, List.mem_cons]
    by_cases hk : k = N.B.id b.toSignedBlockHeader <;> simp [hk]
  · rw [hg.blockNumToId, cons_split]
    by_cases hn : n = b.blockNum
    · rw [hn, Finmap.lookup_insert, Option.some_inj]
      constructor
      · exact fun hk => .inl ⟨hk.symm, hnum⟩
      · rintro (⟨rfl, -⟩ | hsplit)
        · rfl
        · have hle := length_lt_of_split hsplit
          omega
    · rw [Finmap.lookup_insert_of_ne _ hn, h.index]
      constructor
      · exact .inr
      · rintro (⟨-, hlen⟩ | hsplit)
        · exact absurd (hlen.trans hnum.symm) hn
        · exact hsplit
  · rw [hg.blocks]
    exact h.grown_undo hg hb hnum hpath

theorem popped {x : BlockIdType} (h : ChainInv N db (x :: path)) (hp : Popped db db') :
    ChainInv N db' path := by
  obtain ⟨rfl, hne, b, hb, hrest⟩ := h.rooted.cons_inv
  obtain ⟨hheader, -⟩ := h.headPath.header
  obtain ⟨d, -, hfork⟩ := hp.forkDb
  have hpath := h.headPath.popped hp
  have hnotMem := (List.nodup_cons.1 h.rooted.nodup).1
  refine ⟨hpath.tree, hpath.numbered, hpath.rooted, hpath.climbs, fun k => ?_, fun n k => ?_,
    fun l y q hpath => ?_⟩
  · rw [included_insert hfork, h.included, List.mem_cons]
    by_cases hk : k = db.headBlockId
    · simp [hk, hne, hnotMem]
    · simp [hk]
  · rw [hp.blockNumToId, hheader]
    have hindex := h.index n k
    rw [cons_split] at hindex
    by_cases hn : n = (db.headBlockId :: path).length
    · rw [hn, Finmap.lookup_erase]
      constructor
      · exact fun h => by cases h
      · intro hsplit
        have hle := length_lt_of_split hsplit
        rw [List.length_cons] at hle
        omega
    · rw [Finmap.lookup_erase_ne hn, hindex]
      constructor
      · rintro (⟨-, hlen⟩ | hsplit)
        · exact absurd hlen hn
        · exact hsplit
      · exact .inr
  · rw [hp.undoStates, hp.blocks]
    exact h.undo (db.headBlockId :: l) y q (by rw [hpath]; rfl)

theorem included_of_marked {change : BlockForkData → BlockForkData} {S : BlockIdType → Prop}
    {m : Tab BlockIdType BlockForkData} (hm : Marked change S db.forkDb m)
    (hchange : ∀ d, (change d).isIncluded = d.isIncluded) (k : BlockIdType) :
    ({ db with forkDb := m } : ChainDatabase).Included k ↔ db.Included k := by
  unfold ChainDatabase.Included
  by_cases hk : S k
  · rw [show ({ db with forkDb := m } : ChainDatabase).forkDb.lookup k = _ from hm.inside k hk]
    cases db.forkDb.lookup k <;> simp [hchange]
  · rw [show ({ db with forkDb := m } : ChainDatabase).forkDb.lookup k = _ from hm.outside k hk]

theorem marked (h : ChainInv N db path) {change : BlockForkData → BlockForkData}
    {S : BlockIdType → Prop} {m : Tab BlockIdType BlockForkData}
    (htree : ForkTree N { db with forkDb := m }) (hm : Marked change S db.forkDb m)
    (hchange : ∀ d, (change d).isIncluded = d.isIncluded) :
    ChainInv N { db with forkDb := m } path :=
  h.of_same htree h.numbered (fun _ _ hb => hb) rfl rfl rfl (included_of_marked hm hchange)

theorem extendChainM (h : ChainInv N db path)
    (hb : db.blockIdToFullBlock.lookup (N.B.id b.toSignedBlockHeader) = some b) :
    ∃ path, ChainInv N (final (extendChainM N clock b) db) path := by
  have htree : ForkTree N (final (Achain.extendChainM N clock b) db) := h.tree.extendChainM hb
  rcases extendChainM_cases N db clock b with ⟨db', hext, hrun⟩ | ⟨e, -, hrun⟩
  · rw [final, hrun]
    exact ⟨_, h.grown (extendChain_grown hext) hb⟩
  · obtain ⟨m, hrun', hm⟩ := extendChainM_error h.tree (Finmap.mem_of_lookup_eq_some hb) hrun
    rw [final, hrun'] at htree ⊢
    exact ⟨path, h.marked htree hm fun _ => rfl⟩

/-- A head with an undo state is popped. -/
theorem popBlockM_ok {x : BlockIdType} (h : ChainInv N db (x :: path))
    (hundo : db.headBlockId ∈ db.blockIdToUndoState) :
    ∃ db', popBlockM N db = .ok () db' ∧ Popped db db' := by
  obtain ⟨rfl, hne, b, hb, hrest⟩ := h.rooted.cons_inv
  have hnum : db.headBlockHeader.blockNum ≠ 0 := by
    rw [h.headPath.header.1]
    exact Nat.succ_ne_zero _
  obtain ⟨b', -, hb', hheader, -⟩ := h.tree.head_block hnum
  rw [hb, Option.some_inj] at hb'
  subst hb'
  obtain ⟨d, hd⟩ := Finmap.mem_iff.1 (h.tree.stored _ (Finmap.mem_of_lookup_eq_some hb))
  obtain ⟨u, hu⟩ := Finmap.mem_iff.1 hundo
  obtain ⟨header, hof⟩ : ∃ header, db.headerOf db.headBlockHeader.previous = .ok header := by
    rw [hheader]
    unfold ChainDatabase.headerOf
    by_cases hprev : b.previous = 0
    · exact ⟨_, if_pos hprev⟩
    · obtain ⟨b', q, -, hb', -⟩ := hrest.ne_zero_inv hprev
      refine ⟨b'.toSignedBlockHeader, ?_⟩
      rw [if_neg hprev, hb']
      rfl
  cases hpop : popBlock N db with
  | ok db' =>
    refine ⟨db', by rw [Achain.popBlockM, hpop], ?_⟩
    exact (popBlock_popped hpop).resolve_left fun hzero => hnum hzero.1
  | error e =>
    unfold popBlock markIncluded at hpop
    rw [if_neg hnum, hd, hu] at hpop
    simp [orThrow, hof] at hpop

/-- Popping down to a block of the chain, where the blocks above it have undo states. -/
theorem popUntil {a : BlockIdType} {q : List BlockIdType} (hmin : N.config.minUndoBlock ≤ q.length + 1) :
    ∀ (fuel : Nat) (l : List BlockIdType) (db : ChainDatabase), ChainInv N db (l ++ q) →
      Rooted db.blockIdToFullBlock a q →
      (∀ y b, y ∈ db.blockIdToUndoState → db.blockIdToFullBlock.lookup y = some b →
        b.blockNum ≤ q.length + maxUndoHistory) →
      (∃ path, ChainInv N (final (popUntil N a fuel) db) path) ∧
        ∀ s, PopCalled N a fuel db s → s.headBlockId ∈ s.blockIdToUndoState
  | 0, l, db, h, _, _ => ⟨⟨_, h⟩, fun s hs => by cases hs⟩
  | fuel + 1, l, db, h, ha, hbound => by
    rw [final, popUntil_succ]
    by_cases hhead : db.headBlockId = a
    · rw [if_pos hhead]
      refine ⟨⟨_, h⟩, fun s hs => ?_⟩
      cases hs with
      | here hne => exact absurd hhead hne
      | next hne => exact absurd hhead hne
    · rw [if_neg hhead]
      cases l with
      | nil => exact absurd (h.rooted.id_unique ha) hhead
      | cons x l =>
        obtain ⟨rfl, -⟩ := h.rooted.cons_inv
        have hundo : db.headBlockId ∈ db.blockIdToUndoState := by
          rcases h.undo [] _ (l ++ q) rfl with hx | hx | ⟨y, b, hy, hb, hle⟩
          · exact hx
          · rw [List.length_append] at hx
            omega
          · have hle' := hbound y b hy hb
            rw [List.length_append] at hle
            omega
        obtain ⟨db', hrun, hp⟩ := h.popBlockM_ok hundo
        obtain ⟨hrest, hcalls⟩ := popUntil hmin fuel l db' (h.popped hp) (hp.blocks ▸ ha)
          (by rw [hp.undoStates, hp.blocks]; exact hbound)
        rw [bind_of_ok hrun]
        refine ⟨hrest, fun s hs => ?_⟩
        cases hs with
        | here => exact hundo
        | next _ hrun' hs =>
          rw [hrun] at hrun'
          cases hrun'
          exact hcalls s hs

end ChainInv

/-! ## The search -/

/-- A fork that leaves the chain at most the undo history below every block with an undo state, and
where undo states are saved, or that follows the head. -/
def RecentFork (N : Node) (db : ChainDatabase) (id : BlockIdType) : Prop :=
  ∀ history q, History db id history → history.getLastD 0 ≠ db.headBlockId →
    Rooted db.blockIdToFullBlock (history.getLastD 0) q →
    N.config.minUndoBlock ≤ q.length + 1 ∧
      ∀ y b, y ∈ db.blockIdToUndoState → db.blockIdToFullBlock.lookup y = some b →
        b.blockNum ≤ q.length + maxUndoHistory

/-- A history ends at the genesis block or at one that is included. -/
theorem History.last_included {history : List BlockIdType} (hist : History db id history) :
    history.getLastD 0 = 0 ∨ db.Included (history.getLastD 0) := by
  induction hist with
  | root => exact .inl rfl
  | included hb hd hl hi => exact .inr ⟨_, hd, hi⟩
  | @step id b d rest hb hne hd hl hi hrest ih =>
    obtain ⟨l, a, rfl, -⟩ := hrest.split
    rw [← List.cons_append, List.getLastD_concat]
    rw [List.getLastD_concat] at ih
    exact ih

/-- A history ends on the path of the blocks included. -/
theorem History.last_on_path {history : List BlockIdType} (hist : History db id history)
    (hrooted : Rooted db.blockIdToFullBlock db.headBlockId path)
    (hincluded : ∀ id, db.Included id ↔ id = 0 ∨ id ∈ path) :
    ∃ l q, path = l ++ q ∧ Rooted db.blockIdToFullBlock (history.getLastD 0) q := by
  have hlast := hist.last_included
  rw [hincluded, ← or_assoc, or_self] at hlast
  rcases hlast with hzero | hmem
  · rw [hzero]
    exact ⟨path, [], (List.append_nil path).symm, .genesis⟩
  · obtain ⟨l, q, hpath, hr⟩ := hrooted.of_mem hmem
    exact ⟨l, _, hpath, hr⟩

def RecentCall (N : Node) (db : ChainDatabase) : ChainCall → Prop
  | .switchToFork id => RecentFork N db id
  | .popBlock => True
  | .extendChain _ => True

/-- A block pushed that is the first one or numbered above it, and leads to no switch to a fork that
is not recent. -/
structure RecentPush (N : Node) (db : ChainDatabase) (clock : TimePointSec) (b : FullBlock) : Prop
    where
  numbered : b.Numbered
  recent : ∀ s c, PushCalls N clock b db s c → RecentCall N s c

namespace ChainInv

theorem history_last (h : ChainInv N db path) {history : List BlockIdType}
    (hist : History db id history) :
    ∃ l q, path = l ++ q ∧ Rooted db.blockIdToFullBlock (history.getLastD 0) q :=
  hist.last_on_path h.rooted h.included

/-- A switch to a recent fork keeps the chain, and the blocks it pops have undo states. -/
theorem switch_pops (h : ChainInv N db path) (hrecent : RecentFork N db id)
    {history : List BlockIdType} (hist : History db id history) (fuel : Nat) :
    (∃ path, ChainInv N (final (Achain.popUntil N (history.getLastD 0) fuel) db) path) ∧
      ∀ s, PopCalled N (history.getLastD 0) fuel db s →
        s.headBlockId ∈ s.blockIdToUndoState := by
  obtain ⟨l, q, rfl, hr⟩ := h.history_last hist
  by_cases hhead : history.getLastD 0 = db.headBlockId
  · cases fuel with
    | zero => exact ⟨⟨_, h⟩, fun s hs => by cases hs⟩
    | succ fuel =>
      rw [final, popUntil_succ, if_pos hhead.symm]
      refine ⟨⟨_, h⟩, fun s hs => ?_⟩
      cases hs with
      | here hne => exact absurd hhead.symm hne
      | next hne => exact absurd hhead.symm hne
  · obtain ⟨hmin, hbound⟩ := hrecent history q hist hhead hr
    exact popUntil hmin fuel l db h hr hbound

theorem search {pushed : BlockIdType} : SwitchKeeps N clock pushed (RecentCall N)
    fun db => (∃ path, ChainInv N db path) ∧ pushed ∈ db.blockIdToFullBlock where
  switch db id data h hd hlink hrecent _ := by
    refine switchToFork_keeps (E := fun _ _ => True)
      (I := fun db => (∃ path, ChainInv N db path) ∧ pushed ∈ db.blockIdToFullBlock)
      (fun db h => h.1.elim fun _ h => h.tree) (fun db b h hb _ _ _ => ?_) h
      (linked_of_canLink hd hlink) (fun history _ _ hist => ?_) fun _ _ _ => trivial
    · obtain ⟨⟨path, h⟩, hmem⟩ := h
      refine ⟨h.extendChainM hb, ?_⟩
      rw [(h.tree.extendChainM_sameShape clock hb).blocks]
      exact hmem
    · obtain ⟨⟨path, h⟩, hmem⟩ := h
      refine ⟨(h.switch_pops hrecent hist _).1, ?_⟩
      rw [(h.tree.popUntil_sameShape _ _).blocks]
      exact hmem
  future db h := by
    obtain ⟨⟨path, h⟩, hmem⟩ := h
    have htree := ((ForkTree.search clock).future db ⟨h.tree, hmem⟩).1
    exact ⟨⟨path, h.of_same htree h.numbered (fun _ _ hb => hb) rfl rfl rfl fun _ => Iff.rfl⟩, hmem⟩

/-- Placing a block includes none. -/
theorem indexed_included {r : BlockIdType × BlockForkData} (htree : ForkTree N db)
    (hi : Indexed db id b r db')
    (hunknown : ¬ (db.forkDb.lookup id).any BlockForkData.isKnown) (k : BlockIdType) :
    db'.Included k ↔ db.Included k := by
  have hold : ¬ db.Included id := by
    rintro ⟨d, hd, hi⟩
    rw [hd, Option.any_some, Bool.not_eq_true] at hunknown
    rw [(htree.placeholder id d hd hunknown).2.2] at hi
    cases hi
  have hplaced : ∀ data : BlockForkData, data.isIncluded = false →
      ((db.withBlock id b data).Included k ↔ db.Included k) := by
    intro data hdata
    unfold ChainDatabase.Included at hold ⊢
    rw [withBlock_fork]
    split_ifs with hk hprev
    · rw [hk]
      simp only [Option.some.injEq, exists_eq_left', hdata, Bool.false_eq_true, false_iff]
      exact hold
    · rw [hprev]
      unfold ChainDatabase.previousData
      cases db.forkDb.lookup b.previous <;> simp [BlockForkData.empty]
    · rfl
  have hreceived : ∀ ph, (db.placed id b).forkDb.lookup id = some ph →
      ((db.withBlock id b (ph.received (db.previousData id b))).Included k ↔ db.Included k) :=
    fun ph hph => hplaced _ (htree.placed_unknown hunknown hph).2.2.2
  cases hi with
  | fresh hnone => exact hplaced _ rfl
  | orphan hph _ => exact hreceived _ hph
  | invalid hph _ _ hm => exact (included_of_marked hm (fun _ => rfl) k).trans (hreceived _ hph)
  | linked hph _ _ hm _ => exact (included_of_marked hm (fun _ => rfl) k).trans (hreceived _ hph)

theorem indexed {r : BlockIdType × BlockForkData} (h : ChainInv N db path)
    (hi : Indexed db id b r db') (hid : N.B.id b.toSignedBlockHeader = id)
    (hunknown : ¬ (db.forkDb.lookup id).any BlockForkData.isKnown) (hb : b.Numbered) :
    ChainInv N db' path := by
  have hnotMem := (h.tree.unknown hunknown).2.1
  have hblock : ∀ x, x ≠ id → db'.blockIdToFullBlock.lookup x = db.blockIdToFullBlock.lookup x :=
    fun x hx => hi.block_of_ne hx
  refine h.of_same (hi.forkTree h.tree hid hunknown) (fun x b' hb' => ?_) (fun x b' hb' => ?_)
    hi.chain.headBlockId hi.chain.blockNumToId hi.chain.blockIdToUndoState
    (indexed_included h.tree hi hunknown)
  · by_cases hx : x = id
    · rw [hx, hi.mem, Option.some_inj] at hb'
      exact hb' ▸ hb
    · rw [hblock x hx] at hb'
      exact h.numbered x b' hb'
  · rw [hblock x]
    · exact hb'
    · rintro rfl
      exact hnotMem (Finmap.mem_of_lookup_eq_some hb')

theorem clearInvalidation (h : ChainInv N db path) :
    ChainInv N (final (clearInvalidationOfFutureBlocks clock) db) path := by
  obtain ⟨m, hrun, hm⟩ := clearInvalidation_ok h.tree clock
  have htree := ForkTree.clearInvalidation clock db h.tree
  rw [final, hrun] at htree ⊢
  exact h.of_same htree h.numbered (fun _ _ hb => hb) rfl rfl rfl
    (included_of_marked hm fun _ => rfl)

theorem pushBlock (h : ChainInv N db path) (hpush : RecentPush N db clock b) :
    ∃ path, ChainInv N (final (pushBlock N clock b) db) path := by
  rw [final]
  have hpushing := pushBlock_pushing h.tree clock b
  generalize Achain.pushBlock N clock b db = result at hpushing ⊢
  cases hpushing with
  | old => exact ⟨path, h⟩
  | known => exact ⟨path, h⟩
  | unlinked hplaces _ hi _ =>
    exact ⟨path, (h.indexed hi rfl hplaces.unknown hpush.numbered).clearInvalidation⟩
  | low hplaces _ hi => exact ⟨path, h.indexed hi rfl hplaces.unknown hpush.numbered⟩
  | search hplaces hrun hi hlink hlongest hlt =>
    exact (search.tryNumbers _ _ ⟨⟨path, h.indexed hi rfl hplaces.unknown hpush.numbered⟩,
      Finmap.mem_of_lookup_eq_some hi.mem⟩ fun s c hc =>
        hpush.recent s c (.search hplaces hrun hlink hlongest hlt hc)).1

/-- The blocks popped by a call of `push_block` have undo states. -/
theorem pops (h : ChainInv N db path) (hpush : RecentPush N db clock b) {s : ChainDatabase}
    (hcall : PushCalls N clock b db s .popBlock) : s.headBlockId ∈ s.blockIdToUndoState := by
  cases hcall with
  | search hplaces hrun hlink hlongest hlt hc =>
    obtain ⟨r', db'', hrun', hi⟩ := storeAndIndex_indexed h.tree rfl hplaces.unknown
    rw [hrun] at hrun'
    cases hrun'
    have hcalls := search.numberCalls hc ⟨⟨path, h.indexed hi rfl hplaces.unknown hpush.numbered⟩,
      Finmap.mem_of_lookup_eq_some hi.mem⟩ fun s c hc =>
        hpush.recent s c (.search hplaces hrun hlink hlongest hlt hc)
    rcases hcalls with ⟨id, hid, -⟩ | ⟨db'', id, ⟨⟨path', h'⟩, -⟩, hrecent, hswitch⟩
    · cases hid
    · cases hswitch with
      | pop hne hhist hpop =>
        exact (h'.switch_pops hrecent (forkHistory_history hhist) _).2 s hpop

end ChainInv

/-- No fork is too old to switch to while every block is numbered within the undo history. -/
theorem recentPush_of_young (htree : ForkTree N db) (hmin : N.config.minUndoBlock = 0)
    (hb : b.Numbered) (hyoung : b.blockNum ≤ maxUndoHistory)
    (hblocks : ∀ id b', db.blockIdToFullBlock.lookup id = some b' → b'.blockNum ≤ maxUndoHistory) :
    RecentPush N db clock b := by
  refine ⟨hb, fun s c hcall => ?_⟩
  cases hcall with
  | @search r db' _ longest _ hplaces hrun hlink hlongest hlt hc =>
    obtain ⟨r', db'', hrun', hi⟩ := storeAndIndex_indexed htree rfl hplaces.unknown
    rw [hrun] at hrun'
    cases hrun'
    have hmem := Finmap.mem_of_lookup_eq_some hi.mem
    have hcalls := (ForkTree.switches hmem).numberCalls hc
      ⟨hi.forkTree htree rfl hplaces.unknown, rfl⟩ fun _ _ _ => trivial
    cases c with
    | popBlock => trivial
    | extendChain => trivial
    | switchToFork id =>
      rcases hcalls with ⟨_, -, -, hsame⟩ | ⟨_, _, -, -, hswitch⟩
      · intro history q _ _ _
        refine ⟨hmin ▸ Nat.zero_le _, fun y b' _ hb' => ?_⟩
        rw [hsame] at hb'
        by_cases hy : y = N.B.id b.toSignedBlockHeader
        · rw [hy, hi.mem, Option.some_inj] at hb'
          rw [← hb']
          omega
        · rw [hi.block_of_ne hy] at hb'
          have hle := hblocks y b' hb'
          omega
      · cases hswitch

theorem initializeGenesis_chainInv {g : GenesisState} {on : Bool}
    (h : initializeGenesis N.P g on = .ok db) : ChainInv N db [] := by
  have htree := initializeGenesis_forkTree h
  simp only [initializeGenesis, bind_eq_ok, ensure_eq_ok, pure_eq_ok, exists_const] at h
  obtain ⟨-, -, rfl⟩ := h
  refine ⟨htree, fun id b hb => ?_, .genesis, trivial, fun id => ?_, fun n id => ?_,
    fun l x q hpath => ?_⟩
  · rw [Finmap.lookup_empty] at hb
    cases hb
  · unfold ChainDatabase.Included
    constructor
    · rintro ⟨d, hd, -⟩
      exact .inl ((Finmap.mem_singleton _ _ _).1 (Finmap.mem_of_lookup_eq_some hd))
    · rintro (rfl | hmem)
      · exact ⟨_, Finmap.lookup_singleton_eq, rfl⟩
      · cases hmem
  · simp [Finmap.lookup_empty]
  · simp at hpath

theorem PushRun.chainInv {g : GenesisState} {on : Bool} {db₀ : ChainDatabase}
    (hrun : PushRun N (RecentPush N) db₀ db) (h₀ : initializeGenesis N.P g on = .ok db₀) :
    ∃ path, ChainInv N db path := by
  induction hrun with
  | start => exact ⟨[], initializeGenesis_chainInv h₀⟩
  | push clock b _ hpush ih =>
    obtain ⟨path, h⟩ := ih
    exact h.pushBlock hpush

/-- In every state after recent pushes, the main chain is what is included and indexed. -/
theorem main_chain_indexed (N : Node) (g : GenesisState) (on : Bool) (db₀ db : ChainDatabase)
    (h₀ : initializeGenesis N.P g on = .ok db₀) (hrun : PushRun N (RecentPush N) db₀ db) :
    ∃ path, MainChain db path := by
  obtain ⟨path, h⟩ := hrun.chainInv h₀
  exact ⟨path, h.mainChain⟩

/-- A block numbered within the undo history, the first one or numbered above it. -/
def FullBlock.Young (b : FullBlock) : Prop := b.Numbered ∧ b.blockNum ≤ maxUndoHistory

theorem Pushed.forkTree {K : FullBlock → Prop} {db₀ : ChainDatabase} (h : Pushed N K db₀ db)
    (h₀ : ForkTree N db₀) : ForkTree N db := by
  induction h with
  | start => exact h₀
  | push clock b _ _ ih => exact ForkTree.pushBlock clock b _ ih

/-- Every run of blocks numbered within the undo history meets the conditions. -/
theorem Pushed.recent {g : GenesisState} {on : Bool} {db₀ : ChainDatabase}
    (h : Pushed N FullBlock.Young db₀ db) (h₀ : initializeGenesis N.P g on = .ok db₀)
    (hmin : N.config.minUndoBlock = 0) : PushRun N (RecentPush N) db₀ db := by
  induction h with
  | start => exact .start
  | push clock b hrun hb ih =>
    have hknown := (hrun.running (initializeGenesis_known h₀)).known
    exact .push clock b ih (recentPush_of_young (hrun.forkTree (initializeGenesis_forkTree h₀)) hmin
      hb.1 hb.2 fun id b' hb' => (hknown id b' hb').2.2)

/-- A fork of two blocks takes the place of the first block. -/
theorem main_chain_indexed_after_switch :
    ∃ db₀ db, initializeGenesis Node.plain.P .plain false = .ok db₀ ∧
      PushRun .plain (RecentPush .plain) db₀ db ∧ db.headBlockId = 1021030 ∧
      db.blockNumToId.lookup 1 = some 1020 ∧ (db.forkDb.lookup 1010).isSome ∧
      ∃ path, MainChain db path := by
  have hyoung : ∀ b ∈ [FullBlock.plain 1 0 10 [], .plain 1 0 20 [], .plain 2 1020 30 []],
      b.Young := by
    simp [FullBlock.Young, FullBlock.Numbered, FullBlock.plain, maxUndoHistory]
  obtain ⟨db₀, db, h₀, hpushed, hend⟩ := exists_pushed (N := .plain) (g := .plain)
    (p := fun db => decide (db.headBlockId = 1021030 ∧ db.blockNumToId.lookup 1 = some 1020 ∧
      (db.forkDb.lookup 1010).isSome)) 100 _ hyoung (by decide +kernel)
  obtain ⟨hhead, hindexed, hforked⟩ := of_decide_eq_true hend
  have hrun := hpushed.recent h₀ rfl
  exact ⟨db₀, db, h₀, hrun, hhead, hindexed, hforked, main_chain_indexed .plain .plain false db₀ _ h₀ hrun⟩

/-- After blocks 1 and 2, a block numbered 1 that follows block 2 and leads to a block 3 known before
is applied. Block 3 fails, the chain goes back to block 2, and the number 1 is not indexed. -/
theorem low_number_unindexed :
    ∃ db₀ db, initializeGenesis Node.plain.P .plain false = .ok db₀ ∧
      PushRun .plain (fun _ _ _ => True) db₀ db ∧ ¬ ∃ path, MainChain db path := by
  have hpush : returns (initializeGenesis Node.plain.P .plain false) (fun db =>
      let db := final (pushBlock .plain 100 (.plain 1 0 10 [])) db
      let db := final (pushBlock .plain 100 (.plain 2 1010 20 [])) db
      let db := final (pushBlock .plain 100 (.plain 3 1011021030 40 [])) db
      let db := final (pushBlock .plain 100 (.plain 1 1011020 30 [])) db
      db.headBlockId == 1011020 && (db.blockNumToId.lookup 1).isNone) = true := by decide +kernel
  obtain ⟨db₀, h₀, hend⟩ := exists_of_returns hpush
  refine ⟨db₀, _, h₀, .push 100 (.plain 1 1011020 30 []) (.push 100 (.plain 3 1011021030 40 [])
    (.push 100 (.plain 2 1010 20 []) (.push 100 (.plain 1 0 10 []) .start trivial) trivial) trivial)
    trivial, ?_⟩
  rintro ⟨path, h⟩
  dsimp only at hend
  generalize final (pushBlock .plain 100 (.plain 1 1011020 30 [])) _ = db at hend h
  simp only [Bool.and_eq_true, beq_iff_eq, Option.isNone_iff_eq_none] at hend
  -- The path from the head is not empty, and its last block has the number 1.
  obtain ⟨b, q, rfl, -⟩ := h.rooted.ne_zero_inv (by rw [hend.1]; decide)
  obtain ⟨x, hx⟩ : ∃ x, (db.headBlockId :: q).reverse[0]? = some x := by
    rw [List.reverse_cons]
    cases q.reverse with
    | nil => exact ⟨_, rfl⟩
    | cons y l => exact ⟨y, rfl⟩
  have hindex := (h.index 1 x).2 ⟨0, rfl, hx⟩
  rw [hend.2] at hindex
  cases hindex

/-- In every state after recent pushes, whenever a further one pops the head, the head has an undo
state. -/
theorem undo_history_suffices (N : Node) (g : GenesisState) (on : Bool) (db₀ db : ChainDatabase)
    (h₀ : initializeGenesis N.P g on = .ok db₀) (hrun : PushRun N (RecentPush N) db₀ db)
    (clock : TimePointSec) (b : FullBlock) (hpush : RecentPush N db clock b) (s : ChainDatabase)
    (hcall : PushCalls N clock b db s .popBlock) : s.headBlockId ∈ s.blockIdToUndoState := by
  obtain ⟨path, h⟩ := hrun.chainInv h₀
  exact h.pops hpush hcall

/-- A fork of two blocks replaces the first block, which is popped. -/
theorem undo_history_suffices_at_switch :
    ∃ db₀ db s, initializeGenesis Node.plain.P .plain false = .ok db₀ ∧
      PushRun .plain (RecentPush .plain) db₀ db ∧
      PushCalls .plain 100 (.plain 2 1020 30 []) db s .popBlock ∧
      s.headBlockId ∈ s.blockIdToUndoState := by
  obtain ⟨db₀, db, h₀, hpushed, hend⟩ := exists_pushed (N := .plain) (g := .plain) (K := FullBlock.Young)
    (p := fun db => (pushCalls .plain 100 (.plain 2 1020 30 []) db).any fun x => x.2.pops)
    100 [.plain 1 0 10 [], .plain 1 0 20 []]
    (by simp [FullBlock.Young, FullBlock.Numbered, FullBlock.plain, maxUndoHistory])
    (by decide +kernel)
  have htree := hpushed.forkTree (initializeGenesis_forkTree h₀)
  obtain ⟨s, hcall⟩ := exists_pop hend
  have hrecent := hpushed.recent h₀ rfl
  have hyoung : RecentPush .plain db 100 (.plain 2 1020 30 []) :=
    recentPush_of_young htree rfl (fun h => absurd h (by decide)) (by decide) fun id b hb =>
      ((hpushed.running (initializeGenesis_known h₀)).known id b hb).2.2
  exact ⟨db₀, db, s, h₀, hrecent, hcall,
    undo_history_suffices .plain .plain false db₀ db h₀ hrecent 100 _ hyoung s hcall⟩

end Achain
