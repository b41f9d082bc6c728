import Achain.Lib.Levels
import Achain.Proofs.Runs

/-!
# The passes over the block tree

Blocks are marked as invalid, unchecked or linked level by level, from a set of blocks down to
everything after them. Each pass changes one flag of the blocks within its levels and nothing else.
-/

namespace Achain

open Table Result Stateful Levels

variable {N : Node} {db : ChainDatabase}

/-! ## The passes -/

/-- The blocks after a block. -/
def ChainDatabase.next (db : ChainDatabase) (id : BlockIdType) : List BlockIdType :=
  ((db.forkDb.lookup id).map BlockForkData.nextBlocks).getD []

/-- The blocks of a set are changed and no others. -/
structure Marked (change : BlockForkData → BlockForkData) (S : BlockIdType → Prop)
    (m m' : Tab BlockIdType BlockForkData) : Prop where
  inside : ∀ k, S k → m'.lookup k = (m.lookup k).map change
  outside : ∀ k, ¬ S k → m'.lookup k = m.lookup k

/-- A change of the flags alone, which makes no difference when it is made again. -/
structure Flags (change : BlockForkData → BlockForkData) : Prop where
  nextBlocks : ∀ d, (change d).nextBlocks = d.nextBlocks
  again : ∀ d, change (change d) = change d

namespace Marked

variable {change : BlockForkData → BlockForkData} {S T : BlockIdType → Prop}
  {m m' m'' : Tab BlockIdType BlockForkData}

theorem insert {id : BlockIdType} {d : BlockForkData} (h : m.lookup id = some d) :
    Marked change (· = id) m (m.insert id (change d)) where
  inside k hk := by
    subst hk
    rw [Finmap.lookup_insert, h]
    rfl
  outside k hk := Finmap.lookup_insert_of_ne _ hk

theorem trans (hf : Flags change) (h : Marked change S m m') (h' : Marked change T m' m'') :
    Marked change (fun k => S k ∨ T k) m m'' where
  inside k hk := by
    by_cases hT : T k
    · rw [h'.inside k hT]
      by_cases hS : S k
      · rw [h.inside k hS, Option.map_map]
        cases m.lookup k with
        | none => rfl
        | some d => exact congrArg some (hf.again d)
      · rw [h.outside k hS]
    · rw [h'.outside k hT, h.inside k (hk.resolve_right hT)]
  outside k hk := by
    rw [not_or] at hk
    rw [h'.outside k hk.2, h.outside k hk.1]

theorem congr (h : Marked change S m m') (hST : ∀ k, S k ↔ T k) : Marked change T m m' where
  inside k hk := h.inside k ((hST k).2 hk)
  outside k hk := h.outside k fun hS => hk ((hST k).1 hS)

theorem mem (h : Marked change S m m') (k : BlockIdType) : k ∈ m' ↔ k ∈ m := by
  rw [← Finmap.lookup_isSome, ← Finmap.lookup_isSome]
  by_cases hk : S k
  · rw [h.inside k hk, Option.isSome_map]
  · rw [h.outside k hk]

theorem depth {db : ChainDatabase} {m : Tab BlockIdType BlockForkData}
    (h : Marked change S db.forkDb m) :
    ({ db with forkDb := m } : ChainDatabase).forkDepth = db.forkDepth := by
  refine congrArg Finset.card (Finset.ext fun k => ?_)
  rw [Finmap.mem_keys, Finmap.mem_keys]
  exact h.mem k

end Marked

theorem next_of_marked {change : BlockForkData → BlockForkData} {S : BlockIdType → Prop}
    {db' : ChainDatabase} (hf : Flags change) (h : Marked change S db.forkDb db'.forkDb) :
    db'.next = db.next := by
  funext k
  unfold ChainDatabase.next
  by_cases hk : S k
  · rw [h.inside k hk, Option.map_map]
    cases db.forkDb.lookup k with
    | none => rfl
    | some d => exact hf.nextBlocks d
  · rw [h.outside k hk]

theorem fetchFork_ok {id : BlockIdType} {d : BlockForkData} (h : db.forkDb.lookup id = some d) :
    fetchFork id db = .ok d db := by
  rw [fetchFork, get_bind]
  simp only [h]
  rfl

theorem fetchFork_error {id : BlockIdType} (h : db.forkDb.lookup id = none) :
    fetchFork id db = .error .unknownBlock db := by
  rw [fetchFork, get_bind]
  simp only [h]
  rfl

theorem fetchBlock_error {id : BlockIdType} (h : db.blockIdToFullBlock.lookup id = none) :
    fetchBlock id db = .error .unknownBlock db := by
  rw [fetchBlock, get_bind]
  simp only [h]
  rfl

theorem fetchBlock_ok {id : BlockIdType} {b : FullBlock}
    (h : db.blockIdToFullBlock.lookup id = some b) : fetchBlock id db = .ok b db := by
  rw [fetchBlock, get_bind]
  simp only [h]
  rfl

/-- Nothing after a known block is missing. -/
def ForkClosed (db : ChainDatabase) : Prop := ∀ id, ∀ c ∈ db.next id, c ∈ db.forkDb

section Passes

variable {change : BlockForkData → BlockForkData}

/-- One level of a pass changes the blocks of the level and collects those after them. -/
theorem markLevel_ok (hf : Flags change) : ∀ (ids next : List BlockIdType) (db : ChainDatabase),
    (∀ id ∈ ids, id ∈ db.forkDb) →
      ∃ m, (ids.foldlM (fun next id => do
          let data ← fetchFork id
          storeFork id (change data)
          return next ++ data.nextBlocks) next : DbM (List BlockIdType)) db =
        .ok (next ++ ids.flatMap db.next) { db with forkDb := m } ∧
        Marked change (· ∈ ids) db.forkDb m
  | [], next, db, _ => by
    refine ⟨db.forkDb, ?_, fun k hk => absurd hk List.not_mem_nil, fun k _ => rfl⟩
    rw [List.flatMap_nil, List.append_nil]
    rfl
  | id :: ids, next, db, hids => by
    obtain ⟨d, hd⟩ := Finmap.mem_iff.1 (hids id (List.mem_cons_self ..))
    have hfirst : Marked change (· = id) db.forkDb (db.forkDb.insert id (change d)) := .insert hd
    have hnext : ({ db with forkDb := db.forkDb.insert id (change d) } : ChainDatabase).next =
        db.next := next_of_marked hf hfirst
    obtain ⟨m, hrun, hm⟩ := markLevel_ok hf ids (next ++ d.nextBlocks)
      { db with forkDb := db.forkDb.insert id (change d) } fun k hk =>
        Finmap.mem_insert.2 (.inr (hids k (List.mem_cons_of_mem _ hk)))
    refine ⟨m, ?_, (hfirst.trans hf hm).congr fun k => List.mem_cons.symm⟩
    have hd' : db.next id = d.nextBlocks := by
      unfold ChainDatabase.next
      rw [hd]
      rfl
    rw [List.foldlM_cons, List.flatMap_cons, hd', ← List.append_assoc, ← hnext]
    refine (bind_of_ok ?_).trans hrun
    exact (bind_of_ok (fetchFork_ok hd)).trans rfl

/-- A pass changes the blocks within its levels. -/
theorem markDescendants_ok (hf : Flags change) : ∀ (fuel : Nat) (ids : List BlockIdType)
    (db : ChainDatabase), ForkClosed db → (∀ id ∈ ids, id ∈ db.forkDb) →
      ∃ m, markDescendants change fuel ids db = .ok () { db with forkDb := m } ∧
        Marked change (Within db.next fuel ids) db.forkDb m
  | 0, ids, db, _, _ => by
    refine ⟨db.forkDb, ?_, fun k hk => absurd hk within_zero, fun k _ => rfl⟩
    cases ids <;> rfl
  | _ + 1, [], db, _, _ =>
    ⟨db.forkDb, rfl, fun k hk => absurd hk within_nil, fun k _ => rfl⟩
  | fuel + 1, id :: ids, db, hclosed, hids => by
    obtain ⟨m₁, hrun₁, hm₁⟩ := markLevel_ok hf (id :: ids) [] db hids
    have hnext : ({ db with forkDb := m₁ } : ChainDatabase).next = db.next := next_of_marked hf hm₁
    have hmem : ∀ k, k ∈ ((id :: ids).flatMap db.next).dedup ↔
        k ∈ (id :: ids).flatMap db.next := fun k => List.mem_dedup
    obtain ⟨m, hrun, hm⟩ := markDescendants_ok hf fuel ((id :: ids).flatMap db.next).dedup
      { db with forkDb := m₁ } (fun k c hc => (hm₁.mem c).2 (hclosed k c (hnext ▸ hc)))
      fun k hk => by
        obtain ⟨a, -, hka⟩ := List.mem_flatMap.1 ((hmem k).1 hk)
        exact (hm₁.mem k).2 (hclosed a k hka)
    refine ⟨m, ?_, ?_⟩
    · unfold markDescendants
      exact (bind_of_ok hrun₁).trans hrun
    · rw [hnext] at hm
      refine (hm₁.trans hf hm).congr fun k => ?_
      rw [within_succ, within_congr hmem]

/-- The highest of a set of blocks and of the best one before. -/
structure Highest (db : ChainDatabase) (S : BlockIdType → Prop)
    (best best' : Nat × BlockIdType × BlockForkData) : Prop where
  choice : best' = best ∨ ∃ id b d, S id ∧ db.blockIdToFullBlock.lookup id = some b ∧
    db.forkDb.lookup id = some d ∧ best.1 < b.blockNum ∧
    best' = (b.blockNum, id, { d with isLinked := true })
  le : best.1 ≤ best'.1
  bound : ∀ id b, S id → db.blockIdToFullBlock.lookup id = some b → b.blockNum ≤ best'.1

theorem linked_flags : Flags fun d => { d with isLinked := true } := ⟨fun _ => rfl, fun _ => rfl⟩

theorem Highest.trans {S T : BlockIdType → Prop} {m : Tab BlockIdType BlockForkData}
    {b₁ b₂ b₃ : Nat × BlockIdType × BlockForkData} (h : Highest db S b₁ b₂)
    (hm : Marked (fun d => { d with isLinked := true }) S db.forkDb m)
    (h' : Highest { db with forkDb := m } T b₂ b₃) : Highest db (fun k => S k ∨ T k) b₁ b₃ where
  choice := by
    rcases h'.choice with rfl | ⟨id, b, d, hid, hb, hd, hlt, rfl⟩
    · rcases h.choice with rfl | ⟨id, b, d, hid, hb, hd, hlt, rfl⟩
      · exact .inl rfl
      · exact .inr ⟨id, b, d, .inl hid, hb, hd, hlt, rfl⟩
    · refine .inr ?_
      by_cases hS : S id
      · have hmap := hm.inside id hS
        rw [show m.lookup id = some d from hd] at hmap
        obtain ⟨d', hd', rfl⟩ := Option.map_eq_some_iff.1 hmap.symm
        exact ⟨id, b, d', .inr hid, hb, hd', h.le.trans_lt hlt, rfl⟩
      · rw [show m.lookup id = db.forkDb.lookup id from hm.outside id hS] at hd
        exact ⟨id, b, d, .inr hid, hb, hd, h.le.trans_lt hlt, rfl⟩
  le := h.le.trans h'.le
  bound id b hid hb := by
    rcases hid with hid | hid
    · exact (h.bound id b hid hb).trans h'.le
    · exact h'.bound id b hid hb

theorem Highest.congr {S T : BlockIdType → Prop} {b₁ b₂ : Nat × BlockIdType × BlockForkData}
    (h : Highest db S b₁ b₂) (hST : ∀ k, S k ↔ T k) : Highest db T b₁ b₂ where
  choice := h.choice.imp_right fun ⟨id, b, d, hid, hrest⟩ => ⟨id, b, d, (hST id).1 hid, hrest⟩
  le := h.le
  bound id b hid hb := h.bound id b ((hST id).2 hid) hb

theorem Highest.none {S : BlockIdType → Prop} (hS : ∀ k, ¬ S k)
    (best : Nat × BlockIdType × BlockForkData) : Highest db S best best :=
  ⟨.inl rfl, le_rfl, fun id _ hid _ => absurd hid (hS id)⟩

theorem linkLevel_ok : ∀ (ids : List BlockIdType)
    (acc : (Nat × BlockIdType × BlockForkData) × List BlockIdType) (db : ChainDatabase),
    (∀ id ∈ ids, id ∈ db.forkDb ∧ id ∈ db.blockIdToFullBlock) →
      ∃ m best, (ids.foldlM (fun (acc : (Nat × BlockIdType × BlockForkData) × _) id => do
          let data ← fetchFork id
          let data := { data with isLinked := true }
          storeFork id data
          let b ← fetchBlock id
          let best := if acc.1.1 < b.blockNum then (b.blockNum, id, data) else acc.1
          return (best, acc.2 ++ data.nextBlocks)) acc : DbM _) db =
        .ok (best, acc.2 ++ ids.flatMap db.next) { db with forkDb := m } ∧
        Marked (fun d => { d with isLinked := true }) (· ∈ ids) db.forkDb m ∧
        Highest db (· ∈ ids) acc.1 best
  | [], acc, db, _ => by
    refine ⟨db.forkDb, acc.1, ?_, ⟨fun k hk => absurd hk List.not_mem_nil, fun k _ => rfl⟩,
      .none (fun k => List.not_mem_nil) _⟩
    rw [List.flatMap_nil, List.append_nil]
    rfl
  | id :: ids, acc, db, hids => by
    obtain ⟨hfork, hblock⟩ := hids id (List.mem_cons_self ..)
    obtain ⟨d, hd⟩ := Finmap.mem_iff.1 hfork
    obtain ⟨b, hb⟩ := Finmap.mem_iff.1 hblock
    have hfirst : Marked (fun d => { d with isLinked := true }) (· = id) db.forkDb
        (db.forkDb.insert id { d with isLinked := true }) := .insert hd
    have hnext : ({ db with forkDb := db.forkDb.insert id { d with isLinked := true } } :
        ChainDatabase).next = db.next := next_of_marked linked_flags hfirst
    have hbest : Highest db (· = id) acc.1
        (if acc.1.1 < b.blockNum then (b.blockNum, id, { d with isLinked := true }) else acc.1) := by
      split_ifs with hlt
      · refine ⟨.inr ⟨id, b, d, rfl, hb, hd, hlt, rfl⟩, hlt.le, ?_⟩
        rintro _ b' rfl hb'
        rw [hb, Option.some_inj] at hb'
        exact hb' ▸ le_rfl
      · refine ⟨.inl rfl, le_rfl, ?_⟩
        rintro _ b' rfl hb'
        rw [hb, Option.some_inj] at hb'
        exact hb' ▸ Nat.le_of_not_lt hlt
    obtain ⟨m, best, hrun, hm, hhigh⟩ := linkLevel_ok ids
      (if acc.1.1 < b.blockNum then (b.blockNum, id, { d with isLinked := true }) else acc.1,
        acc.2 ++ d.nextBlocks)
      { db with forkDb := db.forkDb.insert id { d with isLinked := true } } fun k hk =>
        ⟨Finmap.mem_insert.2 (.inr (hids k (List.mem_cons_of_mem _ hk)).1),
          (hids k (List.mem_cons_of_mem _ hk)).2⟩
    refine ⟨m, best, ?_, (hfirst.trans linked_flags hm).congr fun k => List.mem_cons.symm,
      (hbest.trans hfirst hhigh).congr fun k => List.mem_cons.symm⟩
    have hd' : db.next id = d.nextBlocks := by
      unfold ChainDatabase.next
      rw [hd]
      rfl
    rw [List.foldlM_cons, List.flatMap_cons, hd', ← List.append_assoc, ← hnext]
    refine (bind_of_ok ?_).trans hrun
    refine (bind_of_ok (fetchFork_ok hd)).trans ?_
    refine (modify_bind _ _ _).trans ?_
    have hb' : ({ db with forkDb := db.forkDb.insert id { d with isLinked := true } } :
        ChainDatabase).blockIdToFullBlock.lookup id = some b := hb
    exact (bind_of_ok (fetchBlock_ok hb')).trans rfl

/-- `recursive_mark_as_linked` links the blocks within its levels and finds the highest of them. -/
theorem recursiveMarkAsLinked_ok : ∀ (fuel : Nat) (ids : List BlockIdType)
    (best : Nat × BlockIdType × BlockForkData) (db : ChainDatabase),
    (∀ id, ∀ c ∈ db.next id, c ∈ db.forkDb ∧ c ∈ db.blockIdToFullBlock) →
    (∀ id ∈ ids, id ∈ db.forkDb ∧ id ∈ db.blockIdToFullBlock) →
      ∃ m best', recursiveMarkAsLinked fuel ids best db = .ok best' { db with forkDb := m } ∧
        Marked (fun d => { d with isLinked := true }) (Within db.next fuel ids) db.forkDb m ∧
        Highest db (Within db.next fuel ids) best best'
  | 0, ids, best, db, _, _ => by
    refine ⟨db.forkDb, best, ?_, ⟨fun k hk => absurd hk within_zero, fun k _ => rfl⟩,
      .none (fun k => within_zero) _⟩
    cases ids <;> rfl
  | _ + 1, [], best, db, _, _ =>
    ⟨db.forkDb, best, rfl, ⟨fun k hk => absurd hk within_nil, fun k _ => rfl⟩,
      .none (fun k => within_nil) _⟩
  | fuel + 1, id :: ids, best, db, hclosed, hids => by
    obtain ⟨m₁, best₁, hrun₁, hm₁, hbest₁⟩ := linkLevel_ok (id :: ids) (best, []) db hids
    have hnext : ({ db with forkDb := m₁ } : ChainDatabase).next = db.next :=
      next_of_marked linked_flags hm₁
    have hmem : ∀ k, k ∈ ((id :: ids).flatMap db.next).dedup ↔
        k ∈ (id :: ids).flatMap db.next := fun k => List.mem_dedup
    obtain ⟨m, best', hrun, hm, hbest⟩ := recursiveMarkAsLinked_ok fuel
      ((id :: ids).flatMap db.next).dedup best₁ { db with forkDb := m₁ }
      (fun k c hc => ⟨(hm₁.mem c).2 (hclosed k c (hnext ▸ hc)).1, (hclosed k c (hnext ▸ hc)).2⟩)
      fun k hk => by
        obtain ⟨a, -, hka⟩ := List.mem_flatMap.1 ((hmem k).1 hk)
        exact ⟨(hm₁.mem k).2 (hclosed a k hka).1, (hclosed a k hka).2⟩
    have hset : ∀ k, (k ∈ id :: ids ∨ Within db.next fuel ((id :: ids).flatMap db.next).dedup k) ↔
        Within db.next (fuel + 1) (id :: ids) k := by
      intro k
      rw [within_succ, within_congr hmem]
    refine ⟨m, best', ?_, ?_, ?_⟩
    · unfold recursiveMarkAsLinked
      exact (bind_of_ok hrun₁).trans hrun
    · rw [hnext] at hm
      exact (hm₁.trans linked_flags hm).congr hset
    · rw [hnext] at hbest
      exact (hbest₁.trans hm₁ hbest).congr hset

end Passes

/-! ## Paths to the genesis block -/

/-- The ids from a block down its previous links to the genesis block, which is left out. -/
inductive Rooted (blocks : Tab BlockIdType FullBlock) : BlockIdType → List BlockIdType → Prop
  | genesis : Rooted blocks 0 []
  | block {id : BlockIdType} {b : FullBlock} {path : List BlockIdType} :
      blocks.lookup id = some b → id ≠ 0 → Rooted blocks b.previous path →
      Rooted blocks id (id :: path)

namespace Rooted

variable {blocks blocks' : Tab BlockIdType FullBlock} {id x : BlockIdType}
  {path path' : List BlockIdType}

theorem unique (h : Rooted blocks id path) (h' : Rooted blocks id path') : path = path' := by
  induction h generalizing path' with
  | genesis =>
    cases h' with
    | genesis => rfl
    | block _ hne => exact absurd rfl hne
  | block hb hne _ ih =>
    cases h' with
    | genesis => exact absurd rfl hne
    | block hb' _ hrest =>
      rw [hb, Option.some_inj] at hb'
      subst hb'
      rw [ih hrest]

theorem eq_nil (h : Rooted blocks id []) : id = 0 := by
  cases h
  rfl

theorem cons_inv (h : Rooted blocks id (x :: path)) :
    x = id ∧ id ≠ 0 ∧ ∃ b, blocks.lookup id = some b ∧ Rooted blocks b.previous path := by
  cases h with
  | block hb hne hrest => exact ⟨rfl, hne, _, hb, hrest⟩

/-- Whether the ids are those from a block down. -/
instance decidable (blocks : Tab BlockIdType FullBlock) :
    ∀ (id : BlockIdType) (path : List BlockIdType), Decidable (Rooted blocks id path)
  | id, [] => decidable_of_iff (id = 0) ⟨fun h => h ▸ .genesis, eq_nil⟩
  | id, x :: path =>
    have := fun b : FullBlock => decidable blocks b.previous path
    decidable_of_iff (x = id ∧ id ≠ 0 ∧ ∃ b ∈ blocks.lookup id, Rooted blocks b.previous path)
      ⟨fun ⟨hx, hne, _, hb, hrest⟩ => hx.symm ▸ .block hb hne hrest, cons_inv⟩

theorem id_unique (h : Rooted blocks id path) (h' : Rooted blocks x path) : id = x := by
  cases h with
  | genesis => exact h'.eq_nil.symm
  | block => exact h'.cons_inv.1

theorem mono (h : Rooted blocks id path)
    (hsub : ∀ id b, blocks.lookup id = some b → blocks'.lookup id = some b) :
    Rooted blocks' id path := by
  induction h with
  | genesis => exact .genesis
  | block hb hne _ ih => exact .block (hsub _ _ hb) hne ih

theorem mem_blocks (h : Rooted blocks id path) : ∀ x ∈ path, x ≠ 0 ∧ x ∈ blocks := by
  induction h with
  | genesis => simp
  | block hb hne _ ih =>
    intro x hx
    rcases List.mem_cons.1 hx with rfl | hx
    · exact ⟨hne, Finmap.mem_of_lookup_eq_some hb⟩
    · exact ih x hx

/-- From every block of a path on, it is that block's path. -/
theorem of_mem (h : Rooted blocks id path) (hx : x ∈ path) :
    ∃ l q, path = l ++ x :: q ∧ Rooted blocks x (x :: q) := by
  induction h with
  | genesis => cases hx
  | block hb hne hrest ih =>
    rcases List.mem_cons.1 hx with rfl | hx
    · exact ⟨[], _, rfl, .block hb hne hrest⟩
    · obtain ⟨l, q, rfl, hroot⟩ := ih hx
      exact ⟨_ :: l, q, rfl, hroot⟩

theorem nodup (h : Rooted blocks id path) : path.Nodup := by
  induction h with
  | genesis => exact List.nodup_nil
  | @block id b path hb hne hrest ih =>
    refine List.nodup_cons.2 ⟨fun hmem => ?_, ih⟩
    obtain ⟨l, q, rfl, hroot⟩ := hrest.of_mem hmem
    have hlen := congrArg List.length (hroot.unique (.block hb hne hrest))
    simp only [List.length_cons, List.length_append] at hlen
    omega

theorem ne_zero_inv (h : Rooted blocks id path) (hne : id ≠ 0) :
    ∃ b q, path = id :: q ∧ blocks.lookup id = some b ∧ Rooted blocks b.previous q := by
  cases h with
  | genesis => exact absurd rfl hne
  | block hb _ hrest => exact ⟨_, _, rfl, hb, hrest⟩

/-- The blocks of a path are reached from any of them, one level after the other. -/
theorem down (hnext : ∀ id b, blocks.lookup id = some b → id ∈ db.next b.previous)
    {a : BlockIdType} {l q : List BlockIdType} (h : Rooted blocks x (l ++ a :: q)) :
    Path db.next a x (l ++ [a]) := by
  induction l generalizing x with
  | nil =>
    obtain ⟨rfl, -⟩ := h.cons_inv
    exact .start
  | cons y l ih =>
    obtain ⟨rfl, -, b, hb, hrest⟩ := h.cons_inv
    exact .step (ih hrest) (hnext _ b hb)

end Rooted

end Achain
