import Achain.Proofs.Synopsis

/-!
# The exchange that starts a synchronisation

One node sends a synopsis of its chain, the other answers with the blocks of its own. The answer
starts at the last block of the synopsis before the two chains part.
-/

namespace Achain.Net

open Table Result Stateful

variable {N N' : Node} {db db' : ChainDatabase} {chain chain' : List BlockIdType} {f m : Nat}

theorem mapM_eq_map {α β : Type} {g : α → Option β} {g' : α → β} :
    ∀ {l : List α}, (∀ x ∈ l, g x = some (g' x)) → l.mapM g = some (l.map g')
  | [], _ => rfl
  | x :: l, h => by
    rw [List.mapM_cons, h x (by simp), mapM_eq_map fun y hy => h y (List.mem_cons_of_mem _ hy)]
    rfl

/-- Two chains that have their first blocks in common, and no others. -/
structure AgreeUpTo (f : Nat) (chain chain' : List BlockIdType) : Prop where
  le : f ≤ chain.length
  le' : f ≤ chain'.length
  same : chain.take f = chain'.take f
  differ : ∀ id ∈ chain.drop f, id ∉ chain'

/-! ## The synopsis of the whole chain -/

namespace SyncChain

theorem synopsis_head (h : SyncChain N db chain) (hpos : 1 ≤ chain.length)
    (hmax : chain.length + 1 < 2 ^ 32) {fuel : Nat} (hfuel : 32 < fuel) :
    getBlockchainSynopsis N db fuel 0 0 = .ok (summary chain chain.length chain.length.size) := by
  have hrange : synopsisRange db 0 =
      .ok (some (.ofNat chain.length, .ofNat chain.length, [])) := by
    rw [synopsisRange, if_neg (by simp), h.head]
    exact if_neg (by omega)
  have hlen : (UInt32.ofNat chain.length).toNat = chain.length :=
    UInt32.toNat_ofNat_of_lt (show _ < 2 ^ 32 by omega)
  rw [getBlockchainSynopsis, hrange]
  dsimp only
  rw [UInt32.add_zero]
  have hpick : ∀ low : UInt32, 0 < low.toNat → low.toNat ≤ (UInt32.ofNat chain.length).toNat →
      synopsisPick N db (.ofNat chain.length) [] low = .ok [chain.getD (low.toNat - 1) 0] := by
    intro low hlow hle
    rw [h.synopsisPick_ok List.prefix_rfl hlen hlow (by rw [List.append_nil]; omega),
      List.append_nil]
  have hloop := synopsisLoop_summary le_rfl (by omega) (by omega)
    (fun k => by rw [hlen]; exact Halving.seq_le_iff) hpick hfuel
  rwa [hlen] at hloop

/-! ## The answer -/

/-- The number of a block of a synopsis that is on the main chain. -/
theorem includedBlockNum_eq (h : SyncChain N db chain) {id : BlockIdType} (hid : id ≠ 0) :
    includedBlockNum db id = if id ∈ chain then some (chain.idxOf id + 1) else none := by
  unfold includedBlockNum
  by_cases hmem : id ∈ chain
  · have hget : chain[chain.idxOf id]? = some id := List.getElem?_idxOf hmem
    rw [h.getBlockNum_eq hget, if_pos hmem]
    exact if_pos ((h.isIncludedBlock_iff hid).2 hmem)
  · have hnot : ¬ isIncludedBlock db id = true := fun hin => hmem ((h.isIncludedBlock_iff hid).1 hin)
    rw [if_neg hmem]
    cases getBlockNum db id with
    | ok n => exact if_neg hnot
    | error e => rfl

theorem nodup (h : SyncChain N db chain) : chain.Nodup :=
  List.nodup_reverse.1 h.rooted.nodup

/-- The answer to a synopsis is located at the last of its blocks that both chains have. -/
theorem lastSeenBlockNum_summary (h : SyncChain N db chain) (h' : SyncChain N' db' chain')
    (hagree : AgreeUpTo f chain chain') (hm : ∀ k, Halving.seq chain.length k ≤ f ↔ k < m + 1) :
    lastSeenBlockNum db' (summary chain chain.length chain.length.size) =
      Halving.seq chain.length m := by
  have hle := (hm m).2 (Nat.lt_succ_self m)
  have hlt : m < chain.length.size := Halving.seq_le_iff.1 (hle.trans hagree.le)
  have hpos := Nat.zero_lt_of_lt (Halving.lt_seq chain.length m)
  have hsplit : List.range chain.length.size =
      List.range m ++ m :: List.range' (m + 1) (chain.length.size - (m + 1)) := by
    have happend := List.range'_append_1 (s := 0) (m := m) (n := chain.length.size - m)
    rw [Nat.zero_add, Nat.add_sub_of_le hlt.le, ← List.range_eq_range', ← List.range_eq_range',
      show chain.length.size - m = chain.length.size - (m + 1) + 1 by omega,
      List.range'_succ] at happend
    exact happend.symm
  -- The blocks after the fork are not on the other chain, the first one before it is.
  have hafter : ∀ id ∈ (List.range' (m + 1) (chain.length.size - (m + 1))).map
      (fun k => chain.getD (Halving.seq chain.length k - 1) 0), id ≠ 0 ∧ id ∉ chain' := by
    intro id hid
    obtain ⟨k, hk, rfl⟩ := List.mem_map.1 hid
    rw [List.mem_range'_1] at hk
    have hgt : f < Halving.seq chain.length k := not_le.1 fun hle => by
      have := (hm k).1 hle
      omega
    have hin : Halving.seq chain.length k ≤ chain.length := Halving.seq_le_iff.2 (by omega)
    rw [List.getD_eq_getElem _ _ (by omega)]
    refine ⟨h.ne_zero (List.getElem_mem _), hagree.differ _ ?_⟩
    refine List.mem_of_getElem? (i := Halving.seq chain.length k - 1 - f) ?_
    rw [List.getElem?_drop, Nat.add_sub_of_le (by omega), List.getElem?_eq_getElem]
  have hget : chain'[Halving.seq chain.length m - 1]? =
      some (chain.getD (Halving.seq chain.length m - 1) 0) := by
    have hlen := hagree.le
    rw [List.getD_eq_getElem _ _ (by omega), ← List.getElem?_eq_getElem,
      ← List.getElem?_take_of_lt (by omega : _ < f), ← hagree.same,
      List.getElem?_take_of_lt (by omega)]
  have hmem := List.mem_of_getElem? hget
  rw [lastSeenBlockNum, summary, hsplit, List.map_append, List.map_cons, List.reverse_append,
    List.reverse_cons, List.append_assoc, List.findSome?_append,
    List.findSome?_eq_none_iff.2 fun id hid => ?_, Option.none_or, List.singleton_append,
    List.findSome?_cons, h'.includedBlockNum_eq (h'.ne_zero hmem), if_pos hmem]
  · have hlt' := (List.getElem?_eq_some_iff.1 hget).1
    have hidx : chain'.idxOf (chain.getD (Halving.seq chain.length m - 1) 0) =
        Halving.seq chain.length m - 1 := by
      rw [← (List.getElem?_eq_some_iff.1 hget).2, h'.nodup.idxOf_getElem]
    rw [hidx, Option.getD_some]
    omega
  · obtain ⟨hne, hnot⟩ := hafter id (List.mem_reverse.1 hid)
    rw [h'.includedBlockNum_eq hne, if_neg hnot]

/-- The blocks from a number on. -/
theorem mapM_lookup (h : SyncChain N db chain) {s n : Nat} (hs : 1 ≤ s)
    (hn : s + n ≤ chain.length + 1) :
    ((List.range n).mapM fun i => db.blockNumToId.lookup (s + i)) =
      some ((chain.drop (s - 1)).take n) := by
  have hlookup : ∀ i ∈ List.range n, db.blockNumToId.lookup (s + i) =
      some (chain.getD (s - 1 + i) 0) := by
    intro i hi
    rw [List.mem_range] at hi
    rw [List.getD_eq_getElem _ _ (by omega), show s + i = s - 1 + i + 1 by omega]
    exact h.index _ _ (List.getElem?_eq_getElem _)
  have htake : (chain.drop (s - 1)).take n = (List.range n).map fun i => chain.getD (s - 1 + i) 0 := by
    refine List.ext_getElem (by simp; omega) fun i hi hi' => ?_
    simp only [List.getElem_take, List.getElem_drop, List.getElem_map, List.getElem_range]
    rw [List.getD_eq_getElem]
  rw [htake]
  exact mapM_eq_map hlookup

end SyncChain

/-! ## The exchange -/

/-- The second node takes the synopsis of the first and answers with consecutive blocks of its own
chain, as many as it may, from a block on that both have. -/
def Exchanges (N : Node) (db db' : ChainDatabase) (chain chain' : List BlockIdType)
    (f limit fuel : Nat) : Prop :=
  ∃ synopsis, getBlockchainSynopsis N db fuel 0 0 = .ok synopsis ∧
    synopsis.length ≤ blockchainSynopsisSizeLimit ∧
    ∃ s ids remaining, 1 ≤ s ∧ s ≤ f ∧ f - s ≤ chain.length - f ∧
      getItemIds db' synopsis limit = .ok (ids, remaining) ∧
      ids = (chain'.drop (s - 1)).take ids.length ∧
      ids.length = min limit (chain'.length - s + 1) ∧
      remaining = chain'.length - s + 1 - ids.length

/-- The answer to a synopsis that is not too long. -/
theorem getItemIds_ok (h : SyncChain N db chain) (h' : SyncChain N' db' chain')
    (hagree : AgreeUpTo f chain chain') (hm : ∀ k, Halving.seq chain.length k ≤ f ↔ k < m + 1)
    (hsize : chain.length.size ≤ blockchainSynopsisSizeLimit) (limit : Nat) :
    getItemIds db' (summary chain chain.length chain.length.size) limit =
      .ok ((chain'.drop (Halving.seq chain.length m - 1)).take
        (min limit (chain'.length - Halving.seq chain.length m + 1)),
        chain'.length - Halving.seq chain.length m + 1 -
          min limit (chain'.length - Halving.seq chain.length m + 1)) := by
  have hle := (hm m).2 (Nat.lt_succ_self m)
  have hpos := Nat.zero_lt_of_lt (Halving.lt_seq chain.length m)
  have hlen := hagree.le'
  have hmin : min (Halving.seq chain.length m) chain'.length = Halving.seq chain.length m :=
    min_eq_left (hle.trans hlen)
  rw [getItemIds, if_neg (by rw [length_summary]; omega)]
  dsimp only
  rw [h'.head, if_neg (by omega), h.lastSeenBlockNum_summary h' hagree hm, hmin,
    h'.mapM_lookup hpos (by omega)]

theorem length_lt_of_exchanges (h : SyncChain N db chain) (hpos : 1 ≤ chain.length)
    (hlen : chain.length ≤ 20 * blocksPerYear) {limit fuel : Nat} (hfuel : 32 < fuel)
    (hexchanges : Exchanges N db db' chain chain' f limit fuel) : chain.length < 2 ^ 25 := by
  obtain ⟨synopsis, hrun, hsize, -⟩ := hexchanges
  have hyears : 20 * blocksPerYear + 1 < 2 ^ 32 := by decide
  rw [h.synopsis_head hpos (by omega) hfuel] at hrun
  cases hrun
  rw [length_summary] at hsize
  exact Nat.size_le.1 hsize

/-- Two nodes start to synchronise if the first of the chains is within the size that the bound on
synopses, a logarithm rounded down, is made for. -/
theorem sync_exchange (N N' : Node) (db db' : ChainDatabase) (chain chain' : List BlockIdType)
    (f limit fuel : Nat) (h : SyncChain N db chain) (h' : SyncChain N' db' chain')
    (hagree : AgreeUpTo f chain chain') (hf : 1 ≤ f) (hlen : chain.length ≤ 20 * blocksPerYear)
    (hfuel : 32 < fuel) :
    Exchanges N db db' chain chain' f limit fuel ↔ chain.length < 2 ^ 25 := by
  have hle := hagree.le
  have hle' := hagree.le'
  constructor
  · exact length_lt_of_exchanges h (hf.trans hle) hlen hfuel
  · intro hlt
    have hsynopsis := h.synopsis_head (hf.trans hle) (by omega) hfuel
    have hsize : chain.length.size ≤ blockchainSynopsisSizeLimit := Nat.size_le.2 hlt
    obtain ⟨count, hcount⟩ := Halving.exists_count chain.length f
    obtain ⟨m, rfl⟩ : ∃ m, count = m + 1 :=
      ⟨count - 1, by have hfirst := (hcount 0).1 hf; omega⟩
    have hlast := (hcount m).2 (Nat.lt_succ_self m)
    have hnext : f < Halving.seq chain.length (m + 1) :=
      not_le.1 fun hle => absurd ((hcount (m + 1)).1 hle) (lt_irrefl _)
    have hpos := Nat.zero_lt_of_lt (Halving.lt_seq chain.length m)
    have htake : ((chain'.drop (Halving.seq chain.length m - 1)).take
        (min limit (chain'.length - Halving.seq chain.length m + 1))).length =
        min limit (chain'.length - Halving.seq chain.length m + 1) := by
      rw [List.length_take, List.length_drop]
      omega
    refine ⟨_, hsynopsis, by rwa [length_summary], Halving.seq chain.length m, _, _, hpos, hlast,
      Halving.gap hlast hnext hle, getItemIds_ok h h' hagree hcount hsize limit, ?_, htake, ?_⟩
    · rw [htake]
    · rw [htake]

/-! ## Chains of any length -/

/-- A block after the head, with an id of its own. -/
theorem SyncChain.extend {b : FullBlock} (h : SyncChain N db chain)
    (hprevious : b.previous = db.headBlockId) (hnum : b.blockNum = chain.length + 1)
    (hne : N.B.id b.toSignedBlockHeader ≠ 0)
    (hfresh : N.B.id b.toSignedBlockHeader ∉ db.blockIdToFullBlock) :
    SyncChain N { db with
      headBlockId := N.B.id b.toSignedBlockHeader
      headBlockHeader := b.toSignedBlockHeader
      blockIdToFullBlock := db.blockIdToFullBlock.insert (N.B.id b.toSignedBlockHeader) b
      blockNumToId := db.blockNumToId.insert b.blockNum (N.B.id b.toSignedBlockHeader)
      forkDb := db.forkDb.insert (N.B.id b.toSignedBlockHeader) ⟨[], true, some true, true, true⟩ }
      (chain ++ [N.B.id b.toSignedBlockHeader]) := by
  have hold : ∀ id b', db.blockIdToFullBlock.lookup id = some b' →
      (db.blockIdToFullBlock.insert (N.B.id b.toSignedBlockHeader) b).lookup id = some b' := by
    intro id b' hb'
    have hid : id ≠ N.B.id b.toSignedBlockHeader := by
      rintro rfl
      exact hfresh (Finmap.mem_of_lookup_eq_some hb')
    rwa [Finmap.lookup_insert_of_ne _ hid]
  have hget : ∀ {k id}, (chain ++ [N.B.id b.toSignedBlockHeader])[k]? = some id →
      chain[k]? = some id ∨ k = chain.length ∧ id = N.B.id b.toSignedBlockHeader := by
    intro k id hk
    rcases lt_trichotomy k chain.length with hlt | rfl | hgt
    · exact .inl (by rwa [List.getElem?_append_left hlt] at hk)
    · exact .inr ⟨rfl, by simpa using hk.symm⟩
    · rw [List.getElem?_eq_none (by simp; omega)] at hk
      cases hk
  refine ⟨?_, fun id => ?_, fun k id hk => ?_, fun k id hk => ?_, by simp [hnum]⟩
  · rw [List.reverse_concat]
    exact .block (Finmap.lookup_insert _) hne (hprevious ▸ h.rooted.mono hold)
  · by_cases hid : id = N.B.id b.toSignedBlockHeader
    · subst hid
      simp [ChainDatabase.Included, Finmap.lookup_insert]
    · have hiff := h.included id
      unfold ChainDatabase.Included at hiff ⊢
      simp only [Finmap.lookup_insert_of_ne _ hid, List.mem_append, List.mem_singleton, hid, or_false]
      exact hiff
  · rcases hget hk with hk | ⟨rfl, rfl⟩
    · obtain ⟨b', hb', hrest⟩ := h.block k id hk
      exact ⟨b', hold id b' hb', hrest⟩
    · exact ⟨b, Finmap.lookup_insert _, hnum, rfl⟩
  · rcases hget hk with hk | ⟨rfl, rfl⟩
    · have hlt := (List.getElem?_eq_some_iff.1 hk).1
      rw [Finmap.lookup_insert_of_ne _ (by omega)]
      exact h.index k id hk
    · rw [← hnum, Finmap.lookup_insert]

/-- A chain can grow by a block with an id greater than all before it. -/
theorem exists_longer_chain {db : ChainDatabase} {chain : List BlockIdType}
    (h : SyncChain .plain db chain) (hmax : ∀ id ∈ db.blockIdToFullBlock, id ≤ db.headBlockId) :
    ∃ (db' : ChainDatabase) (id : BlockIdType), SyncChain .plain db' (chain ++ [id]) ∧
      ∀ id ∈ db'.blockIdToFullBlock, id ≤ db'.headBlockId := by
  have hgrows : ∀ i : Nat, i < (i + 1) * 1000 + 0 := fun i => by omega
  have hlt := hgrows db.headBlockId
  refine ⟨_, _, h.extend (b := .plain (chain.length + 1) db.headBlockId 0 []) rfl rfl
    (Nat.ne_of_gt (Nat.zero_lt_of_lt hlt)) (fun hmem => absurd (hmax _ hmem) (not_le.2 hlt)), ?_⟩
  intro id hid
  rcases Finmap.mem_insert.1 hid with rfl | hid
  · exact le_rfl
  · exact (hmax id hid).trans hlt.le

/-- Chains may have any length. -/
theorem exists_long_chain (n : Nat) : ∃ (db : ChainDatabase) (chain : List BlockIdType),
    SyncChain .plain db chain ∧ chain.length = n ∧
      ∀ id ∈ db.blockIdToFullBlock, id ≤ db.headBlockId := by
  induction n with
  | zero =>
    have hgenesis : returns (initializeGenesis Node.plain.P .plain false)
        (fun db => db.blockIdToFullBlock.keys == ∅) = true := by
      decide +kernel
    obtain ⟨db₀, h₀, hempty⟩ := exists_of_returns hgenesis
    refine ⟨db₀, [], syncChain_of_chainInv (N := .plain) (initializeGenesis_chainInv h₀), rfl,
      fun id hid => ?_⟩
    rw [beq_iff_eq] at hempty
    rw [← Finmap.mem_keys, hempty] at hid
    cases hid
  | succ n ih =>
    obtain ⟨db, chain, hsync, hlen, hmax⟩ := ih
    obtain ⟨db', id, hsync', hmax'⟩ := exists_longer_chain hsync hmax
    exact ⟨db', _, hsync', by rw [List.length_append, hlen]; rfl, hmax'⟩

/-- A node with three blocks asks one that has five, two at a time. -/
theorem sync_exchange_three_blocks : ∃ (db db' : ChainDatabase) (chain chain' : List BlockIdType),
    SyncChain .plain db chain ∧ SyncChain .plain db' chain' ∧ chain.length = 3 ∧ chain'.length = 5 ∧
      AgreeUpTo 3 chain chain' ∧ Exchanges .plain db db' chain chain' 3 2 33 := by
  obtain ⟨db, chain, hsync, hlen, hmax⟩ := exists_long_chain 3
  obtain ⟨db₄, id₄, hsync₄, hmax₄⟩ := exists_longer_chain hsync hmax
  obtain ⟨db₅, id₅, hsync₅, -⟩ := exists_longer_chain hsync₄ hmax₄
  have hlen' : (chain ++ [id₄] ++ [id₅]).length = 5 := by simp [hlen]
  have hagree : AgreeUpTo 3 chain (chain ++ [id₄] ++ [id₅]) :=
    ⟨hlen.ge, by omega, by simp [← hlen], by simp [← hlen]⟩
  refine ⟨db, db₅, chain, _, hsync, hsync₅, hlen, hlen', hagree, ?_⟩
  refine (sync_exchange .plain .plain db db₅ chain _ 3 2 33 hsync hsync₅ hagree (by decide) ?_
    (by decide)).2 ?_
  · rw [hlen]
    decide
  · rw [hlen]
    decide

/-- A synopsis of 33554432 blocks has 26 ids, one more than are taken. -/
theorem long_synopsis_refused : ∃ (db : ChainDatabase) (chain : List BlockIdType),
    SyncChain .plain db chain ∧ chain.length = 2 ^ 25 ∧ chain.length ≤ 20 * blocksPerYear ∧
      AgreeUpTo chain.length chain chain ∧
      ∀ fuel, 32 < fuel → ¬ Exchanges .plain db db chain chain chain.length 1 fuel := by
  obtain ⟨db, chain, hsync, hlen, -⟩ := exists_long_chain (2 ^ 25)
  have hyears : chain.length ≤ 20 * blocksPerYear := by
    rw [hlen]
    decide
  refine ⟨db, chain, hsync, hlen, hyears, ⟨le_rfl, le_rfl, rfl, by simp⟩, fun fuel hfuel hex => ?_⟩
  have hlt := length_lt_of_exchanges hsync (by rw [hlen]; decide) hyears hfuel hex
  omega

end Achain.Net
