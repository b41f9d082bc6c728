import Achain.Net.Synopsis
import Achain.Lib.Halving
import Achain.Proofs.MainChain
import Mathlib.Data.List.GetD

/-!
# Synopses and their answers

A synopsis has the blocks at the positions that halve the rest of the chain. It is put together from
two parts, which meet at the last block a peer has told us about, and the answer to it starts no
further back from where two chains part than the first of them goes on.
-/

namespace Achain.Net

open Table Result Stateful

variable {N : Node} {db : ChainDatabase} {chain c : List BlockIdType} {n m r : Nat}

/-! ## The loop -/

theorem toNat_nextLow {trueHigh low : UInt32} (hpos : 0 < low.toNat)
    (hlow : low.toNat ≤ trueHigh.toNat) (hhigh : trueHigh.toNat + 1 < 2 ^ 32) :
    (nextLow trueHigh low).toNat = Halving.next trueHigh.toNat low.toNat := by
  have hsub : (trueHigh - low).toNat = trueHigh.toNat - low.toNat :=
    UInt32.toNat_sub_of_le _ _ (UInt32.le_iff_toNat_le.2 hlow)
  unfold nextLow Halving.next
  simp only [UInt32.toNat_add, UInt32.toNat_div, hsub, UInt32.reduceToNat]
  omega

/-- The loop goes through the positions up to its bound. -/
theorem synopsisLoop_ok {pick : UInt32 → Except SynopsisError (List BlockIdType)}
    {trueHigh high : UInt32} {f : Nat → List BlockIdType} (hhigh : high.toNat ≤ trueHigh.toNat)
    (hmax : trueHigh.toNat + 1 < 2 ^ 32)
    (hm : ∀ k, Halving.seq trueHigh.toNat k ≤ high.toNat ↔ k < m)
    (hpick : ∀ low : UInt32, 0 < low.toNat → low.toNat ≤ high.toNat → pick low = .ok (f low.toNat)) :
    ∀ {fuel k : Nat} {low : UInt32}, low.toNat = Halving.seq trueHigh.toNat k → k < m →
      m - k ≤ fuel → synopsisLoop pick trueHigh high fuel low =
        .ok ((List.range' k (m - k)).flatMap fun j => f (Halving.seq trueHigh.toNat j))
  | 0, k, _, _, hk, hfuel => absurd hfuel (by omega)
  | fuel + 1, k, low, hlow, hk, hfuel => by
    have hle : low.toNat ≤ high.toNat := hlow ▸ (hm k).2 hk
    have hpos : 0 < low.toNat := hlow ▸ (Nat.zero_lt_of_lt (Halving.lt_seq _ k))
    have hnext : (nextLow trueHigh low).toNat = Halving.seq trueHigh.toNat (k + 1) := by
      rw [toNat_nextLow hpos (hle.trans hhigh) hmax, hlow, Halving.seq]
    have hrange : List.range' k (m - k) = k :: List.range' (k + 1) (m - (k + 1)) := by
      rw [show m - k = m - (k + 1) + 1 by omega, List.range'_succ]
    rw [synopsisLoop, hpick low hpos hle, hrange, List.flatMap_cons, hlow]
    by_cases hlast : k + 1 < m
    · have hcontinue : nextLow trueHigh low ≤ high := by
        rw [UInt32.le_iff_toNat_le, hnext]
        exact (hm (k + 1)).2 hlast
      show (if nextLow trueHigh low ≤ high then _ else _) = _
      rw [if_pos hcontinue,
        synopsisLoop_ok hhigh hmax hm hpick hnext hlast (Nat.sub_le_iff_le_add.2 (by omega))]
      rfl
    · have hstop : ¬ nextLow trueHigh low ≤ high := by
        rw [UInt32.le_iff_toNat_le, hnext]
        exact fun h => hlast ((hm (k + 1)).1 h)
      show (if nextLow trueHigh low ≤ high then _ else _) = _
      rw [if_neg hstop, show m - (k + 1) = 0 by omega, List.range'_zero, List.flatMap_nil,
        List.append_nil]
      rfl

theorem count_le (hn : n < 2 ^ 32) {high : Nat} (hhigh : high ≤ n)
    (hm : ∀ k, Halving.seq n k ≤ high ↔ k < m) : m ≤ 32 := by
  by_contra h
  have hseq := ((hm 32).2 (by omega)).trans hhigh
  have hsize := Nat.size_le.2 hn
  have hlt := Halving.seq_le_iff.1 hseq
  omega

/-- The blocks of a list at the first positions. -/
def summary (l : List BlockIdType) (n m : Nat) : List BlockIdType :=
  (List.range m).map fun k => l.getD (Halving.seq n k - 1) 0

theorem length_summary : (summary c n m).length = m := by simp [summary]

theorem getElem?_summary {l : List BlockIdType} {k : Nat} (hk : k < m)
    (hle : Halving.seq n k ≤ l.length) :
    (summary l n m)[k]? = l[Halving.seq n k - 1]? := by
  have hpos := Nat.zero_lt_of_lt (Halving.lt_seq n k)
  have hlt : Halving.seq n k - 1 < l.length := by omega
  simp [summary, hk, List.getD_eq_getElem?_getD, List.getElem?_eq_getElem hlt]

/-- The synopsis of a chain, from the main chain and the blocks after a fork. -/
theorem synopsisLoop_summary {pick : UInt32 → Except SynopsisError (List BlockIdType)}
    {trueHigh high : UInt32} (hhigh : high.toNat ≤ trueHigh.toNat) (hpos : 0 < high.toNat)
    (hmax : trueHigh.toNat + 1 < 2 ^ 32)
    (hm : ∀ k, Halving.seq trueHigh.toNat k ≤ high.toNat ↔ k < m)
    (hpick : ∀ low : UInt32, 0 < low.toNat → low.toNat ≤ high.toNat →
      pick low = .ok [c.getD (low.toNat - 1) 0]) {fuel : Nat} (hfuel : 32 < fuel) :
    synopsisLoop pick trueHigh high fuel 1 = .ok (summary c trueHigh.toNat m) := by
  have hm0 : 0 < m := (hm 0).1 hpos
  have hcount := count_le (by omega) hhigh hm
  rw [synopsisLoop_ok (f := fun s => [c.getD (s - 1) 0]) (k := 0) hhigh hmax hm hpick rfl hm0
    (by omega), summary, List.map_eq_flatMap, List.range_eq_range', Nat.sub_zero]

/-! ## The chain of a node -/

/-- The main chain of a node: the path from its head, which is what is included and what is indexed by
number. -/
structure SyncChain (N : Node) (db : ChainDatabase) (chain : List BlockIdType) : Prop where
  rooted : Rooted db.blockIdToFullBlock db.headBlockId chain.reverse
  included : ∀ id, db.Included id ↔ id = 0 ∨ id ∈ chain
  block : ∀ k id, chain[k]? = some id → ∃ b, db.blockIdToFullBlock.lookup id = some b ∧
    b.blockNum = k + 1 ∧ N.B.id b.toSignedBlockHeader = id
  index : ∀ k id, chain[k]? = some id → db.blockNumToId.lookup (k + 1) = some id
  head : db.headBlockHeader.blockNum = chain.length

/-- After recent pushes, a node has a main chain. -/
theorem syncChain_of_chainInv {path : List BlockIdType} (h : ChainInv N db path) :
    SyncChain N db path.reverse where
  rooted := by simpa using h.rooted
  included id := by simpa using h.included id
  block k id hk := by
    obtain ⟨b, hb, hnum⟩ := h.mainChain.number k id hk
    exact ⟨b, hb, hnum, (h.tree.blockId id b hb).1⟩
  index k id hk := (h.mainChain.index (k + 1) id).2 ⟨k, rfl, hk⟩
  head := by simpa using h.headPath.header.1

namespace SyncChain

variable {id : BlockIdType}

theorem isIncludedBlock_iff (h : SyncChain N db chain) (hid : id ≠ 0) :
    isIncludedBlock db id = true ↔ id ∈ chain := by
  have hiff := h.included id
  unfold ChainDatabase.Included at hiff
  rw [isIncludedBlock, Option.any_eq_true, hiff]
  simp [hid]

theorem ne_zero (h : SyncChain N db chain) (hid : id ∈ chain) : id ≠ 0 :=
  (h.rooted.mem_blocks id (List.mem_reverse.2 hid)).1

theorem getBlockNum_eq (h : SyncChain N db chain) {k : Nat} (hk : chain[k]? = some id) :
    getBlockNum db id = .ok (k + 1) := by
  obtain ⟨b, hb, hnum, -⟩ := h.block k id hk
  rw [getBlockNum, if_neg (h.ne_zero (List.mem_of_getElem? hk)), hb]
  exact congrArg Except.ok hnum

theorem getBlockIdOfNum_eq (h : SyncChain N db chain) {k : Nat} (hk : chain[k]? = some id) :
    getBlockIdOfNum N db (k + 1) = .ok id := by
  obtain ⟨b, hb, -, hid⟩ := h.block k id hk
  simp only [getBlockIdOfNum, h.index k id hk, hb]
  exact congrArg Except.ok hid

/-- The path of a block on the main chain is the main chain up to it. -/
theorem path_eq (h : SyncChain N db chain) (hc : Rooted db.blockIdToFullBlock id c.reverse)
    (hid : id ∈ chain) : ∃ k, c = chain.take (k + 1) ∧ chain[k]? = some id := by
  obtain ⟨l, q, hsplit, hroot⟩ := h.rooted.of_mem (List.mem_reverse.2 hid)
  have hq : c = q.reverse ++ [id] := by
    have hrev := hc.unique hroot
    rw [← List.reverse_reverse c, hrev, List.reverse_cons]
  have hchain : chain = q.reverse ++ id :: l.reverse := by
    rw [← List.reverse_reverse chain, hsplit]
    simp
  refine ⟨q.length, ?_, ?_⟩
  · rw [hq, hchain, List.take_append]
    simp
  · rw [hchain]
    simp

/-- The history of a block on a linked fork: the blocks of the fork, and the last one before it. -/
theorem forkHistory_fork (h : SyncChain N db chain) : ∀ {q : List BlockIdType} {id : BlockIdType}
    {fuel : Nat}, Rooted db.blockIdToFullBlock id q → (∀ x ∈ q, db.Linked x) → id ≠ 0 →
      id ∉ chain → q.length ≤ fuel → ∃ base fork, q.reverse = base ++ fork ∧ fork ≠ [] ∧
        base <+: chain ∧ forkHistory fuel id db = .ok (fork.reverse ++ [base.getLastD 0]) db
  | [], _, _, hq, _, hne, _, _ => absurd hq.eq_nil hne
  | x :: q, id, fuel, hq, hlinked, hne, hnot, hfuel => by
    obtain ⟨rfl, -, b, hb, hrest⟩ := hq.cons_inv
    obtain ⟨fuel, rfl⟩ : ∃ fuel', fuel = fuel' + 1 := ⟨fuel - 1, by simp at hfuel; omega⟩
    by_cases hroot : b.previous = 0
    · -- The fork leaves the chain at the genesis block.
      obtain rfl : q = [] := Rooted.genesis.unique (hroot ▸ hrest) |>.symm
      exact ⟨[], [x], rfl, by simp, List.nil_prefix, forkHistory_root hb hroot fuel⟩
    · obtain ⟨b', q', rfl, -⟩ := hrest.ne_zero_inv hroot
      obtain ⟨d, hd, hdlinked⟩ := hlinked b.previous (by simp)
      rw [forkHistory_succ, bind_of_ok (fetchBlock_ok hb), if_neg hroot, bind_of_ok (fetchFork_ok hd),
        hdlinked]
      cases hincluded : d.isIncluded with
      | true =>
        have hmem : b.previous ∈ chain :=
          ((h.included b.previous).1 ⟨d, hd, hincluded⟩).resolve_left hroot
        obtain ⟨k, hk, -⟩ := h.path_eq (c := (b.previous :: q').reverse) (by simpa using hrest) hmem
        refine ⟨(b.previous :: q').reverse, [x], by simp, by simp, ?_, ?_⟩
        · rw [hk]
          exact List.take_prefix _ _
        · simp [pure, EStateM.pure]
      | false =>
        have hnot' : b.previous ∉ chain := by
          intro hmem
          obtain ⟨d', hd', hin⟩ := (h.included b.previous).2 (.inr hmem)
          rw [hd, Option.some_inj] at hd'
          rw [← hd', hincluded] at hin
          cases hin
        obtain ⟨base, fork, hsplit, hforkne, hbase, hrun⟩ := forkHistory_fork h hrest
          (fun y hy => hlinked y (List.mem_cons_of_mem _ hy)) hroot hnot'
          (by simpa using hfuel : (b.previous :: q').length ≤ fuel)
        refine ⟨base, fork ++ [x], ?_, by simp, hbase, ?_⟩
        · rw [List.reverse_cons, hsplit, List.append_assoc]
        · simp only [Bool.not_true, Bool.false_eq_true, if_false]
          rw [bind_of_ok hrun]
          simp [pure, EStateM.pure]

/-- The path of a linked block has no more blocks than the tree. -/
theorem length_le_forkDepth {id : BlockIdType} {q : List BlockIdType}
    (hq : Rooted db.blockIdToFullBlock id q) (hlinked : ∀ x ∈ q, db.Linked x) :
    q.length ≤ db.forkDepth := by
  rw [← List.toFinset_card_of_nodup hq.nodup, ChainDatabase.forkDepth]
  refine Finset.card_le_card fun x hx => ?_
  obtain ⟨d, hd, -⟩ := hlinked x (List.mem_toFinset.1 hx)
  exact Finmap.mem_keys.2 (Finmap.mem_of_lookup_eq_some hd)

/-- The blocks of a synopsis up to a number, from the main chain and from a fork. -/
theorem synopsisPick_ok (h : SyncChain N db chain) {base fork : List BlockIdType} {high : UInt32}
    (hbase : base <+: chain) (hhigh : high.toNat = base.length) {low : UInt32}
    (hpos : 0 < low.toNat) (hlow : low.toNat ≤ (base ++ fork).length) :
    synopsisPick N db high fork low = .ok [(base ++ fork).getD (low.toNat - 1) 0] := by
  unfold synopsisPick
  rw [List.length_append] at hlow
  by_cases hle : low ≤ high
  · rw [if_pos hle]
    rw [UInt32.le_iff_toNat_le, hhigh] at hle
    have hlt : low.toNat - 1 < base.length := by omega
    have hget : chain[low.toNat - 1]? = some base[low.toNat - 1] :=
      List.prefix_iff_getElem?.1 hbase _ hlt
    rw [show low.toNat = low.toNat - 1 + 1 by omega, h.getBlockIdOfNum_eq hget, Nat.add_sub_cancel,
      List.getD_append _ _ _ _ hlt, List.getD_eq_getElem _ _ hlt]
  · rw [if_neg hle]
    have hlt : high ≤ low := UInt32.le_iff_toNat_le.2 (by
      rw [UInt32.le_iff_toNat_le] at hle
      omega)
    rw [UInt32.le_iff_toNat_le, hhigh] at hle
    have hsub : (low - high).toNat = low.toNat - base.length := by
      rw [UInt32.toNat_sub_of_le _ _ hlt, hhigh]
    have hindex : (low - high - 1).toNat = low.toNat - 1 - base.length := by
      have hone : (1 : UInt32) ≤ low - high := UInt32.le_iff_toNat_le.2 (by
        rw [hsub]
        show 1 ≤ _
        omega)
      rw [UInt32.toNat_sub_of_le _ _ hone, hsub]
      show low.toNat - base.length - 1 = _
      omega
    have hin : low.toNat - 1 - base.length < fork.length := by omega
    rw [pickIndex, hindex, List.getElem?_eq_getElem hin,
      List.getD_append_right _ _ _ _ (by omega), List.getD_eq_getElem _ _ hin]

/-- The range of a synopsis up to a block on the main chain or on a linked fork. -/
theorem synopsisRange_ok (h : SyncChain N db chain) (hid : id ≠ 0)
    (hc : Rooted db.blockIdToFullBlock id c.reverse) (hlinked : ∀ x ∈ c, db.Linked x)
    (hlen : c.length < 2 ^ 32) : ∃ (high nonForkHigh : UInt32) (base fork : List BlockIdType),
      synopsisRange db id = .ok (some (high, nonForkHigh, fork)) ∧ high.toNat = c.length ∧
        nonForkHigh.toNat = base.length ∧ c = base ++ fork ∧ base <+: chain := by
  by_cases hmem : id ∈ chain
  · obtain ⟨k, rfl, hk⟩ := h.path_eq hc hmem
    have hlt : k < chain.length := (List.getElem?_eq_some_iff.1 hk).1
    have htake : (chain.take (k + 1)).length = k + 1 := by
      rw [List.length_take]
      omega
    rw [htake] at hlen ⊢
    have hnum : (UInt32.ofNat (k + 1)).toNat = k + 1 := UInt32.toNat_ofNat_of_lt hlen
    refine ⟨.ofNat (k + 1), .ofNat (k + 1), chain.take (k + 1), [], ?_, hnum, by rw [hnum, htake],
      (List.append_nil _).symm, List.take_prefix _ _⟩
    rw [synopsisRange, if_pos hid, if_pos ((h.isIncludedBlock_iff hid).2 hmem), h.getBlockNum_eq hk]
    rfl
  · have hlinked' : ∀ x ∈ c.reverse, db.Linked x := fun x hx => hlinked x (List.mem_reverse.1 hx)
    obtain ⟨base, fork, hsplit, hne, hbase, hrun⟩ := h.forkHistory_fork hc hlinked' hid hmem
      ((length_le_forkDepth hc hlinked').trans (Nat.le_succ _))
    rw [List.reverse_reverse] at hsplit
    subst hsplit
    rw [List.length_append] at hlen ⊢
    have hhistory : getForkHistory db id = .ok (fork.reverse ++ [base.getLastD 0]) := by
      rw [getForkHistory, hrun]
    have hlast : getBlockNum db (base.getLastD 0) = .ok base.length := by
      rcases List.eq_nil_or_concat base with rfl | ⟨base, x, rfl⟩
      · rfl
      · have hx : chain[base.length]? = some x := by
          have hget := List.prefix_iff_getElem?.1 hbase base.length (by simp)
          simpa using hget
        rw [List.concat_eq_append, List.getLastD_concat, h.getBlockNum_eq hx]
        simp
    have hnon : (UInt32.ofNat base.length).toNat = base.length :=
      UInt32.toNat_ofNat_of_lt (lt_of_le_of_lt (Nat.le_add_right _ _) hlen)
    refine ⟨.ofNat base.length + .ofNat fork.length, .ofNat base.length, base, fork, ?_, ?_, hnon, rfl,
      hbase⟩
    · have hnot : ¬ isIncludedBlock db id = true := fun hin => hmem ((h.isIncludedBlock_iff hid).1 hin)
      rw [synopsisRange, if_pos hid, if_neg hnot, hhistory]
      show Except.ok _ = _
      simp only [List.getLastD_concat, hlast, List.dropLast_concat, List.reverse_reverse]
    · have hfork : (UInt32.ofNat fork.length).toNat = fork.length :=
        UInt32.toNat_ofNat_of_lt (lt_of_le_of_lt (Nat.le_add_left _ _) hlen)
      rw [UInt32.toNat_add, hnon, hfork, Nat.mod_eq_of_lt hlen]

/-- The client's part of a synopsis. -/
theorem getBlockchainSynopsis_ok (h : SyncChain N db chain) (hid : id ≠ 0)
    (hc : Rooted db.blockIdToFullBlock id c.reverse) (hlinked : ∀ x ∈ c, db.Linked x)
    {after : UInt32} (hmax : c.length + after.toNat + 1 < 2 ^ 32)
    (hm : ∀ k, Halving.seq (c.length + after.toNat) k ≤ c.length ↔ k < m) {fuel : Nat}
    (hfuel : 32 < fuel) :
    getBlockchainSynopsis N db fuel id after = .ok (summary c (c.length + after.toNat) m) := by
  obtain ⟨high, nonForkHigh, base, fork, hrange, hhigh, hnon, rfl, hbase⟩ :=
    h.synopsisRange_ok hid hc hlinked (by omega)
  have hpos : 0 < (base ++ fork).length := by
    rw [List.length_pos_iff]
    intro hnil
    rw [hnil] at hc
    exact hid hc.eq_nil
  have htrue : (high + after).toNat = (base ++ fork).length + after.toNat := by
    rw [UInt32.toNat_add, hhigh, Nat.mod_eq_of_lt (by omega)]
  rw [getBlockchainSynopsis, hrange]
  dsimp only
  rw [← htrue]
  refine synopsisLoop_summary (by omega) (by omega) (by omega) ?_ ?_ hfuel
  · rw [htrue, hhigh]
    exact hm
  · rw [hhigh]
    exact fun low hlow hle => h.synopsisPick_ok hbase hnon hlow hle

end SyncChain

/-! ## The two parts of a synopsis -/

/-- The blocks after the last one a peer has told us about. -/
theorem pickToGet_ok {items : List BlockIdType} {num low : UInt32}
    (hlow : low.toNat ≤ num.toNat + items.length) :
    pickToGet items num low = .ok (if num.toNat < low.toNat then
      [items.getD (low.toNat - 1 - num.toNat) 0] else []) := by
  unfold pickToGet
  by_cases hlt : num.toNat < low.toNat
  · rw [if_pos (UInt32.lt_iff_toNat_lt.2 hlt), if_pos hlt]
    have hsub : (low - num).toNat = low.toNat - num.toNat :=
      UInt32.toNat_sub_of_le _ _ (UInt32.le_iff_toNat_le.2 (by omega))
    have hindex : (low - num - 1).toNat = low.toNat - 1 - num.toNat := by
      have hone : (1 : UInt32) ≤ low - num := UInt32.le_iff_toNat_le.2 (by
        rw [hsub]
        show 1 ≤ _
        omega)
      rw [UInt32.toNat_sub_of_le _ _ hone, hsub]
      show low.toNat - num.toNat - 1 = _
      omega
    have hin : low.toNat - 1 - num.toNat < items.length := by omega
    rw [pickIndex, hindex, List.getElem?_eq_getElem hin, List.getD_eq_getElem _ _ hin]
  · rw [if_neg hlt, if_neg (fun h => hlt (UInt32.lt_iff_toNat_lt.1 h))]

/-- The two parts of a summary meet without a gap. -/
theorem summary_append {items : List BlockIdType} {k : Nat} (hkm : k ≤ m)
    (hk : ∀ j, Halving.seq n j ≤ c.length ↔ j < k) :
    summary c n k ++ (List.range m).flatMap (fun j => if c.length < Halving.seq n j then
      [items.getD (Halving.seq n j - 1 - c.length) 0] else []) = summary (c ++ items) n m := by
  have hrange : List.range m = List.range k ++ List.range' k (m - k) := by
    have happend := List.range'_append_1 (s := 0) (m := k) (n := m - k)
    rw [Nat.zero_add, Nat.add_sub_of_le hkm] at happend
    rw [List.range_eq_range', List.range_eq_range', happend]
  have hlower : (List.range k).flatMap (fun j => if c.length < Halving.seq n j then
      [items.getD (Halving.seq n j - 1 - c.length) 0] else []) = [] := by
    rw [List.flatMap_eq_nil_iff]
    intro j hj
    exact if_neg (not_lt.2 ((hk j).2 (List.mem_range.1 hj)))
  have hupper : (List.range' k (m - k)).flatMap (fun j => if c.length < Halving.seq n j then
      [items.getD (Halving.seq n j - 1 - c.length) 0] else []) =
      (List.range' k (m - k)).map fun j => (c ++ items).getD (Halving.seq n j - 1) 0 := by
    rw [List.map_eq_flatMap]
    refine List.flatMap_congr fun j hj => ?_
    have hgt : c.length < Halving.seq n j :=
      not_le.1 fun hle => absurd ((hk j).1 hle) (not_lt.2 (List.mem_range'_1.1 hj).1)
    rw [if_pos hgt, List.getD_append_right _ _ _ _ (by omega)]
  rw [hrange, List.flatMap_append, hlower, List.nil_append, hupper, summary, summary, hrange,
    List.map_append]
  congr 1
  refine List.map_congr_left fun j hj => ?_
  have hle := (hk j).2 (List.mem_range.1 hj)
  have hpos := Nat.zero_lt_of_lt (Halving.lt_seq n j)
  rw [List.getD_append _ _ _ _ (by omega)]

/-- The node's part of a synopsis. -/
theorem toGetLoop_ok {items : List BlockIdType} {num after : UInt32} (hpos : 0 < num.toNat)
    (hafter : after.toNat = items.length) (hmax : num.toNat + items.length + 1 < 2 ^ 32) {fuel : Nat}
    (hfuel : 32 < fuel) :
    synopsisLoop (pickToGet items num) (num + after) (num + after) fuel 1 =
      .ok ((List.range (num.toNat + items.length).size).flatMap fun j =>
        if num.toNat < Halving.seq (num.toNat + items.length) j then
          [items.getD (Halving.seq (num.toNat + items.length) j - 1 - num.toNat) 0] else []) := by
  have htrue : (num + after).toNat = num.toNat + items.length := by
    rw [UInt32.toNat_add, hafter, Nat.mod_eq_of_lt (by omega)]
  have hm : ∀ k, Halving.seq (num + after).toNat k ≤ (num + after).toNat ↔
      k < (num.toNat + items.length).size := by
    rw [htrue]
    exact fun k => Halving.seq_le_iff
  have hcount := count_le (by omega) le_rfl hm
  have hsize : 0 < (num.toNat + items.length).size := Nat.size_pos.2 (by omega)
  rw [synopsisLoop_ok (f := fun s => if num.toNat < s then [items.getD (s - 1 - num.toNat) 0] else [])
    (k := 0) le_rfl (by omega) hm (fun low _ hle => pickToGet_ok (hle.trans htrue.le)) rfl hsize
    (by omega), htrue, List.range_eq_range', Nat.sub_zero]

theorem createBlockchainSynopsisForPeer_ok {peer : PeerConnection} (hsync : SyncChain N db chain)
    (hc : Rooted db.blockIdToFullBlock peer.lastBlockDelegateHasSeen c.reverse)
    (hlinked : ∀ x ∈ c, db.Linked x) (hpos : 1 ≤ c.length)
    (hnum : peer.lastBlockNumberDelegateHasSeen = c.length)
    (hmax : c.length + peer.idsOfItemsToGet.length ≤ 2 ^ 32 - 2) {fuel : Nat} (hfuel : 32 < fuel) :
    createBlockchainSynopsisForPeer N db fuel peer =
      .ok (summary (c ++ peer.idsOfItemsToGet) (c.length + peer.idsOfItemsToGet.length)
        (c.length + peer.idsOfItemsToGet.length).size) := by
  have hid : peer.lastBlockDelegateHasSeen ≠ 0 := by
    intro hzero
    rw [hzero] at hc
    have hnil := congrArg List.length (hc.unique .genesis)
    rw [List.length_reverse, List.length_nil] at hnil
    omega
  have hafter : (UInt32.ofNat peer.idsOfItemsToGet.length).toNat = peer.idsOfItemsToGet.length :=
    UInt32.toNat_ofNat_of_lt (show _ < 2 ^ 32 by omega)
  have hnum' : (UInt32.ofNat peer.lastBlockNumberDelegateHasSeen).toNat = c.length := by
    rw [hnum]
    exact UInt32.toNat_ofNat_of_lt (show _ < 2 ^ 32 by omega)
  obtain ⟨m, hm⟩ := Halving.exists_count (c.length + peer.idsOfItemsToGet.length) c.length
  have hlower := hsync.getBlockchainSynopsis_ok hid hc hlinked (by rw [hafter]; omega)
    (by rw [hafter]; exact hm) hfuel
  rw [hafter] at hlower
  have hne : ¬ (peer.lastBlockDelegateHasSeen ≠ 0 ∧
      summary c (c.length + peer.idsOfItemsToGet.length) m = []) := by
    rintro ⟨-, hnil⟩
    have hlen := congrArg List.length hnil
    rw [length_summary, List.length_nil] at hlen
    have hfirst := (hm 0).1 hpos
    omega
  rw [createBlockchainSynopsisForPeer, hlower]
  simp only [bind, Except.bind, if_neg hne]
  by_cases hempty : peer.idsOfItemsToGet.length = 0
  · -- Nothing is left to get: the client's synopsis is the whole.
    have hsize : m = c.length.size := by
      refine eq_of_forall_lt_iff fun k => ?_
      rw [← hm, hempty, Nat.add_zero]
      exact Halving.seq_le_iff
    rw [hempty, List.length_eq_zero_iff.1 hempty, List.append_nil, Nat.add_zero, ← hsize]
    rfl
  · have hsome : UInt32.ofNat peer.idsOfItemsToGet.length ≠ 0 := by
      intro hzero
      rw [hzero] at hafter
      exact hempty hafter.symm
    have hupper := toGetLoop_ok
      (by omega : 0 < (UInt32.ofNat peer.lastBlockNumberDelegateHasSeen).toNat) hafter
      (by omega) hfuel
    have hle : m ≤ (c.length + peer.idsOfItemsToGet.length).size := by
      by_contra hgt
      have hseq := (hm _).2 (not_le.1 hgt)
      exact lt_irrefl _ (Halving.seq_le_iff.1 (hseq.trans (Nat.le_add_right _ _)))
    rw [if_pos hsome, hupper, hnum']
    exact congrArg Except.ok (summary_append hle hm)

/-- A synopsis for a peer has the blocks of the chain up to the last one it has told us about and of
those still to get, at the positions that halve the rest, up to the last of them. -/
theorem synopsis_for_peer (N : Node) (db : ChainDatabase) (chain c : List BlockIdType)
    (peer : PeerConnection) (fuel : Nat) (hsync : SyncChain N db chain)
    (hc : Rooted db.blockIdToFullBlock peer.lastBlockDelegateHasSeen c.reverse)
    (hlinked : ∀ x ∈ c, db.Linked x) (hpos : 1 ≤ c.length)
    (hnum : peer.lastBlockNumberDelegateHasSeen = c.length)
    (hmax : c.length + peer.idsOfItemsToGet.length ≤ 2 ^ 32 - 2) (hfuel : 32 < fuel) :
    ∃ synopsis, createBlockchainSynopsisForPeer N db fuel peer = .ok synopsis ∧
      (∀ k, Halving.seq (c ++ peer.idsOfItemsToGet).length k ≤ (c ++ peer.idsOfItemsToGet).length ↔
        k < synopsis.length) ∧
      (∀ k < synopsis.length, synopsis[k]? =
        (c ++ peer.idsOfItemsToGet)[Halving.seq (c ++ peer.idsOfItemsToGet).length k - 1]?) ∧
      StrictMono (Halving.seq (c ++ peer.idsOfItemsToGet).length) ∧
      synopsis.getLast? = (c ++ peer.idsOfItemsToGet).getLast? := by
  have hsome : 0 < (c ++ peer.idsOfItemsToGet).length := by
    rw [List.length_append]
    omega
  have hsize := Nat.size_pos.2 hsome
  rw [← List.length_append] at hmax
  have hget : ∀ k < (c ++ peer.idsOfItemsToGet).length.size,
      (summary (c ++ peer.idsOfItemsToGet) (c ++ peer.idsOfItemsToGet).length
        (c ++ peer.idsOfItemsToGet).length.size)[k]? =
      (c ++ peer.idsOfItemsToGet)[Halving.seq (c ++ peer.idsOfItemsToGet).length k - 1]? :=
    fun k hk => getElem?_summary hk (Halving.seq_le_iff.2 hk)
  refine ⟨summary (c ++ peer.idsOfItemsToGet) (c ++ peer.idsOfItemsToGet).length
    (c ++ peer.idsOfItemsToGet).length.size, ?_, fun k => ?_, fun k hk => ?_,
    Halving.seq_strictMono _, ?_⟩
  · have hrun := createBlockchainSynopsisForPeer_ok hsync hc hlinked hpos hnum
      (by rwa [← List.length_append]) hfuel
    rwa [← List.length_append] at hrun
  · rw [length_summary]
    exact Halving.seq_le_iff
  · rw [length_summary] at hk
    exact hget k hk
  · rw [List.getLast?_eq_getElem?, List.getLast?_eq_getElem?, length_summary,
      hget _ (Nat.sub_lt hsize one_pos), Halving.seq_size hsome]

/-- A node with one block. -/
theorem exists_first_block : ∃ (db : ChainDatabase) (id : BlockIdType), SyncChain .plain db [id] ∧
    Rooted db.blockIdToFullBlock id [id] ∧ db.Linked id := by
  obtain ⟨db₀, db, h₀, hpushed, hend⟩ := exists_pushed (N := .plain) (g := .plain) (K := FullBlock.Young)
    (p := fun db => db.headBlockHeader.blockNum == 1 &&
      (db.forkDb.lookup db.headBlockId).any (·.isLinked))
    100 [.plain 1 0 10 []] (List.forall_mem_singleton.2 ⟨fun _ => ⟨rfl, rfl⟩, by decide⟩)
    (by decide +kernel)
  obtain ⟨path, hinv⟩ := (hpushed.recent h₀ rfl).chainInv h₀
  rw [Bool.and_eq_true, beq_iff_eq, Option.any_eq_true] at hend
  obtain ⟨hnum, hlinked⟩ := hend
  obtain ⟨x, rfl⟩ := List.length_eq_one_iff.1 (hinv.headPath.header.1.symm.trans hnum)
  obtain ⟨hx, -⟩ := hinv.rooted.cons_inv
  refine ⟨db, db.headBlockId, ?_, ?_, hlinked⟩
  · have hsync := syncChain_of_chainInv hinv
    rwa [List.reverse_singleton, hx] at hsync
  · have hroot := hinv.rooted
    rwa [hx] at hroot

theorem synopsis_for_peer_first_block : ∃ (db : ChainDatabase) (id : BlockIdType),
    Rooted db.blockIdToFullBlock id [id] ∧ ∃ synopsis, createBlockchainSynopsisForPeer .plain db 33
      { PeerConnection.fresh 0 with
        idsOfItemsToGet := [7, 8], lastBlockDelegateHasSeen := id,
        lastBlockNumberDelegateHasSeen := 1 } = .ok synopsis ∧
      synopsis.getLast? = some 8 := by
  obtain ⟨db, id, hsync, hroot, hlinked⟩ := exists_first_block
  obtain ⟨synopsis, hrun, -, -, -, hlast⟩ := synopsis_for_peer .plain db [id] [id]
    { PeerConnection.fresh 0 with
      idsOfItemsToGet := [7, 8], lastBlockDelegateHasSeen := id, lastBlockNumberDelegateHasSeen := 1 }
    33 hsync hroot (by simpa using hlinked) le_rfl rfl (by simp) (by decide)
  exact ⟨db, id, hroot, synopsis, hrun, hlast⟩

/-- The loop does not go on from a number it comes back to. -/
theorem synopsisLoop_stays {pick : UInt32 → Except SynopsisError (List BlockIdType)}
    {trueHigh high low : UInt32} (hnext : nextLow trueHigh low = low) (hle : low ≤ high) :
    ∀ fuel ids, synopsisLoop pick trueHigh high fuel low ≠ .ok ids
  | 0, _ => nofun
  | fuel + 1, ids => by
    intro h
    rw [synopsisLoop, hnext] at h
    simp only [if_pos hle] at h
    cases hpick : pick low with
    | error e =>
      rw [hpick] at h
      cases h
    | ok first =>
      cases hrest : synopsisLoop pick trueHigh high fuel low with
      | error e =>
        rw [hpick, hrest] at h
        cases h
      | ok rest => exact synopsisLoop_stays hnext hle fuel rest hrest

/-- With as many blocks as there are numbers, half of the rest is computed as none of it. -/
theorem synopsis_for_peer_unending : ∃ (db : ChainDatabase) (id : BlockIdType) (peer : PeerConnection),
    SyncChain .plain db [id] ∧ peer.lastBlockDelegateHasSeen = id ∧
      Rooted db.blockIdToFullBlock id [id] ∧ db.Linked id ∧
      peer.lastBlockNumberDelegateHasSeen = 1 ∧ peer.idsOfItemsToGet = List.replicate (2 ^ 32 - 2) 7 ∧
      ∀ fuel synopsis, createBlockchainSynopsisForPeer .plain db fuel peer ≠ .ok synopsis := by
  obtain ⟨db, id, hsync, hroot, hlinked⟩ := exists_first_block
  refine ⟨db, id, { PeerConnection.fresh 0 with
    idsOfItemsToGet := List.replicate (2 ^ 32 - 2) 7, lastBlockDelegateHasSeen := id,
    lastBlockNumberDelegateHasSeen := 1 }, hsync, rfl, hroot, hlinked, rfl, rfl,
    fun fuel synopsis h => ?_⟩
  have hid : id ≠ 0 := hsync.ne_zero (List.mem_singleton_self id)
  have hrange : synopsisRange db id = .ok (some (1, 1, [])) := by
    rw [synopsisRange, if_pos hid, if_pos ((hsync.isIncludedBlock_iff hid).2 (by simp)),
      hsync.getBlockNum_eq (k := 0) rfl]
    rfl
  rw [createBlockchainSynopsisForPeer] at h
  simp only [List.length_replicate] at h
  cases hlower : getBlockchainSynopsis .plain db fuel id (UInt32.ofNat (2 ^ 32 - 2)) with
  | error e =>
    rw [hlower] at h
    cases h
  | ok lower =>
    rw [getBlockchainSynopsis, hrange] at hlower
    exact synopsisLoop_stays (by decide) (by decide) fuel lower hlower

end Achain.Net
