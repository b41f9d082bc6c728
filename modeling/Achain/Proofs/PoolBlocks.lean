import Achain.Glua.MemoryPool
import Mathlib.Order.Interval.Set.Disjoint
import Mathlib.Data.Int.ConditionallyCompleteOrder
import Mathlib.Order.ConditionallyCompleteLattice.Basic
import Mathlib.Order.CompletePartialOrder

/-!
# The blocks of the memory pool

The live blocks stay apart, in order and below the end mark, as long as no block is put behind the end
mark that does not fit there. The only branch that puts one there without a check is that for a pool
without live blocks.
-/

namespace Achain.Glua

namespace Block

/-- The offsets of the bytes of a block. -/
def bytes (b : Block) : Set Int := Set.Ico b.offset (b.offset + b.size)

/-- One block ends before the other begins. -/
def Before (a b : Block) : Prop := a.offset + a.size ≤ b.offset

theorem Before.disjoint {a b : Block} (h : a.Before b) : Disjoint a.bytes b.bytes :=
  Set.Ico_disjoint_Ico.2 (by unfold Before at h; omega)

end Block

/-- What is said of the live blocks: sorted by offset, pairwise disjoint and inside the pool. -/
structure Apart (blocks : List Block) : Prop where
  sorted : blocks.Pairwise fun a b => a.offset ≤ b.offset
  disjoint : blocks.Pairwise fun a b => Disjoint a.bytes b.bytes
  inside : ∀ b ∈ blocks, b.bytes ⊆ Set.Ico 0 luaMallocTotalSize

namespace MemoryPool

/-- The blocks are one before the other, from the start of the pool to the end mark. -/
structure Inv (L : MemoryPool) : Prop where
  before : L.mallocedBuffers.Pairwise Block.Before
  size_nonneg : ∀ b ∈ L.mallocedBuffers, 0 ≤ b.size
  offset_nonneg : ∀ b ∈ L.mallocedBuffers, 0 ≤ b.offset
  below : ∀ b ∈ L.mallocedBuffers, b.offset + b.size ≤ L.mallocPos
  pos_nonneg : 0 ≤ L.mallocPos
  pos_le : L.mallocPos ≤ luaMallocTotalSize

theorem Inv.apart {L : MemoryPool} (h : L.Inv) : Apart L.mallocedBuffers where
  sorted := h.before.imp_of_mem fun {a b} ha _ hab => by
    have := h.size_nonneg a ha
    unfold Block.Before at hab
    omega
  disjoint := h.before.imp Block.Before.disjoint
  inside b hb := by
    have := h.offset_nonneg b hb
    have := h.below b hb
    have := h.pos_le
    exact Set.Ico_subset_Ico (by omega) (by omega)

theorem start_inv : start.Inv where
  before := .nil
  size_nonneg := nofun
  offset_nonneg := nofun
  below := nofun
  pos_nonneg := le_rfl
  pos_le := by decide

/-! ## Freeing a block -/

theorem luaFree_sublist (L : MemoryPool) (address : Option Int) :
    (L.luaFree address).mallocedBuffers.Sublist L.mallocedBuffers ∧
      (L.luaFree address).mallocPos = L.mallocPos := by
  unfold luaFree
  cases address with
  | none => exact ⟨.refl _, rfl⟩
  | some offset =>
    dsimp only
    split_ifs
    · exact ⟨.refl _, rfl⟩
    · exact ⟨List.eraseP_sublist, rfl⟩

theorem Inv.luaFree {L : MemoryPool} (h : L.Inv) (address : Option Int) : (L.luaFree address).Inv := by
  obtain ⟨hsub, hpos⟩ := luaFree_sublist L address
  exact ⟨h.before.sublist hsub, fun b hb => h.size_nonneg b (hsub.subset hb),
    fun b hb => h.offset_nonneg b (hsub.subset hb), fun b hb => hpos ▸ h.below b (hsub.subset hb),
    hpos ▸ h.pos_nonneg, hpos ▸ h.pos_le⟩

/-! ## A new block -/

/-- A pool with one more block, between those before it and those after it. -/
structure Adds (L : MemoryPool) (b : Block) (L' : MemoryPool) : Prop where
  between : ∃ front back, L.mallocedBuffers = front ++ back ∧
    L'.mallocedBuffers = front ++ b :: back ∧ (∀ a ∈ front, a.Before b) ∧ ∀ a ∈ back, b.Before a
  size_nonneg : 0 ≤ b.size
  offset_nonneg : 0 ≤ b.offset
  below : b.offset + b.size ≤ L'.mallocPos
  pos_le : L.mallocPos ≤ L'.mallocPos
  pos_le_total : L'.mallocPos ≤ luaMallocTotalSize

theorem Adds.perm {L L' : MemoryPool} {b : Block} (h : L.Adds b L') :
    L'.mallocedBuffers.Perm (b :: L.mallocedBuffers) := by
  obtain ⟨front, back, hL, hL', -, -⟩ := h.between
  rw [hL, hL']
  exact List.perm_middle

theorem Adds.disjoint {L L' : MemoryPool} {b : Block} (h : L.Adds b L') :
    ∀ a ∈ L.mallocedBuffers, Disjoint b.bytes a.bytes := by
  obtain ⟨front, back, hL, -, hfront, hback⟩ := h.between
  intro a ha
  rcases List.mem_append.1 (hL ▸ ha) with ha | ha
  · exact (hfront a ha).disjoint.symm
  · exact (hback a ha).disjoint

theorem Inv.adds {L L' : MemoryPool} {b : Block} (h : L.Inv) (hadds : L.Adds b L') : L'.Inv := by
  have hmem : ∀ a ∈ L'.mallocedBuffers, a = b ∨ a ∈ L.mallocedBuffers := fun a ha =>
    List.mem_cons.1 (hadds.perm.mem_iff.1 ha)
  refine ⟨?_, fun a ha => ?_, fun a ha => ?_, fun a ha => ?_, h.pos_nonneg.trans hadds.pos_le,
    hadds.pos_le_total⟩
  · obtain ⟨front, back, hL, hL', hfront, hback⟩ := hadds.between
    have hbefore := hL ▸ h.before
    obtain ⟨hbefore₁, hbefore₂, hcross⟩ := List.pairwise_append.1 hbefore
    rw [hL']
    refine List.pairwise_append.2 ⟨hbefore₁, List.pairwise_cons.2 ⟨hback, hbefore₂⟩, ?_⟩
    intro a ha c hc
    rcases List.mem_cons.1 hc with rfl | hc
    · exact hfront a ha
    · exact hcross a ha c hc
  · rcases hmem a ha with rfl | ha
    · exact hadds.size_nonneg
    · exact h.size_nonneg a ha
  · rcases hmem a ha with rfl | ha
    · exact hadds.offset_nonneg
    · exact h.offset_nonneg a ha
  · rcases hmem a ha with rfl | ha
    · exact hadds.below
    · exact (h.below a ha).trans hadds.pos_le

/-- The gap found lies between two blocks. -/
theorem insertInGap_between {size : Nat} : ∀ {last : Block} {blocks rest : List Block} {offset : Int},
    insertInGap size last blocks = some (offset, rest) → (last :: blocks).Pairwise Block.Before →
      (∀ b ∈ last :: blocks, 0 ≤ b.size) →
      ∃ front back, blocks = front ++ back ∧ rest = front ++ ⟨offset, size⟩ :: back ∧ back ≠ [] ∧
        last.offset + last.size ≤ offset ∧ (∀ a ∈ front, a.Before ⟨offset, size⟩) ∧
        ∀ a ∈ back, Block.Before ⟨offset, size⟩ a
  | _, [], _, _, h, _, _ => nomatch h
  | last, b :: blocks, rest, offset, h, hbefore, hsize => by
    obtain ⟨hlast, hbefore⟩ := List.pairwise_cons.1 hbefore
    rw [insertInGap] at h
    split_ifs at h with hgap
    · obtain ⟨rfl, rfl⟩ := Prod.mk.inj (Option.some.inj h)
      refine ⟨[], b :: blocks, rfl, rfl, by simp, le_rfl, nofun, fun a ha => ?_⟩
      rcases List.mem_cons.1 ha with rfl | ha
      · exact hgap
      · have hba := (List.pairwise_cons.1 hbefore).1 a ha
        have := hsize b (by simp)
        unfold Block.Before at hba ⊢
        dsimp only at hgap ⊢
        omega
    · obtain ⟨r, hr, hrest⟩ := Option.map_eq_some_iff.1 h
      obtain ⟨rfl, rfl⟩ := Prod.mk.inj hrest
      have hr : insertInGap size b blocks = some (r.1, r.2) := hr
      obtain ⟨front, back, rfl, hback, hne, hle, hfront, hafter⟩ := insertInGap_between hr hbefore
        fun a ha => hsize a (List.mem_cons_of_mem _ ha)
      have hb := hlast b (by simp)
      have := hsize b (by simp)
      refine ⟨b :: front, back, rfl, by rw [hback]; rfl, hne, ?_, fun a ha => ?_, hafter⟩
      · unfold Block.Before at hb
        omega
      · rcases List.mem_cons.1 ha with rfl | ha
        · exact hle
        · exact hfront a ha

theorem toPtrdiff_of_le {x : Int} (h : 0 ≤ x) (h' : x ≤ 2 * luaMallocTotalSize) : toPtrdiff x = x := by
  have htotal : (luaMallocTotalSize : Int) = 52428800 := rfl
  unfold toPtrdiff
  rw [Int.bmod_eq_of_le] <;> omega

theorem toSize_of_le {x : Int} (h : 0 ≤ x) (h' : x ≤ 2 * luaMallocTotalSize) : toSize x = x := by
  have htotal : (luaMallocTotalSize : Int) = 52428800 := rfl
  exact Int.emod_eq_of_lt h (by omega)

/-- A block behind the end mark. -/
theorem adds_behind {L : MemoryPool} (h : L.Inv) (size : Nat)
    (hroom : L.mallocPos + size ≤ luaMallocTotalSize) :
    L.Adds ⟨L.mallocPos, size⟩ { L with
      mallocPos := toPtrdiff (L.mallocPos + size)
      mallocedBuffers := L.mallocedBuffers ++ [⟨L.mallocPos, size⟩] } := by
  have hpos := h.pos_nonneg
  have hmark := toPtrdiff_of_le (x := L.mallocPos + size) (by omega) (by omega)
  refine ⟨⟨L.mallocedBuffers, [], by simp, rfl, h.below, nofun⟩, by simp, hpos, ?_, ?_, ?_⟩
  all_goals
    dsimp only
    omega

/-- A block at the start of the pool. -/
theorem adds_front {L : MemoryPool} {size : Nat} {b : Block} {blocks : List Block} (h : L.Inv)
    (hblocks : L.mallocedBuffers = b :: blocks) (hsmall : size < b.offset) :
    L.Adds ⟨0, size⟩ { L with mallocedBuffers := ⟨0, size⟩ :: b :: blocks } := by
  have hbelow := h.below b (by simp [hblocks])
  have hsize := h.size_nonneg b (by simp [hblocks])
  refine ⟨⟨[], b :: blocks, hblocks, rfl, nofun, fun a ha => ?_⟩, by simp, le_rfl, ?_, le_rfl, h.pos_le⟩
  · rcases List.mem_cons.1 ha with rfl | ha
    · unfold Block.Before
      dsimp only
      omega
    · have hba := (List.pairwise_cons.1 (hblocks ▸ h.before)).1 a ha
      unfold Block.Before at hba ⊢
      dsimp only
      omega
  · dsimp only
    omega

/-- A block in the gap that the scan has found. -/
theorem adds_gap {L : MemoryPool} {size : Nat} {b : Block} {blocks rest : List Block} {offset : Int}
    (h : L.Inv) (hblocks : L.mallocedBuffers = b :: blocks)
    (hgap : insertInGap size b blocks = some (offset, rest)) :
    L.Adds ⟨offset, size⟩ { L with mallocedBuffers := b :: rest } := by
  obtain ⟨front, back, rfl, rfl, hne, hstart, hfront, hafter⟩ := insertInGap_between hgap
    (hblocks ▸ h.before) fun a ha => h.size_nonneg a (hblocks ▸ ha)
  obtain ⟨c, hc⟩ := List.exists_mem_of_ne_nil back hne
  have hmem : c ∈ L.mallocedBuffers := by simp [hblocks, hc]
  have hcbelow := h.below c hmem
  have hcsize := h.size_nonneg c hmem
  have hcafter := hafter c hc
  have hboffset := h.offset_nonneg b (by simp [hblocks])
  have hbsize := h.size_nonneg b (by simp [hblocks])
  unfold Block.Before at hcafter
  dsimp only at hcafter
  refine ⟨⟨b :: front, back, hblocks, rfl, fun a ha => ?_, hafter⟩, by simp, ?_, ?_, le_rfl, h.pos_le⟩
  · rcases List.mem_cons.1 ha with rfl | ha
    · exact hstart
    · exact hfront a ha
  · dsimp only
    omega
  · dsimp only
    omega

/-- A block that is placed is a new one, if there is room for it behind the end mark of a pool without
live blocks. -/
theorem place_adds {L L' : MemoryPool} {size : Nat} {offset : Int} (h : L.Inv)
    (hroom : L.mallocedBuffers = [] → L.mallocPos + size ≤ luaMallocTotalSize)
    (hplace : L.place size = some (offset, L')) : L.Adds ⟨offset, size⟩ L' := by
  unfold place at hplace
  by_cases htotal : luaMallocTotalSize < size
  · simp [htotal] at hplace
  rw [if_neg htotal] at hplace
  cases hblocks : L.mallocedBuffers with
  | nil =>
    have hadds := adds_behind h size (hroom hblocks)
    simp only [hblocks] at hplace hadds
    obtain ⟨rfl, rfl⟩ := Prod.mk.inj (Option.some.inj hplace)
    exact hadds
  | cons b blocks =>
    simp only [hblocks] at hplace
    by_cases hsmall : size < b.offset
    · rw [if_pos hsmall] at hplace
      obtain ⟨rfl, rfl⟩ := Prod.mk.inj (Option.some.inj hplace)
      exact adds_front h hblocks hsmall
    rw [if_neg hsmall] at hplace
    cases hgap : insertInGap size b blocks with
    | some r =>
      simp only [hgap] at hplace
      obtain ⟨rfl, rfl⟩ := Prod.mk.inj (Option.some.inj hplace)
      exact adds_gap h hblocks hgap
    | none =>
      simp only [hgap] at hplace
      have hpos := h.pos_nonneg
      have hle := h.pos_le
      have hsum := toSize_of_le (x := L.mallocPos + size) (by omega) (by omega)
      by_cases hfull : luaMallocTotalSize < toSize (L.mallocPos + size)
      · simp [hfull] at hplace
      · have hadds := adds_behind h size (by omega)
        rw [if_neg hfull] at hplace
        simp only [hblocks] at hadds
        obtain ⟨rfl, rfl⟩ := Prod.mk.inj (Option.some.inj hplace)
        exact hadds

/-! ## Allocation -/

theorem align8_eq {s : UInt64} (h : s.toNat ≤ 2 ^ 64 - 8) :
    s.toNat ≤ align8 s ∧ align8 s < s.toNat + 8 := by
  unfold align8
  split_ifs with haligned
  · omega
  · omega

/-- A size close to `2 ^ 64` is rounded up to 0. -/
theorem align8_wraps {s : UInt64} (h : 2 ^ 64 - 8 < s.toNat) : align8 s = 0 := by
  have hlt := s.toNat_lt
  unfold align8
  rw [if_neg (by omega)]
  omega

/-- The size of the block that an allocation makes in a pool without live blocks: that of the flag, if
the size is too large and there is no flag. -/
def blockSize (L : MemoryPool) (size : UInt64) : Nat :=
  if luaMallocTotalSize < align8 size then if L.stopPointer.isSome then 0 else align8 4
  else align8 size

/-- What keeps an allocation from breaking the pool. -/
structure Fits (L : MemoryPool) (size : UInt64) : Prop where
  rounds : size.toNat ≤ 2 ^ 64 - 8
  room : L.mallocedBuffers = [] → L.mallocPos + L.blockSize size ≤ luaMallocTotalSize

/-- How an allocation returns: with the block that was placed, or with null after the flag was, if there
was none. -/
theorem luaMalloc_cases {L L' : MemoryPool} {n : Nat} {size : UInt64} {p : Option Int}
    (h : L.luaMalloc n size = some (p, L')) :
    (∃ offset, p = some offset ∧ L.place (align8 size) = some (offset, L')) ∨
      p = none ∧ L.place (align8 size) = none ∧
        ((L.stopPointer.isSome ∧ L' = L) ∨ L.stopPointer = none ∧ ∃ offset L'',
          L.place (align8 4) = some (offset, L'') ∧ L' = { L'' with stopPointer := some offset }) := by
  cases n with
  | zero => cases h
  | succ n =>
    rw [luaMalloc] at h
    cases hplace : L.place (align8 size) with
    | some r =>
      rw [hplace] at h
      obtain ⟨rfl, rfl⟩ := Prod.mk.inj (Option.some.inj h)
      exact .inl ⟨r.1, rfl, rfl⟩
    | none =>
      simp only [hplace] at h
      by_cases hflag : L.stopPointer.isSome = true
      · rw [if_pos hflag] at h
        obtain ⟨rfl, rfl⟩ := Prod.mk.inj (Option.some.inj h)
        exact .inr ⟨rfl, rfl, .inl ⟨hflag, rfl⟩⟩
      · have hnone : L.stopPointer = none := by simpa using hflag
        rw [if_neg hflag] at h
        -- the flag's own allocation returns a block only if its block is placed at once
        cases n with
        | zero => cases h
        | succ n =>
          rw [luaMalloc] at h
          cases hflagplace : L.place (align8 4) with
          | some r =>
            simp only [hflagplace] at h
            obtain ⟨rfl, rfl⟩ := Prod.mk.inj (Option.some.inj h)
            exact .inr ⟨rfl, rfl, .inr ⟨hnone, r.1, r.2, rfl, rfl⟩⟩
          | none =>
            simp only [hflagplace, hflag, Bool.false_eq_true, if_false] at h
            split at h
            · rename_i heq
              split at heq <;> simp at heq
            · cases h

end MemoryPool

end Achain.Glua
