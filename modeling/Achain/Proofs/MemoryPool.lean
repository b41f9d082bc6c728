import Achain.Proofs.PoolBlocks

/-!
# Runs of the memory pool

In a run of allocations and frees every block is inside the pool and apart from the others as long as
each allocation fits. Once all blocks are freed, an allocation need not: its block is put behind the end
mark, wherever that is.
-/

namespace Achain.Glua

inductive PoolCall where
  | malloc (size : UInt64)
  | free (address : Option Int)

/-- A call with the pool before it, its result and the pool after it. -/
structure PoolStep where
  before : MemoryPool
  call : PoolCall
  result : Option Int
  after : MemoryPool

namespace PoolStep

variable (s : PoolStep)

def Returns : Prop :=
  match s.call with
  | .malloc size => ∃ n, s.before.luaMalloc n size = some (s.result, s.after)
  | .free address => s.result = none ∧ s.after = s.before.luaFree address

/-- What is said of a call: the live blocks are apart, and an address returned is that of a new block. -/
structure Kept : Prop where
  apart : Apart s.after.mallocedBuffers
  isNew : ∀ size offset, s.call = .malloc size → s.result = some offset →
    ∃ b : Block, b.offset = offset ∧ size.toNat ≤ b.size ∧
      s.after.mallocedBuffers.Perm (b :: s.before.mallocedBuffers) ∧
      ∀ a ∈ s.before.mallocedBuffers, Disjoint b.bytes a.bytes

def Fits : Prop := ∀ size, s.call = .malloc size → s.before.Fits size

end PoolStep

/-- The steps of a run, from a pool on. -/
inductive PoolRun : MemoryPool → List PoolStep → Prop
  | nil (L : MemoryPool) : PoolRun L []
  | cons {s : PoolStep} {steps : List PoolStep} (returns : s.Returns) (rest : PoolRun s.after steps) :
    PoolRun s.before (s :: steps)

namespace MemoryPool

variable {L L' : MemoryPool} {size : UInt64}

theorem place_le {n : Nat} {r : Int × MemoryPool} (h : L.place n = some r) : n ≤ luaMallocTotalSize := by
  by_contra hlt
  rw [place, if_pos (by omega)] at h
  cases h

theorem place_nil {n : Nat} (hnil : L.mallocedBuffers = []) (hle : n ≤ luaMallocTotalSize) :
    ∃ L', L.place n = some (L.mallocPos, L') ∧ L'.mallocedBuffers = [⟨L.mallocPos, n⟩] := by
  rw [place, if_neg (by omega)]
  simp only [hnil]
  exact ⟨_, rfl, rfl⟩

theorem place_zero (h : L.Inv) : ∃ r, L.place 0 = some r := by
  have hpos := h.pos_nonneg
  have hle := h.pos_le
  have hsum := toSize_of_le hpos (by omega)
  have hroom : ¬ luaMallocTotalSize < toSize (L.mallocPos + (0 : Nat)) := by
    rw [Int.natCast_zero, Int.add_zero, hsum]
    omega
  rw [place, if_neg (by omega)]
  cases L.mallocedBuffers with
  | nil => exact ⟨_, rfl⟩
  | cons b blocks =>
    dsimp only
    by_cases hsmall : ((0 : Nat) : Int) < b.offset
    · exact ⟨_, if_pos hsmall⟩
    · rw [if_neg hsmall, if_neg hroom]
      cases insertInGap 0 b blocks with
      | some r => exact ⟨_, rfl⟩
      | none => exact ⟨_, rfl⟩

theorem align8_four : align8 4 = 8 := by decide

theorem blockSize_of_le (h : align8 size ≤ luaMallocTotalSize) : L.blockSize size = align8 size :=
  if_neg (by omega)

theorem blockSize_flag (h : luaMallocTotalSize < align8 size) (hflag : L.stopPointer = none) :
    L.blockSize size = align8 4 := by
  simp [blockSize, h, hflag]

/-- The pool after an allocation that fits, with the block it returns. -/
theorem Inv.luaMalloc {n : Nat} {p : Option Int} (h : L.Inv) (hfits : L.Fits size)
    (hmalloc : L.luaMalloc n size = some (p, L')) :
    L'.Inv ∧ ∀ offset, p = some offset → L.Adds ⟨offset, align8 size⟩ L' := by
  obtain ⟨offset, rfl, hplace⟩ | ⟨rfl, hnone, hflag⟩ := luaMalloc_cases hmalloc
  · have hroom := hfits.room
    rw [blockSize_of_le (place_le hplace)] at hroom
    have hadds := place_adds h hroom hplace
    exact ⟨h.adds hadds, fun offset' heq => Option.some.inj heq ▸ hadds⟩
  · obtain ⟨-, rfl⟩ | ⟨hflag, offset, L'', hplace, rfl⟩ := hflag
    · exact ⟨h, nofun⟩
    · have hroom : L.mallocedBuffers = [] → L.mallocPos + align8 4 ≤ luaMallocTotalSize := by
        intro hnil
        have hlarge : luaMallocTotalSize < align8 size := by
          by_contra hle
          obtain ⟨L₁, hsome, -⟩ := place_nil hnil (not_lt.1 hle)
          rw [hnone] at hsome
          cases hsome
        have hroom := hfits.room hnil
        rwa [blockSize_flag hlarge hflag] at hroom
      have hinv := h.adds (place_adds h hroom hplace)
      exact ⟨⟨hinv.before, hinv.size_nonneg, hinv.offset_nonneg, hinv.below, hinv.pos_nonneg,
        hinv.pos_le⟩, nofun⟩

end MemoryPool

theorem Apart.bounds {blocks : List Block} (h : Apart blocks) {b : Block} (hb : b ∈ blocks)
    (hsize : 0 < b.size) : 0 ≤ b.offset ∧ b.offset + b.size ≤ luaMallocTotalSize := by
  have hsub := h.inside b hb
  have hfirst : b.offset ∈ b.bytes := ⟨le_rfl, by omega⟩
  have hlast : b.offset + b.size - 1 ∈ b.bytes := ⟨by omega, by omega⟩
  have := (hsub hfirst).1
  have := (hsub hlast).2
  omega

namespace PoolStep

open MemoryPool

variable {s : PoolStep}

theorem inv_of_fits (hinv : s.before.Inv) (hreturns : s.Returns) (hfits : s.Fits) : s.after.Inv := by
  unfold Returns at hreturns
  cases hcall : s.call with
  | malloc size =>
    rw [hcall] at hreturns
    obtain ⟨n, hmalloc⟩ := hreturns
    exact (hinv.luaMalloc (hfits size hcall) hmalloc).1
  | free address =>
    rw [hcall] at hreturns
    rw [hreturns.2]
    exact hinv.luaFree address

theorem kept_of_fits (hinv : s.before.Inv) (hreturns : s.Returns) (hfits : s.Fits) : s.Kept := by
  refine ⟨(inv_of_fits hinv hreturns hfits).apart, fun size offset hcall hresult => ?_⟩
  unfold Returns at hreturns
  rw [hcall, hresult] at hreturns
  obtain ⟨n, hmalloc⟩ := hreturns
  have hfits := hfits size hcall
  have hadds := (hinv.luaMalloc hfits hmalloc).2 offset rfl
  have hle := (align8_eq hfits.rounds).1
  exact ⟨_, rfl, by dsimp only; omega, hadds.perm, hadds.disjoint⟩

/-- A size that is rounded up to 0 gives a block that is too small. -/
theorem rounds_of_kept (hinv : s.before.Inv) {size : UInt64} (hcall : s.call = .malloc size)
    (hreturns : s.Returns) (hkept : s.Kept) : size.toNat ≤ 2 ^ 64 - 8 := by
  by_contra hlt
  unfold Returns at hreturns
  rw [hcall] at hreturns
  obtain ⟨n, hmalloc⟩ := hreturns
  have hzero := align8_wraps (not_le.1 hlt)
  obtain ⟨r, hr⟩ := place_zero hinv
  obtain ⟨offset, hresult, -⟩ | ⟨-, hnone, -⟩ := luaMalloc_cases hmalloc
  · obtain ⟨b, -, hsize, hperm, -⟩ := hkept.isNew size offset hcall hresult
    have hbounds := hkept.apart.bounds (hperm.mem_iff.2 List.mem_cons_self) (by omega)
    have htotal : (luaMallocTotalSize : Int) = 52428800 := rfl
    omega
  · rw [hzero, hr] at hnone
    cases hnone

/-- Without live blocks, what does not fit behind the end mark is put there all the same. -/
theorem room_of_kept (hinv : s.before.Inv) {size : UInt64} (hcall : s.call = .malloc size)
    (hreturns : s.Returns) (hkept : s.Kept) (hnil : s.before.mallocedBuffers = []) :
    s.before.mallocPos + s.before.blockSize size ≤ luaMallocTotalSize := by
  by_contra hlt
  have hle := hinv.pos_le
  have hapart := hkept.apart
  unfold Returns at hreturns
  rw [hcall] at hreturns
  obtain ⟨n, hmalloc⟩ := hreturns
  obtain ⟨offset, -, hplace⟩ | ⟨-, hnone, hflag⟩ := luaMalloc_cases hmalloc
  · rw [blockSize_of_le (place_le hplace)] at hlt
    obtain ⟨L', hplace', hblocks⟩ := place_nil hnil (place_le hplace)
    obtain ⟨-, rfl⟩ := Prod.mk.inj (Option.some.inj (hplace'.symm.trans hplace))
    rw [hblocks] at hapart
    have hbounds := hapart.bounds (List.mem_singleton_self _) (by dsimp only; omega)
    dsimp only at hbounds
    omega
  · have hlarge : luaMallocTotalSize < align8 size := by
      by_contra hsmall
      obtain ⟨L', hsome, -⟩ := place_nil hnil (not_lt.1 hsmall)
      rw [hnone] at hsome
      cases hsome
    obtain ⟨hset, -⟩ | ⟨hset, offset, L'', hplace, hafter⟩ := hflag
    · simp only [blockSize, hlarge, hset, if_true, Int.natCast_zero] at hlt
      omega
    · rw [blockSize_flag hlarge hset] at hlt
      obtain ⟨L', hplace', hblocks⟩ := place_nil hnil (place_le hplace)
      obtain ⟨-, rfl⟩ := Prod.mk.inj (Option.some.inj (hplace'.symm.trans hplace))
      rw [hafter, hblocks] at hapart
      have hbounds := hapart.bounds (List.mem_singleton_self _) (by simp [align8_four])
      dsimp only at hbounds
      omega

theorem kept_iff_fits (hinv : s.before.Inv) (hreturns : s.Returns) : s.Kept ↔ s.Fits :=
  ⟨fun hkept _ hcall => ⟨rounds_of_kept hinv hcall hreturns hkept,
    room_of_kept hinv hcall hreturns hkept⟩, kept_of_fits hinv hreturns⟩

end PoolStep

theorem PoolRun.kept_iff_fits : ∀ {L : MemoryPool} {steps : List PoolStep}, L.Inv → PoolRun L steps →
    ((∀ s ∈ steps, s.Kept) ↔ ∀ s ∈ steps, s.Fits)
  | _, [], _, _ => by simp
  | _, s :: steps, hinv, .cons hreturns rest => by
    rw [List.forall_mem_cons, List.forall_mem_cons, PoolStep.kept_iff_fits hinv hreturns]
    exact and_congr_right fun hfits =>
      PoolRun.kept_iff_fits (PoolStep.inv_of_fits hinv hreturns hfits) rest

/-- In a run of a new pool every call keeps the blocks apart and returns new ones if and only if every
allocation fits. -/
theorem pool_kept_iff {steps : List PoolStep} (hrun : PoolRun MemoryPool.start steps) :
    (∀ s ∈ steps, s.Kept) ↔ ∀ s ∈ steps, s.Fits :=
  PoolRun.kept_iff_fits MemoryPool.start_inv hrun

/-! ## A block behind the pool -/

/-- 40 MiB are allocated, -/
def filling : PoolStep :=
  ⟨⟨0, [], none⟩, .malloc 41943040, some 0, ⟨41943040, [⟨0, 41943040⟩], none⟩⟩

/-- freed -/
def clearing : PoolStep :=
  ⟨⟨41943040, [⟨0, 41943040⟩], none⟩, .free (some 0), none, ⟨41943040, [], none⟩⟩

/-- and allocated again. -/
def overrunning : PoolStep :=
  ⟨⟨41943040, [], none⟩, .malloc 41943040, some 41943040, ⟨83886080, [⟨41943040, 41943040⟩], none⟩⟩

def refilling : List PoolStep := [filling, clearing, overrunning]

theorem refilling_run : PoolRun MemoryPool.start refilling := by
  have hfilling : filling.Returns := ⟨1, by decide⟩
  have hclearing : clearing.Returns := ⟨by decide, by decide⟩
  have hoverrunning : overrunning.Returns := ⟨1, by decide⟩
  exact .cons hfilling (.cons hclearing (.cons hoverrunning (.nil _)))

/-- The second block of 40 MiB lies behind the end of the pool. -/
theorem refilling_not_kept : PoolRun MemoryPool.start refilling ∧ ¬ ∀ s ∈ refilling, s.Kept := by
  refine ⟨refilling_run, fun h => ?_⟩
  have hkept : overrunning.Kept := h _ (.tail _ (.tail _ (.head _)))
  have hbounds := hkept.apart.bounds (b := ⟨41943040, 41943040⟩) (by decide) (by decide)
  exact absurd hbounds.2 (by decide)

/-- The first block of 40 MiB fits. -/
theorem filling_kept : PoolRun MemoryPool.start [filling, clearing] ∧
    ∀ s ∈ [filling, clearing], s.Kept := by
  have hfilling : filling.Returns := ⟨1, by decide⟩
  have hclearing : clearing.Returns := ⟨by decide, by decide⟩
  have hrun : PoolRun MemoryPool.start [filling, clearing] :=
    .cons hfilling (.cons hclearing (.nil _))
  refine ⟨hrun, (pool_kept_iff hrun).2 ?_⟩
  have hfits : filling.Fits := by
    rintro size ⟨⟩
    exact ⟨by decide, fun _ => by decide⟩
  have hfree : clearing.Fits := by
    rintro size ⟨⟩
  simp [hfits, hfree]

end Achain.Glua
