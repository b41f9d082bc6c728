import Mathlib.Data.List.Basic
import Mathlib.Algebra.Group.Int.Defs
import Mathlib.Algebra.Group.Nat.Defs

/-!
# The memory pool of the VM

A state has one buffer, from which `lua_malloc` hands out blocks. The list of the blocks that are live
is searched for a gap; behind them is an end mark, which is not moved back when a block is freed.
Addresses are offsets in the buffer, and what the blocks hold is left out.
-/

namespace Achain.Glua

/-- `LUA_MALLOC_TOTAL_SIZE`. -/
def luaMallocTotalSize : Nat := 50 * 1024 * 1024

structure Block where
  offset : Int
  size : Int
  deriving DecidableEq

/-- What the allocator keeps in a `lua_State`, with the place of the flag that stops the VM. -/
structure MemoryPool where
  mallocPos : Int
  mallocedBuffers : List Block
  stopPointer : Option Int
  deriving DecidableEq

/-- The conversion to `ptrdiff_t`. -/
def toPtrdiff (x : Int) : Int := x.bmod (2 ^ 64)

/-- The conversion to `size_t`. -/
def toSize (x : Int) : Int := x % 2 ^ 64

def align8 (s : UInt64) : Nat :=
  if s.toNat % 8 = 0 then s.toNat else (s.toNat / 8 + 1) * 8 % 2 ^ 64

/-- The scan for a gap of a size, after the block before. -/
def insertInGap (size : Nat) (lastPair : Block) : List Block → Option (Int × List Block)
  | [] => none
  | b :: blocks =>
    let offset := lastPair.offset + lastPair.size
    if offset + size ≤ b.offset then some (offset, ⟨offset, size⟩ :: b :: blocks)
    else (insertInGap size b blocks).map fun r => (r.1, b :: r.2)

namespace MemoryPool

/-- The pool of `lua_newstate`. -/
def start : MemoryPool := ⟨0, [], none⟩

section Malloc

variable (L : MemoryPool)

/-- `lua_malloc` of an aligned size, up to where it gives up. -/
def place (size : Nat) : Option (Int × MemoryPool) :=
  if luaMallocTotalSize < size then none
  else
    match L.mallocedBuffers with
    | [] =>
      some (L.mallocPos, { L with
        mallocPos := toPtrdiff (L.mallocPos + size)
        mallocedBuffers := [⟨L.mallocPos, size⟩] })
    | b :: blocks =>
      if size < b.offset then some (0, { L with mallocedBuffers := ⟨0, size⟩ :: b :: blocks })
      else
        match insertInGap size b blocks with
        | some (offset, rest) => some (offset, { L with mallocedBuffers := b :: rest })
        | none =>
          if luaMallocTotalSize < toSize (L.mallocPos + size) then none
          else
            some (L.mallocPos, { L with
              mallocPos := toPtrdiff (L.mallocPos + size)
              mallocedBuffers := b :: blocks ++ [⟨L.mallocPos, size⟩] })

/-- `lua_malloc`. Before it returns null it stops the VM, for which `notify_lua_state_stop` asks it for
an `int` if there is no flag yet; where there is no room for that either, the calls do not end. -/
def luaMalloc : Nat → MemoryPool → UInt64 → Option (Option Int × MemoryPool)
  | 0, _, _ => none
  | n + 1, L, size =>
    match L.place (align8 size) with
    | some (offset, L') => some (some offset, L')
    | none =>
      if L.stopPointer.isSome then some (none, L)
      else
        match luaMalloc n L 4 with
        | some (some offset, L') => some (none, { L' with stopPointer := some offset })
        | _ => none

/-- `lua_free`, of nothing for a null pointer. -/
def luaFree (address : Option Int) : MemoryPool :=
  match address with
  | none => L
  | some offset =>
    if offset < 0 || luaMallocTotalSize < offset then L
    else { L with mallocedBuffers := L.mallocedBuffers.eraseP fun b => b.offset == offset }

end Malloc

end MemoryPool

end Achain.Glua
