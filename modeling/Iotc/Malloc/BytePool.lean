import Iotc.C.Buf
import Iotc.Lib.Blocks
import Mathlib.Algebra.Group.Nat.Defs

/-!
# `malloc` on a byte pool

`iotconnect_malloc_tx_byte_pool.c`: `malloc`, `free`, `calloc` and `realloc` by way of
`tx_byte_allocate` and `tx_byte_release`. These two are the parameter `BytePool`, and
`BytePool.Lawful` is what ThreadX documents of them.
-/

namespace Iotc.Malloc

open Iotc.C
open Lib (Block overwrite)

def txSuccess : UINT := 0
def txPtrError : UINT := 0x03
def txNoMemory : UINT := 0x10

inductive Access where
  | read (addr size : Nat)
  | release (addr : Nat)
  deriving DecidableEq

/-- The memory, the blocks that are allocated, and what ThreadX keeps besides. The log tells which
ranges `memcpy` has read and which pointers were released. -/
structure Heap (ρ : Type) where
  mem : Nat → UInt8
  live : List Block
  pool : ρ
  log : List Access := []

abbrev HeapM (ρ : Type) : Type → Type := StateM (Heap ρ)

/-- `tx_byte_allocate` gives the status and what it sets the pointer to. -/
structure BytePool (ρ : Type) where
  txByteAllocate : SizeT → HeapM ρ (UINT × Nat)
  txByteRelease : Nat → HeapM ρ UINT

variable {ρ : Type}

def memset (p : Nat) (c : UInt8) (n : Nat) : HeapM ρ Unit :=
  modify fun h => { h with mem := overwrite h.mem p n fun _ => c }

def memcpy (dst src n : Nat) : HeapM ρ Unit :=
  modify fun h => { h with
    mem := overwrite h.mem dst n fun i => h.mem (src + i)
    log := h.log ++ [.read src n] }

section
variable (P : BytePool ρ)

/-- The pointer, or NULL. -/
def malloc (size : SizeT) : HeapM ρ (Option Nat) := do
  if 0 < size then
    let (status, ptr) ← P.txByteAllocate size
    if status ≠ txSuccess then
      return none
    return some ptr
  else
    return none

def free (ptr : Option Nat) : HeapM ρ Unit := do
  let some ptr := ptr | return ()
  modify fun h => { h with log := h.log ++ [.release ptr] }
  -- the status is printed
  let _ ← P.txByteRelease ptr

def calloc (nmemb size : SizeT) : HeapM ρ (Option Nat) := do
  -- the product of two words is a word
  let some ret ← malloc P (nmemb * size) | return none
  memset ret 0 (nmemb * size).toNat
  return some ret

def realloc (ptr : Option Nat) (size : SizeT) : HeapM ρ (Option Nat) := do
  let some ptr := ptr | return none
  let some ret ← malloc P size | return none
  -- the size of the old block is not known here
  memcpy ret ptr size.toNat
  free P (some ptr)
  return some ret

end

/-! ## What ThreadX promises -/

/-- The blocks that are live in both keep their bytes. -/
def Keeps (h h' : Heap ρ) : Prop :=
  ∀ b ∈ h.live, b ∈ h'.live → ∀ a, b.Has a → h'.mem a = h.mem a

/-- `good` says of a heap that its pool is as ThreadX left it. -/
structure BytePool.Lawful (P : BytePool ρ) (good : Heap ρ → Prop) : Prop where
  /-- An allocation that succeeds gives a block of at least the size, apart from the others. -/
  allocated : ∀ h size ptr h', good h → 0 < size →
    P.txByteAllocate size h = ((txSuccess, ptr), h') →
    ∃ b : Block, b.addr = ptr ∧ 0 < ptr ∧ ptr + b.size ≤ 2 ^ 32 ∧ size.toNat ≤ b.size ∧
      (∀ c ∈ h.live, b.Apart c) ∧ h'.live = b :: h.live
  refused : ∀ h size status ptr h', good h → status ≠ txSuccess →
    P.txByteAllocate size h = ((status, ptr), h') → h'.live = h.live
  released : ∀ h ptr, good h → (P.txByteRelease ptr h).2.live = h.live ∨
    (P.txByteRelease ptr h).2.live = h.live.filter (·.addr ≠ ptr)
  keeps : ∀ h, good h → (∀ size, Keeps h (P.txByteAllocate size h).2) ∧
    ∀ ptr, Keeps h (P.txByteRelease ptr h).2
  log : ∀ h, (∀ size, (P.txByteAllocate size h).2.log = h.log) ∧
    ∀ ptr, (P.txByteRelease ptr h).2.log = h.log
  stays_good : ∀ h, good h → (∀ size, good (P.txByteAllocate size h).2) ∧
    ∀ ptr, good (P.txByteRelease ptr h).2
  /-- Only what is outside of the live blocks matters to the pool. -/
  outside : ∀ h mem log, good h → (∀ a, (∀ b ∈ h.live, ¬ b.Has a) → mem a = h.mem a) →
    good { h with mem, log }

end Iotc.Malloc
