/-
The kernel heap (kernel/mm/kheap_core.c): an arena carved into a singly
linked, address-ordered list of blocks, first fit with splitting, and
forward coalescing on free.

The list lives in the arena itself, so the model is a byte memory:
`block_t` is four little-endian words at its address (the i386 layout),
a pointer is an address, and NULL is 0. `Heap` is `kheap_t` together
with that memory. Every list loop follows `next` pointers that it reads
from memory and need not end, so it runs on fuel and returns an
`Option`.

`size_t` and `uintptr_t` are 32-bit: sums are `add32`, differences
`sub32`.
-/
import Thuos.Lib.ByteMem
import Thuos.Lib.Word32

namespace Thuos.Mm

open ByteMem Word32

-- ============================================================== the types

def KH_MAGIC : Nat := 0x4B484541

def KH_ALIGN : Nat := 8

/-- `sizeof(block_t)`: four 32-bit fields. -/
def HDR : Nat := 16

/-- `align_up` and `ualign_up`. -/
def alignUp (v a : Nat) : Nat := add32 v (a - 1) &&& (0xFFFFFFFF ^^^ (a - 1))

/-- `kheap_t` and the memory its arena lies in. -/
structure Heap where
  base : Nat
  size : Nat
  head : Nat
  mem : Mem

/-- The fields of `block_t`. -/
def blkSize (m : Mem) (b : Nat) : Nat := m.load32 b

def blkNext (m : Mem) (b : Nat) : Nat := m.load32 (b + 4)

def blkFree (m : Mem) (b : Nat) : Nat := m.load32 (b + 8)

def blkMagic (m : Mem) (b : Nat) : Nat := m.load32 (b + 12)

def setSize (m : Mem) (b v : Nat) : Mem := m.store32 b v

def setNext (m : Mem) (b v : Nat) : Mem := m.store32 (b + 4) v

def setFree (m : Mem) (b v : Nat) : Mem := m.store32 (b + 8) v

def setMagic (m : Mem) (b v : Nat) : Mem := m.store32 (b + 12) v

/-- `kh_memcpy`: byte by byte, upwards. -/
def khMemcpy (m : Mem) (d s : Nat) : Nat → Mem
  | 0 => m
  | n + 1 => khMemcpy (m.set d (m s)) (d + 1) (s + 1) n

-- ========================================================= the operations

/-- `heap_init`. -/
def heapInit (mem : Mem) (arena size : Nat) : Heap :=
  let start := alignUp arena KH_ALIGN
  let adj := sub32 start arena
  if size < add32 (add32 adj HDR) KH_ALIGN then
    { base := arena, size := size, head := 0, mem := mem }
  else
    let m := setSize mem start (sub32 (sub32 size adj) HDR)
    let m := setNext m start 0
    let m := setFree m start 1
    let m := setMagic m start KH_MAGIC
    { base := arena, size := size, head := start, mem := m }

/-- The split in `heap_alloc`: the rest of block `b` becomes a free block
behind it. -/
def splitBlock (m : Mem) (b size : Nat) : Mem :=
  let nb := add32 (add32 b HDR) size
  let m := setSize m nb (sub32 (sub32 (blkSize m b) size) HDR)
  let m := setNext m nb (blkNext m b)
  let m := setFree m nb 1
  let m := setMagic m nb KH_MAGIC
  let m := setSize m b size
  setNext m b nb

/-- The loop of `heap_alloc`, from block `b` on: the memory and the
pointer returned. -/
def allocLoop (size : Nat) : Nat → Mem → Nat → Option (Mem × Nat)
  | 0, _, _ => none
  | fuel + 1, m, b =>
      if b = 0 then some (m, 0)
      else if blkFree m b = 0 ∨ blkSize m b < size then
        allocLoop size fuel m (blkNext m b)
      else
        let m :=
          if add32 (add32 size HDR) KH_ALIGN ≤ blkSize m b then
            splitBlock m b size
          else m
        some (setFree m b 0, add32 b HDR)

/-- `heap_alloc`. -/
def heapAlloc (fuel : Nat) (h : Heap) (size : Nat) : Option (Heap × Nat) :=
  if size = 0 then some (h, 0)
  else
    (allocLoop (alignUp size KH_ALIGN) fuel h.mem h.head).map fun r =>
      ({ h with mem := r.1 }, r.2)

/-- The loop of `coalesce`, from block `b` on. -/
def coalesceLoop : Nat → Mem → Nat → Option Mem
  | 0, _, _ => none
  | fuel + 1, m, b =>
      if b = 0 ∨ blkNext m b = 0 then some m
      else if blkFree m b ≠ 0 ∧ blkFree m (blkNext m b) ≠ 0 then
        let m := setSize m b
          (add32 (blkSize m b) (add32 HDR (blkSize m (blkNext m b))))
        let m := setNext m b (blkNext m (blkNext m b))
        coalesceLoop fuel m b
      else coalesceLoop fuel m (blkNext m b)

/-- `heap_free`. -/
def heapFree (fuel : Nat) (h : Heap) (ptr : Nat) : Option Heap :=
  if ptr = 0 then some h
  else
    let b := sub32 ptr HDR
    if blkMagic h.mem b ≠ KH_MAGIC then some h
    else if blkFree h.mem b ≠ 0 then some h
    else
      (coalesceLoop fuel (setFree h.mem b 1) h.head).map fun m =>
        { h with mem := m }

/-- `heap_realloc`: the heap after the call and the pointer returned. -/
def heapRealloc (fuel : Nat) (h : Heap) (ptr size : Nat) :
    Option (Heap × Nat) :=
  if ptr = 0 then heapAlloc fuel h size
  else if size = 0 then (heapFree fuel h ptr).map fun h => (h, 0)
  else
    let b := sub32 ptr HDR
    if blkMagic h.mem b ≠ KH_MAGIC then some (h, 0)
    else if alignUp size KH_ALIGN ≤ blkSize h.mem b then some (h, ptr)
    else
      (heapAlloc fuel h size).bind fun (h, np) =>
        if np = 0 then some (h, 0)
        else
          let h := { h with mem := khMemcpy h.mem np ptr (blkSize h.mem b) }
          (heapFree fuel h ptr).map fun h => (h, np)

-- ============================================================= statistics

/-- The loop of `heap_used`, `heap_free_bytes` and `heap_blocks`: add up
`f` over the blocks from `b` on. -/
def sumLoop (f : Mem → Nat → Nat) : Nat → Mem → Nat → Nat → Option Nat
  | 0, _, _, _ => none
  | fuel + 1, m, b, acc =>
      if b = 0 then some acc
      else sumLoop f fuel m (blkNext m b) (add32 acc (f m b))

/-- `heap_used`. -/
def heapUsed (fuel : Nat) (h : Heap) : Option Nat :=
  sumLoop (fun m b => if blkFree m b = 0 then blkSize m b else 0)
    fuel h.mem h.head 0

/-- `heap_free_bytes`. -/
def heapFreeBytes (fuel : Nat) (h : Heap) : Option Nat :=
  sumLoop (fun m b => if blkFree m b = 0 then 0 else blkSize m b)
    fuel h.mem h.head 0

/-- `heap_blocks`. -/
def heapBlocks (fuel : Nat) (h : Heap) : Option Nat :=
  sumLoop (fun _ _ => 1) fuel h.mem h.head 0

/-- The loop of `heap_check` over an arena from `lo` to `hi`, from block
`b` on. -/
def checkLoop (lo hi : Nat) : Nat → Mem → Nat → Option Nat
  | 0, _, _ => none
  | fuel + 1, m, b =>
      if b = 0 then some 1
      else if blkMagic m b ≠ KH_MAGIC then some 0
      else
        let e := add32 (add32 b HDR) (blkSize m b)
        if b < lo ∨ hi < e then some 0
        else if blkNext m b ≠ 0 ∧ blkNext m b ≠ e then some 0
        else checkLoop lo hi fuel m (blkNext m b)

/-- `heap_check`. -/
def heapCheck (fuel : Nat) (h : Heap) : Option Nat :=
  checkLoop h.base (add32 h.base h.size) fuel h.mem h.head

-- ====================================================== words and headers

theorem alignUp_eq (v : Nat) :
    alignUp v KH_ALIGN = (v + 7) % 2 ^ 32 / 8 * 8 :=
  and_high (k := 3) (by decide) (Nat.mod_lt _ (by decide))

end Thuos.Mm
