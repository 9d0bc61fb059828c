/-
The kernel's own heap (kernel/mm/kheap.c): kmalloc and its siblings over
one static arena of 1 MiB.

The static `kheap` is passed along; the linker's choice of the arena's
address is the argument of `kheapInit`.
-/
import Thuos.Mm.KheapCore

namespace Thuos.Mm

open ByteMem Word32

def KHEAP_SIZE : Nat := 2 ^ 20

/-- `kheap_init`. -/
def kheapInit (mem : Mem) (kheapArena : Nat) : Heap :=
  heapInit mem kheapArena KHEAP_SIZE

def kmalloc (fuel : Nat) (kheap : Heap) (size : Nat) : Option (Heap × Nat) :=
  heapAlloc fuel kheap size

def krealloc (fuel : Nat) (kheap : Heap) (ptr s : Nat) :
    Option (Heap × Nat) :=
  heapRealloc fuel kheap ptr s

def kfree (fuel : Nat) (kheap : Heap) (ptr : Nat) : Option Heap :=
  heapFree fuel kheap ptr

/-- The loop of `kcalloc`: bytes `0 .. n-1` of the block at `b`. -/
def zeroFill (m : Mem) (b : Nat) : Nat → Mem
  | 0 => m
  | n + 1 => (zeroFill m b n).set (add32 b n) 0

def kcalloc (fuel : Nat) (kheap : Heap) (nmemb size : Nat) :
    Option (Heap × Nat) :=
  let total := mul32 nmemb size
  if nmemb ≠ 0 ∧ total / nmemb ≠ size then some (kheap, 0)
  else
    (heapAlloc fuel kheap total).map fun (h, p) =>
      if p ≠ 0 then ({ h with mem := zeroFill h.mem p total }, p) else (h, p)

theorem zeroFill_outside {m : Mem} {b x n : Nat}
    (hx : ∀ i < n, x ≠ add32 b i) : zeroFill m b n x = m x := by
  induction n with
  | zero => rfl
  | succ n ih =>
      rw [zeroFill, Mem.set_ne _ _ (hx n (Nat.lt_succ_self n))]
      exact ih fun i hi => hx i (Nat.lt_succ_of_lt hi)

end Thuos.Mm
