/-
Numbers on the command line (kernel/shell/shell.c): the two parsers, and
the commands that hand a number to the memory managers.

A parser's result says what it wrote to `*out`, if anything, and what it
returned. A command's result is the memory manager after it, and the
characters printed.
-/
import Thuos.Core.Kprintf
import Thuos.Mm.Kheap
import Thuos.Mm.Pmm

namespace Thuos.Shell

open Thuos.Core Mm

-- ============================================================== the parsers

/-- The digit `d` of `parse_hex`. -/
def hexDigit (c : UInt8) : Option Nat :=
  if 0x30 ≤ c ∧ c ≤ 0x39 then some (c.toNat - 0x30)
  else if 0x61 ≤ c ∧ c ≤ 0x66 then some (c.toNat - 0x61 + 10)
  else if 0x41 ≤ c ∧ c ≤ 0x46 then some (c.toNat - 0x41 + 10)
  else none

/-- The loop of `parse_hex`: `none` where it returns early, else `*out`
and `any`. -/
def hexLoop : List UInt8 → UInt32 → Bool → Option (UInt32 × Bool)
  | [], v, any => some (v, any)
  | c :: s, v, _ =>
      (hexDigit c).bind fun d => hexLoop s (v <<< 4 ||| UInt32.ofNat d) true

/-- Behind an optional `0x` or `0X`. -/
def skip0x : List UInt8 → List UInt8
  | c :: x :: s => if c = 0x30 ∧ (x = 0x78 ∨ x = 0x58) then s else c :: x :: s
  | s => s

/-- `parse_hex`. -/
def parseHex (s : CStr) : Option (UInt32 × Bool) :=
  hexLoop (skip0x s.chars) 0 false

/-- The digit of `parse_uint`. -/
def decDigit (c : UInt8) : Option Nat :=
  if 0x30 ≤ c ∧ c ≤ 0x39 then some (c.toNat - 0x30) else none

/-- The loop of `parse_uint`. -/
def uintLoop : List UInt8 → UInt32 → Bool → UInt32 × Bool
  | [], v, any => (v, any)
  | c :: s, v, any =>
      match decDigit c with
      | some d => uintLoop s (v * 10 + UInt32.ofNat d) true
      | none => (v, any)

/-- `parse_uint`: `*out` and the value returned. -/
def parseUint (s : CStr) : UInt32 × Bool := uintLoop s.chars 0 false

-- ============================================================= the commands

/-- The characters of one `kprintf`. -/
def say (fmt : String) (args : List Arg) : List UInt8 :=
  (kprintf (CStr.ofString fmt) args).getD []

/-- A number as an argument. -/
def num (n : Nat) : Arg := .word (UInt32.ofNat n)

/-- The report of `cmd_freepage` on the result `r`. -/
def freepageReport (pmm : Pmm) (addr : UInt32) (r : Int) : List UInt8 :=
  if r = 0 then
    say "Freed frame at 0x%08x (free now: %u frames)\n"
      [.word (addr &&& ~~~(4096 - 1)), num (pmmFreeFrames pmm)]
  else if r = -1 then
    say "freepage: 0x%08x is unaligned or out of range\n" [.word addr]
  else if r = -2 then
    say "freepage: 0x%08x is a protected region (refused)\n" [.word addr]
  else if r = -3 then
    say "freepage: 0x%08x was already free\n" [.word addr]
  else say "freepage: error %d\n" [.word (UInt32.ofInt r)]

/-- `cmd_freepage`. -/
def cmdFreepage (pmm : Pmm) (args : CStr) : Pmm × List UInt8 :=
  match parseHex args with
  | some (addr, true) =>
      let (pmm, r) := pmmFreeFrame pmm addr.toNat
      (pmm, freepageReport pmm addr r)
  | _ => (pmm, say "usage: freepage <physical-address-in-hex>\n" [])

/-- `kheap_free()`. -/
def kheapFree (fuel : Nat) (kheap : Heap) : Arg :=
  num ((heapFreeBytes fuel kheap).getD 0)

/-- `cmd_kmalloc`, as far as `kmalloc` returns. -/
def cmdKmalloc (fuel : Nat) (kheap : Heap) (args : CStr) :
    Option (Heap × List UInt8) :=
  match parseUint args with
  | (n, true) =>
      if n = 0 then some (kheap, say "usage: kmalloc <bytes>\n" [])
      else
        (kmalloc fuel kheap n.toNat).map fun (kheap, p) =>
          if p = 0 then
            (kheap, say "kmalloc(%u): out of heap memory (free: %u bytes)\n"
              [.word n, kheapFree fuel kheap])
          else
            (kheap, say "kmalloc(%u) = 0x%08x  (heap free now: %u bytes)\n"
                [.word n, num p, kheapFree fuel kheap]
              ++ say "Free it with: kfree 0x%08x\n" [num p])
  | _ => some (kheap, say "usage: kmalloc <bytes>\n" [])

/-- `cmd_kfree`, as far as `kfree` returns. -/
def cmdKfree (fuel : Nat) (kheap : Heap) (args : CStr) :
    Option (Heap × List UInt8) :=
  match parseHex args with
  | some (addr, true) =>
      (kfree fuel kheap addr.toNat).map fun kheap =>
        let intact := (heapCheck fuel kheap).getD 0 ≠ 0
        (kheap, say "kfree(0x%08x): heap free now %u bytes, integrity %s\n"
          [.word addr, kheapFree fuel kheap,
            .str (some (CStr.ofString (if intact then "OK" else "CORRUPT")))])
  | _ => some (kheap, say "usage: kfree <hex-address from kmalloc>\n" [])

end Thuos.Shell
