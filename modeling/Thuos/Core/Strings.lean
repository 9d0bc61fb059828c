/-
Strings in memory (kernel/lib/string.c): what compares them, searches them
and copies them. `memcpy` and `memmove` are `Thuos.Core.MemCopy`.

A string is a pointer, and its end is found by looking for the terminator,
so the loops have no bound of their own. They are given a number of turns,
and are `none` where the turns are not enough. A result that may be NULL is
an `Option` too.
-/
import Thuos.Core.MemCopy

namespace Thuos.Core

open ByteMem Loop Word32

-- ============================================================= comparisons

/-- `(int)x - (int)y`. -/
def byteDiff (x y : UInt8) : Int := (x.toNat : Int) - y.toNat

/-- `memcmp`, from the byte `i` on. -/
def memcmpLoop (m : Mem) (a b : Nat) : Nat → Nat → Int
  | 0, _ => 0
  | left + 1, i =>
      if m (add32 a i) ≠ m (add32 b i) then
        byteDiff (m (add32 a i)) (m (add32 b i))
      else memcmpLoop m a b left (i + 1)

/-- `memcmp`. -/
def memcmp (m : Mem) (a b n : Nat) : Int := memcmpLoop m a b n 0

/-- `strcmp`. -/
def strcmp (m : Mem) : Nat → Nat → Nat → Option Int
  | 0, _, _ => none
  | turns + 1, a, b =>
      if m a ≠ 0 ∧ m a = m b then strcmp m turns (add32 a 1) (add32 b 1)
      else some (byteDiff (m a) (m b))

/-- `strncmp`, from the character `i` on. -/
def strncmpLoop (m : Mem) (a b : Nat) : Nat → Nat → Int
  | 0, _ => 0
  | left + 1, i =>
      if m (add32 a i) ≠ m (add32 b i) ∨ m (add32 a i) = 0 then
        byteDiff (m (add32 a i)) (m (add32 b i))
      else strncmpLoop m a b left (i + 1)

/-- `strncmp`. -/
def strncmp (m : Mem) (a b n : Nat) : Int := strncmpLoop m a b n 0

-- ================================================================= searching

/-- `strlen`, from the character `n` on. -/
def strlenLoop (m : Mem) (s : Nat) : Nat → Nat → Option Nat
  | 0, _ => none
  | turns + 1, n =>
      if m (add32 s n) ≠ 0 then strlenLoop m s turns (n + 1) else some n

/-- `strlen`. -/
def strlen (m : Mem) (turns s : Nat) : Option Nat := strlenLoop m s turns 0

/-- `strchr`. -/
def strchr (m : Mem) (c : Int32) : Nat → Nat → Option (Option Nat)
  | 0, _ => none
  | turns + 1, s =>
      if m s ≠ 0 then
        if m s = c.toInt8.toUInt8 then some (some s)
        else strchr m c turns (add32 s 1)
      else some (if c = 0 then some s else none)

-- =================================================================== copying

/-- `while ((*d++ = *src++)) {}`. -/
def strcpyLoop : Nat → Mem → Nat → Nat → Option Mem
  | 0, _, _, _ => none
  | turns + 1, m, d, src =>
      if m src ≠ 0 then
        strcpyLoop turns (m.set d (m src)) (add32 d 1) (add32 src 1)
      else some (m.set d (m src))

/-- `strcpy`. -/
def strcpy (m : Mem) (turns dst src : Nat) : Option (Mem × Nat) :=
  (strcpyLoop turns m dst src).map fun m => (m, dst)

/-- The first loop of `strncpy`: the memory, and the `i` it ends with. -/
def strncpyLoop (dst src : Nat) : Nat → Mem → Nat → Mem × Nat
  | 0, m, i => (m, i)
  | left + 1, m, i =>
      if m (add32 src i) ≠ 0 then
        strncpyLoop dst src left (copyByte dst src m i) (i + 1)
      else (m, i)

/-- `strncpy`. -/
def strncpy (m : Mem) (dst src n : Nat) : Mem × Nat :=
  let (m, i) := strncpyLoop dst src n m 0
  (upTo (n - i) (fun m k => m.set (add32 dst (i + k)) 0) m, dst)

end Thuos.Core
