/-
Copying memory (kernel/lib/string.c): `memcpy` and `memmove`.

A pointer is an address, and the address of `d[i]` wraps as a pointer
does. Both functions return the memory and `dst`.
-/
import Thuos.Lib.ByteMem
import Thuos.Lib.Loop
import Thuos.Lib.Word32

namespace Thuos.Core

open ByteMem Loop Word32

/-- `d[i] = s[i]`. -/
def copyByte (d s : Nat) (m : Mem) (i : Nat) : Mem :=
  m.set (add32 d i) (m (add32 s i))

/-- `memcpy`. -/
def memcpy (m : Mem) (dst src n : Nat) : Mem × Nat :=
  (upTo n (copyByte dst src) m, dst)

/-- `memmove`. -/
def memmove (m : Mem) (dst src n : Nat) : Mem × Nat :=
  if dst = src ∨ n = 0 then (m, dst)
  else if dst < src then (upTo n (copyByte dst src) m, dst)
  else (downTo n (copyByte dst src) m, dst)

end Thuos.Core
