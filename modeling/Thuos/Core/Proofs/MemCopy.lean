/-
What a copy leaves in memory.

Where neither range wraps, a turn of either loop is a copy of one slot of
an array, and `memmove` counts in the direction in which no byte is
overwritten before it is read. So it leaves the bytes that the source had
(`memmove_eq`), and `memcpy`, which always counts up, leaves the same
unless it copies upwards into its own source (`memcpy_eq`).
-/
import Thuos.Core.MemCopy

namespace Thuos.Core

open ByteMem Loop Word32

/-- The memory with the `n` bytes from `src` on also at `dst`. -/
def copied (m : Mem) (dst src n : Nat) : Mem := fun a =>
  if dst ≤ a ∧ a < dst + n then m (src + (a - dst)) else m a

section Copy

variable {m : Mem} {dst src n : Nat}

/-- A turn whose addresses do not wrap. -/
theorem copyByte_eq (hdst : dst + n ≤ 2 ^ 32) (hsrc : src + n ≤ 2 ^ 32)
    {i : Nat} (hi : i < n) (t : Mem) :
    copyByte dst src t i = Function.update t (dst + i) (t (src + i)) := by
  unfold copyByte
  rw [add32_eq (by omega), add32_eq (by omega)]
  funext a
  rw [Function.update_apply]
  rfl

theorem copyUp_eq (hdst : dst + n ≤ 2 ^ 32) (hsrc : src + n ≤ 2 ^ 32)
    (h : dst ≤ src ∨ src + n ≤ dst) :
    upTo n (copyByte dst src) m = copied m dst src n := by
  have hsame := upTo_congr (s := m) (fun _ => True) trivial
    (fun _ _ _ _ => trivial) fun i hi t _ => copyByte_eq hdst hsrc hi t
  rw [hsame]
  funext a
  exact upTo_copy m h a

theorem copyDown_eq (hdst : dst + n ≤ 2 ^ 32) (hsrc : src + n ≤ 2 ^ 32)
    (h : src ≤ dst) :
    downTo n (copyByte dst src) m = copied m dst src n := by
  rw [downTo_congr fun i hi t => copyByte_eq hdst hsrc hi t]
  funext a
  exact downTo_copy m (Or.inl h) a

/-- Nothing to do. -/
theorem copied_self (h : dst = src ∨ n = 0) : copied m dst src n = m := by
  funext a
  unfold copied
  by_cases hin : dst ≤ a ∧ a < dst + n
  · have hplace : src + (a - dst) = a := by omega
    rw [if_pos hin, hplace]
  · rw [if_neg hin]

theorem memmove_eq (hdst : dst + n ≤ 2 ^ 32) (hsrc : src + n ≤ 2 ^ 32) :
    (memmove m dst src n).1 = copied m dst src n := by
  unfold memmove
  by_cases hnone : dst = src ∨ n = 0
  · rw [if_pos hnone]
    exact (copied_self hnone).symm
  rw [if_neg hnone]
  by_cases hlt : dst < src
  · rw [if_pos hlt]
    exact copyUp_eq hdst hsrc (Or.inl (Nat.le_of_lt hlt))
  · rw [if_neg hlt]
    exact copyDown_eq hdst hsrc (Nat.not_lt.mp hlt)

theorem memcpy_eq (hdst : dst + n ≤ 2 ^ 32) (hsrc : src + n ≤ 2 ^ 32)
    (h : dst ≤ src ∨ src + n ≤ dst) :
    (memcpy m dst src n).1 = copied m dst src n :=
  copyUp_eq hdst hsrc h

end Copy

/-- Whichever way the ranges overlap, `memmove` leaves at the destination
what the source had and everything else as it was; on disjoint ranges
`memcpy` does the same. -/
theorem memmove_overlap_safe (m : Mem) (dst src n : Nat)
    (hdst : dst + n ≤ 2 ^ 32) (hsrc : src + n ≤ 2 ^ 32) :
    (∀ i < n, (memmove m dst src n).1 (dst + i) = m (src + i))
      ∧ (∀ a, a < dst ∨ dst + n ≤ a → (memmove m dst src n).1 a = m a)
      ∧ (dst + n ≤ src ∨ src + n ≤ dst →
        (memcpy m dst src n).1 = (memmove m dst src n).1) := by
  rw [memmove_eq hdst hsrc]
  refine ⟨?_, ?_, ?_⟩
  · intro i hi
    unfold copied
    rw [if_pos (by omega), Nat.add_sub_cancel_left]
  · intro a ha
    unfold copied
    rw [if_neg (by omega)]
  · intro hapart
    exact memcpy_eq hdst hsrc (by omega)

/-- Four bytes moved up by two, over their own source. -/
theorem memmove_overlap_safe_four :
    (∀ i < 4, (memmove (fun a => UInt8.ofNat a) 102 100 4).1 (102 + i)
        = UInt8.ofNat (100 + i))
      ∧ (∀ a, a < 102 ∨ 102 + 4 ≤ a →
        (memmove (fun a => UInt8.ofNat a) 102 100 4).1 a = UInt8.ofNat a)
      ∧ (102 + 4 ≤ 100 ∨ 100 + 4 ≤ 102 →
        (memcpy (fun a => UInt8.ofNat a) 102 100 4).1
          = (memmove (fun a => UInt8.ofNat a) 102 100 4).1) :=
  memmove_overlap_safe (fun a => UInt8.ofNat a) 102 100 4 (by decide)
    (by decide)

end Thuos.Core
