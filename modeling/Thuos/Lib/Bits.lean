/-
Single bits of a byte, as C code tests and sets them: `x & (1 << k)`,
`x | (1 << k)`, `x & ~(1 << k)`. Each operation is read through `bit x k`,
so that a proof about a bitmap never looks at a mask.
-/
import Mathlib

namespace Bits

/-- The mask `(uint8_t)(1u << k)`. -/
def mask (k : Nat) : UInt8 := UInt8.ofNat (1 <<< k)

/-- `x & (1 << k)` is non-zero. -/
def bit (x : UInt8) (k : Nat) : Bool := x &&& mask k ≠ 0

theorem toBitVec_mask (k : Nat) : (mask k).toBitVec = BitVec.twoPow 8 k := by
  apply BitVec.eq_of_toNat_eq
  rw [BitVec.toNat_twoPow]
  show (UInt8.ofNat (1 <<< k)).toNat = _
  rw [UInt8.toNat_ofNat', Nat.shiftLeft_eq, Nat.one_mul]

theorem bit_eq_getLsbD (x : UInt8) {k : Nat} (hk : k < 8) :
    bit x k = x.toBitVec.getLsbD k := by
  unfold bit
  rw [Bool.eq_iff_iff, decide_eq_true_eq, ne_eq, ← UInt8.toBitVec_inj,
    UInt8.toBitVec_and, toBitVec_mask, BitVec.and_twoPow]
  cases h : x.toBitVec.getLsbD k with
  | false => simp
  | true =>
      have hne : BitVec.twoPow 8 k ≠ 0#8 := by
        intro heq
        have := congrArg (fun v => v.getLsbD k) heq
        simp [hk] at this
      simp only [if_true, iff_true]
      exact hne

theorem bit_or (x : UInt8) {j k : Nat} (hj : j < 8) (hk : k < 8) :
    bit (x ||| mask k) j = (decide (j = k) || bit x j) := by
  rw [bit_eq_getLsbD _ hj, bit_eq_getLsbD _ hj, UInt8.toBitVec_or,
    toBitVec_mask, BitVec.getLsbD_or, BitVec.getLsbD_twoPow, Bool.or_comm]
  simp [hk, eq_comm]

theorem bit_andNot (x : UInt8) {j k : Nat} (hj : j < 8) (hk : k < 8) :
    bit (x &&& ~~~mask k) j = (decide (j ≠ k) && bit x j) := by
  rw [bit_eq_getLsbD _ hj, bit_eq_getLsbD _ hj, UInt8.toBitVec_and,
    UInt8.toBitVec_not, toBitVec_mask, BitVec.getLsbD_and,
    BitVec.getLsbD_not, BitVec.getLsbD_twoPow, Bool.and_comm]
  simp [hj, hk, eq_comm]

/-- Two bytes with the same bits are the same byte. -/
theorem ext_bit {x y : UInt8} (h : ∀ k < 8, bit x k = bit y k) : x = y := by
  rw [← UInt8.toBitVec_inj]
  apply BitVec.eq_of_getLsbD_eq
  intro k hk
  rw [← bit_eq_getLsbD x hk, ← bit_eq_getLsbD y hk]
  exact h k hk

theorem bit_ones {k : Nat} (hk : k < 8) : bit 0xFF k = true := by
  rcases k with _ | _ | _ | _ | _ | _ | _ | _ | k
  all_goals first | rfl | omega

/-- A byte is `0xFF` exactly when all its bits are set. -/
theorem eq_ones_iff {x : UInt8} :
    x = 0xFF ↔ ∀ k < 8, bit x k = true := by
  refine ⟨fun h k hk => by rw [h, bit_ones hk], fun h => ?_⟩
  apply ext_bit
  intro k hk
  rw [h k hk, bit_ones hk]

end Bits
