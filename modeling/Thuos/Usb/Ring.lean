/-
Transfer request blocks and the rings that the driver fills for the
controller (kernel/drivers/usb/xhci.c).

A ring is an array of `n` blocks. The driver writes blocks at `enq` under
its cycle bit `cyc`; the last block is a Link back to the first, which
the driver refreshes each time it goes over it. Fields are 32-bit words.
-/
import Thuos.Lib.Word32

namespace Thuos.Usb

open Word32

-- ============================================================= the blocks

def TRB_NORMAL : Nat := 1

def TRB_SETUP : Nat := 2

def TRB_DATA : Nat := 3

def TRB_STATUS : Nat := 4

def TRB_LINK : Nat := 6

def TRB_ENABLE_SLOT : Nat := 9

def TRB_ADDRESS_DEV : Nat := 11

def TRB_CONFIG_EP : Nat := 12

def TRB_NOOP_CMD : Nat := 23

def TRB_TRANSFER_EVT : Nat := 32

def TRB_CMD_COMPLETE : Nat := 33

/-- `trb_t`. -/
@[ext]
structure Trb where
  lo : Nat
  hi : Nat
  status : Nat
  control : Nat
  deriving DecidableEq, Repr

namespace Trb

def zero : Trb := ⟨0, 0, 0, 0⟩

def cycle (t : Trb) : Nat := t.control &&& 1

def type (t : Trb) : Nat := (t.control >>> 10) &&& 0x3F

def code (t : Trb) : Nat := (t.status >>> 24) &&& 0xFF

def slot (t : Trb) : Nat := (t.control >>> 24) &&& 0xFF

/-- The block without its cycle bit. -/
def body (t : Trb) : Trb := { t with control := t.control - t.cycle }

/-- The block with the cycle bit `c` set into a control word that leaves
the bit clear. -/
def stamp (t : Trb) (c : Nat) : Trb := { t with control := t.control ||| c }

end Trb

/-- What a caller of `ring_push` hands over: a block whose control word
comes without the cycle bit, and that is no Link. -/
structure Request extends Trb where
  cycle_clear : toTrb.cycle = 0
  not_link : toTrb.type ≠ TRB_LINK
  deriving DecidableEq

-- ============================================================== the rings

/-- A ring with its producer's index and cycle state. -/
structure Ring where
  trb : Nat → Trb
  enq : Nat
  cyc : Nat

/-- The control word of the Link: Toggle Cycle and the cycle bit. -/
def linkControl (cyc : Nat) : Nat := (TRB_LINK <<< 10) ||| (1 <<< 1) ||| cyc

/-- `ring_link`, for a ring at the physical address `phys`. -/
def ringLink (phys n cyc : Nat) (ring : Nat → Trb) : Nat → Trb :=
  let ring := fun i => if i < n then Trb.zero else ring i
  Function.update ring (n - 1)
    { ring (n - 1) with lo := phys, control := linkControl cyc }

/-- `ring_push`. -/
def ringPush (n : Nat) (r : Ring) (q : Request) : Ring :=
  let ring := Function.update r.trb r.enq (q.toTrb.stamp r.cyc)
  if r.enq + 1 = n - 1 then
    { trb := Function.update ring (n - 1)
        { ring (n - 1) with control := linkControl r.cyc }
      enq := 0
      cyc := r.cyc ^^^ 1 }
  else { trb := ring, enq := r.enq + 1, cyc := r.cyc }

-- =============================================================== the bits

namespace Trb

theorem cycle_eq (t : Trb) : t.cycle = t.control % 2 :=
  Nat.and_two_pow_sub_one_eq_mod t.control 1

theorem type_eq (t : Trb) : t.type = t.control / 2 ^ 10 % 2 ^ 6 := by
  unfold type
  rw [Nat.shiftRight_eq_div_pow]
  exact Nat.and_two_pow_sub_one_eq_mod _ 6

theorem code_eq (t : Trb) : t.code = t.status / 2 ^ 24 % 2 ^ 8 := by
  unfold code
  rw [Nat.shiftRight_eq_div_pow]
  exact Nat.and_two_pow_sub_one_eq_mod _ 8

theorem slot_eq (t : Trb) : t.slot = t.control / 2 ^ 24 % 2 ^ 8 := by
  unfold slot
  rw [Nat.shiftRight_eq_div_pow]
  exact Nat.and_two_pow_sub_one_eq_mod _ 8

/-- A control word with a slot number above a word of 24 bits. -/
theorem fields_of_control {t : Trb} {slot low : Nat}
    (ht : t.control = slot <<< 24 ||| low) (hlow : low < 2 ^ 24) :
    t.slot = slot % 256 ∧ t.type = low / 2 ^ 10 % 2 ^ 6
      ∧ t.cycle = low % 2 := by
  rw [Nat.shiftLeft_eq, or_low slot hlow] at ht
  rw [slot_eq, type_eq, cycle_eq, ht]
  omega

@[simp] theorem cycle_zero : zero.cycle = 0 := rfl

/-- A stamp on a clear bit adds. -/
theorem stamp_control {t : Trb} (ht : t.cycle = 0) {c : Nat} (hc : c < 2) :
    (t.stamp c).control = t.control + c := by
  rw [cycle_eq] at ht
  have hmul : t.control = t.control / 2 * 2 ^ 1 := by omega
  show t.control ||| c = t.control + c
  rw [hmul, Nat.mul_comm]
  exact (Nat.two_pow_add_eq_or_of_lt hc _).symm

theorem cycle_stamp {t : Trb} (ht : t.cycle = 0) {c : Nat} (hc : c < 2) :
    (t.stamp c).cycle = c := by
  rw [cycle_eq, stamp_control ht hc]
  rw [cycle_eq] at ht
  omega

theorem type_stamp {t : Trb} (ht : t.cycle = 0) {c : Nat} (hc : c < 2) :
    (t.stamp c).type = t.type := by
  rw [type_eq, type_eq, stamp_control ht hc]
  rw [cycle_eq] at ht
  rw [show (t.control + c) / 2 ^ 10 = t.control / 2 ^ 10 from by omega]

/-- A reader that drops the cycle bit has the block as it was handed
over. -/
theorem body_stamp {t : Trb} (ht : t.cycle = 0) {c : Nat} (hc : c < 2) :
    (t.stamp c).body = t := by
  have hctl : (t.stamp c).control - (t.stamp c).cycle = t.control := by
    rw [stamp_control ht hc, cycle_stamp ht hc, Nat.add_sub_cancel]
  calc (t.stamp c).body
      = { t with control := (t.stamp c).control - (t.stamp c).cycle } := rfl
    _ = t := by rw [hctl]

end Trb

/-- The refreshed Link carries the producer's bit. -/
theorem linkControl_bits : ∀ cyc < 2, linkControl cyc &&& 1 = cyc
    ∧ (linkControl cyc >>> 10) &&& 0x3F = TRB_LINK := by
  decide

end Thuos.Usb
