/-
The xHCI controller as kernel/drivers/usb/xhci.c meets it: the event
ring, the work it has been handed, the slots it has enabled, the port
registers and the buffers it writes.

The controller is no part of the sources. Its rules are those that the
driver relies on:

- work is a block, or the blocks of one control transfer, that the driver
  pushed and rang a doorbell for; it is completed at some time or never,
  in any order, with any completion code, and one event is posted for it;
- events go to successive slots of the event ring under the cycle bit of
  the controller's lap, and none is posted while the ring is full up to
  the dequeue pointer the driver last reported;
- a successful Enable Slot grants a slot that is not enabled, from 1 to
  63 (the driver sets MaxSlotsEn to 63 at most).

Other events may be posted at any time, and port registers may change at
any time. A step of the controller that its rules exclude changes
nothing.
-/
import Thuos.Lib.ByteMem
import Thuos.Usb.Ring

namespace Thuos.Usb

open ByteMem

def CMD_TRBS : Nat := 64

def EVT_TRBS : Nat := 64

def MAX_DEV : Nat := 4

def EP0_TRBS : Nat := 16

def EPI_TRBS : Nat := 16

-- ============================================================ the addresses

/-- Where the linker puts the arrays that the controller reads and
writes, with the alignment of their declarations. -/
structure Layout where
  cmdRing : Nat
  evtRing : Nat
  devCtx : Nat
  inCtx : Nat
  ep0Ring : Nat
  epiRing : Nat
  ctlBuf : Nat
  hidBuf : Nat
  devCtx_pos : 0 < devCtx
  evtRing_aligned : 64 ∣ evtRing
  buffers_apart : ctlBuf + 512 * MAX_DEV ≤ hidBuf ∨ hidBuf + 8 * MAX_DEV ≤ ctlBuf

namespace Layout

variable (l : Layout)

/-- `PHYS(dev_ctx[i])`. -/
def devCtxAt (i : Nat) : Nat := l.devCtx + 2048 * i

def inCtxAt (i : Nat) : Nat := l.inCtx + 2112 * i

def ep0RingAt (i : Nat) : Nat := l.ep0Ring + 16 * EP0_TRBS * i

def epiRingAt (i : Nat) : Nat := l.epiRing + 16 * EPI_TRBS * i

def ctlBufAt (i : Nat) : Nat := l.ctlBuf + 512 * i

def hidBufAt (i : Nat) : Nat := l.hidBuf + 8 * i

end Layout

-- ================================================================= the work

inductive RingId where
  | cmd
  | ep0 (i : Nat)
  | epi (i : Nat)
  deriving DecidableEq, Repr

/-- What a doorbell hands over: the blocks pushed on one ring since the
last doorbell, for an endpoint of a slot. `id` numbers the work. -/
structure Work where
  id : Nat
  ring : RingId
  slot : Nat
  target : Nat
  td : List Trb
  deriving DecidableEq, Repr

namespace Work

/-- An Enable Slot command. -/
def enables (wk : Work) : Bool :=
  wk.ring = .cmd && wk.td.any fun t => t.type = TRB_ENABLE_SLOT

/-- The slot that a command names. -/
def cmdSlot (wk : Work) : Nat := (wk.td.map Trb.slot).headD 0

/-- The bytes that the controller writes: the buffer of a Data Stage to
the host, or of a Normal block. -/
def window (wk : Work) : Option (Nat × Nat) :=
  (wk.td.find? fun t => t.type = TRB_NORMAL
      || t.type = TRB_DATA && (t.control >>> 16) &&& 1 = 1).map
    fun t => (t.lo, t.status &&& 0x1FFFF)

end Work

-- =============================================================== the events

/-- A port status change, or another event that completes nothing. -/
structure Notice extends Trb where
  cycle_clear : toTrb.cycle = 0
  not_transfer : toTrb.type ≠ TRB_TRANSFER_EVT
  not_command : toTrb.type ≠ TRB_CMD_COMPLETE

inductive Event where
  | notice (n : Notice)
  | command (wk : Work) (cc : UInt8) (slot : Nat)
  | transfer (wk : Work) (cc : UInt8)

namespace Event

/-- The block of an event, without the cycle bit. The driver never reads
the pointer to the completed block, which stays 0 here: the event itself
says what work it completes. -/
def trb : Event → Trb
  | .notice n => n.toTrb
  | .command _ cc slot =>
      ⟨0, 0, cc.toNat <<< 24,
        ((slot % 256) <<< 24) ||| (TRB_CMD_COMPLETE <<< 10)⟩
  | .transfer wk cc =>
      ⟨0, 0, cc.toNat <<< 24,
        ((wk.slot % 256) <<< 24)
          ||| (((wk.target % 32) <<< 16) ||| (TRB_TRANSFER_EVT <<< 10))⟩

def isTransfer : Event → Bool
  | .transfer _ _ => true
  | _ => false

/-- The work that an event completes. -/
def source : Event → Option Work
  | .notice _ => none
  | .command wk _ _ => some wk
  | .transfer wk _ => some wk

end Event

-- =========================================================== the controller

/-- A HID report: the index of the device and its eight bytes. -/
abbrev Report := Nat × List UInt8

structure Controller where
  evtRing : Nat → Trb
  enq : Nat
  pcs : Nat
  erdp : Nat
  portsc : Nat → Nat
  mem : Mem
  enabled : List Nat
  outstanding : List Work
  /-- Every event so far. -/
  posted : List Event
  /-- Every report so far, as it lay in `hid_buf` on completion. -/
  reports : List Report

/-- What the controller, the devices and the user may do. -/
inductive Move where
  | portsc (port value : Nat)
  | notice (n : Notice)
  | complete (id : Nat) (cc : UInt8) (slot : Nat) (data : List UInt8)

namespace Controller

variable (l : Layout) (hc : Controller)

/-- The slot of the event ring that the driver reported as its next. -/
def dequeue : Nat := (hc.erdp / 16 * 16 - l.evtRing) / 16

/-- There is room for another event. -/
def Room : Prop := (hc.enq + 1) % EVT_TRBS ≠ hc.dequeue l

instance : Decidable (hc.Room l) :=
  inferInstanceAs (Decidable ((hc.enq + 1) % EVT_TRBS ≠ hc.dequeue l))

/-- Write an event and move on. -/
def post (e : Event) : Controller :=
  let evtRing := Function.update hc.evtRing hc.enq (e.trb.stamp hc.pcs)
  if hc.enq + 1 = EVT_TRBS then
    { hc with
      evtRing := evtRing, enq := 0, pcs := hc.pcs ^^^ 1
      posted := hc.posted ++ [e] }
  else
    { hc with
      evtRing := evtRing, enq := hc.enq + 1
      posted := hc.posted ++ [e] }

/-- The controller may complete `wk` so. -/
def Allows (wk : Work) (cc : UInt8) (slot : Nat) : Prop :=
  hc.Room l
    ∧ (wk.enables = true → cc = 1 → 0 < slot ∧ slot < 64 ∧ slot ∉ hc.enabled)

instance (wk : Work) (cc : UInt8) (slot : Nat) :
    Decidable (hc.Allows l wk cc slot) :=
  inferInstanceAs (Decidable (_ ∧ (_ → _ → _)))

/-- Complete a command: a successful Enable Slot grants `slot`, any other
command answers for the slot it names. -/
def completeCommand (wk : Work) (cc : UInt8) (slot : Nat) : Controller :=
  if wk.enables then
    if cc = 1 then
      { hc with enabled := slot :: hc.enabled }.post (.command wk cc slot)
    else hc.post (.command wk cc 0)
  else hc.post (.command wk cc wk.cmdSlot)

/-- Complete a transfer: the data go to the buffer, as far as it
reaches. -/
def completeTransfer (wk : Work) (cc : UInt8) (data : List UInt8) :
    Controller :=
  let mem := match wk.window with
    | some (a, len) => hc.mem.write a (data.take len)
    | none => hc.mem
  let reports := match wk.ring with
    | .epi i => hc.reports ++ [(i, mem.read (l.hidBufAt i) 8)]
    | _ => hc.reports
  { hc with mem := mem, reports := reports }.post (.transfer wk cc)

/-- Take work off the list. -/
def finish (wk : Work) : Controller :=
  { hc with outstanding := hc.outstanding.filter fun o => o.id ≠ wk.id }

def act : Move → Controller
  | .portsc port value =>
      { hc with portsc := Function.update hc.portsc port value }
  | .notice n => if hc.Room l then hc.post (.notice n) else hc
  | .complete id cc slot data =>
      match hc.outstanding.find? fun o => o.id = id with
      | none => hc
      | some wk =>
          if hc.Allows l wk cc slot then
            if wk.ring = .cmd then (hc.finish wk).completeCommand wk cc slot
            else (hc.finish wk).completeTransfer l wk cc data
          else hc

end Controller

end Thuos.Usb
