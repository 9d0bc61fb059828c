/-
The event ring as its two readers share it with the controller
(kernel/drivers/usb/xhci.c): `wait_event` and `usb_poll`, access by
access.

`Usb.Xhci` takes an event off the ring in one piece. Here the driver
pauses before each access to what the controller sees: the cycle bit, the
three fields it reads one after the other, and the two halves of ERDP.
The controller may post between any two of them, and sees ERDP as the
last write left it. An event appears on the ring whole.
-/
import Thuos.Usb.Xhci

namespace Thuos.Usb.EventPoll

open Coroutine

/-- Where the driver pauses. -/
inductive Access where
  | cycle
  | type
  | code
  | slot
  | erdpLow
  | erdpHigh
  | serve
  deriving DecidableEq, Repr

/-- What the driver reads of an event. -/
structure Seen where
  type : Nat
  code : Nat
  slot : Nat
  deriving DecidableEq, Repr

def seen (t : Trb) : Seen := ⟨t.type, t.code, t.slot⟩

/-- A look at the cycle bit: whether it was the driver's own, and how
many events had been consumed and posted then. -/
structure Look where
  new : Bool
  consumed : Nat
  posted : Nat
  deriving DecidableEq, Repr

/-- The world, with the high half of ERDP (`world.hc.erdp` is the low
half), and what the driver has done so far. -/
structure Watch where
  world : World
  erdpHigh : Nat
  -- the history
  /-- The events read and reported to the controller. -/
  consumed : List Seen
  /-- The event that the driver has stepped over, and not reported yet. -/
  held : Option Seen
  looks : List Look
  /-- The events that had been posted when `usb_poll` last started. -/
  due : Nat

namespace Watch

def posted (s : Watch) : List Event := s.world.hc.posted

/-- The events that the driver has stepped over. -/
def stepped (s : Watch) : List Seen := s.consumed ++ s.held.toList

/-- `evt_ring[evt_deq]`. -/
def head (s : Watch) : Trb := s.world.hc.evtRing s.world.drv.evtDeq

/-- The address in ERDP, without the flags in its low four bits. -/
def pointer (s : Watch) : Nat :=
  s.erdpHigh * 2 ^ 32 + s.world.hc.erdp / 16 * 16

/-- Record a look at the cycle bit. -/
def looked (new : Bool) (s : Watch) : Watch :=
  { s with looks := s.looks ++ [⟨new, s.consumed.length, s.posted.length⟩] }

/-- `if (++evt_deq == EVT_TRBS) { evt_deq = 0; evt_cyc ^= 1; }` -/
def advance (e : Seen) (s : Watch) : Watch :=
  let next := if s.world.drv.evtDeq + 1 = EVT_TRBS
    then (0, s.world.drv.evtCyc ^^^ 1)
    else (s.world.drv.evtDeq + 1, s.world.drv.evtCyc)
  { s with
    world.drv.evtDeq := next.1
    world.drv.evtCyc := next.2
    held := some e }

/-- The write to the low half of ERDP. -/
def reportLow (l : Layout) (e : Seen) (s : Watch) : Watch :=
  { s with
    world.hc.erdp := (l.evtRing + 16 * s.world.drv.evtDeq) ||| (1 <<< 3)
    world.drv.taken := s.world.drv.taken + 1
    consumed := s.consumed ++ [e]
    held := none }

/-- The write to the high half. -/
def reportHigh (s : Watch) : Watch := { s with erdpHigh := 0 }

/-- `usb_poll` starts to look. -/
def starts (s : Watch) : Watch := { s with due := s.posted.length }

end Watch

abbrev Code := Proc Access Watch

-- ============================================================== the driver

section Driver

variable (l : Layout)

/-- The piece that `wait_event` and `usb_poll` have in common: the event
at the dequeue index, if there is a new one, taken off the ring. -/
def takeEvent : Code (Option Seen) := do
  Proc.yield .cycle
  let new ← Proc.read fun s => decide (s.head.cycle = s.world.drv.evtCyc)
  Proc.modify (Watch.looked new)
  if new then do
    Proc.yield .type
    let type ← Proc.read fun s => s.head.type
    Proc.yield .code
    let code ← Proc.read fun s => s.head.code
    Proc.yield .slot
    let slot ← Proc.read fun s => s.head.slot
    Proc.modify (Watch.advance ⟨type, code, slot⟩)
    Proc.yield .erdpLow
    Proc.modify (Watch.reportLow l ⟨type, code, slot⟩)
    Proc.yield .erdpHigh
    Proc.modify Watch.reportHigh
    pure (some ⟨type, code, slot⟩)
  else pure none

/-- `wait_event`, for at most `n` polls. -/
def waitEvent (want : Nat) : Nat → Code (Option (Nat × Nat))
  | 0 => pure none
  | n + 1 => do
      match ← takeEvent l with
      | none => waitEvent want n
      | some e =>
          if e.type = want then pure (some (e.code, e.slot))
          else waitEvent want n

/-- What `usb_poll` does with an event. -/
def serve (e : Seen) (w : World) : World :=
  if e.type = TRB_TRANSFER_EVT then
    match w.deviceOf e.slot with
    | none => w
    | some i => armInterrupt l i (hidHandle l i w)
  else w

/-- The loop of `usb_poll`, for at most `n` events. -/
def pollEvents : Nat → Code Unit
  | 0 => pure ()
  | n + 1 => do
      match ← takeEvent l with
      | none => pure ()
      | some e => do
          Proc.yield .serve
          Proc.modify fun s => { s with world := serve l e s.world }
          pollEvents n

/-- `usb_poll`. -/
def usbPoll : Code Unit := do
  if ← Proc.read fun s => s.world.drv.present then do
    Proc.modify Watch.starts
    pollEvents l 64
  else pure ()

/-- Other code of the driver, which has its own statics and no access to
those of the event ring. -/
def elsewhere (d : Usb.Driver) (s : Watch) : Watch :=
  { s with world.drv := { d with
      evtDeq := s.world.drv.evtDeq
      evtCyc := s.world.drv.evtCyc
      taken := s.world.drv.taken } }

end Driver

-- ======================================================= the surroundings

/-- What the controller does: it posts an event, or something that is no
business of the event ring. -/
inductive Move where
  | post (e : Event)
  | other (hc : Controller)

/-- There is room for another event, as far as ERDP says. -/
def Room (l : Layout) (s : Watch) : Prop :=
  (s.world.hc.enq + 1) % EVT_TRBS ≠ (s.pointer - l.evtRing) / 16

instance (l : Layout) (s : Watch) : Decidable (Room l s) :=
  inferInstanceAs (Decidable (_ ≠ _))

def act (l : Layout) (s : Watch) : Move → Watch
  | .post e =>
      if Room l s then { s with world.hc := s.world.hc.post e } else s
  | .other hc =>
      { s with world.hc := { hc with
          evtRing := s.world.hc.evtRing
          enq := s.world.hc.enq
          pcs := s.world.hc.pcs
          erdp := s.world.hc.erdp
          posted := s.world.hc.posted } }

-- ============================================================== the system

/-- What runs on the driver's thread. -/
inductive Call where
  | wait (want : Nat)
  | poll
  | rest (d : Usb.Driver)

def body (l : Layout) : Call → Code Unit
  | .wait want => do
      let _ ← waitEvent l want WAIT_POLLS
      pure ()
  | .poll => usbPoll l
  | .rest d => Proc.modify (elsewhere d)

/-- The part of `xhci_init` that sets up the event ring, in any world:
the controller has been reset, and starts at the first slot. -/
def initEvents (l : Layout) (w : World) : Watch where
  world := {
    drv := { w.drv with evtDeq := 0, evtCyc := 1, taken := 0 }
    hc := { w.hc with
      evtRing := fun i => if i < EVT_TRBS then Trb.zero else w.hc.evtRing i
      enq := 0
      pcs := 1
      erdp := l.evtRing
      posted := [] } }
  erdpHigh := 0
  consumed := []
  held := none
  looks := []
  due := 0

abbrev Sys := Conf Access Watch Unit

def sysStep (l : Layout) : Sys → Turn Move Call → Sys :=
  Coroutine.step (act l) (body l)

def Sys.start (l : Layout) (w : World) : Sys := ⟨initEvents l w, .ret ()⟩

end Thuos.Usb.EventPoll
