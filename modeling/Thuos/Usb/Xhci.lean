/-
The xHCI driver (kernel/drivers/usb/xhci.c) after its rings are set up:
commands, control transfers, enumeration of a port, and polling.

The driver is one thread; the controller acts while it polls. It pauses
where the source reads the event ring or a port register, and at the
start of an enumeration and of a control transfer. A ring comes with the
index and cycle state of its producer, which the source keeps beside
`cmd_ring` and in `dev_t`. `dev_ctx` is never read, so only its zeroing
is recorded.
-/
import Thuos.Lib.Coroutine
import Thuos.Lib.Word32
import Thuos.Usb.Controller
import Thuos.Usb.Hid

namespace Thuos.Usb

open ByteMem Coroutine Word32

def P_CCS : Nat := 1 <<< 0

def P_PED : Nat := 1 <<< 1

def P_PR : Nat := 1 <<< 4

def P_RW1C : Nat := 0x00FE0000

-- =============================================================== the statics

/-- `dev_t`. -/
structure Dev where
  used : Bool
  slot : Nat
  port : Nat
  isKbd : Bool
  isMouse : Bool
  epDci : Nat
  epLen : Nat
  prev : List UInt8

/-- `dev_ctx[idx]` and `ep0_ring[idx]` were zeroed for `slot` while the
slots `owners` were enabled with that context in the DCBAA. -/
structure Wipe where
  idx : Nat
  slot : Nat
  owners : List Nat
  deriving DecidableEq, Repr

structure Driver where
  devs : Nat → Dev
  dcbaa : Nat → Nat
  rings : RingId → Ring
  /-- `in_ctx[idx]`, by context and word. -/
  inCtx : Nat → Nat → Nat → Nat
  evtDeq : Nat
  evtCyc : Nat
  portOut : Nat → Nat
  present : Bool
  inputs : List Input
  -- the history
  sent : List Work
  taken : Nat
  /-- The devices that `enumerate` has declared ready. -/
  ready : Nat → Bool
  /-- The reports that `hid_handle` has been given. -/
  handled : List Report
  wiped : List Wipe

structure World where
  drv : Driver
  hc : Controller

/-- Where the driver pauses. -/
inductive Site where
  | wait (want : Nat)
  | control
  | serve
  | port
  | enumerate
  deriving DecidableEq, Repr

abbrev Code := Proc Site World

def ringSize : RingId → Nat
  | .cmd => CMD_TRBS
  | .ep0 _ => EP0_TRBS
  | .epi _ => EPI_TRBS

-- ============================================================== the requests

section Requests

theorem low_or_high (low high k : Nat) (hk : 16 ≤ k) :
    (low ||| high <<< k) % 2 ^ 16 = low % 2 ^ 16 := by
  have hhigh : high <<< k % 2 ^ 16 = 0 := by
    obtain ⟨j, rfl⟩ : ∃ j, k = 16 + j := ⟨k - 16, by omega⟩
    rw [Nat.shiftLeft_eq, Nat.pow_add, Nat.mul_left_comm]
    exact Nat.mul_mod_right _ _
  rw [Nat.or_mod_two_pow, hhigh, Nat.or_zero]

/-- A request whose control word has its type and flags in `low`, and in
`high` what does not concern the cycle bit. -/
def request (lo hi status low high k : Nat)
    (h : 16 ≤ k ∧ low % 2 = 0 ∧ low / 2 ^ 10 % 2 ^ 6 ≠ TRB_LINK) : Request where
  toTrb := ⟨lo, hi, status, low ||| high <<< k⟩
  cycle_clear := by
    have hlow := low_or_high low high k h.1
    rw [Trb.cycle_eq]
    show (low ||| high <<< k) % 2 = 0
    omega
  not_link := by
    have hlow := low_or_high low high k h.1
    have htype := h.2.2
    rw [Trb.type_eq]
    show (low ||| high <<< k) / 2 ^ 10 % 2 ^ 6 ≠ TRB_LINK
    omega

/-- The type of a request is that of its low word. -/
theorem request_type {lo hi status low high k : Nat}
    (h : 16 ≤ k ∧ low % 2 = 0 ∧ low / 2 ^ 10 % 2 ^ 6 ≠ TRB_LINK) :
    (request lo hi status low high k h).toTrb.type = low / 2 ^ 10 % 2 ^ 6 := by
  have hlow := low_or_high low high k h.1
  rw [Trb.type_eq]
  show (low ||| high <<< k) / 2 ^ 10 % 2 ^ 6 = _
  omega

def noopCmd : Request :=
  request 0 0 0 (TRB_NOOP_CMD <<< 10) 0 16 (by decide)

def enableSlotCmd : Request :=
  request 0 0 0 (TRB_ENABLE_SLOT <<< 10) 0 16 (by decide)

def addressDeviceCmd (l : Layout) (idx slot : Nat) : Request :=
  request (l.inCtxAt idx) 0 0 (TRB_ADDRESS_DEV <<< 10) slot 24 (by decide)

def configureEpCmd (l : Layout) (idx slot : Nat) : Request :=
  request (l.inCtxAt idx) 0 0 (TRB_CONFIG_EP <<< 10) slot 24 (by decide)

/-- The Setup Stage: `trt` is 3 for data in, 2 for data out, else 0. -/
def setupStage (bmRT bReq wVal wIdx wLen : Nat) (dirIn : Bool) : Request :=
  let trt := if wLen ≠ 0 then (if dirIn then 3 else 2) else 0
  request (bmRT ||| (bReq <<< 8) ||| (wVal <<< 16)) (wIdx ||| (wLen <<< 16)) 8
    ((TRB_SETUP <<< 10) ||| (1 <<< 6)) trt 16 (by decide)

def dataStage (l : Layout) (idx wLen : Nat) (dirIn : Bool) : Request :=
  request (l.ctlBufAt idx) 0 wLen (TRB_DATA <<< 10) (if dirIn then 1 else 0) 16
    (by decide)

def statusStage (wLen : Nat) (dirIn : Bool) : Request :=
  request 0 0 0 ((TRB_STATUS <<< 10) ||| (1 <<< 5))
    (if wLen ≠ 0 ∧ dirIn then 0 else 1) 16 (by decide)

def normalTrb (l : Layout) (idx epLen : Nat) : Request :=
  request (l.hidBufAt idx) 0 epLen ((TRB_NORMAL <<< 10) ||| (1 <<< 5)) 0 16
    (by decide)

/-- The blocks of a control transfer. -/
def controlTd (l : Layout) (idx bmRT bReq wVal wIdx wLen : Nat)
    (dirIn : Bool) : List Request :=
  setupStage bmRT bReq wVal wIdx wLen dirIn
    :: ((if wLen ≠ 0 then [dataStage l idx wLen dirIn] else [])
      ++ [statusStage wLen dirIn])

end Requests

-- ============================================================ on the statics

namespace World

def setDev (idx : Nat) (f : Dev → Dev) (w : World) : World :=
  { w with drv.devs := Function.update w.drv.devs idx (f (w.drv.devs idx)) }

/-- `ring_push` of each block, and then `ring_doorbell`. -/
def submit (r : RingId) (qs : List Request) (slot target : Nat)
    (w : World) : World :=
  let wk : Work := ⟨w.drv.sent.length, r, slot, target, qs.map Request.toTrb⟩
  { w with
    drv.rings := Function.update w.drv.rings r
      (qs.foldl (ringPush (ringSize r)) (w.drv.rings r))
    drv.sent := w.drv.sent ++ [wk]
    hc.outstanding := w.hc.outstanding ++ [wk] }

/-- The event at the dequeue index, if it is new. -/
def peek (w : World) : Option Trb :=
  let e := w.hc.evtRing w.drv.evtDeq
  if e.cycle = w.drv.evtCyc then some e else none

/-- Step over it, and report the next slot to the controller. -/
def take (l : Layout) (w : World) : World :=
  let next := if w.drv.evtDeq + 1 = EVT_TRBS then (0, w.drv.evtCyc ^^^ 1)
    else (w.drv.evtDeq + 1, w.drv.evtCyc)
  { w with
    drv.evtDeq := next.1
    drv.evtCyc := next.2
    drv.taken := w.drv.taken + 1
    hc.erdp := (l.evtRing + 16 * next.1) ||| (1 <<< 3) }

/-- The first entry of `devs` that is free. -/
def freeEntry (w : World) : Option Nat :=
  (List.range MAX_DEV).find? fun i => !(w.drv.devs i).used

/-- The ready device of a slot, as `usb_poll` looks it up. -/
def deviceOf (slot : Nat) (w : World) : Option Nat :=
  (List.range MAX_DEV).find? fun i =>
    (w.drv.devs i).used && (w.drv.devs i).slot = slot
      && (w.drv.devs i).epDci ≠ 0

def ctlByte (idx o : Nat) (l : Layout) (w : World) : Nat :=
  (w.hc.mem (l.ctlBufAt idx + o)).toNat

end World

-- ================================================================= waiting

section Waiting

variable (l : Layout)

/-- A read of the event ring: the event, if there is one, taken off. -/
def nextEvent : Code (Option Trb) := do
  match ← Proc.read World.peek with
  | none => pure none
  | some e => do
      Proc.modify (World.take l)
      pure (some e)

/-- `wait_event`, for at most `n` polls: the completion code and slot of
the first event of type `want`. -/
def waitEvent (want : Nat) : Nat → Code (Option (Nat × Nat))
  | 0 => pure none
  | n + 1 => do
      Proc.yield (.wait want)
      match ← nextEvent l with
      | none => waitEvent want n
      | some e =>
          if e.type = want then pure (some (e.code, e.slot))
          else waitEvent want n

def WAIT_POLLS : Nat := 3000000

/-- `cmd_submit`: the completion code, 0 on a timeout, and the slot. -/
def cmdSubmit (q : Request) : Code (Nat × Nat) := do
  Proc.modify (World.submit .cmd [q] 0 0)
  match ← waitEvent l TRB_CMD_COMPLETE WAIT_POLLS with
  | none => pure (0, 0)
  | some (cc, slot) => pure (if cc ≠ 0 then cc else 1, slot)

/-- `control_xfer`: the completion code, 0 on a timeout. -/
def controlXfer (idx bmRT bReq wVal wIdx wLen : Nat) (dirIn : Bool) :
    Code Nat := do
  Proc.yield .control
  Proc.modify fun w => w.submit (.ep0 idx)
    (controlTd l idx bmRT bReq wVal wIdx wLen dirIn) (w.drv.devs idx).slot 1
  match ← waitEvent l TRB_TRANSFER_EVT WAIT_POLLS with
  | none => pure 0
  | some (cc, _) => pure (if cc ≠ 0 then cc else 1)

/-- `arm_interrupt`. -/
def armInterrupt (idx : Nat) (w : World) : World :=
  w.submit (.epi idx) [normalTrb l idx (w.drv.devs idx).epLen]
    (w.drv.devs idx).slot (w.drv.devs idx).epDci

end Waiting

-- ================================================================= contexts

def speedMps0 (spd : Nat) : Nat :=
  if spd = 4 then 512 else if spd = 3 then 64 else 8

/-- `cset`. -/
def cset (ctx : Nat → Nat → Nat) (ci dw v : Nat) : Nat → Nat → Nat :=
  fun c d => if c = ci ∧ d = dw then v else ctx c d

/-- The input context for Address Device. -/
def addressInput (l : Layout) (idx port spd : Nat) : Nat → Nat → Nat :=
  let ctx := cset (fun _ _ => 0) 0 1 0x3
  let ctx := cset ctx 1 0 ((1 <<< 27) ||| (spd <<< 20))
  let ctx := cset ctx 1 1 (port <<< 16)
  let ctx := cset ctx 2 1 ((3 <<< 1) ||| (4 <<< 3) ||| (speedMps0 spd <<< 16))
  let ctx := cset ctx 2 2 (l.ep0RingAt idx ||| 1)
  let ctx := cset ctx 2 3 0
  cset ctx 2 4 8

/-- The input context for Configure Endpoint. -/
def configureInput (l : Layout) (idx port spd dci len : Nat) :
    Nat → Nat → Nat :=
  let ctx := cset (fun _ _ => 0) 0 1 (0x1 ||| (1 <<< dci))
  let ctx := cset ctx 1 0 ((dci <<< 27) ||| (spd <<< 20))
  let ctx := cset ctx 1 1 (port <<< 16)
  let ctx := cset ctx (dci + 1) 0 (3 <<< 16)
  let ctx := cset ctx (dci + 1) 1 ((3 <<< 1) ||| (7 <<< 3) ||| (len <<< 16))
  let ctx := cset ctx (dci + 1) 2 (l.epiRingAt idx ||| 1)
  cset ctx (dci + 1) 4 len

/-- A ring after `ring_link`, with its producer at the start. -/
def linked (phys n : Nat) (r : Ring) : Ring :=
  ⟨ringLink phys n 1 r.trb, 0, 1⟩

-- ============================================================== descriptors

/-- What the walk over a configuration descriptor finds. -/
structure Parsed where
  iface : Option Nat
  isKbd : Bool
  isMouse : Bool
  epDci : Nat
  epLen : Nat
  deriving DecidableEq, Repr

/-- One descriptor, at offset `o`. -/
def parseOne (cfg : Nat → Nat) (o : Nat) (p : Parsed) : Parsed :=
  if cfg (o + 1) = 4 then
    let p := { p with iface := some (cfg (o + 2)) }
    if cfg (o + 5) = 3 then
      if cfg (o + 7) = 1 then { p with isKbd := true }
      else if cfg (o + 7) = 2 then { p with isMouse := true }
      else p
    else p
  else if cfg (o + 1) = 5 ∧ (p.isKbd ∨ p.isMouse) then
    let addr := cfg (o + 2)
    let attr := cfg (o + 3)
    if addr &&& 0x80 ≠ 0 ∧ attr &&& 0x3 = 3 ∧ p.epDci = 0 then
      let len := cfg (o + 4)
      { p with
        epDci := (addr &&& 0xF) * 2 + 1
        epLen := if len = 0 ∨ len > 8 then 8 else len }
    else p
  else p

/-- The loop over the descriptors; it moves on by at least one byte a
turn, so `total` turns are enough. -/
def parseConfig (cfg : Nat → Nat) (total : Nat) : Nat → Nat → Parsed → Parsed
  | 0, _, p => p
  | n + 1, o, p =>
      if o + 2 ≤ total then
        if cfg o = 0 then p
        else parseConfig cfg total n (o + cfg o) (parseOne cfg o p)
      else p

-- ================================================================== a port

section Port

variable (l : Layout)

def readPortsc (port : Nat) : Code Nat := do
  Proc.yield .port
  Proc.read fun w => w.hc.portsc port

def writePortsc (port value : Nat) (w : World) : World :=
  { w with drv.portOut := Function.update w.drv.portOut port value }

/-- Poll until the port is enabled, for at most `n` reads. -/
def waitEnabled (port : Nat) : Nat → Code Unit
  | 0 => pure ()
  | n + 1 => do
      let sc ← readPortsc port
      if sc &&& P_PED ≠ 0 then pure () else waitEnabled port n

/-- `sc & ~(P_RW1C | P_PED)`. -/
def keepBits (sc : Nat) : Nat := sc &&& not32 (P_RW1C ||| P_PED)

/-- `port_reset`. -/
def portReset (port : Nat) : Code Nat := do
  let sc ← readPortsc port
  if sc &&& P_PED = 0 then do
    Proc.modify (writePortsc port (keepBits sc ||| P_PR))
    waitEnabled port 1000000
    let sc ← readPortsc port
    Proc.modify (writePortsc port (keepBits sc ||| P_RW1C))
  let sc ← readPortsc port
  pure (if sc &&& P_PED = 0 then 0 else (sc >>> 10) &&& 0xF)

/-- What `enumerate` does with a slot it was granted, up to Address
Device. -/
def openSlot (idx port spd slot : Nat) (w : World) : World :=
  let owners := w.hc.enabled.filter fun s => w.drv.dcbaa s = l.devCtxAt idx
  { w with
    drv.wiped := w.drv.wiped ++ [⟨idx, slot, owners⟩]
    drv.inCtx := Function.update w.drv.inCtx idx (addressInput l idx port spd)
    drv.dcbaa := Function.update w.drv.dcbaa slot (l.devCtxAt idx)
    drv.rings := Function.update w.drv.rings (.ep0 idx)
      (linked (l.ep0RingAt idx) EP0_TRBS (w.drv.rings (.ep0 idx)))
    drv.devs := Function.update w.drv.devs idx
      { w.drv.devs idx with slot := slot, port := port, used := true } }

/-- `d->used = 0`. -/
def giveUp (idx : Nat) : World → World :=
  World.setDev idx fun d => { d with used := false }

/-- The walk over the configuration descriptor in `ctl_buf[idx]`, and
what it leaves in the device. -/
def parsed (idx total : Nat) (w : World) : Parsed :=
  parseConfig (fun o => w.ctlByte idx o l) total total 0
    ⟨none, false, false, 0, (w.drv.devs idx).epLen⟩

def keepParsed (idx : Nat) (p : Parsed) : World → World :=
  World.setDev idx fun d =>
    { d with
      isKbd := p.isKbd, isMouse := p.isMouse, epDci := p.epDci
      epLen := p.epLen }

/-- The interrupt-IN endpoint, up to Configure Endpoint. -/
def openEndpoint (idx port spd : Nat) (w : World) : World :=
  let d := w.drv.devs idx
  { w with
    drv.rings := Function.update w.drv.rings (.epi idx)
      (linked (l.epiRingAt idx) EPI_TRBS (w.drv.rings (.epi idx)))
    drv.inCtx := Function.update w.drv.inCtx idx
      (configureInput l idx port spd d.epDci d.epLen) }

/-- The device is ready: its first interrupt transfer is armed. -/
def declareReady (idx : Nat) (w : World) : World :=
  armInterrupt l idx
    { w with drv.ready := Function.update w.drv.ready idx true }

/-- `enumerate` once the device is addressed: the descriptors. The result
is what the walk found, if the device answered. -/
def describe (idx : Nat) : Code (Option (Parsed × Nat)) := do
  if (← controlXfer l idx 0x80 6 0x0100 0 18 true) ≠ 1 then return none
  if (← controlXfer l idx 0x80 6 0x0200 0 9 true) ≠ 1 then return none
  let (total, cfgval) ← Proc.read fun w =>
    (min (w.ctlByte idx 2 l ||| (w.ctlByte idx 3 l <<< 8)) 512,
      w.ctlByte idx 5 l)
  if (← controlXfer l idx 0x80 6 0x0200 0 total true) ≠ 1 then return none
  let p ← Proc.read (parsed l idx total)
  Proc.modify (keepParsed idx p)
  return some (p, cfgval)

/-- `enumerate` once the endpoint is known: true if the device can be
declared ready. -/
def configure (idx port spd slot cfgval : Nat) (p : Parsed) : Code Bool := do
  if (← controlXfer l idx 0x00 9 cfgval 0 0 false) ≠ 1 then return false
  let _ ← controlXfer l idx 0x21 0x0B 0 (p.iface.getD 0) 0 false
  Proc.modify (openEndpoint l idx port spd)
  let (cc, _) ← cmdSubmit l (configureEpCmd l idx slot)
  return decide (cc = 1)

/-- `enumerate` with a slot granted for the entry `idx`. -/
def setUp (idx port spd slot : Nat) : Code Unit := do
  Proc.modify (openSlot l idx port spd slot)
  let (cc, _) ← cmdSubmit l (addressDeviceCmd l idx slot)
  if cc ≠ 1 then Proc.modify (giveUp idx)
  else do
    match ← describe l idx with
    | none => Proc.modify (giveUp idx)
    | some (p, cfgval) =>
        if p.epDci = 0 then Proc.modify (giveUp idx)
        else do
          if ← configure l idx port spd slot cfgval p then
            Proc.modify (declareReady l idx)
          else Proc.modify (giveUp idx)

/-- `enumerate`. -/
def enumerate (port : Nat) : Code Unit := do
  Proc.yield .enumerate
  match ← Proc.read World.freeEntry with
  | none => pure ()
  | some idx => do
      let spd ← portReset port
      if spd = 0 then pure ()
      else do
        let (cc, slot) ← cmdSubmit l enableSlotCmd
        if cc ≠ 1 ∨ slot = 0 then pure ()
        else setUp l idx port spd slot

end Port

-- ================================================================== polling

section Polling

variable (l : Layout)

/-- `hid_handle`. -/
def hidHandle (idx : Nat) (w : World) : World :=
  let d := w.drv.devs idx
  let r := w.hc.mem.read (l.hidBufAt idx) 8
  let (inputs, prev) := hidReport d.isKbd d.isMouse d.prev r
  { w with
    drv.inputs := w.drv.inputs ++ inputs
    drv.devs := Function.update w.drv.devs idx { d with prev := prev }
    drv.handled := w.drv.handled ++ [(idx, r)] }

/-- What `usb_poll` does with an event it has taken. -/
def serve (e : Trb) (w : World) : World :=
  if e.type = TRB_TRANSFER_EVT then
    match w.deviceOf e.slot with
    | none => w
    | some i => armInterrupt l i (hidHandle l i w)
  else w

/-- The loop of `usb_poll`. -/
def pollEvents : Nat → Code Unit
  | 0 => pure ()
  | n + 1 => do
      Proc.yield .serve
      match ← nextEvent l with
      | none => pure ()
      | some e => do
          Proc.modify (serve l e)
          pollEvents n

/-- `usb_poll`. -/
def usbPoll : Code Unit := do
  if ← Proc.read fun w => w.drv.present then pollEvents l 64 else pure ()

/-- The ports that show a connection, in order. -/
def enumeratePorts : List Nat → Code Unit
  | [] => pure ()
  | p :: ps => do
      let sc ← readPortsc p
      if sc &&& P_CCS ≠ 0 then enumerate l p
      enumeratePorts ps

/-- `xhci_init` from its No-Op command on. -/
def bringUp (maxports : Nat) : Code Unit := do
  let (cc, _) ← cmdSubmit l noopCmd
  if cc ≠ 1 then pure ()
  else do
    Proc.modify fun w => { w with drv.present := true }
    enumeratePorts l (List.range' 1 maxports)

end Polling

-- =============================================================== the system

/-- What runs on the driver's thread. -/
inductive Call where
  | bringUp (maxports : Nat)
  | enumerate (port : Nat)
  | poll
  deriving DecidableEq, Repr

def body (l : Layout) : Call → Code Unit
  | .bringUp maxports => bringUp l maxports
  | .enumerate port => enumerate l port
  | .poll => usbPoll l

/-- A step of the controller. -/
def World.act (l : Layout) (w : World) (m : Move) : World :=
  { w with hc := w.hc.act l m }

def Dev.empty : Dev := ⟨false, 0, 0, false, false, 0, 0, List.replicate 8 0⟩

/-- The world when `xhci_init` has started the controller: the command
and event rings are set up, and `dcbaa[0]` points to the scratch
buffers. -/
def World.start (l : Layout) (scratch : Nat) : World where
  drv := {
    devs := fun _ => Dev.empty
    dcbaa := fun s => if s = 0 then scratch else 0
    rings := fun r => match r with
      | .cmd => linked l.cmdRing CMD_TRBS ⟨fun _ => Trb.zero, 0, 1⟩
      | _ => ⟨fun _ => Trb.zero, 0, 0⟩
    inCtx := fun _ _ _ => 0
    evtDeq := 0, evtCyc := 1
    portOut := fun _ => 0
    present := false
    inputs := [], sent := [], taken := 0
    ready := fun _ => false
    handled := [], wiped := [] }
  hc := {
    evtRing := fun _ => Trb.zero
    enq := 0, pcs := 1
    erdp := l.evtRing
    portsc := fun _ => 0
    mem := fun _ => 0
    enabled := [], outstanding := [], posted := [], reports := [] }

abbrev Sys := Conf Site World Unit

def sysStep (l : Layout) : Sys → Turn Move Call → Sys :=
  Coroutine.step (World.act l) (body l)

def Sys.start (l : Layout) (scratch : Nat) : Sys :=
  ⟨World.start l scratch, .ret ()⟩

end Thuos.Usb
