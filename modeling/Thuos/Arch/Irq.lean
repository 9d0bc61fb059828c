/-
Hardware interrupts (kernel/arch/x86/irq.c), from the edge on a device's
line to the way back into what was interrupted.

The system is the processor with whatever code it runs, the interrupt
controllers, and the devices behind the handlers. Its turns come in any
order: the code does a step, a line rises, a driver writes the masks, or
the processor takes an interrupt, if its flag allows that. An interrupt is
one turn, since the stubs keep the flag clear to their `iret`.

The handlers that the kernel registers ignore their argument, so a handler
is a function of the devices. What the compiled `irq_handler` does to the
processor is a parameter. Beside the state stand the lines whose edges
were latched and the lines that were served, which the code does not keep.
-/
import Thuos.Arch.Pic
import Thuos.Arch.Proofs.Frame

namespace Thuos.Arch

open Machine I386

/-- The statics of irq.c, the controllers and the devices. -/
structure Irqs (δ : Type*) where
  pics : Pics
  irqHandlers : Nat → Option (δ → δ)
  dev : δ

section Irq

variable {δ : Type*}

/-- `irq_register_handler`. -/
def irqRegisterHandler (k : Irqs δ) (irq : UInt8) (handler : δ → δ) :
    Irqs δ :=
  if irq < 16 then
    { k with
      irqHandlers := Function.update k.irqHandlers irq.toNat (some handler) }
  else k

/-- `irq_handler`, of the field it reads. -/
def irqHandler (k : Irqs δ) (intNo : UInt32) : Irqs δ :=
  let irq := (intNo - 32).toUInt8
  let k :=
    match if irq < 16 then k.irqHandlers irq.toNat else none with
    | some f => { k with dev := f k.dev }
    | none => k
  { k with pics := picSendEoi k.pics irq }

-- ================================================================= the system

/-- What the kernel has set up: the task state segment, the gates, and the
compiled `irq_handler` as the processor sees it. -/
structure Setup where
  tss : Tss
  gate : UInt8 → Gate
  compiled : Hw → Hw

structure Board (δ : Type*) where
  hw : Hw
  irqs : Irqs δ
  /-- the lines whose edges were latched -/
  latched : List Nat
  /-- the lines that were served -/
  served : List Nat

inductive Turn
  /-- the code does a step -/
  | work
  /-- a line rises -/
  | edge (n : Fin 16)
  /-- a driver writes the masks -/
  | mask (m1 m2 : UInt8)
  /-- the processor takes an interrupt, if it may and there is one -/
  | take
deriving DecidableEq

/-- The request of a line is latched. -/
def Pics.pending (p : Pics) (n : Nat) : Bool :=
  if h : n < 8 then p.pic1.irr ⟨n, h⟩
  else if h : n < 16 then p.pic2.irr ⟨n - 8, by omega⟩
  else false

/-- The lines, the first to be served first. -/
def priority : List Nat := [0, 1, 8, 9, 10, 11, 12, 13, 14, 15, 3, 4, 5, 6, 7]

/-- The mask bit of a line. -/
def Pics.maskBit (p : Pics) (n : Nat) : Bool :=
  if n < 8 then p.pic1.imr.toNat.testBit n
  else p.pic2.imr.toNat.testBit (n - 8)

/-- The line has a request that no mask holds back. -/
def Pics.wants (p : Pics) (n : Nat) : Bool :=
  p.pending n && !p.maskBit n && (n < 8 || !p.maskBit 2)

/-- The line of a vector. -/
def lineOf (vector : UInt8) : Nat := vector.toNat - 32

variable (k : Setup) (prog : Hw → Hw)

/-- The way through the gate of a vector, and back. -/
def deliver (b : Board δ) (pics : Pics) (vector : UInt8) : Board δ :=
  let s := sysRun (interrupt k.tss (k.gate vector) [] b.hw)
    (irqStub (lineOf vector))
  let r := registersAt s.mem (word s.mem (s.reg .esp))
  { hw := sysRun (k.compiled s) commonExit
    irqs := irqHandler { b.irqs with pics := pics } r.intNo
    latched := b.latched
    served := b.served ++ [lineOf vector] }

def turn (b : Board δ) : Turn → Board δ
  | .work => { b with hw := prog b.hw }
  | .edge n =>
      { b with
        irqs := { b.irqs with pics := b.irqs.pics.raise n }
        latched :=
          if n.val = 2 ∨ b.irqs.pics.pending n then b.latched
          else b.latched ++ [n.val] }
  | .mask m1 m2 =>
      { b with
        irqs :=
          { b.irqs with
            pics := (b.irqs.pics.outb PIC1_DATA m1).outb PIC2_DATA m2 } }
  | .take =>
      if b.hw.eflags &&& FLAG_IF = 0 then b
      else
        match b.irqs.pics.intAck with
        | none => b
        | some (pics, vector) => deliver k b pics vector

/-- The turns as they are meant: the code goes on as if it were alone, and an
interrupt is the handler of its line. -/
def atOnce (b : Board δ) : Turn → Board δ
  | .take =>
      if b.hw.eflags &&& FLAG_IF = 0 then b
      else
        match b.irqs.pics.intAck with
        | none => b
        | some (pics, vector) =>
            { b with
              irqs := irqHandler { b.irqs with pics := pics }
                (UInt32.ofNat (32 + lineOf vector))
              served := b.served ++ [lineOf vector] }
  | t => turn k prog b t

/-- The system after `irq_init` with some handlers registered: the chips
have been remapped, from whatever state they were in. -/
def boardStart (hw : Hw) (pics : Pics) (irqHandlers : Nat → Option (δ → δ))
    (dev : δ) : Board δ where
  hw := hw
  irqs := ⟨picRemap pics, irqHandlers, dev⟩
  latched := []
  served := []

end Irq

end Thuos.Arch
