/-
The interrupt controllers (kernel/arch/x86/pic.c): two 8259 chips, the
second on line 2 of the first, and what the kernel writes to their ports.

The chips are no part of the sources. Of their rules these are modelled:
requests are latched at an edge; a request is passed on if it is not
masked and nothing of its priority or above is in service, line 0 first;
an acknowledged request goes from the request register to the in-service
register, and its vector is the line behind the offset; the words of the
initialisation come in order, the first of them clearing the registers;
an unspecific end of interrupt takes the first line out of service. The
last word, ICW4, selects the mode for this processor and is not kept.
-/
import Mathlib

namespace Thuos.Arch

-- =================================================================== one chip

structure Chip where
  /-- requests -/
  irr : Fin 8 → Bool
  /-- in service -/
  isr : Fin 8 → Bool
  /-- the mask -/
  imr : UInt8
  offset : UInt8
  /-- the lines with a second chip, or on that chip the line it is on -/
  cascade : UInt8
  /-- the initialisation word that comes next; 0 when there is none -/
  icw : Nat

namespace Chip

def masked (c : Chip) (i : Fin 8) : Bool := c.imr.toNat.testBit i

/-- The first line in service. -/
def served (c : Chip) : Option (Fin 8) :=
  (List.finRange 8).find? fun i => c.isr i

/-- The line whose request is passed on, given the request register. -/
def nextOf (c : Chip) (irr : Fin 8 → Bool) : Option (Fin 8) :=
  (List.finRange 8).find? fun i =>
    irr i && !c.masked i && (c.served).all (i < ·)

def request (c : Chip) (i : Fin 8) : Chip :=
  { c with irr := Function.update c.irr i true }

def acknowledge (c : Chip) (i : Fin 8) : Chip :=
  { c with
    irr := Function.update c.irr i false
    isr := Function.update c.isr i true }

/-- A write to the command port. -/
def command (c : Chip) (v : UInt8) : Chip :=
  if v &&& 0x10 ≠ 0 then
    { c with
      irr := fun _ => false, isr := fun _ => false, imr := 0, icw := 2 }
  else if v = 0x20 then
    match c.served with
    | some i => { c with isr := Function.update c.isr i false }
    | none => c
  else c

/-- A write to the data port. -/
def data (c : Chip) (v : UInt8) : Chip :=
  if c.icw = 2 then { c with offset := v &&& 0xF8, icw := 3 }
  else if c.icw = 3 then { c with cascade := v, icw := 4 }
  else if c.icw = 4 then { c with icw := 0 }
  else { c with imr := v }

end Chip

-- ================================================================ both chips

structure Pics where
  pic1 : Chip
  pic2 : Chip

def PIC1_CMD : UInt16 := 0x20
def PIC1_DATA : UInt16 := 0x21
def PIC2_CMD : UInt16 := 0xA0
def PIC2_DATA : UInt16 := 0xA1
def PIC_EOI : UInt8 := 0x20
def ICW1_INIT : UInt8 := 0x10
def ICW1_ICW4 : UInt8 := 0x01
def ICW4_8086 : UInt8 := 0x01
def PIC1_OFFSET : UInt8 := 0x20
def PIC2_OFFSET : UInt8 := 0x28

namespace Pics

/-- `outb`; the port of `io_wait` is no port of the chips. -/
def outb (p : Pics) (port : UInt16) (v : UInt8) : Pics :=
  if port = PIC1_CMD then { p with pic1 := p.pic1.command v }
  else if port = PIC1_DATA then { p with pic1 := p.pic1.data v }
  else if port = PIC2_CMD then { p with pic2 := p.pic2.command v }
  else if port = PIC2_DATA then { p with pic2 := p.pic2.data v }
  else p

/-- `inb` from one of the two data ports. -/
def inb (p : Pics) (port : UInt16) : UInt8 :=
  if port = PIC1_DATA then p.pic1.imr else p.pic2.imr

/-- The requests that the first chip sees: line 2 is the second chip. -/
def requests (p : Pics) : Fin 8 → Bool :=
  Function.update p.pic1.irr 2 (p.pic2.nextOf p.pic2.irr).isSome

/-- The edge of a device's line, 0 to 15; line 2 is no device's. -/
def raise (p : Pics) (n : Fin 16) : Pics :=
  if h : n.val < 8 then
    if n = 2 then p else { p with pic1 := p.pic1.request ⟨n, h⟩ }
  else { p with pic2 := p.pic2.request ⟨n.val - 8, by omega⟩ }

/-- The line of the first chip that the second one is on. -/
abbrev SECOND_LINE : Fin 8 := 2

/-- The lines of the timer and of the mouse. -/
abbrev TIMER_LINE : Fin 16 := 0
abbrev MOUSE_LINE : Fin 16 := 12

/-- The processor acknowledges: the chips after it, and the vector. If the
line is one with a second chip, that chip gives the vector. -/
def intAck (p : Pics) : Option (Pics × UInt8) :=
  match p.pic1.nextOf p.requests with
  | none => none
  | some i =>
      let pic1 := p.pic1.acknowledge i
      if p.pic1.cascade.toNat.testBit i ∧ p.pic2.cascade.toNat = i then
        match p.pic2.nextOf p.pic2.irr with
        | none => none
        | some j =>
            some (⟨pic1, p.pic2.acknowledge j⟩,
              p.pic2.offset + UInt8.ofNat j)
      else some ({ p with pic1 := pic1 }, p.pic1.offset + UInt8.ofNat i)

end Pics

-- =============================================================== the functions

/-- `io_wait`. -/
def ioWait (p : Pics) : Pics := p.outb 0x80 0

/-- `pic_remap`. -/
def picRemap (p : Pics) : Pics :=
  let mask1 := p.inb PIC1_DATA
  let mask2 := p.inb PIC2_DATA
  let p := ioWait (p.outb PIC1_CMD (ICW1_INIT ||| ICW1_ICW4))
  let p := ioWait (p.outb PIC2_CMD (ICW1_INIT ||| ICW1_ICW4))
  let p := ioWait (p.outb PIC1_DATA PIC1_OFFSET)
  let p := ioWait (p.outb PIC2_DATA PIC2_OFFSET)
  -- PIC2 at IRQ2, and its cascade identity
  let p := ioWait (p.outb PIC1_DATA 0x04)
  let p := ioWait (p.outb PIC2_DATA 0x02)
  let p := ioWait (p.outb PIC1_DATA ICW4_8086)
  let p := ioWait (p.outb PIC2_DATA ICW4_8086)
  let p := p.outb PIC1_DATA mask1
  p.outb PIC2_DATA mask2

/-- `pic_send_eoi`. -/
def picSendEoi (p : Pics) (irq : UInt8) : Pics :=
  let p := if irq ≥ 8 then p.outb PIC2_CMD PIC_EOI else p
  p.outb PIC1_CMD PIC_EOI

end Thuos.Arch
