/-
The descriptor tables (kernel/arch/x86/gdt.c, idt.c, tss.c and
usermode_core.c; the gates are set in isr.c, irq.c and syscall.c), and what
the processor reads in them.

The addresses of the stubs, of the task state segment and of its stack are
parameters. The instructions that load the table registers are left out.
-/
import Thuos.Lib.Loop
import Thuos.Lib.Rings

namespace Thuos.Arch

open Loop ByteMem I386

-- ================================================================= the gates

/-- `struct gdt_entry`. -/
structure GdtEntry where
  limitLow : UInt16
  baseLow : UInt16
  baseMid : UInt8
  access : UInt8
  granularity : UInt8
  baseHigh : UInt8

/-- `gdt_set_gate`. -/
def gdtSetGate (gdt : Nat → GdtEntry) (n : Nat) (base limit : UInt32)
    (access gran : UInt8) : Nat → GdtEntry :=
  Function.update gdt n
    { limitLow := (limit &&& 0xFFFF).toUInt16
      baseLow := (base &&& 0xFFFF).toUInt16
      baseMid := ((base >>> 16) &&& 0xFF).toUInt8
      access := access
      granularity :=
        (((limit >>> 16) &&& 0x0F) ||| (gran.toUInt32 &&& 0xF0)).toUInt8
      baseHigh := ((base >>> 24) &&& 0xFF).toUInt8 }

/-- `struct idt_entry`. -/
structure IdtEntry where
  baseLow : UInt16
  selector : UInt16
  always0 : UInt8
  flags : UInt8
  baseHigh : UInt16

/-- `idt_set_gate`. -/
def idtSetGate (idt : Nat → IdtEntry) (num : UInt8) (handler : UInt32)
    (selector : UInt16) (flags : UInt8) : Nat → IdtEntry :=
  Function.update idt num.toNat
    { baseLow := (handler &&& 0xFFFF).toUInt16
      selector := selector
      always0 := 0
      flags := flags
      baseHigh := ((handler >>> 16) &&& 0xFFFF).toUInt16 }

/-- `um_tss_descriptor`: the bytes that it puts at `out`. -/
def umTssDescriptor (base limit : UInt32) : List UInt8 :=
  [(limit &&& 0xFF).toUInt8, ((limit >>> 8) &&& 0xFF).toUInt8,
    (base &&& 0xFF).toUInt8, ((base >>> 8) &&& 0xFF).toUInt8,
    ((base >>> 16) &&& 0xFF).toUInt8, 0x89,
    ((limit >>> 16) &&& 0x0F).toUInt8, ((base >>> 24) &&& 0xFF).toUInt8]

-- ================================================================= in memory

/-- A half-word in memory. -/
def le16 (v : UInt16) : List UInt8 := [v.toUInt8, (v >>> 8).toUInt8]

/-- The packed entries. -/
def GdtEntry.bytes (e : GdtEntry) : List UInt8 :=
  le16 e.limitLow ++ le16 e.baseLow
    ++ [e.baseMid, e.access, e.granularity, e.baseHigh]

def IdtEntry.bytes (e : IdtEntry) : List UInt8 :=
  le16 e.baseLow ++ le16 e.selector ++ [e.always0, e.flags] ++ le16 e.baseHigh

/-- The number with these bytes, the low one first. -/
def ofBytes : List UInt8 → Nat
  | [] => 0
  | b :: bs => b.toNat + 256 * ofBytes bs

/-- A segment as the processor sees it. -/
structure Segment where
  base : Nat
  limit : Nat
  access : UInt8
  flags : Nat
deriving DecidableEq, Repr

/-- How the processor reads the eight bytes of a segment descriptor. -/
def segmentOf (b : List UInt8) : Segment where
  base := ofBytes [b.getD 2 0, b.getD 3 0, b.getD 4 0, b.getD 7 0]
  limit := ofBytes [b.getD 0 0, b.getD 1 0] + 2 ^ 16 * ((b.getD 6 0).toNat % 16)
  access := b.getD 5 0
  flags := (b.getD 6 0).toNat / 16

/-- A segment descriptor has its present bit and its privilege level in the
access byte. -/
def Segment.present (s : Segment) : Bool := s.access.toNat / 128 = 1

def Segment.dpl (s : Segment) : Nat := s.access.toNat / 32 % 4

/-- The last address, by the granularity flag. -/
def Segment.last (s : Segment) : Nat :=
  if s.flags / 8 = 1 then s.limit * 4096 + 4095 else s.limit

/-- How the processor reads the eight bytes of a gate: the gate, and the
ring from which `int` may use it. `none` is a gate that is not present, or
not a 32-bit interrupt gate. -/
def gateOf (b : List UInt8) : Option (Gate × Nat) :=
  let flags := (b.getD 5 0).toNat
  if flags / 128 = 1 ∧ flags % 32 = 14 then
    some (⟨UInt32.ofNat
        (ofBytes [b.getD 0 0, b.getD 1 0, b.getD 6 0, b.getD 7 0]),
      UInt16.ofNat (ofBytes [b.getD 2 0, b.getD 3 0])⟩, flags / 32 % 4)
  else none

-- ================================================================ at the start

/-- The size of `struct tss_entry`. -/
def TSS_SIZE : Nat := 104

/-- `tss_init`, with the segment at `base` and the end of its stack at
`top`: all bytes 0, then `ss0`, `esp0` and `iomap_base`. -/
def tssInit (m : Mem) (base top : Nat) : Mem :=
  let m := upTo TSS_SIZE (fun m i => m.set (base + i) 0) m
  let m := m.store32 (base + 8) 0x10
  let m := m.store32 (base + 4) top
  m.write (base + 102) (le16 (UInt16.ofNat TSS_SIZE))

/-- `tss_limit`. -/
def tssLimit : UInt32 := UInt32.ofNat TSS_SIZE - 1

/-- `gdt_init`, but for the task state segment. -/
def gdtInit (gdt : Nat → GdtEntry) (tssBase : UInt32) : Nat → GdtEntry :=
  let gdt := gdtSetGate gdt 0 0 0 0 0
  let gdt := gdtSetGate gdt 1 0 0xFFFFFFFF 0x9A 0xCF
  let gdt := gdtSetGate gdt 2 0 0xFFFFFFFF 0x92 0xCF
  let gdt := gdtSetGate gdt 3 0 0xFFFFFFFF 0xFA 0xCF
  let gdt := gdtSetGate gdt 4 0 0xFFFFFFFF 0xF2 0xCF
  gdtSetGate gdt 5 tssBase tssLimit 0x89 0x00

/-- `idt_init`. -/
def idtInit (idt : Nat → IdtEntry) : Nat → IdtEntry :=
  upTo 256 (fun idt i => idtSetGate idt (UInt8.ofNat i) 0 0 0) idt

/-- `isr_init`: one line for each exception. -/
def isrInit (isr : Nat → UInt32) (idt : Nat → IdtEntry) : Nat → IdtEntry :=
  upTo 32 (fun idt i => idtSetGate idt (UInt8.ofNat i) (isr i) 0x08 0x8E) idt

/-- The gates of `irq_init`: one line for each interrupt. -/
def irqGates (irq : Nat → UInt32) (idt : Nat → IdtEntry) : Nat → IdtEntry :=
  upTo 16 (fun idt i =>
    idtSetGate idt (UInt8.ofNat (32 + i)) (irq i) 0x08 0x8E) idt

/-- The gate of `syscall_init`. -/
def syscallGate (stub : UInt32) (idt : Nat → IdtEntry) : Nat → IdtEntry :=
  idtSetGate idt 0x80 stub 0x08 0xEE

/-- The table after `kernel_main` has called these. -/
def bootIdt (isr irq : Nat → UInt32) (stub : UInt32) (idt : Nat → IdtEntry) :
    Nat → IdtEntry :=
  syscallGate stub (irqGates irq (isrInit isr (idtInit idt)))

end Thuos.Arch
