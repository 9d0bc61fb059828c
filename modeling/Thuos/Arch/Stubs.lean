/-
The entry stubs for exceptions, interrupts and system calls
(kernel/arch/x86/isr_stubs.S, syscall_stub.S), around the C functions that
they call.

A stub is the code up to its call and the code behind it. In between the C
function does what it likes, within what compiled code keeps to
(`CCall`): the stack pointer and the segment registers are as they were,
and what it writes is on the stack below its caller's or among the
kernel's own data.
-/
import Thuos.Lib.Rings

namespace Thuos.Arch

open ByteMem I386

/-- `registers_t`, in the order of its fields. -/
structure Registers where
  ds : UInt32
  edi : UInt32
  esi : UInt32
  ebp : UInt32
  esp : UInt32
  ebx : UInt32
  edx : UInt32
  ecx : UInt32
  eax : UInt32
  intNo : UInt32
  errCode : UInt32
  eip : UInt32
  cs : UInt32
  eflags : UInt32
  useresp : UInt32
  ss : UInt32
deriving DecidableEq, Repr

/-- The `registers_t` at an address. -/
def registersAt (m : Mem) (a : UInt32) : Registers where
  ds := word m a
  edi := word m (a + 4)
  esi := word m (a + 8)
  ebp := word m (a + 12)
  esp := word m (a + 16)
  ebx := word m (a + 20)
  edx := word m (a + 24)
  ecx := word m (a + 28)
  eax := word m (a + 32)
  intNo := word m (a + 36)
  errCode := word m (a + 40)
  eip := word m (a + 44)
  cs := word m (a + 48)
  eflags := word m (a + 52)
  useresp := word m (a + 56)
  ss := word m (a + 60)

-- ================================================================= the stubs

/-- `isr_common_stub` up to its call; `irq_common_stub` and `syscall_stub`
have the same. -/
def commonEntry : List SysInstr :=
  [.pusha, .clear .eax, .readSeg .ds .eax, .plain (.push .eax),
    .movImm16 0x10 .eax, .loadSeg .ds .eax, .loadSeg .es .eax,
    .loadSeg .fs .eax, .loadSeg .gs .eax, .plain (.push .esp)]

/-- The rest of the stub, behind the call. -/
def commonExit : List SysInstr :=
  [.add 4 .esp, .plain (.pop .eax), .loadSeg .ds .eax, .loadSeg .es .eax,
    .loadSeg .fs .eax, .loadSeg .gs .eax, .popa, .add 8 .esp, .sti, .iret]

/-- The exceptions with an `ISR_ERR` stub. -/
def ISR_ERR : List Nat := [8, 10, 11, 12, 13, 14, 17]

/-- The start of a stub: the number, and in front of it a dummy where the
processor has pushed no error code. -/
def stubHead (err : Bool) (n : UInt32) : List SysInstr :=
  .cli :: (if err then [] else [.pushImm 0]) ++ [.pushImm n]

/-- `isr0` to `isr31`. -/
def isrStub (num : Nat) : List SysInstr :=
  stubHead (decide (num ∈ ISR_ERR)) (UInt32.ofNat num) ++ commonEntry

/-- `irq0` to `irq15`. -/
def irqStub (num : Nat) : List SysInstr :=
  stubHead false (UInt32.ofNat (32 + num)) ++ commonEntry

/-- `syscall_stub`. -/
def syscallStub : List SysInstr := stubHead false 0x80 ++ commonEntry

/-- The code of the gate, the C function, and the way back. -/
def trap (tss : Tss) (gate : Gate) (err : List UInt32)
    (stub : List SysInstr) (handler : Hw → Hw) (h : Hw) : Hw :=
  sysRun (handler (sysRun (interrupt tss gate err h) stub)) commonExit

-- ============================================================ the C functions

/-- A call, made with the stack pointer where it stands: the argument is on
top. What the function may write is its own stack from `lo` on with its
argument, and the bytes of `K`. -/
structure CCall (lo : Nat) (K : Nat → Prop) (h h' : Hw) : Prop where
  esp : h'.reg .esp = h.reg .esp
  seg : h'.seg = h.seg
  mem : ∀ x, ¬ K x → x < lo ∨ (h.reg .esp).toNat + 4 ≤ x →
    h'.mem x = h.mem x

-- ================================================================= the frames

/-- The words of the frame that every trap has. -/
def Registers.inner (r : Registers) : List UInt32 :=
  [r.ds, r.edi, r.esi, r.ebp, r.esp, r.ebx, r.edx, r.ecx, r.eax, r.intNo,
    r.errCode, r.eip, r.cs, r.eflags]

/-- The words of the frame of a trap from ring `ring`. -/
def Registers.words (r : Registers) (ring : UInt16) : List UInt32 :=
  r.inner ++ if ring = 0 then [] else [r.useresp, r.ss]

/-- What the stub saves of the processor: `e` is the stack pointer that
`pusha` finds. -/
def savedRegs (h : Hw) (n err e : UInt32) : Registers where
  ds := (h.seg .ds).toUInt32
  edi := h.reg .edi
  esi := h.reg .esi
  ebp := h.reg .ebp
  esp := e
  ebx := h.reg .ebx
  edx := h.reg .edx
  ecx := h.reg .ecx
  eax := h.reg .eax
  intNo := n
  errCode := err
  eip := h.cpu.eip
  cs := (h.seg .cs).toUInt32
  eflags := h.eflags
  useresp := h.reg .esp
  ss := (h.seg .ss).toUInt32

end Thuos.Arch
