/-
System calls (kernel/arch/x86/syscall_core.c, syscall.c), the way into
ring 3 and out of it (usermode.c, usermode_core.c, usermode_entry.S), and
what becomes of an exception there (isr.c).

A function pointer of the table is one of the C functions (`SysFn`). A call
returns a value, but for `sys_exit`, which leaves through
`usermode_resume_kernel`. The timer's ticks, which another module counts,
are part of the state.

The code in ring 3 is arbitrary: between two traps it may leave the
processor in any state of ring 3 and the memory as it likes, within what
`Legal` asks of it. The pages of the kernel are open to it, so that it
leaves the two places alone where the kernel keeps its way back is a
condition, not a consequence. That code cannot change its own ring is the
processor's to see to, and is part of the condition too.

Nothing in the kernel registers a handler for an exception, so
`isr_handler` always comes to its report, and halts. The buffer of
`sys_write` is mapped: an exception in ring 0, in the middle of a call, is
left out.
-/
import Thuos.Arch.Irq
import Thuos.Core.Kprintf
import Thuos.Sched.Context

namespace Thuos.Arch

open Machine ByteMem I386 Gui Video Thuos.Core

-- ============================================================ syscall_core.c

section Table

variable {φ ρ : Type*}

/-- `SYS_ENOSYS` and `SYS_MAX`. -/
def SYS_ENOSYS : Int32 := -38

def SYS_MAX : Nat := 16

/-- `syscall_table_init`. -/
def syscallTableInit (max : Nat) : List (Option φ) := List.replicate max none

/-- `syscall_register`: the table, and the value returned. -/
def syscallRegister (tbl : List (Option φ)) (max : Nat) (num : Int) (fn : φ) :
    List (Option φ) × Int :=
  if num < 0 ∨ num ≥ max then (tbl, -1) else (tbl.set num.toNat (some fn), 0)

/-- `syscall_call`, with what a call of a function and a failure are. -/
def syscallCall (tbl : List (Option φ)) (max : Nat) (num : UInt32)
    (call : φ → ρ) (enosys : ρ) : ρ :=
  if num.toNat ≥ max then enosys
  else
    match tbl.getD num.toNat none with
    | none => enosys
    | some fn => call fn

end Table

-- ================================================================= syscall.c

def SYS_UPTIME : Int := 0
def SYS_WRITE : Int := 1
def SYS_GETPID : Int := 2
def SYS_VERSION : Int := 3
def SYS_EXIT : Int := 4

/-- The functions of the table. -/
inductive SysFn
  | sysUptime
  | sysWrite
  | sysGetpid
  | sysVersion
  | sysExit
deriving DecidableEq, Repr

/-- The statics of syscall.c and usermode.c, and what the calls use. -/
structure SysState where
  table : List (Option SysFn)
  lastCs : UInt32
  umExitCode : Int32
  ticks : UInt32
  kout : Kout

/-- How a call ends. -/
inductive Outcome
  | returns (v : Int32)
  /-- through `usermode_resume_kernel` -/
  | resumes
deriving DecidableEq, Repr

/-- The bytes from an address on. -/
def bytesAt (m : Mem) (a len : UInt32) : List UInt8 :=
  (List.range len.toNat).map fun i => m (a + UInt32.ofNat i).toNat

/-- A call of a function, with its arguments. -/
def SysFn.call (glyph : Glyphs) (m : Mem) (s : SysState) (a b c : UInt32) :
    SysFn → SysState × Outcome
  | .sysUptime => (s, .returns s.ticks.toInt32)
  | .sysWrite =>
      ({ s with kout := kputsAll glyph s.kout (bytesAt m b c) },
        .returns c.toInt32)
  | .sysGetpid => (s, .returns 0)
  | .sysVersion => (s, .returns 0x0011)
  | .sysExit => ({ s with umExitCode := a.toInt32 }, .resumes)

/-- `syscall_dispatch`, but for the store of the result. -/
def syscallDispatch (glyph : Glyphs) (m : Mem) (s : SysState)
    (r : Registers) : SysState × Outcome :=
  let s := { s with lastCs := r.cs }
  syscallCall s.table SYS_MAX r.eax (SysFn.call glyph m s r.ebx r.ecx r.edx)
    (s, .returns SYS_ENOSYS)

/-- The table after `syscall_init` and `usermode_init`. -/
def sysTable : List (Option SysFn) :=
  let tbl := syscallTableInit SYS_MAX
  let tbl := (syscallRegister tbl SYS_MAX SYS_UPTIME .sysUptime).1
  let tbl := (syscallRegister tbl SYS_MAX SYS_WRITE .sysWrite).1
  let tbl := (syscallRegister tbl SYS_MAX SYS_GETPID .sysGetpid).1
  let tbl := (syscallRegister tbl SYS_MAX SYS_VERSION .sysVersion).1
  (syscallRegister tbl SYS_MAX SYS_EXIT .sysExit).1

-- ===================================================== usermode_core.c

/-- `um_selector`. -/
def umSelector (index : UInt16) (rpl : UInt8) : UInt16 :=
  (index <<< 3) ||| (rpl &&& 3).toUInt16

def UM_KDATA_IDX : UInt16 := 2
def UM_UCODE_IDX : UInt16 := 3
def UM_UDATA_IDX : UInt16 := 4

def UM_EFLAGS_IF : UInt32 := 0x00000200
def UM_EFLAGS_RSVD1 : UInt32 := 0x00000002
def UM_EFLAGS_NT : UInt32 := 0x00004000

/-- `um_user_eflags`. -/
def umUserEflags (baseFlags : UInt32) : UInt32 :=
  (baseFlags &&& ~~~UM_EFLAGS_NT) ||| UM_EFLAGS_IF ||| UM_EFLAGS_RSVD1

-- ==================================================== usermode_entry.S

/-- `usermode_enter`, with the address of `g_um_kresume_esp`. -/
def usermodeEnter (kresume : UInt32) : List SysInstr :=
  [.plain (.push .ebp), .plain (.push .ebx), .plain (.push .esi),
    .plain (.push .edi), .storeAbs .esp kresume,
    .plain (.load 20 .esp .ecx), .plain (.load 24 .esp .edx),
    .movImm 0x23 .eax, .loadSeg .ds .eax, .loadSeg .es .eax,
    .loadSeg .fs .eax, .loadSeg .gs .eax,
    .pushImm 0x23, .plain (.push .edx), .pushf, .plain (.pop .eax),
    .and 0xFFFFBFFF .eax, .or 0x00000200 .eax, .plain (.push .eax),
    .pushImm 0x1B, .plain (.push .ecx), .iret]

/-- `usermode_resume_kernel`. -/
def usermodeResumeKernel (kresume : UInt32) : List SysInstr :=
  [.cli, .movImm 0x10 .eax, .loadSeg .ds .eax, .loadSeg .es .eax,
    .loadSeg .fs .eax, .loadSeg .gs .eax, .loadAbs kresume .esp,
    .plain (.pop .edi), .plain (.pop .esi), .plain (.pop .ebx),
    .plain (.pop .ebp), .plain .ret]

-- ===================================================================== isr.c

/-- `exception_names`. -/
def exceptionNames : List CStr :=
  ["Divide-by-zero", "Debug", "Non-maskable interrupt", "Breakpoint",
    "Overflow", "Bound range exceeded", "Invalid opcode",
    "Device not available", "Double fault", "Coprocessor segment overrun",
    "Invalid TSS", "Segment not present", "Stack-segment fault",
    "General protection fault", "Page fault", "Reserved",
    "x87 floating-point exception", "Alignment check", "Machine check",
    "SIMD floating-point exception", "Virtualization exception",
    "Control protection exception", "Reserved", "Reserved", "Reserved",
    "Reserved", "Reserved", "Reserved", "Reserved", "Reserved", "Reserved",
    "Reserved"].map CStr.ofString

/-- The calls of `kprintf` in `isr_handler`, in order. -/
def crashReport (r : Registers) : List (CStr × List Arg) :=
  let n := r.intNo
  let name :=
    if n < 32 then exceptionNames.getD n.toNat (CStr.ofString "Unknown")
    else CStr.ofString "Unknown"
  [(CStr.ofString "\n  *** THUOS CPU EXCEPTION ***\n\n", []),
    (CStr.ofString "  #%u  %s\n", [.word n, .str (some name)]),
    (CStr.ofString "  error code : 0x%08x\n", [.word r.errCode]),
    (CStr.ofString "  eip        : 0x%08x\n", [.word r.eip]),
    (CStr.ofString "  cs         : 0x%08x\n", [.word r.cs]),
    (CStr.ofString "  eflags     : 0x%08x\n", [.word r.eflags]),
    (CStr.ofString "  eax=0x%08x ebx=0x%08x ecx=0x%08x edx=0x%08x\n",
      [.word r.eax, .word r.ebx, .word r.ecx, .word r.edx]),
    (CStr.ofString "\n  System halted.\n", [])]

/-- `isr_handler` up to its loop: white on red, an empty screen, and the
report. -/
def isrHandler (glyph : Glyphs) (k : Kout) (r : Registers) : Kout :=
  let vga := vgaClear (vgaSetColor k.sinks.vga VGA_WHITE VGA_RED)
  (crashReport r).foldl
    (fun k (fmt, args) => kputsAll glyph k ((kprintf fmt args).getD []))
    { k with sinks := { k.sinks with vga := vga } }

-- ==================================================================== ring 3

/-- The processor and the statics. -/
structure UserRun where
  hw : Hw
  sys : SysState
  /-- the processor is in the loop at the end of `isr_handler` -/
  halted : Bool

/-- What takes place in ring 3. -/
inductive UserOp
  /-- the code runs, and leaves the processor like this -/
  | user (h : Hw)
  /-- an interrupt -/
  | irq (num : Nat)
  /-- `int $0x80` -/
  | int80
  /-- an exception, with the error code of those that have one -/
  | exception (num : Fin 32) (v : UInt32)

section Ring3

variable (glyph : Glyphs) (k : Setup) (kresume : UInt32)

/-- `r->eax = v`, behind the compiled code of the dispatcher. -/
def storeEax (p : UInt32) (v : UInt32) (h : Hw) : Hw :=
  { h with cpu := { h.cpu with mem := setWord h.mem (p + 32) v } }

/-- `int $0x80`, from ring 0 or from ring 3. -/
def int80 (u : UserRun) : UserRun :=
  let s := sysRun (interrupt k.tss (k.gate 0x80) [] u.hw) syscallStub
  let p := word s.mem (s.reg .esp)
  match syscallDispatch glyph s.mem u.sys (registersAt s.mem p) with
  | (sys, .returns v) =>
      { u with
        hw := sysRun (storeEax p v.toUInt32 (k.compiled s)) commonExit
        sys := sys }
  | (sys, .resumes) =>
      { u with
        hw := sysRun (k.compiled s) (usermodeResumeKernel kresume)
        sys := sys }

/-- An exception: through its gate and its stub into `isr_handler`, which
does not come back. What its code does to the processor before the `hlt`
is of no account, since nothing runs after it. -/
def fault (u : UserRun) (num : Fin 32) (v : UInt32) : UserRun :=
  let err := if num.val ∈ ISR_ERR then [v] else []
  let s := sysRun (interrupt k.tss (k.gate (UInt8.ofNat num)) err u.hw)
    (isrStub num)
  let r := registersAt s.mem (word s.mem (s.reg .esp))
  { hw := s
    sys := { u.sys with kout := isrHandler glyph u.sys.kout r }
    halted := true }

def userStep (u : UserRun) (op : UserOp) : UserRun :=
  if u.halted then u
  else
    match op with
    | .user h => { u with hw := h }
    | .irq num =>
        { u with
          hw := trap k.tss (k.gate (UInt8.ofNat (32 + num))) [] (irqStub num)
            k.compiled u.hw }
    | .int80 => int80 glyph k kresume u
    | .exception num v => fault glyph k u num v

/-- The bytes that hold the kernel's way back: the saved registers with the
return address, and `g_um_kresume_esp`. -/
def WayBack (e : UInt32) (x : Nat) : Prop :=
  (e.toNat ≤ x ∧ x < e.toNat + 20)
    ∨ kresume.toNat ≤ x ∧ x < kresume.toNat + 4

/-- What the code in ring 3 keeps to: it stays there, in a flat segment of
its own, and leaves the way back alone. -/
def Legal (e : UInt32) (u : UserRun) : UserOp → Prop
  | .user h =>
      u.hw.ring = 3 ∧ h.ring = 3 ∧ Flat h
        ∧ ∀ x, WayBack kresume e x → h.mem x = u.hw.mem x
  | _ => u.hw.ring = 3

end Ring3

end Thuos.Arch
