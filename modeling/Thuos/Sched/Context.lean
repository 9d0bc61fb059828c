/-
Contexts: the switch (kernel/sched/context.S), the frame that `task_init`
builds for a new task (kernel/sched/task.c), and any number of contexts
that run one at a time on one processor.

The switch is the source's instructions. `task_init` stores through `sp`
as the source does, `*--sp = v` word by word. The running context is
arbitrary code: between two calls it may leave any registers and any
memory, within what `Legal` asks of it, and it calls
`thuos_context_switch` with its return address and the two arguments on
its stack.

Beside the processor a run carries what each suspended context is promised:
the point at which it goes on.
-/
import Thuos.Lib.I386
import Thuos.Lib.Machine

namespace Thuos.Sched

open ByteMem I386

-- ============================================================== the switch

/-- `thuos_context_switch`, up to the new stack. -/
def switchSave : List Instr :=
  [.load 4 .esp .eax, .load 8 .esp .edx,
    .push .ebx, .push .esi, .push .edi, .push .ebp,
    .store .esp .eax, .mov .edx .esp]

/-- `thuos_context_switch`, from the new stack on. -/
def switchRestore : List Instr :=
  [.pop .ebp, .pop .edi, .pop .esi, .pop .ebx, .ret]

def thuosContextSwitch : List Instr := switchSave ++ switchRestore

-- =============================================================== task_init

/-- `STACK_ALIGN`. -/
def STACK_ALIGN : UInt32 := 16

/-- `task_init` on the `ktask_t` at `t`, whose fields `esp`, `stack` and
`stack_sz` are its three words: the memory after the call, and the value
returned. -/
def taskInit (m : Mem) (t stack size entry : UInt32) : Mem × UInt32 :=
  let m := setWord m (t + 4) stack
  let m := setWord m (t + 8) size
  let top := (stack + size) &&& ~~~(STACK_ALIGN - 1)
  let (m, sp) := pushAll (m, top) [entry, 0, 0, 0, 0]
  (setWord m t sp, sp)

-- ========================================================== many contexts

/-- Where contexts keep their stacks and their `ktask_t`: objects of their
own, none of which overlaps another. -/
structure Contexts (ι : Type*) where
  stack : ι → UInt32
  size : ι → UInt32
  task : ι → UInt32
  stack_end : ∀ i, (stack i).toNat + (size i).toNat < 2 ^ 32
  task_end : ∀ i, (task i).toNat + 12 < 2 ^ 32
  stacks_apart : ∀ i j, i ≠ j →
    (stack i).toNat + (size i).toNat ≤ (stack j).toNat
      ∨ (stack j).toNat + (size j).toNat ≤ (stack i).toNat
  tasks_apart : ∀ i j, i ≠ j →
    (task i).toNat + 12 ≤ (task j).toNat ∨ (task j).toNat + 12 ≤ (task i).toNat
  task_apart : ∀ i j,
    (task i).toNat + 12 ≤ (stack j).toNat
      ∨ (stack j).toNat + (size j).toNat ≤ (task i).toNat

/-- Where a context goes on: the address, the registers a function must
preserve, and the stack pointer. -/
structure Point where
  eip : UInt32
  ebx : UInt32
  esi : UInt32
  edi : UInt32
  ebp : UInt32
  esp : UInt32
  deriving DecidableEq, Repr

/-- Where the processor is. -/
def point (c : Cpu) : Point :=
  { eip := c.eip, ebx := c.reg .ebx, esi := c.reg .esi, edi := c.reg .edi,
    ebp := c.reg .ebp, esp := c.reg .esp }

/-- Where the caller goes on when the function that has just been entered
returns to it. -/
def returnPoint (c : Cpu) : Point :=
  { eip := word c.mem (c.reg .esp), ebx := c.reg .ebx, esi := c.reg .esi,
    edi := c.reg .edi, ebp := c.reg .ebp, esp := c.reg .esp + 4 }

structure Run (ι : Type*) where
  cpu : Cpu
  running : ι
  /-- what a suspended context is promised; `none` for the others -/
  promise : ι → Option Point

inductive CtxOp (ι : Type*)
  /-- the running context runs, and leaves the processor like this -/
  | work (c : Cpu)
  /-- it calls `task_init` -/
  | create (i : ι) (entry : UInt32)
  /-- it calls `thuos_context_switch` -/
  | switch (i : ι)

section Step

variable {ι : Type*} [DecidableEq ι] (L : Contexts ι)

/-- The entry point of a new context, with the registers 0 and its stack
empty, that is, at the last multiple of 16 in it. -/
def entryPoint (i : ι) (entry : UInt32) : Point :=
  { eip := entry, ebx := 0, esi := 0, edi := 0, ebp := 0,
    esp := UInt32.ofNat
      (((L.stack i).toNat + (L.size i).toNat) / 16 * 16) }

def ctxStep (s : Run ι) : CtxOp ι → Run ι
  | .work c => { s with cpu := c }
  | .create i entry =>
      { s with
          cpu := { s.cpu with
            mem := (taskInit s.cpu.mem (L.task i) (L.stack i) (L.size i)
              entry).1 }
          promise := Function.update s.promise i (some (entryPoint L i entry)) }
  | .switch i =>
      { cpu := run s.cpu thuosContextSwitch
        running := i
        promise := Function.update
          (Function.update s.promise s.running (some (returnPoint s.cpu)))
          i none }

/-- The byte belongs to a suspended context: to its stack or its
`ktask_t`. -/
def Suspended (s : Run ι) (x : Nat) : Prop :=
  ∃ i, (s.promise i).isSome
    ∧ (((L.stack i).toNat ≤ x ∧ x < (L.stack i).toNat + (L.size i).toNat)
      ∨ ((L.task i).toNat ≤ x ∧ x < (L.task i).toNat + 12))

/-- What the code around the two functions keeps to. A running context
writes nothing of a suspended one. A context is created while it does not
run, on a stack of 64 bytes at least. A switch goes to a suspended context,
as `coop_yield` calls it: the address of the caller's `esp` field and the
value of the other's are the arguments, and the call and the four pushes
are inside the caller's stack. -/
def Legal (s : Run ι) : CtxOp ι → Prop
  | .work c => ∀ x, Suspended L s x → c.mem x = s.cpu.mem x
  | .create i _ => i ≠ s.running ∧ 64 ≤ (L.size i).toNat
  | .switch i =>
      (s.promise i).isSome
        ∧ (L.stack s.running).toNat + 16 ≤ (s.cpu.reg .esp).toNat
        ∧ (s.cpu.reg .esp).toNat + 12
          ≤ (L.stack s.running).toNat + (L.size s.running).toNat
        ∧ word s.cpu.mem (s.cpu.reg .esp + 4) = L.task s.running
        ∧ word s.cpu.mem (s.cpu.reg .esp + 8) = word s.cpu.mem (L.task i)

/-- A call as it is compiled, `thuos_context_switch(&prev->esp, next->esp)`:
the arguments and the return address on the stack. -/
def callSwitch (s : Run ι) (i : ι) (ret : UInt32) : CtxOp ι :=
  .work (s.cpu.setStack (pushAll s.cpu.stack
    [word s.cpu.mem (L.task i), L.task s.running, ret]))

/-- A switch goes on where the context it goes to was promised. -/
def Kept (s : Run ι) : CtxOp ι → Prop
  | .switch i =>
      s.promise i = some (point (ctxStep L s (.switch i)).cpu)
  | _ => True

end Step

end Thuos.Sched
