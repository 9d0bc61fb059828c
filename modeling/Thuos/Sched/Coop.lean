/-
Cooperative multitasking (kernel/sched/coop.c): the scheduler says who is
next, the context switch goes there.

Here a context is known by what its stack pointer says. `frames` is the
memory under the saved stack pointers: which code a switch to one of them
goes on with. A switch saves the running context under a new stack pointer
and goes on with whatever is under the one it loads; a frame stays in
memory after it has been used, so a stale pointer would go on with stale
code. What the switch does to the registers is `Thuos.Sched.Context`.

The number of tasks, the size of the table and the number of turns of each
worker are parameters; in the source they are `NCOOP`, `NCOOP + 1` and
`ITERS` for all. The lines that the tasks print are the events of the log,
and so is every transfer of control.
-/
import Thuos.Sched.Core
import Thuos.Lib.Loop

namespace Thuos.Sched

-- ============================================================ the state

/-- Where a context is, between two calls of `coop_yield`. -/
inductive Pc
  /-- `coop_run_demo`, before it calls `coop_yield` -/
  | start
  /-- `coop_run_demo`, after -/
  | back
  | returned
  /-- `coop_worker`, at its first line -/
  | entry
  /-- `coop_worker`, at the head of its loop -/
  | loop (me : Int) (i : Nat)
  /-- `for (;;) { }` -/
  | dead
  /-- a stack pointer with no frame under it: anything may happen -/
  | lost
  deriving DecidableEq, Repr

/-- What happens in a run, with the stack pointers of a transfer. -/
inductive CoopEvent (E : Type*)
  /-- a step of a task, `[task me] tick` -/
  | tick (me : Int)
  /-- a task exits, `[task me] done` -/
  | done (me : Int)
  /-- `thuos_context_switch`, with `current` and `sched_current` as they
  are when it is called -/
  | transfer (prev next current running : Int) (saved loaded : E)
  /-- `coop_run_demo` goes on -/
  | back
  deriving DecidableEq, Repr

/-- The stack pointers that the compiled code and `task_init` come up
with. All that is known of them is whose stack they point into: a context
suspends itself on its own stack, and task `i` starts on `cstack[i]`. -/
structure StackPtrs (E : Type*) where
  /-- of context `c` when it calls the switch, after what has happened -/
  saved : Int → List (CoopEvent E) → E
  /-- of the frame that `task_init` builds -/
  top : Nat → E
  owner : E → Int
  owner_saved : ∀ c log, owner (saved c log) = c
  owner_top : ∀ i, owner (top i) = i

structure Coop (E : Type*) where
  csched : SchedT
  /-- `ctask[i].esp` -/
  ctask : Nat → E
  /-- `cmain.esp` -/
  cmain : E
  /-- running task index, or -1 = main -/
  current : Int
  frames : E → Option Pc
  pc : Pc
  /-- newest first -/
  log : List (CoopEvent E)

/-- `sched_current`. -/
def schedCurrent (s : SchedT) : Int :=
  if s.current < 0 then -1 else (s.task s.current.toNat).id

namespace Coop

variable {E : Type*} [DecidableEq E]

def emit (s : Coop E) (e : CoopEvent E) : Coop E :=
  { s with log := e :: s.log }

/-- `(c < 0) ? cmain.esp : ctask[c].esp` -/
def esp (s : Coop E) (c : Int) : E :=
  if c < 0 then s.cmain else s.ctask c.toNat

def setEsp (s : Coop E) (c : Int) (e : E) : Coop E :=
  if c < 0 then { s with cmain := e }
  else { s with ctask := Function.update s.ctask c.toNat e }

/-- `thuos_context_switch(save, nsp)` from the context `prev`, whose code
goes on with `pc` when the call returns. -/
def contextSwitch (p : StackPtrs E) (s : Coop E) (prev next : Int) (pc : Pc) :
    Coop E :=
  let nsp := s.esp next
  let sp := p.saved prev s.log
  let s := s.emit (.transfer prev next s.current (schedCurrent s.csched) sp nsp)
  let s := { s with frames := Function.update s.frames sp (some pc) }
  let s := s.setEsp prev sp
  { s with pc := (s.frames nsp).getD .lost }

/-- `coop_yield`, called by code that goes on with `pc`. -/
def coopYield (p : StackPtrs E) (s : Coop E) (pc : Pc) : Coop E :=
  let prev := s.current
  let (csched, nid) := schedPickNext s.csched
  let next := if nid < 0 then -1 else nid
  if next = prev then { s with csched := csched, pc := pc }
  else contextSwitch p { s with csched := csched, current := next } prev next pc

/-- The running code up to its next call of `coop_yield`, and the call. -/
def coopStep (iters : Nat → Nat) (p : StackPtrs E) (s : Coop E) : Coop E :=
  match s.pc with
  | .start => coopYield p s .back
  | .back => { s.emit .back with pc := .returned }
  | .entry => { s with pc := .loop s.current 0 }
  | .loop me i =>
      if i < iters me.toNat then
        coopYield p (s.emit (.tick me)) (.loop me (i + 1))
      else
        coopYield p
          { s.emit (.done me) with csched := schedExit s.csched me } .dead
  | .returned | .dead | .lost => s

/-- `coop_run_demo` up to its call of `coop_yield`: `n` tasks in a table of
`cap`. Static memory and the stacks may hold anything before. -/
def coopInit (p : StackPtrs E) (cap n : Nat) (ctask : Nat → E) (cmain : E)
    (frames : E → Option Pc) : Coop E :=
  Loop.upTo n (fun s i =>
    { s with
        csched := (schedAdd s.csched i 1).1
        ctask := Function.update s.ctask i (p.top i)
        frames := Function.update s.frames (p.top i) (some .entry) })
    { csched := schedInit cap, ctask := ctask, cmain := cmain, current := -1
      frames := frames, pc := .start, log := [] }

end Coop

end Thuos.Sched
