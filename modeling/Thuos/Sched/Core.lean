/-
The round-robin scheduling policy (kernel/sched/sched_core.c): a table of
tasks, the index of the running one and the position the next scan
starts from.

The table is a list whose length is the capacity; a slot is read with
`SchedT.task` and written with `SchedT.setTask`. `current` is an `int`
index with `-1` for none, as in the source. The source's `cursor + n`
stays far below the `int` range: a table of 20-byte tasks in a 32-bit
address space has fewer than `2^28` slots, so indices are naturals here.
The `uint32_t` counters are naturals too, and only `ran` can wrap.

Each operation is one definition under the source's name. `Op` and
`step` collect the six state-changing calls into a machine, and the
`_spec` lemmas say once, slot by slot, what each call does.
-/
import Thuos.Lib.Machine
import Thuos.Lib.Cyclic
import Thuos.Lib.Table

namespace Thuos.Sched

open Machine

-- ============================================================ the state

/-- `task_state_t`. -/
inductive TaskState
  | unused
  | ready
  | running
  | blocked
  | zombie
  deriving DecidableEq, Repr

/-- `sched_task_t`: one slot of the table. -/
structure SchedTask where
  id : Int
  state : TaskState
  /-- ticks left in the current time slice -/
  quantum : Nat
  /-- slice length, reloaded when scheduled -/
  reload : Nat
  /-- total ticks consumed -/
  ran : Nat
  deriving DecidableEq, Repr

/-- The contents `sched_init` gives every slot. -/
def emptySlot : SchedTask :=
  { id := 0, state := .unused, quantum := 0, reload := 0, ran := 0 }

/-- `sched_t`, with the task storage it points to. -/
structure SchedT where
  tasks : List SchedTask
  /-- index of the running task, or -1 -/
  current : Int
  /-- round-robin scan position -/
  cursor : Nat
  deriving DecidableEq, Repr

namespace SchedT

/-- `s->cap`, the number of slots. -/
def cap (s : SchedT) : Nat := s.tasks.length

/-- `s->tasks[i]`. -/
def task (s : SchedT) (i : Nat) : SchedTask := Table.slot emptySlot s.tasks i

/-- `s->tasks[i] = t`. -/
def setTask (s : SchedT) (i : Nat) (t : SchedTask) : SchedT :=
  { s with tasks := s.tasks.set i t }

/-- `s->tasks[i].state = st`. -/
def setState (s : SchedT) (i : Nat) (st : TaskState) : SchedT :=
  s.setTask i { s.task i with state := st }

/-- A table keeps its size when a slot is written. -/
@[simp] theorem cap_setTask (s : SchedT) (i : Nat) (t : SchedTask) :
    (s.setTask i t).cap = s.cap := List.length_set

/-- A slot that is written is not the current task's number. -/
@[simp] theorem current_setTask (s : SchedT) (i : Nat) (t : SchedTask) :
    (s.setTask i t).current = s.current := rfl

/-- A slot that is written is not the cursor. -/
@[simp] theorem cursor_setTask (s : SchedT) (i : Nat) (t : SchedTask) :
    (s.setTask i t).cursor = s.cursor := rfl

/-- The slot that was written holds the task. -/
theorem task_setTask_self {s : SchedT} {i : Nat} (h : i < s.cap)
    (t : SchedTask) : (s.setTask i t).task i = t := Table.slot_set_self h t

/-- Every other slot holds the task that it held. -/
theorem task_setTask_ne {s : SchedT} {i j : Nat} (h : j ≠ i)
    (t : SchedTask) : (s.setTask i t).task j = s.task j :=
  Table.slot_set_ne h t

/-- The updates of `current` and `cursor` leave the table alone. -/
@[simp] theorem task_mk (s : SchedT) (c : Int) (k i : Nat) :
    task ⟨s.tasks, c, k⟩ i = s.task i := rfl

/-- The size is that of the table, whatever the current task and the cursor
are. -/
@[simp] theorem cap_mk (s : SchedT) (c : Int) (k : Nat) :
    cap ⟨s.tasks, c, k⟩ = s.cap := rfl

end SchedT

-- ======================================================= the operations

/-- `sched_init`. -/
def schedInit (cap : Nat) : SchedT :=
  { tasks := List.replicate cap emptySlot, current := -1, cursor := 0 }

/-- `find_id`: the first slot in use that carries `id`. -/
def findId (s : SchedT) (id : Int) : Option Nat :=
  s.tasks.findIdx? fun t => t.state ≠ .unused && t.id = id

/-- `sched_add`: the first unused slot takes the task; `none` is the
source's `-1` for a full table. -/
def schedAdd (s : SchedT) (id : Int) (quantum : Nat) : SchedT × Option Nat :=
  let quantum := if quantum = 0 then 1 else quantum
  match s.tasks.findIdx? fun t => t.state = .unused with
  | some i =>
      (s.setTask i { id := id, state := .ready, quantum := quantum,
                     reload := quantum, ran := 0 }, some i)
  | none => (s, none)

/-- The first half of `sched_pick_next`: the currently running task goes
back to the ready pool. -/
def requeue (s : SchedT) : SchedT :=
  if 0 ≤ s.current ∧ (s.task s.current.toNat).state = .running then
    s.setState s.current.toNat .ready
  else s

/-- The scan of `sched_pick_next`: slots `cursor, cursor + 1, …` around
the table. -/
def scanReady (s : SchedT) : Option Nat :=
  Cyclic.scan s.cap s.cursor fun i => (s.task i).state = .ready

/-- `sched_pick_next`: the state after the call and the id it returns,
`-1` when nothing is runnable. -/
def schedPickNext (s : SchedT) : SchedT × Int :=
  let s := requeue s
  match scanReady s with
  | some i =>
      let t := { s.task i with state := .running, quantum := (s.task i).reload }
      ({ s.setTask i t with current := i, cursor := (i + 1) % s.cap }, t.id)
  | none => ({ s with current := -1 }, -1)

/-- `t->ran++; if (t->quantum > 0) t->quantum--;` -/
def charge (t : SchedTask) : SchedTask :=
  { t with ran := (t.ran + 1) % 2 ^ 32,
           quantum := if 0 < t.quantum then t.quantum - 1 else t.quantum }

/-- `sched_on_tick`: 1 if the time slice expired. -/
def schedOnTick (s : SchedT) : SchedT × Nat :=
  if s.current < 0 then (s, 0)
  else
    let i := s.current.toNat
    if (s.task i).state ≠ .running then (s, 0)
    else
      let t := charge (s.task i)
      (s.setTask i t, if t.quantum = 0 then 1 else 0)

/-- The common body of `sched_block` and `sched_exit`: the slot found for
`id` changes state, and stops being the current one. -/
def retire (s : SchedT) (id : Int) (st : TaskState) : SchedT :=
  match findId s id with
  | none => s
  | some i =>
      let s' := s.setState i st
      if s'.current = i then { s' with current := -1 } else s'

/-- `sched_block`. -/
def schedBlock (s : SchedT) (id : Int) : SchedT := retire s id .blocked

/-- `sched_unblock`. -/
def schedUnblock (s : SchedT) (id : Int) : SchedT :=
  match findId s id with
  | none => s
  | some i => if (s.task i).state = .blocked then s.setState i .ready else s

/-- `sched_exit`. -/
def schedExit (s : SchedT) (id : Int) : SchedT := retire s id .zombie

/-- The tasks `sched_runnable` counts: READY or RUNNING. -/
def Runnable (t : SchedTask) : Prop := t.state = .ready ∨ t.state = .running

instance (t : SchedTask) : Decidable (Runnable t) :=
  inferInstanceAs (Decidable (_ ∨ _))

/-- `sched_runnable`. -/
def schedRunnable (s : SchedT) : Nat := s.tasks.countP fun t => Runnable t

-- ========================================================== the machine

/-- The state-changing calls. -/
inductive Op
  | add (id : Int) (quantum : Nat)
  | pickNext
  | onTick
  | block (id : Int)
  | unblock (id : Int)
  | exit (id : Int)
  deriving DecidableEq, Repr

/-- One call, keeping the state it leaves. -/
def step (s : SchedT) : Op → SchedT
  | .add id quantum => (schedAdd s id quantum).1
  | .pickNext => (schedPickNext s).1
  | .onTick => (schedOnTick s).1
  | .block id => schedBlock s id
  | .unblock id => schedUnblock s id
  | .exit id => schedExit s id

-- ============================================== what each call does
-- One lemma per call, slot by slot: every invariant below is a case
-- analysis over these and never unfolds a call again.

/-- `sched_init` makes a table of the size that it is given. -/
@[simp] theorem cap_schedInit (cap : Nat) : (schedInit cap).cap = cap :=
  List.length_replicate

/-- `sched_init` leaves every slot empty. -/
theorem task_schedInit (cap i : Nat) : (schedInit cap).task i = emptySlot := by
  unfold schedInit SchedT.task
  by_cases h : i < cap
  · rw [Table.slot_eq_getElem (by rw [List.length_replicate]; exact h),
      List.getElem_replicate]
  · exact Table.slot_of_le (by rw [List.length_replicate]; omega)

/-- `find_id` gives the first slot in use that has the number. -/
theorem findId_eq_some_iff {s : SchedT} {id : Int} {i : Nat} :
    findId s id = some i
      ↔ i < s.cap ∧ ((s.task i).state ≠ .unused ∧ (s.task i).id = id)
        ∧ ∀ j < i, ¬((s.task j).state ≠ .unused ∧ (s.task j).id = id) := by
  unfold findId
  rw [Table.findIdx_eq_some_iff (d := emptySlot)]
  simp [SchedT.task, SchedT.cap]

/-- `find_id` gives nothing when no slot in use has the number. -/
theorem findId_eq_none_iff {s : SchedT} {id : Int} :
    findId s id = none
      ↔ ∀ i < s.cap, ¬((s.task i).state ≠ .unused ∧ (s.task i).id = id) := by
  unfold findId
  rw [Table.findIdx_eq_none_iff (d := emptySlot)]
  simp [SchedT.task, SchedT.cap]

/-- A slot in use is found under its own id, or an earlier slot is. -/
theorem findId_isSome {s : SchedT} {i : Nat} (hi : i < s.cap)
    (hu : (s.task i).state ≠ .unused) :
    ∃ j, findId s (s.task i).id = some j := by
  cases h : findId s (s.task i).id with
  | some j => exact ⟨j, rfl⟩
  | none => exact absurd ⟨hu, rfl⟩ (findId_eq_none_iff.mp h i hi)

/-- `sched_add` fills one unused slot, or finds the table full. -/
theorem schedAdd_spec (s : SchedT) (id : Int) (quantum : Nat) :
    (∃ i < s.cap, (s.task i).state = .unused
        ∧ ∃ q, 1 ≤ q ∧ (schedAdd s id quantum).1
          = s.setTask i { id := id, state := .ready, quantum := q,
                          reload := q, ran := 0 })
      ∨ (schedAdd s id quantum).1 = s := by
  unfold schedAdd
  cases h : s.tasks.findIdx? fun t => t.state = .unused with
  | none => exact Or.inr rfl
  | some i =>
      obtain ⟨hi, hu, -⟩ := Table.findIdx_eq_some_iff (d := emptySlot).mp h
      refine Or.inl ⟨i, hi, of_decide_eq_true hu, _, ?_, rfl⟩
      split <;> omega

/-- To put the current task back keeps the size of the table. -/
@[simp] theorem cap_requeue (s : SchedT) : (requeue s).cap = s.cap := by
  unfold requeue SchedT.setState
  split
  · exact SchedT.cap_setTask ..
  · rfl

/-- To put the current task back keeps the cursor where it is. -/
@[simp] theorem cursor_requeue (s : SchedT) :
    (requeue s).cursor = s.cursor := by
  unfold requeue SchedT.setState
  split <;> rfl

/-- `retire` changes the state of the slot found, and nothing else but
`current`. -/
theorem retire_spec {s : SchedT} {id : Int} {i : Nat} (st : TaskState)
    (h : findId s id = some i) :
    retire s id st
      = { s.setState i st with
          current := if s.current = i then -1 else s.current } := by
  unfold retire
  rw [h]
  show (if s.current = i then _ else _) = _
  split <;> rfl

/-- A tick takes from the quantum, or leaves it. -/
theorem charge_quantum_le (t : SchedTask) :
    (charge t).quantum ≤ t.quantum := by
  unfold charge
  dsimp only
  split <;> omega

/-- `sched_on_tick` charges one tick to the running task, if any. -/
theorem schedOnTick_spec (s : SchedT) :
    (0 ≤ s.current ∧ (s.task s.current.toNat).state = .running
        ∧ (schedOnTick s).1
          = s.setTask s.current.toNat (charge (s.task s.current.toNat)))
      ∨ (schedOnTick s).1 = s := by
  unfold schedOnTick
  by_cases hneg : s.current < 0
  · rw [if_pos hneg]
    exact Or.inr rfl
  · rw [if_neg hneg]
    by_cases hrun : (s.task s.current.toNat).state = .running
    · refine Or.inl ⟨by omega, hrun, ?_⟩
      simp only [hrun, ne_eq, not_true_eq_false, if_false]
    · refine Or.inr ?_
      simp only [ne_eq, hrun, not_false_eq_true, if_true]

/-- `sched_unblock` readies the slot found if it is blocked. -/
theorem schedUnblock_spec (s : SchedT) (id : Int) :
    (∃ i, findId s id = some i ∧ (s.task i).state = .blocked
        ∧ schedUnblock s id = s.setState i .ready)
      ∨ schedUnblock s id = s := by
  unfold schedUnblock
  cases hf : findId s id with
  | none => exact Or.inr rfl
  | some i =>
      by_cases hb : (s.task i).state = .blocked
      · exact Or.inl ⟨i, rfl, hb, if_pos hb⟩
      · exact Or.inr (if_neg hb)

/-- To block or end a task keeps the size of the table. -/
theorem cap_retire (s : SchedT) (id : Int) (st : TaskState) :
    (retire s id st).cap = s.cap := by
  unfold retire
  cases findId s id with
  | none => rfl
  | some i =>
      show (if (s.setState i st).current = i then _ else _ : SchedT).cap = _
      split
      · exact SchedT.cap_setTask ..
      · exact SchedT.cap_setTask ..

/-- To block or end a task keeps the cursor where it is. -/
theorem cursor_retire (s : SchedT) (id : Int) (st : TaskState) :
    (retire s id st).cursor = s.cursor := by
  unfold retire
  cases findId s id with
  | none => rfl
  | some i =>
      show (if (s.setState i st).current = i then _ else _ : SchedT).cursor = _
      split <;> rfl

/-- A number that no slot has leaves the table as it was. -/
theorem retire_none {s : SchedT} {id : Int} (st : TaskState)
    (h : findId s id = none) : retire s id st = s := by
  unfold retire
  rw [h]

end Thuos.Sched
