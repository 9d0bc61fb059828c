/-
The single-running-task invariant of the scheduler: `current` and the
per-slot states are redundant, and all six calls keep them in step.

`RunningInv` is proved inductive slot by slot. Three shapes of update
cover every call:

- a slot that is not running gets a task that is not running
  (`RunningInv.setTask`: add, unblock);
- a slot leaves the running state and stops being current
  (`RunningInv.setState_retire`: block, exit);
- the pick: the running task is requeued, after which no slot runs at
  all (`task_requeue`), and the scan's slot becomes the running one.

`schedPickNext_spec` is the pick in the terms later files need: under
the invariant it selects the RUNNABLE slot of least cyclic gap from the
cursor, where "runnable" is read in the state before the call.
-/
import Thuos.Sched.Core

namespace Thuos.Sched

open Machine Cyclic

-- ======================================================== the invariant

/-- The time-slice clause: a slot in use has a slice of at least one
tick and no more ticks left than its slice. -/
def SliceOk (t : SchedTask) : Prop :=
  t.state ≠ .unused → 1 ≤ t.reload ∧ t.quantum ≤ t.reload

structure RunningInv (s : SchedT) : Prop where
  current_range : s.current = -1 ∨ (0 ≤ s.current ∧ s.current < s.cap)
  running_iff : ∀ i < s.cap, (s.task i).state = .running ↔ s.current = i
  cursor_lt : 0 < s.cap → s.cursor < s.cap
  slice : ∀ i < s.cap, SliceOk (s.task i)

theorem runningInv_init (cap : Nat) : RunningInv (schedInit cap) where
  current_range := Or.inl rfl
  running_iff i _ := by
    rw [task_schedInit]
    have hcur : (schedInit cap).current = -1 := rfl
    rw [hcur]
    exact ⟨fun h => absurd h (by decide), fun h => by omega⟩
  cursor_lt h := h
  slice i _ := by
    rw [task_schedInit]
    exact fun h => absurd rfl h

-- ================================================= the update shapes

/-- A slot that is not running takes a task that is not running. -/
theorem RunningInv.setTask {s : SchedT} (h : RunningInv s) {i : Nat}
    {t : SchedTask} (hi : i < s.cap) (hold : (s.task i).state ≠ .running)
    (hnew : t.state ≠ .running) (hslice : SliceOk t) :
    RunningInv (s.setTask i t) where
  current_range := by
    rw [SchedT.current_setTask, SchedT.cap_setTask]
    exact h.current_range
  running_iff j hj := by
    rw [SchedT.cap_setTask] at hj
    rw [SchedT.current_setTask]
    by_cases hji : j = i
    · subst hji
      rw [SchedT.task_setTask_self hi]
      exact ⟨fun hr => absurd hr hnew,
        fun hc => absurd ((h.running_iff j hi).mpr hc) hold⟩
    · rw [SchedT.task_setTask_ne hji]
      exact h.running_iff j hj
  cursor_lt hc := by
    rw [SchedT.cap_setTask] at hc ⊢
    exact h.cursor_lt hc
  slice j hj := by
    rw [SchedT.cap_setTask] at hj
    by_cases hji : j = i
    · subst hji
      rw [SchedT.task_setTask_self hi]
      exact hslice
    · rw [SchedT.task_setTask_ne hji]
      exact h.slice j hj

/-- A slot in use leaves the running state and stops being current. -/
theorem RunningInv.setState_retire {s : SchedT} (h : RunningInv s) {i : Nat}
    {st : TaskState} (hi : i < s.cap) (hu : (s.task i).state ≠ .unused)
    (hst : st ≠ .running) :
    RunningInv { s.setState i st with
      current := if s.current = i then -1 else s.current } where
  current_range := by
    by_cases hcur : s.current = i
    · rw [if_pos hcur]
      exact Or.inl rfl
    · rw [if_neg hcur]
      rcases h.current_range with hc | ⟨hc, hlt⟩
      · exact Or.inl hc
      · exact Or.inr ⟨hc, by simpa [SchedT.setState] using hlt⟩
  running_iff j hj := by
    have hj' : j < s.cap := by
      simpa [SchedT.setState] using hj
    show ((s.setState i st).task j).state = .running
      ↔ (if s.current = (i : Int) then (-1 : Int) else s.current) = j
    unfold SchedT.setState
    by_cases hji : j = i
    · subst hji
      rw [SchedT.task_setTask_self hi]
      refine ⟨fun hr => absurd hr hst, fun hc => ?_⟩
      split at hc
      · omega
      · exact absurd hc ‹_›
    · rw [SchedT.task_setTask_ne hji, h.running_iff j hj']
      split
      · exact ⟨fun hc => by omega, fun hc => by omega⟩
      · exact Iff.rfl
  cursor_lt hc := by
    have hc' : 0 < s.cap := by simpa [SchedT.setState] using hc
    simpa [SchedT.setState] using h.cursor_lt hc'
  slice j hj := by
    have hj' : j < s.cap := by simpa [SchedT.setState] using hj
    show SliceOk ((s.setState i st).task j)
    unfold SchedT.setState
    by_cases hji : j = i
    · subst hji
      rw [SchedT.task_setTask_self hi]
      exact fun _ => h.slice j hi hu
    · rw [SchedT.task_setTask_ne hji]
      exact h.slice j hj'

-- ============================================================= the pick

/-- Requeueing turns the running slot READY and touches no other. -/
theorem task_requeue {s : SchedT} (h : RunningInv s) {i : Nat}
    (hi : i < s.cap) :
    (requeue s).task i
      = if (s.task i).state = .running then
          { s.task i with state := .ready }
        else s.task i := by
  unfold requeue
  by_cases hr : (s.task i).state = .running
  · have hc : s.current = i := (h.running_iff i hi).mp hr
    have hnat : s.current.toNat = i := by omega
    rw [if_pos hr, if_pos ⟨by omega, by rw [hnat]; exact hr⟩, hnat]
    exact SchedT.task_setTask_self hi _
  · rw [if_neg hr]
    split
    · refine SchedT.task_setTask_ne (fun hic => hr ?_) _
      refine (h.running_iff i hi).mpr ?_
      omega
    · rfl

/-- After requeueing, READY is what was runnable before. -/
theorem requeue_ready_iff {s : SchedT} (h : RunningInv s) {i : Nat}
    (hi : i < s.cap) :
    ((requeue s).task i).state = .ready ↔ Runnable (s.task i) := by
  rw [task_requeue h hi]
  unfold Runnable
  by_cases hr : (s.task i).state = .running
  · simp [hr]
  · simp [hr]

/-- The slot a pick leaves in slot `i`, when `k` is the slot picked. -/
def afterPick (s : SchedT) (k i : Nat) : SchedTask :=
  if i = k then
    { s.task i with state := .running, quantum := (s.task i).reload }
  else if (s.task i).state = .running then
    { s.task i with state := .ready }
  else s.task i

/-- What `sched_pick_next` does, slot by slot. Either it picks the
runnable slot nearest to the cursor, which becomes the running one, or
nothing is runnable and it goes idle. -/
theorem schedPickNext_spec {s : SchedT} (h : RunningInv s) :
    (∃ k < s.cap, Runnable (s.task k)
        ∧ (∀ j < s.cap, Runnable (s.task j)
            → gap s.cap s.cursor k ≤ gap s.cap s.cursor j)
        ∧ (schedPickNext s).2 = (s.task k).id
        ∧ (schedPickNext s).1.current = k
        ∧ (schedPickNext s).1.cursor = (k + 1) % s.cap
        ∧ (schedPickNext s).1.cap = s.cap
        ∧ ∀ i < s.cap, (schedPickNext s).1.task i = afterPick s k i)
      ∨ ((∀ i < s.cap, ¬Runnable (s.task i))
        ∧ schedPickNext s = ({ requeue s with current := -1 }, -1)) := by
  have hcap := cap_requeue s
  cases hscan : scanReady (requeue s) with
  | none =>
      refine Or.inr ⟨fun i hi hr => ?_, ?_⟩
      · have hnone := (scan_eq_none_iff (by
          rw [hcap, cursor_requeue]
          exact h.cursor_lt)).mp hscan i (by rw [hcap]; exact hi)
        rw [decide_eq_false_iff_not, requeue_ready_iff h hi] at hnone
        exact hnone hr
      · simp only [schedPickNext, hscan]
  | some k =>
      have hpos : 0 < s.cap := by
        by_contra hz
        unfold scanReady Cyclic.scan at hscan
        rw [hcap, show s.cap = 0 from by omega] at hscan
        cases hscan
      have hcur : (requeue s).cursor < (requeue s).cap := by
        rw [hcap, cursor_requeue]
        exact h.cursor_lt hpos
      obtain ⟨hk, hready, hmin⟩ := (scan_eq_some_iff hcur).mp hscan
      rw [hcap] at hk hmin
      rw [cursor_requeue] at hmin
      rw [decide_eq_true_eq, requeue_ready_iff h hk] at hready
      have hpick : schedPickNext s
          = ({ (requeue s).setTask k { (requeue s).task k with
                 state := .running, quantum := ((requeue s).task k).reload }
               with current := k, cursor := (k + 1) % (requeue s).cap },
             ((requeue s).task k).id) := by
        simp only [schedPickNext, hscan]
      rw [hpick]
      refine Or.inl ⟨k, hk, hready, fun j hj hr => ?_, ?_, rfl, ?_, ?_, ?_⟩
      · refine hmin j hj ?_
        rw [decide_eq_true_eq, requeue_ready_iff h hj]
        exact hr
      · show ((requeue s).task k).id = (s.task k).id
        rw [task_requeue h hk]
        split <;> rfl
      · show (k + 1) % (requeue s).cap = (k + 1) % s.cap
        rw [hcap]
      · show ((requeue s).setTask k _).cap = s.cap
        rw [SchedT.cap_setTask, hcap]
      · intro i hi
        show ((requeue s).setTask k _).task i = afterPick s k i
        unfold afterPick
        by_cases hik : i = k
        · subst hik
          rw [SchedT.task_setTask_self (by rw [hcap]; exact hi), if_pos rfl,
            task_requeue h hi]
          split <;> rfl
        · rw [SchedT.task_setTask_ne hik, if_neg hik, task_requeue h hi]

theorem runningInv_pickNext {s : SchedT} (h : RunningInv s) :
    RunningInv (schedPickNext s).1 := by
  rcases schedPickNext_spec h with
    ⟨k, hk, hrun, -, -, hcur, hcursor, hcap, htask⟩ | ⟨hidle, hpick⟩
  · refine ⟨?_, fun i hi => ?_, fun hpos => ?_, fun i hi => ?_⟩
    · rw [hcur, hcap]
      omega
    · rw [hcap] at hi
      rw [htask i hi, hcur]
      unfold afterPick
      split
      · exact ⟨fun _ => by omega, fun _ => rfl⟩
      · split
        · exact ⟨fun hr => (nomatch hr), fun hc => by omega⟩
        · exact ⟨fun hr => absurd hr ‹_›, fun hc => by omega⟩
    · rw [hcap] at hpos ⊢
      rw [hcursor]
      exact Nat.mod_lt _ hpos
    · rw [hcap] at hi
      rw [htask i hi]
      have hslice := h.slice i hi
      unfold afterPick
      split
      · next hik =>
        subst hik
        have hu : (s.task i).state ≠ .unused := by
          rcases hrun with hr | hr <;> rw [hr] <;> decide
        exact fun _ => ⟨(hslice hu).1, Nat.le_refl _⟩
      · split
        · next hr =>
          exact fun _ => hslice (by rw [hr]; decide)
        · exact hslice
  · -- idle: nothing was running, so the requeue was a no-op
    rw [hpick]
    have htask : ∀ i < s.cap, (requeue s).task i = s.task i := by
      intro i hi
      rw [task_requeue h hi, if_neg fun hr => hidle i hi (Or.inr hr)]
    refine ⟨Or.inl rfl, fun i hi => ?_, fun hpos => ?_, fun i hi => ?_⟩
    · have hi' : i < s.cap := by rw [← cap_requeue s]; exact hi
      show ((requeue s).task i).state = .running ↔ (-1 : Int) = i
      rw [htask i hi']
      exact ⟨fun hr => absurd (Or.inr hr) (hidle i hi'), fun hc => by omega⟩
    · have hpos' : 0 < s.cap := by rw [← cap_requeue s]; exact hpos
      show (requeue s).cursor < (requeue s).cap
      rw [cursor_requeue, cap_requeue]
      exact h.cursor_lt hpos'
    · have hi' : i < s.cap := by rw [← cap_requeue s]; exact hi
      show SliceOk ((requeue s).task i)
      rw [htask i hi']
      exact h.slice i hi'

-- ===================================================== the other calls

theorem runningInv_add {s : SchedT} (h : RunningInv s) (id : Int)
    (quantum : Nat) : RunningInv (schedAdd s id quantum).1 := by
  rcases schedAdd_spec s id quantum with ⟨i, hi, hu, q, hq, hadd⟩ | hadd
  · rw [hadd]
    refine h.setTask hi ?_ ?_ fun _ => ⟨hq, Nat.le_refl _⟩
    · rw [hu]
      decide
    · exact fun hr => nomatch hr
  · rw [hadd]
    exact h

theorem runningInv_onTick {s : SchedT} (h : RunningInv s) :
    RunningInv (schedOnTick s).1 := by
  rcases schedOnTick_spec s with ⟨hc, hrun, htick⟩ | htick
  · rw [htick]
    have hlt : s.current.toNat < s.cap := by
      rcases h.current_range with hneg | hr <;> omega
    refine ⟨?_, fun j hj => ?_, fun hpos => ?_, fun j hj => ?_⟩
    · rw [SchedT.current_setTask, SchedT.cap_setTask]
      exact h.current_range
    · rw [SchedT.cap_setTask] at hj
      rw [SchedT.current_setTask]
      by_cases hji : j = s.current.toNat
      · subst hji
        rw [SchedT.task_setTask_self hj]
        exact h.running_iff _ hj
      · rw [SchedT.task_setTask_ne hji]
        exact h.running_iff j hj
    · rw [SchedT.cap_setTask] at hpos ⊢
      exact h.cursor_lt hpos
    · rw [SchedT.cap_setTask] at hj
      by_cases hji : j = s.current.toNat
      · subst hji
        rw [SchedT.task_setTask_self hj]
        intro hu
        obtain ⟨hpos, hle⟩ := h.slice _ hj hu
        exact ⟨hpos, Nat.le_trans (charge_quantum_le _) hle⟩
      · rw [SchedT.task_setTask_ne hji]
        exact h.slice j hj
  · rw [htick]
    exact h

theorem runningInv_retire {s : SchedT} (h : RunningInv s) (id : Int)
    {st : TaskState} (hst : st ≠ .running) : RunningInv (retire s id st) := by
  cases hf : findId s id with
  | none =>
      rw [retire_none st hf]
      exact h
  | some i =>
      obtain ⟨hi, ⟨hu, -⟩, -⟩ := findId_eq_some_iff.mp hf
      rw [retire_spec st hf]
      exact h.setState_retire hi hu hst

theorem runningInv_unblock {s : SchedT} (h : RunningInv s) (id : Int) :
    RunningInv (schedUnblock s id) := by
  rcases schedUnblock_spec s id with ⟨i, hf, hb, hun⟩ | hun
  · obtain ⟨hi, ⟨hu, -⟩, -⟩ := findId_eq_some_iff.mp hf
    rw [hun]
    refine h.setTask hi ?_ ?_ fun _ => h.slice i hi hu
    · rw [hb]
      decide
    · exact fun hr => nomatch hr
  · rw [hun]
    exact h

-- ================================================================ runs

/-- Every call preserves the invariant. -/
theorem runningInv_step {s : SchedT} (h : RunningInv s) (op : Op) :
    RunningInv (step s op) := by
  cases op with
  | add id quantum => exact runningInv_add h id quantum
  | pickNext => exact runningInv_pickNext h
  | onTick => exact runningInv_onTick h
  | block id => exact runningInv_retire h id (by decide)
  | unblock id => exact runningInv_unblock h id
  | exit id => exact runningInv_retire h id (by decide)

theorem runningInv_exec {s : SchedT} (h : RunningInv s) (ops : List Op) :
    RunningInv (exec step s ops) :=
  exec_inv' RunningInv (fun _ op hs => runningInv_step hs op) h

theorem runningInv_reachable (cap : Nat) (ops : List Op) :
    RunningInv (exec step (schedInit cap) ops) :=
  runningInv_exec (runningInv_init cap) ops

/-- No call changes the capacity. -/
theorem cap_step {s : SchedT} (h : RunningInv s) (op : Op) :
    (step s op).cap = s.cap := by
  cases op with
  | add id quantum =>
      show (schedAdd s id quantum).1.cap = s.cap
      rcases schedAdd_spec s id quantum with ⟨i, -, -, q, -, hadd⟩ | hadd
      · rw [hadd, SchedT.cap_setTask]
      · rw [hadd]
  | pickNext =>
      show (schedPickNext s).1.cap = s.cap
      rcases schedPickNext_spec h with
        ⟨k, -, -, -, -, -, -, hcap, -⟩ | ⟨-, hpick⟩
      · exact hcap
      · rw [hpick]
        exact cap_requeue s
  | onTick =>
      show (schedOnTick s).1.cap = s.cap
      rcases schedOnTick_spec s with ⟨-, -, htick⟩ | htick
      · rw [htick, SchedT.cap_setTask]
      · rw [htick]
  | block id => exact cap_retire s id .blocked
  | unblock id =>
      show (schedUnblock s id).cap = s.cap
      rcases schedUnblock_spec s id with ⟨i, -, -, hun⟩ | hun
      · rw [hun, SchedT.setState, SchedT.cap_setTask]
      · rw [hun]
  | exit id => exact cap_retire s id .zombie

theorem cap_exec {s : SchedT} (h : RunningInv s) :
    ∀ ops : List Op, (exec step s ops).cap = s.cap := by
  intro ops
  induction ops generalizing s with
  | nil => rfl
  | cons op ops ih =>
      rw [exec_cons, ih (runningInv_step h op), cap_step h op]

/-- The scheduler never has two running tasks, and `current`, `cursor`
and the slices agree with the table, after any run of the six calls; a
pick goes idle exactly when nothing was READY or RUNNING. -/
theorem single_running (cap : Nat) (ops : List Op) :
    let s := exec step (schedInit cap) ops
    s.cap = cap
      ∧ (∀ i < cap, ∀ j < cap, (s.task i).state = .running →
          (s.task j).state = .running → i = j)
      ∧ (s.current = -1 ∨ (0 ≤ s.current ∧ s.current < cap))
      ∧ (∀ i < cap, s.current = i ↔ (s.task i).state = .running)
      ∧ (s.current = -1 ↔ ∀ i < cap, (s.task i).state ≠ .running)
      ∧ (0 < cap → s.cursor < cap)
      ∧ (∀ i < cap, (s.task i).state ≠ .unused →
          1 ≤ (s.task i).reload ∧ (s.task i).quantum ≤ (s.task i).reload)
      ∧ ((schedPickNext s).1.current = -1
          ↔ ∀ i < cap, (s.task i).state ≠ .ready
              ∧ (s.task i).state ≠ .running) := by
  intro s
  have h : RunningInv s := runningInv_reachable cap ops
  have hcap : s.cap = cap := by
    rw [← cap_schedInit cap]
    exact cap_exec (runningInv_init cap) ops
  obtain ⟨hrange, hrun, hcursor, hslice⟩ := h
  rw [hcap] at hrange hrun hcursor hslice
  refine ⟨hcap, fun i hi j hj hri hrj => ?_, hrange,
    fun i hi => (hrun i hi).symm, ⟨fun hc i hi hr => ?_, fun hnone => ?_⟩,
    hcursor, hslice, ?_⟩
  · have hci := (hrun i hi).mp hri
    have hcj := (hrun j hj).mp hrj
    omega
  · have := (hrun i hi).mp hr
    omega
  · rcases hrange with hc | ⟨hc, hlt⟩
    · exact hc
    · have hi : s.current.toNat < cap := by omega
      exact absurd ((hrun _ hi).mpr (by omega)) (hnone _ hi)
  · rcases schedPickNext_spec (runningInv_reachable cap ops) with
      ⟨k, hk, hr, -, -, hcur, -⟩ | ⟨hidle, hpick⟩
    · refine ⟨fun hc => ?_, fun hnone => ?_⟩
      · rw [hcur] at hc
        omega
      · obtain ⟨h1, h2⟩ := hnone k (hcap ▸ hk)
        rcases hr with hr | hr
        · exact absurd hr h1
        · exact absurd hr h2
    · refine ⟨fun _ i hi => ?_, fun _ => ?_⟩
      · have := hidle i (by rw [hcap]; exact hi)
        exact ⟨fun hr => this (Or.inl hr), fun hr => this (Or.inr hr)⟩
      · show (schedPickNext s).1.current = -1
        rw [hpick]

end Thuos.Sched
