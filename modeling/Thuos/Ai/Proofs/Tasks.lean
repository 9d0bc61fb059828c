/-
The life of a task.

No task is ever removed, so the table fills from the front: `TasksOk w k`
says that the first `k` slots are in use and that slot `i` has the id
`i + 1`. Searches are then arithmetic (`taskById_eq`), and every call
does one of three things to the state found under an id: nothing, the
entry of a new task, or one edge of the state machine (`stateOf_step`).
The states a task goes through are read off the worlds of a run
(`successive`); that they are a path along `Edge` is an induction over
the run.
-/
import Thuos.Ai.Core

namespace Thuos.Ai

open Machine

-- ========================================================== what is stated

/-- The transitions a task may make. -/
inductive Edge : TaskState → TaskState → Prop
  | queue : Edge .created .queued
  | dispatch : Edge .queued .dispatched
  | finish : Edge .dispatched .done
  | denyCreated : Edge .created .denied
  | denyQueued : Edge .queued .denied
  | failCreated : Edge .created .failed
  | failQueued : Edge .queued .failed
  | failDispatched : Edge .dispatched .failed

/-- A state that accepts nothing. -/
def Terminal (s : TaskState) : Prop := s = .done ∨ s = .denied ∨ s = .failed

/-- The state of the task with an id. -/
def stateOf (w : World) (id : Int) : Option TaskState :=
  (taskById w id).map fun i => (w.task i).state

/-- The states that the task with an id enters during a run, one for
each change. -/
def successive (id : Int) : World → List Op → List TaskState
  | _, [] => []
  | w, op :: ops =>
      if stateOf (step w op) id = stateOf w id then
        successive id (step w op) ops
      else
        (stateOf (step w op) id).toList ++ successive id (step w op) ops

-- ======================================================= the state machine

/-- The table of allowed transitions is the set of edges between the states.
-/
theorem validTransition_iff (s t : TaskState) :
    validTransition s t = true ↔ Edge s t := by
  constructor
  · cases s <;> cases t <;> intro h
    all_goals first | exact absurd h (by decide) | constructor
  · intro h
    cases h <;> rfl

/-- No edge leaves a state in which a task has ended. -/
theorem not_edge_of_terminal {s t : TaskState} (hs : Terminal s) :
    ¬ Edge s t := by
  intro h
  rcases hs with rfl | rfl | rfl <;> cases h

/-- The one way to DONE. -/
theorem path_to_done {path : List TaskState}
    (hchain : (TaskState.created :: path).IsChain Edge)
    (hdone : TaskState.done ∈ path) :
    path = [.queued, .dispatched, .done] := by
  have hstop : ∀ {s l}, Terminal s → (s :: l).IsChain Edge → l = [] := by
    intro s l hs hl
    cases hl with
    | singleton => rfl
    | cons_cons hedge _ => exact absurd hedge (not_edge_of_terminal hs)
  cases hchain with
  | singleton => cases hdone
  | cons_cons hedge hrest =>
      cases hedge with
      | queue =>
          cases hrest with
          | singleton => simp at hdone
          | cons_cons hedge hrest =>
              cases hedge with
              | dispatch =>
                  cases hrest with
                  | singleton => simp at hdone
                  | cons_cons hedge hrest =>
                      cases hedge with
                      | finish => rw [hstop (Or.inl rfl) hrest]
                      | failDispatched =>
                          rw [hstop (Or.inr (Or.inr rfl)) hrest] at hdone
                          simp at hdone
              | denyQueued =>
                  rw [hstop (Or.inr (Or.inl rfl)) hrest] at hdone
                  simp at hdone
              | failQueued =>
                  rw [hstop (Or.inr (Or.inr rfl)) hrest] at hdone
                  simp at hdone
      | denyCreated =>
          rw [hstop (Or.inr (Or.inl rfl)) hrest] at hdone
          simp at hdone
      | failCreated =>
          rw [hstop (Or.inr (Or.inr rfl)) hrest] at hdone
          simp at hdone

-- =============================================================== the table

/-- The first `k` slots are in use, under the ids from 1 on. -/
structure TasksOk (w : World) (k : Nat) : Prop where
  le : k ≤ AI_MAX_TASKS
  used_iff : ∀ i < AI_MAX_TASKS, (w.task i).used = true ↔ i < k
  id_eq : ∀ i < k, (w.task i).id = i + 1
  next : w.nextTaskId = k + 1

/-- After `ai_init` there is no task, and the next number is 1. -/
theorem tasksOk_init (w : World) : TasksOk (aiWorldInit w) 0 where
  le := Nat.zero_le _
  used_iff i _ := by simp [task_aiWorldInit]
  id_eq i hi := absurd hi (Nat.not_lt_zero i)
  next := rfl

section Table

variable {w v : World} {k : Nat}

/-- The table of tasks is in order as long as nobody has written to it. -/
theorem TasksOk.congr (h : TasksOk w k) (htasks : v.tasks = w.tasks)
    (hnext : v.nextTaskId = w.nextTaskId) : TasksOk v k where
  le := h.le
  used_iff i hi := by
    unfold World.task
    rw [htasks]
    exact h.used_iff i hi
  id_eq i hi := by
    unfold World.task
    rw [htasks]
    exact h.id_eq i hi
  next := hnext.trans h.next

/-- The search by id. -/
theorem TasksOk.taskById_eq (h : TasksOk w k) (id : Int) :
    taskById w id = if 1 ≤ id ∧ id ≤ k then some (id - 1).toNat else none := by
  have hle := h.le
  by_cases hin : 1 ≤ id ∧ id ≤ k
  · rw [if_pos hin]
    unfold taskById
    rw [Table.findIdx_eq_some_iff (d := noTask), w.tasks_len]
    refine ⟨by omega, ?_, fun j hj => ?_⟩
    · have hused := (h.used_iff (id - 1).toNat (by omega)).mpr (by omega)
      have hid := h.id_eq (id - 1).toNat (by omega)
      unfold World.task at hused hid
      rw [hused, hid]
      simp only [Bool.true_and, decide_eq_true_eq]
      omega
    · have hid := h.id_eq j (by omega)
      unfold World.task at hid
      rw [hid]
      simp only [Bool.and_eq_false_iff, decide_eq_false_iff_not]
      omega
  · rw [if_neg hin]
    unfold taskById
    rw [Table.findIdx_eq_none_iff (d := noTask), w.tasks_len]
    intro i hi
    by_contra hfound
    rw [Bool.not_eq_false, Bool.and_eq_true, decide_eq_true_eq] at hfound
    have hlt := (h.used_iff i hi).mp hfound.1
    have hid := h.id_eq i hlt
    unfold World.task at hid
    omega

/-- The search for a free slot. -/
theorem TasksOk.free_eq (h : TasksOk w k) :
    (w.tasks.findIdx? fun t => !t.used)
      = if k < AI_MAX_TASKS then some k else none := by
  split
  · next hk =>
      rw [Table.findIdx_eq_some_iff (d := noTask), w.tasks_len]
      refine ⟨hk, ?_, fun j hj => ?_⟩
      · have hfree := mt (h.used_iff k hk).mp (Nat.lt_irrefl k)
        simpa [World.task] using hfree
      · have hused := (h.used_iff j (by omega)).mpr hj
        simpa [World.task] using hused
  · next hk =>
      rw [Table.findIdx_eq_none_iff (d := noTask), w.tasks_len]
      intro i hi
      have hused := (h.used_iff i hi).mpr (by omega)
      simpa [World.task] using hused

/-- The tasks have the numbers from 1 on, and no others have a state. -/
theorem TasksOk.stateOf_eq (h : TasksOk w k) (id : Int) :
    stateOf w id
      = if 1 ≤ id ∧ id ≤ k then some (w.task (id - 1).toNat).state
        else none := by
  unfold stateOf
  rw [h.taskById_eq]
  split <;> rfl

/-- The state of a task is found in the table of tasks and nowhere else. -/
theorem stateOf_congr (htasks : v.tasks = w.tasks) (id : Int) :
    stateOf v id = stateOf w id := by
  unfold stateOf taskById World.task
  rw [htasks]

/-- The number of tasks. -/
theorem TasksOk.count (h : TasksOk w k) : aiTaskCount w = k := by
  unfold aiTaskCount
  refine Table.countP_eq_of_front (d := noTask) (w.tasks_len ▸ h.le) ?_
  intro i hi
  rw [w.tasks_len] at hi
  exact h.used_iff i hi

-- ================================================================ the calls

/-- A full table. -/
theorem TasksOk.create_full (h : TasksOk w k) (hk : ¬ k < AI_MAX_TASKS)
    (kind : TaskKind) (service : Int) (label : Option CStr) :
    aiTaskCreate w kind service label = (w, -1) := by
  unfold aiTaskCreate
  rw [h.free_eq, if_neg hk]

/-- The task that `ai_task_create` writes. -/
def fresh (w : World) (kind : TaskKind) (service : Int)
    (label : Option CStr) : Task :=
  { id := w.nextTaskId, service := service, kind := kind, state := .created
    label := cp label AI_NAME_MAX, used := true }

/-- While there is room, a new task gets the next slot and the next number.
-/
theorem TasksOk.create_eq (h : TasksOk w k) (hk : k < AI_MAX_TASKS)
    (kind : TaskKind) (service : Int) (label : Option CStr) :
    aiTaskCreate w kind service label
      = ({ w.setTask k (fresh w kind service label) with
            nextTaskId := w.nextTaskId + 1 }, (k : Int) + 1) := by
  unfold aiTaskCreate
  rw [h.free_eq, if_pos hk, ← h.next]
  rfl

/-- With a new task in its slot, the table is in order again. -/
theorem TasksOk.create (h : TasksOk w k) (hk : k < AI_MAX_TASKS)
    (kind : TaskKind) (service : Int) (label : Option CStr) :
    TasksOk (aiTaskCreate w kind service label).1 (k + 1) := by
  rw [h.create_eq hk]
  have hself : (w.setTask k (fresh w kind service label)).task k
      = fresh w kind service label := World.task_setTask_self hk _
  have hother : ∀ i, i ≠ k →
      (w.setTask k (fresh w kind service label)).task i = w.task i :=
    fun i hi => World.task_setTask_ne hi _
  refine ⟨hk, fun i hi => ?_, fun i hi => ?_, ?_⟩
  · show ((w.setTask k _).task i).used = true ↔ _
    by_cases heq : i = k
    · rw [heq, hself]
      simp [fresh]
    · rw [hother i heq, h.used_iff i hi]
      omega
  · show ((w.setTask k _).task i).id = _
    by_cases heq : i = k
    · rw [heq, hself]
      exact h.next
    · rw [hother i heq]
      exact h.id_eq i (by omega)
  · show w.nextTaskId + 1 = _
    rw [h.next]
    push_cast
    rfl

/-- What `ai_task_set_state` answers and leaves. -/
theorem setState_cases (w : World) (id : Int) (dst : TaskState) :
    aiTaskSetState w id dst = (w, 0)
      ∨ ∃ i, taskById w id = some i ∧ Edge (w.task i).state dst
          ∧ aiTaskSetState w id dst
            = (w.setTask i { w.task i with state := dst }, 1) := by
  unfold aiTaskSetState
  cases hfind : taskById w id with
  | none => exact Or.inl rfl
  | some i =>
      by_cases hvalid : validTransition (w.task i).state dst = true
      · refine Or.inr ⟨i, rfl, (validTransition_iff _ _).mp hvalid, ?_⟩
        simp [hvalid]
      · left
        simp [hvalid]

/-- A task may change its state in place. -/
theorem TasksOk.setState {i : Nat} (h : TasksOk w k) (hi : i < k)
    (dst : TaskState) :
    TasksOk (w.setTask i { w.task i with state := dst }) k := by
  have hlt : i < AI_MAX_TASKS := Nat.lt_of_lt_of_le hi h.le
  refine ⟨h.le, fun j hj => ?_, fun j hj => ?_, h.next⟩
  · by_cases heq : j = i
    · rw [heq, World.task_setTask_self hlt]
      exact h.used_iff i hlt
    · rw [World.task_setTask_ne heq]
      exact h.used_iff j hj
  · by_cases heq : j = i
    · rw [heq, World.task_setTask_self hlt]
      exact h.id_eq i hi
    · rw [World.task_setTask_ne heq]
      exact h.id_eq j hj

end Table

-- ================================================================ one step

/-- A call changes the state found under an id in one of two ways. -/
inductive Moves : Option TaskState → Option TaskState → Prop
  | stay (s : Option TaskState) : Moves s s
  | enter : Moves none (some .created)
  | edge {s t : TaskState} : Edge s t → Moves (some s) (some t)

section Step

variable {w : World} {k : Nat}

/-- A new task begins in its first state, and every other task stays in its
own. -/
theorem TasksOk.moves_create (h : TasksOk w k) (hk : k < AI_MAX_TASKS)
    (kind : TaskKind) (service : Int) (label : Option CStr) (id : Int) :
    Moves (stateOf w id)
      (stateOf (aiTaskCreate w kind service label).1 id) := by
  rw [(h.create hk kind service label).stateOf_eq, h.stateOf_eq,
    h.create_eq hk]
  by_cases hold : 1 ≤ id ∧ id ≤ k
  · have hne : (id - 1).toNat ≠ k := by omega
    rw [if_pos hold, if_pos (by omega)]
    show Moves _ (some ((w.setTask k _).task (id - 1).toNat).state)
    rw [World.task_setTask_ne hne]
    exact Moves.stay _
  · by_cases hnew : id = k + 1
    · have hslot : (id - 1).toNat = k := by omega
      rw [if_neg hold, if_pos (by omega), hslot]
      show Moves _ (some ((w.setTask k _).task k).state)
      rw [World.task_setTask_self hk]
      exact Moves.enter
    · rw [if_neg hold, if_neg (by omega)]
      exact Moves.stay _

/-- A change along an edge is a move of that task, and every other one stays
where it is. -/
theorem TasksOk.moves_setState {i : Nat} (h : TasksOk w k) (hi : i < k)
    {dst : TaskState} (hedge : Edge (w.task i).state dst) (id : Int) :
    Moves (stateOf w id)
      (stateOf (w.setTask i { w.task i with state := dst }) id) := by
  have hlt : i < AI_MAX_TASKS := Nat.lt_of_lt_of_le hi h.le
  rw [(h.setState hi dst).stateOf_eq, h.stateOf_eq]
  by_cases hin : 1 ≤ id ∧ id ≤ k
  · rw [if_pos hin, if_pos hin]
    by_cases heq : (id - 1).toNat = i
    · rw [heq, World.task_setTask_self hlt]
      exact Moves.edge hedge
    · rw [World.task_setTask_ne heq]
      exact Moves.stay _
  · rw [if_neg hin, if_neg hin]
    exact Moves.stay _

/-- A call other than `ai_task_create` and `ai_task_set_state`. -/
theorem TasksOk.other {v : World} (h : TasksOk w k)
    (htasks : v.tasks = w.tasks) (hnext : v.nextTaskId = w.nextTaskId) :
    TasksOk v k ∧ ∀ id, Moves (stateOf w id) (stateOf v id) := by
  refine ⟨h.congr htasks hnext, fun id => ?_⟩
  rw [stateOf_congr htasks]
  exact Moves.stay _

/-- The number of slots in use after a call. -/
def filled (k : Nat) : Op → Nat
  | .taskCreate _ _ _ => if k < AI_MAX_TASKS then k + 1 else k
  | _ => k

/-- The step lemma: the table stays in order, and under every id one of
the moves happens. -/
theorem TasksOk.step (h : TasksOk w k) (op : Op) :
    TasksOk (step w op) (filled k op)
      ∧ ∀ id, Moves (stateOf w id) (stateOf (Ai.step w op) id) := by
  cases op with
  | serviceRegister name endpoint kind status =>
      simp only [Ai.step, aiServiceRegister]
      split
      · exact h.other rfl rfl
      · exact h.other rfl rfl
  | modelRegister name role state =>
      simp only [Ai.step, aiModelRegister]
      split
      · exact h.other rfl rfl
      · exact h.other rfl rfl
  | policySet perm allow =>
      cases allow with
      | true => exact h.other rfl rfl
      | false => exact h.other rfl rfl
  | auditRecord action d taskId => exact h.other rfl rfl
  | taskCreate kind service label =>
      simp only [Ai.step, filled]
      by_cases hk : k < AI_MAX_TASKS
      · rw [if_pos hk]
        exact ⟨h.create hk kind service label,
          h.moves_create hk kind service label⟩
      · rw [if_neg hk, h.create_full hk]
        exact h.other rfl rfl
  | taskSetState id dst =>
      simp only [Ai.step, filled]
      cases setState_cases w id dst with
      | inl hsame =>
          rw [hsame]
          exact h.other rfl rfl
      | inr hset =>
          obtain ⟨i, hfind, hedge, hset⟩ := hset
          rw [hset]
          have hi : i < k := by
            rw [h.taskById_eq] at hfind
            split at hfind
            · cases hfind
              omega
            · cases hfind
          exact ⟨h.setState hi dst, h.moves_setState hi hedge⟩

end Step

-- ================================================================== a run

/-- The ids that the successful creations of a run return. -/
def createdIds : World → List Op → List Int
  | _, [] => []
  | w, op :: ops =>
      let rest := createdIds (step w op) ops
      match op with
      | .taskCreate kind service label =>
          let id := (aiTaskCreate w kind service label).2
          if id = -1 then rest else id :: rest
      | _ => rest

section Run

variable {w : World} {k : Nat}

/-- A call that uses up a slot creates the next id. -/
theorem TasksOk.createdIds_cons (h : TasksOk w k) (op : Op)
    (ops : List Op) :
    createdIds w (op :: ops)
      = (if filled k op = k then [] else [(k : Int) + 1])
        ++ createdIds (Ai.step w op) ops := by
  cases op with
  | taskCreate kind service label =>
      simp only [createdIds]
      by_cases hk : k < AI_MAX_TASKS
      · have hmore : filled k (.taskCreate kind service label) = k + 1 :=
          if_pos hk
        rw [hmore, h.create_eq hk, if_neg (by omega), if_neg (by omega)]
        rfl
      · have hsame : filled k (.taskCreate kind service label) = k :=
          if_neg hk
        rw [hsame, h.create_full hk, if_pos rfl, if_pos rfl]
        rfl
  | _ => simp [createdIds, filled]

/-- An operation fills one slot or none. -/
theorem filled_cases (k : Nat) (op : Op) :
    filled k op = k ∨ filled k op = k + 1 := by
  cases op with
  | taskCreate kind service label =>
      rw [filled]
      split
      · exact Or.inr rfl
      · exact Or.inl rfl
  | _ => exact Or.inl rfl

/-- A run keeps the table in order, and what it creates are the ids
above the ones it found, each larger than the one before. -/
theorem TasksOk.exec (h : TasksOk w k) (ops : List Op) :
    ∃ k', k ≤ k' ∧ TasksOk (Machine.exec Ai.step w ops) k'
      ∧ (createdIds w ops).Pairwise (· < ·)
      ∧ ∀ id, id ∈ createdIds w ops ↔ (k : Int) < id ∧ id ≤ k' := by
  induction ops generalizing w k with
  | nil =>
      refine ⟨k, Nat.le_refl k, h, by simp [createdIds], fun id => ?_⟩
      simp only [createdIds, List.not_mem_nil, false_iff]
      omega
  | cons op ops ih =>
      obtain ⟨k', hle, hok, hpair, hmem⟩ := ih (h.step op).1
      rw [h.createdIds_cons op]
      cases filled_cases k op with
      | inl hsame =>
          rw [if_pos hsame, List.nil_append]
          rw [hsame] at hle hmem
          exact ⟨k', hle, hok, hpair, hmem⟩
      | inr hmore =>
          rw [if_neg (by omega), List.singleton_append]
          rw [hmore] at hle hmem
          refine ⟨k', by omega, hok, ?_, fun id => ?_⟩
          · rw [List.pairwise_cons]
            refine ⟨fun id hid => ?_, hpair⟩
            have hlt := (hmem id).mp hid
            omega
          · rw [List.mem_cons, hmem id]
            omega

/-- No edge leads from a state to itself. -/
theorem not_edge_self (s : TaskState) : ¬ Edge s s := by
  intro h
  cases h

/-- The run lemma for a task that exists. -/
theorem TasksOk.path {s : TaskState} {id : Int} (h : TasksOk w k)
    (hs : stateOf w id = some s) (ops : List Op) :
    (s :: successive id w ops).IsChain Edge
      ∧ stateOf (Machine.exec Ai.step w ops) id
        = (s :: successive id w ops).getLast? := by
  induction ops generalizing w k s with
  | nil => simpa [successive] using hs
  | cons op ops ih =>
      obtain ⟨h₁, hmoves⟩ := h.step op
      have hmove := hmoves id
      rw [hs] at hmove
      rw [exec_cons, successive]
      cases hnext : stateOf (Ai.step w op) id with
      | none =>
          rw [hnext] at hmove
          cases hmove
      | some t =>
          rw [hnext] at hmove
          have hrest := ih h₁ hnext
          cases hmove with
          | stay =>
              rw [hs, if_pos rfl]
              exact hrest
          | edge hedge =>
              have hne : some t ≠ some s := by
                intro heq
                cases heq
                exact not_edge_self s hedge
              rw [hs, if_neg hne]
              refine ⟨List.IsChain.cons_cons hedge hrest.1, ?_⟩
              rw [hrest.2]
              simp

/-- The run lemma for an id under which there is no task yet. -/
theorem TasksOk.path_none {id : Int} (h : TasksOk w k)
    (hs : stateOf w id = none) (ops : List Op) :
    (successive id w ops = []
        ∧ stateOf (Machine.exec Ai.step w ops) id = none)
      ∨ ∃ path, successive id w ops = .created :: path
          ∧ (TaskState.created :: path).IsChain Edge
          ∧ stateOf (Machine.exec Ai.step w ops) id
            = (TaskState.created :: path).getLast? := by
  induction ops generalizing w k with
  | nil => exact Or.inl ⟨rfl, hs⟩
  | cons op ops ih =>
      obtain ⟨h₁, hmoves⟩ := h.step op
      have hmove := hmoves id
      rw [hs] at hmove
      rw [exec_cons, successive]
      cases hnext : stateOf (Ai.step w op) id with
      | none =>
          rw [hs, if_pos rfl]
          exact ih h₁ hnext
      | some t =>
          rw [hnext] at hmove
          cases hmove with
          | enter =>
              have hrest := h₁.path hnext ops
              rw [hs, if_neg (by simp)]
              exact Or.inr ⟨_, rfl, hrest.1, hrest.2⟩

/-- A task in a terminal state stays in it. -/
theorem TasksOk.terminal_stays {s : TaskState} {id : Int} (h : TasksOk w k)
    (hs : stateOf w id = some s) (hterm : Terminal s) (more : List Op) :
    stateOf (Machine.exec Ai.step w more) id = some s := by
  obtain ⟨hchain, hlast⟩ := h.path hs more
  rw [hlast]
  cases hsucc : successive id w more with
  | nil => rfl
  | cons t path =>
      rw [hsucc] at hchain
      cases hchain with
      | cons_cons hedge _ => exact absurd hedge (not_edge_of_terminal hterm)

/-- No two tasks have the same id. -/
theorem TasksOk.id_inj (h : TasksOk w k) {i j : Nat} (hi : i < AI_MAX_TASKS)
    (hj : j < AI_MAX_TASKS) (hui : (w.task i).used = true)
    (huj : (w.task j).used = true) (hid : (w.task i).id = (w.task j).id) :
    i = j := by
  have hidi := h.id_eq i ((h.used_iff i hi).mp hui)
  have hidj := h.id_eq j ((h.used_iff j hj).mp huj)
  omega

/-- Whole histories, from `ai_world_init` on. -/
theorem history (w₀ : World) (ops : List Op) (id : Int) :
    (id ∉ createdIds (aiWorldInit w₀) ops
        ∧ successive id (aiWorldInit w₀) ops = []
        ∧ stateOf (Machine.exec Ai.step (aiWorldInit w₀) ops) id = none)
      ∨ ∃ path, id ∈ createdIds (aiWorldInit w₀) ops
          ∧ successive id (aiWorldInit w₀) ops = .created :: path
          ∧ (TaskState.created :: path).IsChain Edge
          ∧ stateOf (Machine.exec Ai.step (aiWorldInit w₀) ops) id
            = (TaskState.created :: path).getLast? := by
  have hinit := tasksOk_init w₀
  obtain ⟨k, _, hok, _, hmem⟩ := hinit.exec ops
  have hnone : stateOf (aiWorldInit w₀) id = none := by
    rw [hinit.stateOf_eq, if_neg (by omega)]
  have hstate := hok.stateOf_eq id
  cases hinit.path_none hnone ops with
  | inl hempty =>
      refine Or.inl ⟨?_, hempty⟩
      rw [hempty.2] at hstate
      rw [hmem id]
      intro hid
      rw [if_pos (by omega)] at hstate
      cases hstate
  | inr hpath =>
      obtain ⟨path, hsucc, hchain, hlast⟩ := hpath
      refine Or.inr ⟨path, ?_, hsucc, hchain, hlast⟩
      rw [hmem id]
      by_contra hid
      rw [if_neg (by omega), hlast] at hstate
      simp at hstate

/-- A history that comes to DONE is the one way there. -/
theorem history_done (w₀ : World) (ops : List Op) (id : Int)
    (hdone : TaskState.done ∈ successive id (aiWorldInit w₀) ops) :
    successive id (aiWorldInit w₀) ops
      = [.created, .queued, .dispatched, .done] := by
  cases history w₀ ops id with
  | inl hempty =>
      rw [hempty.2.1] at hdone
      cases hdone
  | inr hpath =>
      obtain ⟨path, _, hsucc, hchain, _⟩ := hpath
      rw [hsucc] at hdone ⊢
      have hin : TaskState.done ∈ path := by simpa using hdone
      rw [path_to_done hchain hin]

end Run

/-- The life of a task, for every run: the ids are positive and all
different; the states a task goes through are a path from CREATED along
the edges, ending where the task is; a terminal state stays; DONE has
one way to it; and `ai_task_set_state` answers 0 and leaves the world, or
answers 1 and changes the state of that one task. -/
theorem task_lifecycle (w₀ : World) (ops : List Op) :
    let init := aiWorldInit w₀
    let w := exec step init ops
    (createdIds init ops).Nodup
    ∧ (∀ id ∈ createdIds init ops, 0 < id)
    ∧ (∀ i < AI_MAX_TASKS, ∀ j < AI_MAX_TASKS, (w.task i).used = true →
        (w.task j).used = true → (w.task i).id = (w.task j).id → i = j)
    ∧ (∀ id, (id ∉ createdIds init ops ∧ successive id init ops = []
            ∧ stateOf w id = none)
        ∨ ∃ path, id ∈ createdIds init ops
            ∧ successive id init ops = .created :: path
            ∧ (TaskState.created :: path).IsChain Edge
            ∧ stateOf w id = (TaskState.created :: path).getLast?)
    ∧ (∀ id s more, stateOf w id = some s → Terminal s →
        stateOf (exec step w more) id = some s)
    ∧ (∀ id, TaskState.done ∈ successive id init ops →
        successive id init ops = [.created, .queued, .dispatched, .done])
    ∧ (∀ id dst, aiTaskSetState w id dst = (w, 0)
        ∨ ∃ i, taskById w id = some i ∧ (w.task i).id = id
            ∧ Edge (w.task i).state dst
            ∧ aiTaskSetState w id dst
              = (w.setTask i { w.task i with state := dst }, 1)) := by
  intro init w
  obtain ⟨k, _, hok, hpair, hmem⟩ := (tasksOk_init w₀).exec ops
  refine ⟨?_, fun id hid => ?_, fun i hi j hj => hok.id_inj hi hj,
    history w₀ ops, fun id s more hs hterm => hok.terminal_stays hs hterm more,
    history_done w₀ ops, ?_⟩
  · exact hpair.imp fun hlt => ne_of_lt hlt
  · have habove := (hmem id).mp hid
    omega
  · intro id dst
    cases setState_cases w id dst with
    | inl hsame => exact Or.inl hsame
    | inr hset =>
        obtain ⟨i, hfind, hedge, hset⟩ := hset
        refine Or.inr ⟨i, hfind, ?_, hedge, hset⟩
        have hfound := hfind
        rw [taskById, Table.findIdx_eq_some_iff (d := noTask)] at hfound
        have hp := hfound.2.1
        rw [Bool.and_eq_true, decide_eq_true_eq] at hp
        exact hp.2

end Thuos.Ai
