/-
`ai bridge` is accountable while the task table has a free slot.

A run of commands keeps the two invariants of the world, `TasksOk` with as
many tasks as there were bridge commands, up to the size of the table
(`runOk_step`), and `AuditOk`. With a slot free the pipeline does what it
says (`bridge_free`). No slot is ever freed, so the seventeenth bridge
command gets -1 from `ai_task_create`, sets the state of no task and still
records the id -1 (`bridge_full`).
-/
import Thuos.Ai.Ai
import Thuos.Ai.Proofs.AuditRing
import Thuos.Ai.Proofs.Tasks

namespace Thuos.Ai

open Machine

-- ========================================================== what is stated

/-- What an accountable bridge command does: one task is new, it is
denied or failed as the policy says, no other task is touched, and one
audit record is appended, which carries the id of the task. -/
def Accountable (w v : World) : Prop :=
  ∃ id r, 0 < id ∧ stateOf w id = none
    ∧ stateOf v id
      = some (if aiPolicyAllows w AI_PERM_NET_BRIDGE then .failed
        else .denied)
    ∧ (∀ other ≠ id, stateOf v other = stateOf w other)
    ∧ aiTaskCount v = aiTaskCount w + 1
    ∧ v.auditSeq = w.auditSeq + 1
    ∧ recents v = (r :: recents w).take AI_AUDIT_CAP
    ∧ r.action = CStr.ofString "bridge.connect" ∧ r.taskId = id

-- ============================================================ one pipeline

section Pipeline

variable {w : World} {k : Nat} {recs : List Audit}

/-- No task has the number -1, which stands for none. -/
theorem TasksOk.stateOf_minus_one (h : TasksOk w k) :
    stateOf w (-1) = none := by
  rw [h.stateOf_eq, if_neg (by omega)]

/-- A transition along an edge. -/
theorem TasksOk.setState_edge (h : TasksOk w k) {id : Int}
    {s dst : TaskState} (hs : stateOf w id = some s) (hedge : Edge s dst) :
    TasksOk (aiTaskSetState w id dst).1 k
      ∧ stateOf (aiTaskSetState w id dst).1 id = some dst
      ∧ ∀ other ≠ id,
        stateOf (aiTaskSetState w id dst).1 other = stateOf w other := by
  have hin : 1 ≤ id ∧ id ≤ k := by
    by_contra hout
    rw [h.stateOf_eq, if_neg hout] at hs
    cases hs
  rw [h.stateOf_eq, if_pos hin] at hs
  cases hs
  have hi : (id - 1).toNat < k := by omega
  have hlt : (id - 1).toNat < AI_MAX_TASKS := Nat.lt_of_lt_of_le hi h.le
  have hset : (aiTaskSetState w id dst).1
      = w.setTask (id - 1).toNat
        { w.task (id - 1).toNat with state := dst } := by
    unfold aiTaskSetState
    rw [h.taskById_eq, if_pos hin]
    dsimp only
    rw [if_neg (not_not.mpr ((validTransition_iff _ _).mpr hedge))]
  have hok := h.setState hi dst
  rw [hset]
  refine ⟨hok, ?_, fun other hother => ?_⟩
  · rw [hok.stateOf_eq, if_pos hin, World.task_setTask_self hlt]
  · rw [hok.stateOf_eq, h.stateOf_eq]
    by_cases hin' : 1 ≤ other ∧ other ≤ k
    · rw [if_pos hin', if_pos hin', World.task_setTask_ne (by omega)]
    · rw [if_neg hin', if_neg hin']

/-- A creation with a slot free. -/
theorem TasksOk.create_state (h : TasksOk w k) (hk : k < AI_MAX_TASKS)
    (kind : TaskKind) (service : Int) (label : Option CStr) :
    stateOf (aiTaskCreate w kind service label).1 (k + 1) = some .created
      ∧ ∀ other ≠ (k + 1 : Int),
        stateOf (aiTaskCreate w kind service label).1 other
          = stateOf w other := by
  have hok := h.create hk kind service label
  refine ⟨?_, fun other hother => ?_⟩
  · have hslot : ((k : Int) + 1 - 1).toNat = k := by omega
    rw [hok.stateOf_eq, if_pos (by omega), hslot, h.create_eq hk]
    show some ((w.setTask k _).task k).state = _
    rw [World.task_setTask_self hk]
    rfl
  · rw [hok.stateOf_eq, h.stateOf_eq, h.create_eq hk]
    by_cases hin : 1 ≤ other ∧ other ≤ k
    · rw [if_pos (by omega), if_pos hin]
      show some ((w.setTask k _).task (other - 1).toNat).state = _
      rw [World.task_setTask_ne (by omega)]
    · rw [if_neg (by omega), if_neg hin]

/-- The world before the audit record of `cmd_bridge`. -/
def bridgeTask (w : World) : World :=
  let (v, id) :=
    aiTaskCreate w .chat (bridgeService w) (CStr.ofString "bridge-demo")
  if ¬aiPolicyAllows v AI_PERM_NET_BRIDGE then (aiTaskSetState v id .denied).1
  else (aiTaskSetState (aiTaskSetState v id .queued).1 id .failed).1

/-- The command asks for a task, and records that the connection was denied.
-/
theorem cmdBridge_eq (w : World) :
    cmdBridge w = aiAuditRecord (bridgeTask w)
      (CStr.ofString "bridge.connect") .deny
      (aiTaskCreate w .chat (bridgeService w)
        (CStr.ofString "bridge-demo")).2 := by
  unfold cmdBridge bridgeTask
  simp only
  split
  · rfl
  · rfl

/-- A new task changes no permission. -/
theorem perms_create (w : World) (kind : TaskKind) (service : Int)
    (label : Option CStr) :
    (aiTaskCreate w kind service label).1.perms = w.perms := by
  unfold aiTaskCreate
  split
  · rfl
  · rfl

/-- The task of the bridge leaves the audit log in order. -/
theorem AuditOk.bridgeTask (h : AuditOk w recs) :
    AuditOk (Ai.bridgeTask w) recs := by
  unfold Ai.bridgeTask
  simp only
  split
  · exact (h.taskCreate _ _ _).taskSetState _ _
  · exact ((h.taskCreate _ _ _).taskSetState _ _).taskSetState _ _

/-- The pipeline with a slot free. -/
theorem TasksOk.bridgeTask_free (h : TasksOk w k) (hk : k < AI_MAX_TASKS) :
    TasksOk (bridgeTask w) (k + 1)
      ∧ stateOf (bridgeTask w) (k + 1)
        = some (if aiPolicyAllows w AI_PERM_NET_BRIDGE then .failed
          else .denied)
      ∧ ∀ other ≠ (k + 1 : Int),
        stateOf (bridgeTask w) other = stateOf w other := by
  have hcreate := h.create hk .chat (bridgeService w)
    (CStr.ofString "bridge-demo")
  obtain ⟨hnew, hold⟩ := h.create_state hk .chat (bridgeService w)
    (CStr.ofString "bridge-demo")
  have hid : (aiTaskCreate w .chat (bridgeService w)
      (CStr.ofString "bridge-demo")).2 = (k : Int) + 1 := by
    rw [h.create_eq hk]
  have hpolicy : aiPolicyAllows (aiTaskCreate w .chat (bridgeService w)
      (CStr.ofString "bridge-demo")).1 AI_PERM_NET_BRIDGE
      = aiPolicyAllows w AI_PERM_NET_BRIDGE := by
    unfold aiPolicyAllows
    rw [perms_create]
  unfold bridgeTask
  simp only [hid, hpolicy]
  cases aiPolicyAllows w AI_PERM_NET_BRIDGE with
  | false =>
      obtain ⟨hok, hself, hother⟩ :=
        hcreate.setState_edge hnew Edge.denyCreated
      simp only [Bool.false_eq_true, not_false_eq_true, if_true, if_false]
      refine ⟨hok, hself, fun other hne => ?_⟩
      rw [hother other hne, hold other hne]
  | true =>
      obtain ⟨hok₁, hself₁, hother₁⟩ :=
        hcreate.setState_edge hnew Edge.queue
      obtain ⟨hok₂, hself₂, hother₂⟩ :=
        hok₁.setState_edge hself₁ Edge.failQueued
      simp only [not_true_eq_false, if_true, if_false]
      refine ⟨hok₂, hself₂, fun other hne => ?_⟩
      rw [hother₂ other hne, hother₁ other hne, hold other hne]

/-- The pipeline with the table full: no task has the id -1. -/
theorem TasksOk.bridgeTask_full (h : TasksOk w k)
    (hk : ¬ k < AI_MAX_TASKS) : bridgeTask w = w := by
  have hset : ∀ dst, aiTaskSetState w (-1) dst = (w, 0) := by
    intro dst
    unfold aiTaskSetState
    rw [h.taskById_eq, if_neg (by omega)]
  unfold bridgeTask
  rw [h.create_full hk]
  simp only [hset]
  split
  · rfl
  · rfl

/-- To record a decision leaves the tasks in order. -/
theorem TasksOk.record (h : TasksOk w k) (action : Option CStr)
    (d : Decision) (taskId : Int) :
    TasksOk (aiAuditRecord w action d taskId) k := h.congr rfl rfl

/-- To record a decision changes the state of no task. -/
theorem stateOf_record (w : World) (action : Option CStr) (d : Decision)
    (taskId id : Int) :
    stateOf (aiAuditRecord w action d taskId) id = stateOf w id :=
  stateOf_congr rfl id

/-- The newest records after one more. -/
theorem AuditOk.recents_record (h : AuditOk w recs) (action : Option CStr)
    (d : Decision) (taskId : Int) :
    recents (aiAuditRecord w action d taskId)
      = (entry w action d taskId :: recents w).take AI_AUDIT_CAP := by
  rw [(h.record action d taskId).recents_eq, h.recents_eq,
    List.reverse_append, List.reverse_singleton, List.singleton_append]
  have hcap : AI_AUDIT_CAP = 31 + 1 := rfl
  rw [hcap, List.take_succ_cons, List.take_succ_cons, List.take_take]
  rfl

/-- With a slot free, `ai bridge` is accountable. -/
theorem bridge_free (ht : TasksOk w k) (ha : AuditOk w recs)
    (hk : k < AI_MAX_TASKS) : Accountable w (cmdBridge w) := by
  obtain ⟨hok, hself, hother⟩ := ht.bridgeTask_free hk
  have haudit := ha.bridgeTask
  have hid : (aiTaskCreate w .chat (bridgeService w)
      (CStr.ofString "bridge-demo")).2 = (k : Int) + 1 := by
    rw [ht.create_eq hk]
  rw [cmdBridge_eq, hid]
  refine ⟨(k : Int) + 1, entry (bridgeTask w) (CStr.ofString
    "bridge.connect") .deny (k + 1), by omega, ?_, ?_, ?_, ?_, ?_, ?_, ?_,
    rfl⟩
  · rw [ht.stateOf_eq, if_neg (by omega)]
  · rw [stateOf_record]
    exact hself
  · intro other hne
    rw [stateOf_record]
    exact hother other hne
  · rw [(hok.record _ _ _).count, ht.count]
  · show (bridgeTask w).auditSeq + 1 = _
    rw [haudit.seq, ha.seq]
  · rw [haudit.recents_record, haudit.recents_eq, ha.recents_eq]
  · rfl

/-- With the table full it records the id -1 and makes no task. -/
theorem bridge_full (ht : TasksOk w k) (hk : ¬ k < AI_MAX_TASKS) :
    cmdBridge w = aiAuditRecord w (CStr.ofString "bridge.connect") .deny
      (-1) := by
  rw [cmdBridge_eq, ht.bridgeTask_full hk, ht.create_full hk]

/-- The command leaves a task with its record exactly while there is room for
a task. -/
theorem accountable_iff (ht : TasksOk w k) (ha : AuditOk w recs) :
    Accountable w (cmdBridge w) ↔ k < AI_MAX_TASKS := by
  constructor
  · intro hacc
    by_contra hk
    obtain ⟨id, r, _, _, _, _, hcount, _⟩ := hacc
    rw [bridge_full ht hk, (ht.record _ _ _).count, ht.count] at hcount
    omega
  · exact bridge_free ht ha

end Pipeline

-- ================================================================== a run

/-- After `n` bridge commands. -/
structure RunOk (w : World) (n : Nat) : Prop where
  tasks : TasksOk w (min n AI_MAX_TASKS)
  audit : ∃ recs, AuditOk w recs

/-- After `ai_init` the log is empty and there is no task. -/
theorem runOk_init (w₀ : World) : RunOk (aiInit w₀) 0 where
  tasks := by
    have h := tasksOk_init w₀
    unfold aiInit aiServiceRegister aiModelRegister
    simp only
    split <;> split <;> split <;> split <;> split <;> exact h.congr rfl rfl
  audit := by
    refine ⟨[], ?_⟩
    have h := auditOk_init w₀
    unfold aiInit
    exact ((((h.serviceRegister _ _ _ _).serviceRegister _ _ _ _).modelRegister
      _ _ _).modelRegister _ _ _).modelRegister _ _ _

section Run

variable {w : World} {n : Nat}

/-- A decision that is recorded keeps tasks and log in order. -/
theorem RunOk.record (h : RunOk w n) (action : Option CStr) (d : Decision)
    (taskId : Int) : RunOk (aiAuditRecord w action d taskId) n where
  tasks := h.tasks.record action d taskId
  audit := by
    obtain ⟨recs, ha⟩ := h.audit
    exact ⟨_, ha.record action d taskId⟩

/-- The command fills one slot more, and keeps tasks and log in order. -/
theorem RunOk.bridge (h : RunOk w n) : RunOk (cmdBridge w) (n + 1) where
  tasks := by
    rw [cmdBridge_eq]
    by_cases hn : n < AI_MAX_TASKS
    · have hmin : min n AI_MAX_TASKS = n := by omega
      have hmin' : min (n + 1) AI_MAX_TASKS = n + 1 := by omega
      have ht := h.tasks
      rw [hmin] at ht
      rw [hmin']
      exact (ht.bridgeTask_free hn).1.record _ _ _
    · have hmin : min (n + 1) AI_MAX_TASKS = min n AI_MAX_TASKS := by omega
      rw [h.tasks.bridgeTask_full (by omega), hmin]
      exact h.tasks.record _ _ _
  audit := by
    obtain ⟨recs, ha⟩ := h.audit
    rw [cmdBridge_eq]
    exact ⟨_, ha.bridgeTask.record _ _ _⟩

/-- The step lemma. -/
theorem RunOk.step (h : RunOk w n) (e : Event) :
    RunOk (run w e) (n + e.isBridge.toNat) := by
  cases e with
  | policySet perm allow =>
      obtain ⟨recs, ha⟩ := h.audit
      refine ⟨?_, recs, ha.policySet perm allow⟩
      cases allow with
      | true => exact h.tasks.congr rfl rfl
      | false => exact h.tasks.congr rfl rfl
  | command args =>
      simp only [run, aiCommand, Event.isBridge]
      cases aiParseSub args with
      | status => exact h.record _ _ _
      | models => exact h.record _ _ _
      | tasks =>
          simp only [cmdTasks]
          split
          · exact h
          · exact h.record _ _ _
      | policy => exact h.record _ _ _
      | bridge => exact h.bridge
      | help => exact h
      | unknown => exact h

/-- The run lemma. -/
theorem RunOk.exec (h : RunOk w n) (es : List Event) :
    RunOk (Machine.exec run w es) (n + es.countP Event.isBridge) := by
  induction es generalizing w n with
  | nil => exact h
  | cons e es ih =>
      have hrun := ih (h.step e)
      rw [exec_cons, List.countP_cons]
      cases hbridge : e.isBridge with
      | true =>
          rw [hbridge, Nat.add_right_comm] at hrun
          exact hrun
      | false =>
          rw [hbridge] at hrun
          exact hrun

end Run

-- =============================================================== the claim

/-- The word `bridge` leads to the command. -/
theorem aiCommand_bridge (w : World) {args : Option CStr}
    (hargs : aiParseSub args = .bridge) : aiCommand w args = cmdBridge w := by
  unfold aiCommand
  rw [hargs]

/-- An `ai bridge` command, after any commands and policy changes, is
accountable exactly when fewer than 16 bridge commands came before it. -/
theorem bridge_accountable_iff (w₀ : World) (es : List Event)
    (args : Option CStr) (hargs : aiParseSub args = .bridge) :
    let w := exec run (aiInit w₀) es
    Accountable w (aiCommand w args)
      ↔ es.countP Event.isBridge < AI_MAX_TASKS := by
  intro w
  have h := (runOk_init w₀).exec es
  rw [Nat.zero_add] at h
  obtain ⟨recs, ha⟩ := h.audit
  rw [aiCommand_bridge w hargs, accountable_iff h.tasks ha]
  omega

/-- The first bridge command. -/
theorem bridge_accountable_first :
    aiParseSub (CStr.ofString "bridge") = .bridge
      ∧ Accountable (aiInit World.zero)
        (aiCommand (aiInit World.zero) (CStr.ofString "bridge")) :=
  ⟨by decide,
    (bridge_accountable_iff World.zero [] (CStr.ofString "bridge")
      (by decide)).mpr (by decide)⟩

/-- The seventeenth bridge command makes no task, and the record it
appends names the task -1, which there is not. -/
theorem bridge_unaccountable :
    let cmd := Event.command (some (CStr.ofString "bridge"))
    let w := exec run (aiInit World.zero) (List.replicate 16 cmd)
    let v := aiCommand w (CStr.ofString "bridge")
    ¬ Accountable w v
      ∧ (∃ r, aiAuditRecent v 0 = some r
        ∧ r.action = CStr.ofString "bridge.connect" ∧ r.taskId = -1)
      ∧ stateOf v (-1) = none := by
  intro cmd w v
  have h := (runOk_init World.zero).exec (List.replicate 16 cmd)
  obtain ⟨recs, ha⟩ := h.audit
  have hbridges : (List.replicate 16 cmd).countP Event.isBridge = 16 := by
    decide
  have hk : ¬ min (0 + (List.replicate 16 cmd).countP Event.isBridge)
      AI_MAX_TASKS < AI_MAX_TASKS := by
    rw [hbridges]
    decide
  have hv : v = aiAuditRecord w (CStr.ofString "bridge.connect") .deny
      (-1) := by
    rw [← bridge_full h.tasks hk]
    exact aiCommand_bridge w (by decide)
  refine ⟨fun hacc => ?_, ?_, ?_⟩
  · rw [hv, ← bridge_full h.tasks hk] at hacc
    exact hk ((accountable_iff h.tasks ha).mp hacc)
  · rw [hv, (ha.record _ _ _).recent, List.length_append,
      List.length_singleton, if_pos (by simp; decide)]
    refine ⟨_, List.getElem?_concat_length, rfl, rfl⟩
  · rw [hv, stateOf_record]
    exact h.tasks.stateOf_minus_one

end Thuos.Ai
