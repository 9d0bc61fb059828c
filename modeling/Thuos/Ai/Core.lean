/-
The AI bookkeeping core (kernel/ai/ai_core.c): registries of services and
models, tasks with a state machine, a permission mask and a ring of audit
records.

The tables are arrays inside `ai_world_t`; here they are lists whose
lengths are fields of `World`, so a table never changes its size. A
`const char *` that may be NULL is an `Option CStr`, and `none` stands for
the `-1` or NULL of a search that fails. `ai_world_init` clears the `used`
flags only, so it takes the world that it finds.
-/
import Thuos.Lib.CStr
import Thuos.Lib.Machine
import Thuos.Lib.Table

namespace Thuos.Ai

open Machine

def AI_NAME_MAX : Nat := 28

def AI_ENDPOINT_MAX : Nat := 48

def AI_MAX_SERVICES : Nat := 8

def AI_MAX_MODELS : Nat := 12

def AI_MAX_TASKS : Nat := 16

def AI_AUDIT_CAP : Nat := 32

-- ============================================================== the types

/-- `ai_status_t`. -/
inductive Status
  | designOnly
  | configured
  | reachable
  | unreachable
  deriving DecidableEq, Repr

/-- `ai_svc_kind_t`. -/
inductive SvcKind
  | none
  | bridge
  | localRuntime
  | tool
  deriving DecidableEq, Repr

/-- `ai_service_t`. -/
structure Service where
  name : CStr
  endpoint : CStr
  kind : SvcKind
  status : Status
  used : Bool
  deriving DecidableEq, Repr

/-- `ai_model_state_t`. -/
inductive ModelState
  | declared
  | present
  deriving DecidableEq, Repr

/-- `ai_role_t`. -/
inductive Role
  | chat
  | code
  | embed
  | vision
  deriving DecidableEq, Repr

/-- `ai_model_t`. -/
structure Model where
  name : CStr
  role : Role
  state : ModelState
  used : Bool
  deriving DecidableEq, Repr

def AI_PERM_LOCAL_INFER : UInt32 := (1 : UInt32) <<< 0

def AI_PERM_NET_BRIDGE : UInt32 := (1 : UInt32) <<< 1

def AI_PERM_FILE_READ : UInt32 := (1 : UInt32) <<< 2

/-- `ai_task_state_t`. -/
inductive TaskState
  | created
  | queued
  | dispatched
  | done
  | denied
  | failed
  deriving DecidableEq, Repr

/-- `ai_task_kind_t`. -/
inductive TaskKind
  | chat
  | code
  | embed
  | tool
  deriving DecidableEq, Repr

/-- `ai_task_t`. -/
structure Task where
  id : Int
  /-- service index, or -1 -/
  service : Int
  kind : TaskKind
  state : TaskState
  label : CStr
  used : Bool
  deriving DecidableEq, Repr

/-- `ai_decision_t`. -/
inductive Decision
  | allow
  | deny
  deriving DecidableEq, Repr

/-- `ai_audit_t`. -/
structure Audit where
  seq : UInt32
  action : CStr
  decision : Decision
  taskId : Int
  used : Bool
  deriving DecidableEq, Repr

/-- What a table read outside the table yields. -/
def noTask : Task :=
  { id := 0, service := 0, kind := .chat, state := .created
    label := CStr.empty, used := false }

def noAudit : Audit :=
  { seq := 0, action := CStr.empty, decision := .allow, taskId := 0
    used := false }

def noService : Service :=
  { name := CStr.empty, endpoint := CStr.empty, kind := .none
    status := .designOnly, used := false }

def noModel : Model :=
  { name := CStr.empty, role := .chat, state := .declared, used := false }

/-- `ai_world_t`. -/
structure World where
  services : List Service
  models : List Model
  tasks : List Task
  audit : List Audit
  perms : UInt32
  nextTaskId : Int
  auditSeq : UInt32
  /-- ring write cursor -/
  auditHead : Nat
  /-- total recorded, at most `AI_AUDIT_CAP` -/
  auditTotal : Nat
  services_len : services.length = AI_MAX_SERVICES
  models_len : models.length = AI_MAX_MODELS
  tasks_len : tasks.length = AI_MAX_TASKS
  audit_len : audit.length = AI_AUDIT_CAP
  deriving DecidableEq

namespace World

/-- A static `ai_world_t` before it is initialised. -/
def zero : World where
  services := List.replicate AI_MAX_SERVICES noService
  models := List.replicate AI_MAX_MODELS noModel
  tasks := List.replicate AI_MAX_TASKS noTask
  audit := List.replicate AI_AUDIT_CAP noAudit
  perms := 0
  nextTaskId := 0
  auditSeq := 0
  auditHead := 0
  auditTotal := 0
  services_len := List.length_replicate
  models_len := List.length_replicate
  tasks_len := List.length_replicate
  audit_len := List.length_replicate

/-- `w->tasks[i]`. -/
def task (w : World) (i : Nat) : Task := Table.slot noTask w.tasks i

/-- `w->audit[i]`. -/
def auditAt (w : World) (i : Nat) : Audit := Table.slot noAudit w.audit i

/-- `w->tasks[i] = t`. -/
def setTask (w : World) (i : Nat) (t : Task) : World :=
  { w with
    tasks := w.tasks.set i t
    tasks_len := List.length_set.trans w.tasks_len }

/-- `w->audit[i] = e`. -/
def setAudit (w : World) (i : Nat) (e : Audit) : World :=
  { w with
    audit := w.audit.set i e
    audit_len := List.length_set.trans w.audit_len }

@[simp] theorem task_setTask_self {w : World} {i : Nat}
    (h : i < AI_MAX_TASKS) (t : Task) : (w.setTask i t).task i = t :=
  Table.slot_set_self (w.tasks_len.symm ▸ h) t

@[simp] theorem task_setTask_ne {w : World} {i j : Nat} (h : j ≠ i)
    (t : Task) : (w.setTask i t).task j = w.task j :=
  Table.slot_set_ne h t

@[simp] theorem auditAt_setAudit_self {w : World} {i : Nat}
    (h : i < AI_AUDIT_CAP) (e : Audit) : (w.setAudit i e).auditAt i = e :=
  Table.slot_set_self (w.audit_len.symm ▸ h) e

@[simp] theorem auditAt_setAudit_ne {w : World} {i j : Nat} (h : j ≠ i)
    (e : Audit) : (w.setAudit i e).auditAt j = w.auditAt j :=
  Table.slot_set_ne h e

end World

-- ============================================================ the strings

/-- `cp`: at most `max - 1` bytes and a terminator; NULL copies nothing. -/
def cp (s : Option CStr) (max : Nat) : CStr :=
  match s with
  | none => CStr.empty
  | some s => s.take (max - 1)

/-- `eq`, on the bytes of the two strings. -/
def eq : List UInt8 → List UInt8 → Bool
  | a :: as, b :: bs => if a ≠ b then false else eq as bs
  | [], [] => true
  | _, _ => false

-- ========================================================= the operations

/-- `ai_world_init`. -/
def aiWorldInit (w : World) : World :=
  { services := w.services.map fun s => { s with used := false }
    models := w.models.map fun m => { m with used := false }
    tasks := w.tasks.map fun t => { t with used := false }
    audit := w.audit.map fun e => { e with used := false }
    perms := AI_PERM_LOCAL_INFER ||| AI_PERM_FILE_READ
    nextTaskId := 1
    auditSeq := 0
    auditHead := 0
    auditTotal := 0
    services_len := (List.length_map _).trans w.services_len
    models_len := (List.length_map _).trans w.models_len
    tasks_len := (List.length_map _).trans w.tasks_len
    audit_len := (List.length_map _).trans w.audit_len }

/-- `ai_service_register`. -/
def aiServiceRegister (w : World) (name endpoint : Option CStr)
    (kind : SvcKind) (status : Status) : World × Option Nat :=
  match w.services.findIdx? fun s => !s.used with
  | some i =>
      ({ w with
          services := w.services.set i
            { name := cp name AI_NAME_MAX
              endpoint := cp endpoint AI_ENDPOINT_MAX
              kind := kind, status := status, used := true }
          services_len := List.length_set.trans w.services_len }, some i)
  | none => (w, none)

/-- `ai_service_find`: `none` is the source's `-1`. -/
def aiServiceFind (w : World) (name : CStr) : Option Nat :=
  w.services.findIdx? fun s => s.used && eq s.name.chars name.chars

/-- `ai_model_register`. -/
def aiModelRegister (w : World) (name : Option CStr) (role : Role)
    (state : ModelState) : World × Option Nat :=
  match w.models.findIdx? fun m => !m.used with
  | some i =>
      ({ w with
          models := w.models.set i
            { name := cp name AI_NAME_MAX, role := role, state := state
              used := true }
          models_len := List.length_set.trans w.models_len }, some i)
  | none => (w, none)

/-- `ai_policy_allows`. -/
def aiPolicyAllows (w : World) (perm : UInt32) : Bool := w.perms &&& perm ≠ 0

/-- `ai_policy_set`. -/
def aiPolicySet (w : World) (perm : UInt32) (allow : Bool) : World :=
  if allow then { w with perms := w.perms ||| perm }
  else { w with perms := w.perms &&& ~~~perm }

/-- `task_by_id`: the slot of the task. -/
def taskById (w : World) (id : Int) : Option Nat :=
  w.tasks.findIdx? fun t => t.used && t.id = id

/-- `ai_task_create`: the id of the new task, `-1` when the table is
full. -/
def aiTaskCreate (w : World) (kind : TaskKind) (service : Int)
    (label : Option CStr) : World × Int :=
  match w.tasks.findIdx? fun t => !t.used with
  | some i =>
      let id := w.nextTaskId
      ({ w.setTask i
          { id := id, service := service, kind := kind, state := .created
            label := cp label AI_NAME_MAX, used := true } with
          nextTaskId := w.nextTaskId + 1 }, id)
  | none => (w, -1)

/-- `valid_transition`. -/
def validTransition (src dst : TaskState) : Bool :=
  match src with
  | .created => dst = .queued || dst = .denied || dst = .failed
  | .queued => dst = .dispatched || dst = .denied || dst = .failed
  | .dispatched => dst = .done || dst = .failed
  | _ => false

/-- `ai_task_set_state`: 1 if the transition was made. -/
def aiTaskSetState (w : World) (id : Int) (dst : TaskState) : World × Nat :=
  match taskById w id with
  | none => (w, 0)
  | some i =>
      if ¬validTransition (w.task i).state dst then (w, 0)
      else (w.setTask i { w.task i with state := dst }, 1)

/-- `ai_task_count`. -/
def aiTaskCount (w : World) : Nat := w.tasks.countP fun t => t.used

/-- `ai_audit_record`. -/
def aiAuditRecord (w : World) (action : Option CStr) (d : Decision)
    (taskId : Int) : World :=
  let seq := w.auditSeq + 1
  { w.setAudit w.auditHead
      { seq := seq, action := cp action AI_NAME_MAX, decision := d
        taskId := taskId, used := true } with
    auditSeq := seq
    auditHead := (w.auditHead + 1) % AI_AUDIT_CAP
    auditTotal :=
      if w.auditTotal < AI_AUDIT_CAP then w.auditTotal + 1
      else w.auditTotal }

/-- `ai_audit_count`. -/
def aiAuditCount (w : World) : Nat := w.auditTotal

/-- `ai_audit_recent`, with C's remainder, which takes the sign of the
dividend. -/
def aiAuditRecent (w : World) (back : Int) : Option Audit :=
  if back < 0 ∨ back ≥ w.auditTotal then none
  else
    let idx := (w.auditHead - 1 - back : Int).tmod AI_AUDIT_CAP
    let idx := if idx < 0 then idx + AI_AUDIT_CAP else idx
    some (w.auditAt idx.toNat)

/-- `ai_sub_t`. -/
inductive Sub
  | help
  | status
  | models
  | tasks
  | policy
  | bridge
  | unknown
  deriving DecidableEq, Repr

/-- `ai_parse_sub`. -/
def aiParseSub (s : Option CStr) : Sub :=
  match s with
  | none => .help
  | some s =>
      if s.chars = [] then .help
      else if eq s.chars (CStr.ofString "status").chars then .status
      else if eq s.chars (CStr.ofString "models").chars then .models
      else if eq s.chars (CStr.ofString "tasks").chars then .tasks
      else if eq s.chars (CStr.ofString "policy").chars then .policy
      else if eq s.chars (CStr.ofString "bridge").chars then .bridge
      else if eq s.chars (CStr.ofString "help").chars then .help
      else .unknown

-- ============================================================ the machine

/-- The calls that change the world. -/
inductive Op
  | serviceRegister (name endpoint : Option CStr) (kind : SvcKind)
      (status : Status)
  | modelRegister (name : Option CStr) (role : Role) (state : ModelState)
  | policySet (perm : UInt32) (allow : Bool)
  | taskCreate (kind : TaskKind) (service : Int) (label : Option CStr)
  | taskSetState (id : Int) (dst : TaskState)
  | auditRecord (action : Option CStr) (d : Decision) (taskId : Int)
  deriving DecidableEq, Repr

/-- One call, keeping the world it leaves. -/
def step (w : World) : Op → World
  | .serviceRegister name endpoint kind status =>
      (aiServiceRegister w name endpoint kind status).1
  | .modelRegister name role state => (aiModelRegister w name role state).1
  | .policySet perm allow => aiPolicySet w perm allow
  | .taskCreate kind service label => (aiTaskCreate w kind service label).1
  | .taskSetState id dst => (aiTaskSetState w id dst).1
  | .auditRecord action d taskId => aiAuditRecord w action d taskId

-- ================================================ what each call changes

theorem task_aiWorldInit (w : World) (i : Nat) :
    ((aiWorldInit w).task i).used = false := by
  unfold World.task aiWorldInit
  by_cases h : i < w.tasks.length
  · rw [Table.slot_eq_getElem (by simpa using h)]
    simp
  · rw [Table.slot_of_le (by simpa using h)]
    rfl

end Thuos.Ai
