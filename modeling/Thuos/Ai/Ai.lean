/-
The AI layer, kernel side (kernel/ai/ai.c): the world that `ai_init` sets
up and the `ai` command of the shell.

What a subcommand prints is left out; what it does to the world is kept.
For most of them that is one audit record. `ai bridge` runs a task through
the whole pipeline, and ignores what each call of it returns.
-/
import Thuos.Ai.Core

namespace Thuos.Ai

/-- `ai_init`. -/
def aiInit (w : World) : World :=
  let w := aiWorldInit w
  let w := (aiServiceRegister w (CStr.ofString "thunity-backend")
    (CStr.ofString "http://127.0.0.1:8000") .bridge .designOnly).1
  let w := (aiServiceRegister w (CStr.ofString "ollama")
    (CStr.ofString "http://127.0.0.1:11434") .bridge .designOnly).1
  let w := (aiModelRegister w (CStr.ofString "llama3.1") .chat .declared).1
  let w := (aiModelRegister w (CStr.ofString "qwen2.5-coder") .code
    .declared).1
  (aiModelRegister w (CStr.ofString "nomic-embed-text") .embed .declared).1

/-- `cmd_status`. -/
def cmdStatus (w : World) : World :=
  aiAuditRecord w (CStr.ofString "ai.status") .allow 0

/-- `cmd_models`. -/
def cmdModels (w : World) : World :=
  aiAuditRecord w (CStr.ofString "ai.models") .allow 0

/-- `cmd_tasks`: an empty list is not audited. -/
def cmdTasks (w : World) : World :=
  if aiTaskCount w = 0 then w
  else aiAuditRecord w (CStr.ofString "ai.tasks") .allow 0

/-- `cmd_policy`. -/
def cmdPolicy (w : World) : World :=
  aiAuditRecord w (CStr.ofString "ai.policy") .allow 0

/-- `svc` of `cmd_bridge`: the index that `ai_service_find` returns. -/
def bridgeService (w : World) : Int :=
  match aiServiceFind w (CStr.ofString "thunity-backend") with
  | some i => i
  | none => -1

/-- `cmd_bridge`. -/
def cmdBridge (w : World) : World :=
  let svc := bridgeService w
  let (w, id) := aiTaskCreate w .chat svc (CStr.ofString "bridge-demo")
  if ¬aiPolicyAllows w AI_PERM_NET_BRIDGE then
    let w := (aiTaskSetState w id .denied).1
    aiAuditRecord w (CStr.ofString "bridge.connect") .deny id
  else
    let w := (aiTaskSetState w id .queued).1
    -- cannot dispatch: no TCP/IP
    let w := (aiTaskSetState w id .failed).1
    aiAuditRecord w (CStr.ofString "bridge.connect") .deny id

/-- `ai_command`: help and an unknown subcommand only print. -/
def aiCommand (w : World) (args : Option CStr) : World :=
  match aiParseSub args with
  | .status => cmdStatus w
  | .models => cmdModels w
  | .tasks => cmdTasks w
  | .policy => cmdPolicy w
  | .bridge => cmdBridge w
  | .help => w
  | .unknown => w

-- ============================================================ the machine

/-- What happens to the world after `ai_init`. -/
inductive Event
  | command (args : Option CStr)
  | policySet (perm : UInt32) (allow : Bool)
  deriving DecidableEq, Repr

def run (w : World) : Event → World
  | .command args => aiCommand w args
  | .policySet perm allow => aiPolicySet w perm allow

/-- The event is an `ai bridge` command. -/
def Event.isBridge : Event → Bool
  | .command args =>
      match aiParseSub args with
      | .bridge => true
      | _ => false
  | .policySet _ _ => false

end Thuos.Ai
