import Catio.Agent.Types
import Catio.Lib.Result

/-!
# Types of the automation workbench

The model of `automation/types.rs`: scheduled tasks with their triggers, skills, connections to
servers of tools, and the check of a task (`ScheduledTask.validate`).
-/

namespace Automation

open Agent Text

inductive AutomationError where
  | invalid (message : Text)
  | notFound (id : Text)
  | storage (message : Text)
  | network (message : Text)
  deriving DecidableEq

inductive TaskTrigger where
  | cron (expr : Text)
  | interval (seconds : UInt64)
  | once (at_ : Text)
  deriving DecidableEq

inductive TaskKind where
  | shell
  | prompt
  deriving DecidableEq

/-- What a task may do while nobody attends it. -/
inductive TaskPolicy where
  | reject
  | whitelist
  | auto
  deriving DecidableEq

/-- A task that fires on a trigger. -/
structure ScheduledTask where
  id : Text
  name : Text
  trigger : TaskTrigger
  kind : TaskKind
  script : Option Text
  prompt : Option Text
  targetRef : Option Text
  skillIds : List Text
  mcpIds : List Text
  policy : TaskPolicy
  whitelist : List Text
  enabled : Bool
  autoConfirmed : Bool
  ownerId : Text
  deriving DecidableEq

inductive SkillScope where
  | global
  | target
  deriving DecidableEq

inductive SkillRisk where
  | readonly
  | readonlyPreferred
  | confirmedWrite
  deriving DecidableEq

inductive SkillSource where
  | import_
  | url (url : Text)
  deriving DecidableEq

/-- A template of instructions. -/
structure Skill where
  id : Text
  name : Text
  scope : SkillScope
  targetRef : Option Text
  promptTemplate : Text
  riskPolicy : SkillRisk
  source : SkillSource
  version : UInt32
  enabled : Bool
  ownerId : Text
  deriving DecidableEq

inductive McpAuth where
  | none
  | bearer
  | header
  deriving DecidableEq

inductive McpStatus where
  | disconnected
  | connected
  | error
  deriving DecidableEq

/-- An external server of tools; there is one transport only. -/
structure McpConnection where
  id : Text
  name : Text
  url : Text
  auth : McpAuth
  credential : ApiCredential
  toolAllowlist : List Text
  status : McpStatus
  discoveredTools : List Text
  ownerId : Text
  deriving DecidableEq

def isBlank (text : Option Text) : Bool :=
  trim (text.getD []) = []

def TaskTrigger.validate : TaskTrigger → Except AutomationError Unit
  | .cron expr =>
      if (splitWhitespace expr).length ≠ 5 then
        .error (.invalid "cron expression must have 5 fields")
      else .ok ()
  | .interval seconds =>
      if seconds < 60 then .error (.invalid "interval must be at least 60 seconds") else .ok ()
  | .once at_ => if trim at_ = [] then .error (.invalid "once time is required") else .ok ()

namespace ScheduledTask

variable (task : ScheduledTask)

def validateName : Except AutomationError Unit :=
  if trim task.name = [] then .error (.invalid "name is required") else .ok ()

/-- The check of what a task executes. -/
def validateBody : Except AutomationError Unit :=
  match task.kind with
  | .shell =>
      if isBlank task.script then .error (.invalid "shell task requires a script") else .ok ()
  | .prompt =>
      if isBlank task.prompt then .error (.invalid "prompt task requires a prompt") else .ok ()

def validatePolicy : Except AutomationError Unit :=
  if task.policy = .auto ∧ !task.autoConfirmed then
    .error (.invalid "auto policy requires explicit confirmation")
  else .ok ()

/-- The check of a task. -/
def validate : Except AutomationError Unit := do
  task.validateName
  task.trigger.validate
  task.validateBody
  task.validatePolicy

variable {task}

theorem confirmed_of_validate (hvalid : task.validate = .ok ()) (hauto : task.policy = .auto) :
  task.autoConfirmed
  := by
  obtain ⟨_, -, hvalid⟩ := Result.bind_ok.mp hvalid
  obtain ⟨_, -, hvalid⟩ := Result.bind_ok.mp hvalid
  obtain ⟨_, -, hvalid⟩ := Result.bind_ok.mp hvalid
  unfold validatePolicy at hvalid
  by_contra hnot
  rw [if_pos ⟨hauto, by simpa using hnot⟩] at hvalid
  cases hvalid

end ScheduledTask

end Automation
