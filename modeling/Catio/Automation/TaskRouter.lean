import Catio.Agent.Runtime
import Catio.Automation.Repo

/-!
# Task tools of the agent, and the command that saves a task

The model of `automation/task_router.rs`: the tools of the agent that work on tasks, with their
lenient reading of what a language model has written; and of the command of `commands.rs` that
saves a task, which is read as it is derived from the type (`fromValue`).
-/

namespace Automation

open Agent Json Text

/-! ### Reading a value leniently -/

/-- A text as it is shown for debugging. -/
def debugText (t : Text) : Text :=
  "\"" ++ t.flatMap debugChar ++ "\""

/-- A number that is a 64-bit natural. -/
def asU64 : Value → Option UInt64
  | .number n =>
      let value := n.digits.foldl (fun v d => 10 * v + d.val) 0
      if n.negative ∨ n.fraction ≠ [] ∨ n.exponent.isSome ∨ 2 ^ 64 ≤ value then none
      else some (.ofNat value)
  | _ => none

def asBool : Value → Option Bool
  | .bool b => some b
  | _ => none

def nonBlank (t : Text) : Option Text :=
  if trim t = [] then none else some t

def idFrom (input : Value) : Except AutomationError Text :=
  match (input.get "id").bind Value.asStr with
  | some id => if id = [] then .error (.invalid "task id is required") else .ok id
  | none => .error (.invalid "task id is required")

def strField (input : Value) (key : Text) : Option Text :=
  (((input.get key).bind Value.asStr).bind nonBlank).map trim

def arrField (input : Value) (key : Text) : List Text :=
  (((input.get key).bind Value.asArray).map fun items => items.filterMap Value.asStr).getD []

def parseTriggerObject (v : Value) : Except AutomationError TaskTrigger :=
  let ty := ((v.get "type").bind Value.asStr).getD "cron"
  if ty = "cron" then
    match ((((v.get "expr").or (v.get "cron")).bind Value.asStr).bind nonBlank) with
    | some expr => .ok (.cron (trim expr))
    | none => .error (.invalid "cron trigger needs expr")
  else if ty = "interval" then
    match ((v.get "seconds").or (v.get "interval")).bind asU64 with
    | some seconds => .ok (.interval seconds)
    | none => .error (.invalid "interval trigger needs seconds")
  else if ty = "once" then
    match ((((v.get "at").or (v.get "once")).bind Value.asStr).bind nonBlank) with
    | some at_ => .ok (.once (trim at_))
    | none => .error (.invalid "once trigger needs at")
  else
    .error (.invalid ("unknown trigger type " ++ debugText ty ++ " (use cron|interval|once)"))

/-- The trigger: a cron expression, or an object. -/
def parseTrigger (input : Value) : Except AutomationError TaskTrigger :=
  match input.get "trigger" with
  | none =>
      .error (.invalid ("trigger is required (e.g. a cron string '*/2 * * * *' "
        ++ "or \x7btype:'interval',seconds:120\x7d)"))
  | some (.string s) =>
      if trim s = [] then .error (.invalid "trigger must be a cron string or an object")
      else .ok (.cron (trim s))
  | some (.object fields) => parseTriggerObject (.object fields)
  | some _ => .error (.invalid "trigger must be a cron string or an object")

/-- The kind of a task, a shell script if it is not given. -/
def parseKind (input : Value) : Except AutomationError TaskKind :=
  match (input.get "kind").bind Value.asStr with
  | none => .ok .shell
  | some kind =>
      if kind = "prompt" ∨ kind = "Prompt" then .ok .prompt
      else if kind = "shell" ∨ kind = "Shell" then .ok .shell
      else .error (.invalid ("kind must be shell or prompt (got " ++ debugText kind ++ ")"))

/-- The policy of a task, the strictest one if it is not given. -/
def parsePolicy (input : Value) : TaskPolicy :=
  match (input.get "policy").bind Value.asStr with
  | none => .reject
  | some policy =>
      if policy = "whitelist" then .whitelist else if policy = "auto" then .auto else .reject

def requireBody (kind : TaskKind) (script prompt : Option Text) : Except AutomationError Unit :=
  if kind = .shell ∧ isBlank script then .error (.invalid "shell task requires a script")
  else if kind = .prompt ∧ isBlank prompt then .error (.invalid "prompt task requires a prompt")
  else .ok ()

/-- The name of a task, which has to be given. -/
def requireName (input : Value) : Except AutomationError Text :=
  match strField input "name" with
  | some name => .ok name
  | none => .error (.invalid "task name is required")

/-- A task from what a language model has written; `random` is the number in an id that is not
given. -/
def parseTaskLenient (owner : Text) (input : Value) (activeTarget : Option Text) (random : UInt64) :
    Except AutomationError ScheduledTask := do
  let name ← requireName input
  let id := (strField input "id").getD ("task-" ++ ofNat random.toNat)
  let kind ← parseKind input
  let script := strField input "script"
  let prompt := strField input "prompt"
  let trigger ← parseTrigger input
  let policy := parsePolicy input
  let targetRef := ((strField input "targetRef").or (strField input "target")).or activeTarget
  requireBody kind script prompt
  let task : ScheduledTask :=
    { id := id
      name := name
      trigger := trigger
      kind := kind
      script := script
      prompt := prompt
      targetRef := targetRef
      skillIds := arrField input "skillIds"
      mcpIds := arrField input "mcpIds"
      policy := policy
      whitelist := arrField input "whitelist"
      enabled := ((input.get "enabled").bind asBool).getD true
      -- the confirmation is not read off the input
      autoConfirmed := policy = .auto
      ownerId := owner }
  task.validate
  .ok task

/-! ### Tools -/

def AutomationError.toText : AutomationError → Text
  | .invalid message => "invalid: " ++ message
  | .notFound id => "not found: " ++ id
  | .storage message => "storage: " ++ message
  | .network message => "network: " ++ message

section

variable [Serde] (writes : Writes) (s : AutomationStore)

/-- What a tool finds beside its input: the active connection, and a random number. -/
structure RouterContext where
  activeTarget : Option Text
  random : UInt64

def createOrUpdate (ctx : RouterContext) (owner : Text) (input : Value) : Answer Text :=
  match parseTaskLenient owner input ctx.activeTarget ctx.random with
  | .error e => (.error e, s)
  | .ok task =>
      match s.update writes (s.inner.upsertTask task) with
      | (r, s') => (r.map fun _ => "task " ++ task.id ++ " saved", s')

def deleteTool (owner : Text) (input : Value) : Answer Text :=
  match idFrom input with
  | .error e => (.error e, s)
  | .ok id =>
      match s.update writes (s.inner.deleteTask owner id) with
      | (r, s') => (r.map fun _ => "task " ++ id ++ " deleted", s')

def setEnabledTool (owner : Text) (input : Value) (enabled : Bool) : Answer Text :=
  match idFrom input with
  | .error e => (.error e, s)
  | .ok id =>
      match s.update writes (s.inner.setTaskEnabled owner id enabled) with
      | (r, s') =>
          (r.map fun _ => "task " ++ id ++ if enabled then " enabled" else " disabled", s')

/-- The result of a tool, and the store after it; other tools are left to other routers. -/
def dispatch (ctx : RouterContext) (toolUseId owner name : Text) (input : Value) :
    Option ToolResult × AutomationStore :=
  let finish (answer : Answer Text) : Option ToolResult × AutomationStore :=
    match answer with
    | (.ok content, s') => (some ⟨toolUseId, content, .succeeded⟩, s')
    | (.error e, s') => (some ⟨toolUseId, e.toText, .failed⟩, s')
  if name = "list_tasks" then
    finish (.ok (Serde.tasks.render (s.inner.listTasks owner)), s)
  else if name = "create_task" ∨ name = "update_task" then
    finish (createOrUpdate writes s ctx owner input)
  else if name = "delete_task" then finish (deleteTool writes s owner input)
  else if name = "enable_task" then finish (setEnabledTool writes s owner input true)
  else if name = "disable_task" then finish (setEnabledTool writes s owner input false)
  else (none, s)

end

/-! ### The derived reading of a task -/

/-- A field that has to be there. -/
def required {α : Type} (read : Value → Option α) (input : Value) (key : Text) : Option α :=
  (input.get key).bind read

def defaulted {α : Type} (default : α) (read : Value → Option α) (input : Value) (key : Text) :
    Option α :=
  match input.get key with
  | none => some default
  | some value => read value

/-- A field that may be left out, or null. -/
def optional {α : Type} (read : Value → Option α) : Value → Option (Option α)
  | .null => some none
  | value => (read value).map some

def textArray : Value → Option (List Text)
  | .array items => items.mapM Value.asStr
  | _ => none

/-- A variant without data: its name, or an object of its name. -/
def unitVariant {α : Type} (variants : List (Text × α)) : Value → Option α
  | .string name => variants.lookup name
  | .object [(name, .null)] => variants.lookup name
  | _ => none

/-- A trigger with its type: an object, or an array of the type and the field. -/
def readTrigger : Value → Option TaskTrigger
  | .object fields => do
      let ty ← required Value.asStr (.object fields) "type"
      if ty = "cron" then (required Value.asStr (.object fields) "expr").map .cron
      else if ty = "interval" then (required asU64 (.object fields) "seconds").map .interval
      else if ty = "once" then (required Value.asStr (.object fields) "at").map .once
      else none
  | .array [ty, value] => do
      let ty ← ty.asStr
      if ty = "cron" then value.asStr.map .cron
      else if ty = "interval" then (asU64 value).map .interval
      else if ty = "once" then value.asStr.map .once
      else none
  | _ => none

/-- A task as it is derived from the fields of an object. -/
def fromValue (input : Value) : Option ScheduledTask := do
  let id ← required Value.asStr input "id"
  let name ← required Value.asStr input "name"
  let trigger ← required readTrigger input "trigger"
  let kind ← required (unitVariant [("shell", .shell), ("prompt", .prompt)]) input "kind"
  let script ← defaulted none (optional Value.asStr) input "script"
  let prompt ← defaulted none (optional Value.asStr) input "prompt"
  let targetRef ← defaulted none (optional Value.asStr) input "targetRef"
  let skillIds ← defaulted [] textArray input "skillIds"
  let mcpIds ← defaulted [] textArray input "mcpIds"
  let policy ← required
    (unitVariant [("reject", .reject), ("whitelist", .whitelist), ("auto", .auto)]) input "policy"
  let whitelist ← defaulted [] textArray input "whitelist"
  let enabled ← required asBool input "enabled"
  let autoConfirmed ← defaulted false asBool input "autoConfirmed"
  let ownerId ← required Value.asStr input "ownerId"
  some ⟨id, name, trigger, kind, script, prompt, targetRef, skillIds, mcpIds, policy, whitelist,
    enabled, autoConfirmed, ownerId⟩

/-! ### The command -/

def DESKTOP_OWNER : Text :=
  "local"

/-- An input with the owner put in; other values than objects and null have no fields. -/
def withOwner (owner : Text) : Value → Option Value
  | .null => some (.object [("ownerId", .string owner)])
  | .object fields => some (.object (setField fields "ownerId" (.string owner)))
  | _ => none

/-- The task of an input that has its owner; `why` is the message of a reading that fails. -/
def readTask (why : Value → Text) (owner : Text) (taskInput : Value) :
    Except AutomationError ScheduledTask :=
  match fromValue taskInput with
  | some task => .ok { task with ownerId := owner }
  | none => .error (.invalid ("bad task input: " ++ why taskInput))

def parseTaskInput (why : Value → Text) (owner : Text) (input : Value) :
    Option (Except AutomationError ScheduledTask) :=
  (withOwner owner input).map fun taskInput => do
    let task ← readTask why owner taskInput
    task.validate
    .ok task

/-- The command that saves a task. -/
def createTask [Serde] (writes : Writes) (s : AutomationStore) (task : ScheduledTask) :
    Answer Text :=
  match s.update writes (s.inner.upsertTask task) with
  | (r, s') => (r.map fun _ => "task " ++ task.id ++ " saved", s')

end Automation

/-!
## Consent to unattended execution

A task that may do anything unattended comes from an input with an explicit confirmation, if it
comes through the command; the tool of the agent takes the policy for the confirmation
(`auto_consented`).
-/

namespace Automation

open Agent Json Text

/-- The ways on which a task comes into the store. -/
inductive Ingestion where
  | command (why : Value → Text)
  | tool (ctx : RouterContext) (owner : Text)

/-- The task that is handed to the store. -/
def Ingestion.task (path : Ingestion) (input : Value) : Option ScheduledTask :=
  match path with
  | .command why => (parseTaskInput why DESKTOP_OWNER input).bind Except.toOption
  | .tool ctx owner => (parseTaskLenient owner input ctx.activeTarget ctx.random).toOption

/-- The store after an input. -/
def Ingestion.ingest [Serde] (path : Ingestion) (input : Value) (writes : Writes)
    (s : AutomationStore) : AutomationStore :=
  match path with
  | .command why =>
      match parseTaskInput why DESKTOP_OWNER input with
      | some (.ok task) => (createTask writes s task).2
      | _ => s
  | .tool ctx owner => (createOrUpdate writes s ctx owner input).2

/-- The input has an explicit confirmation. -/
def Confirmed (input : Value) : Prop :=
  input.get "autoConfirmed" = some (.bool true)

/-- The policy of the input is `auto` only with a confirmation, if it comes through the tool. -/
def Ingestion.Asks (path : Ingestion) (input : Value) : Prop :=
  match path with
  | .command _ => True
  | .tool _ _ => (input.get "policy").bind Value.asStr = some ("auto" : Text) → Confirmed input

section

variable {input : Value} {task : ScheduledTask}

theorem lookup_setField_of_ne {fields : List (Text × Value)} {name other : Text} {value : Value}
    (hne : name ≠ other) :
  (setField fields other value).lookup name = fields.lookup name
  := by
  have hcons : ∀ (f : Text × Value) (rest : List (Text × Value)), f.1 = other →
      (f :: rest).lookup name = rest.lookup name := by
    rintro ⟨key, v⟩ rest rfl
    rw [List.lookup_cons, beq_false_of_ne hne]
  have hmap : (fields.map fun f => if f.1 = other then (other, value) else f).lookup name
      = fields.lookup name := by
    induction fields with
    | nil => rfl
    | cons f fields ih =>
      rw [List.map_cons]
      by_cases hf : f.1 = other
      · rw [if_pos hf, hcons (other, value) _ rfl, hcons f _ hf]
        exact ih
      · rw [if_neg hf, List.lookup_cons, List.lookup_cons, ih]
  unfold setField
  split
  · exact hmap
  · have hlast : [(other, value)].lookup name = none := hcons (other, value) [] rfl
    rw [List.lookup_append, hlast]
    exact Option.or_none

theorem confirmed_of_withOwner {owner : Text} {taskInput : Value}
    (howner : withOwner owner input = some taskInput) (hconfirmed : Confirmed taskInput) :
  Confirmed input
  := by
  cases input with
  | null =>
    cases howner
    cases hconfirmed
  | object fields =>
    cases howner
    change (setField fields "ownerId" (.string owner)).lookup ("autoConfirmed" : Text) = _
      at hconfirmed
    rw [lookup_setField_of_ne (by decide)] at hconfirmed
    exact hconfirmed
  | bool b => cases howner
  | number n => cases howner
  | string s => cases howner
  | array items => cases howner

theorem confirmed_of_fromValue (hread : fromValue input = some task)
    (hconfirmed : task.autoConfirmed) :
  Confirmed input
  := by
  unfold fromValue at hread
  iterate 12 obtain ⟨_, -, hread⟩ := Option.bind_eq_some_iff.mp hread
  obtain ⟨autoConfirmed, hflag, hread⟩ := Option.bind_eq_some_iff.mp hread
  obtain ⟨_, -, heq⟩ := Option.bind_eq_some_iff.mp hread
  cases heq
  change autoConfirmed = true at hconfirmed
  subst hconfirmed
  unfold defaulted at hflag
  unfold Confirmed
  split at hflag
  · cases hflag
  · rename_i value hvalue
    rw [hvalue]
    cases value with
    | bool b =>
      cases hflag
      rfl
    | _ => cases hflag

theorem confirmed_of_command {why : Value → Text} {owner : Text}
    (htask : parseTaskInput why owner input = some (.ok task)) (hauto : task.policy = .auto) :
  Confirmed input
  := by
  unfold parseTaskInput at htask
  obtain ⟨taskInput, howner, hok⟩ := Option.map_eq_some_iff.mp htask
  apply confirmed_of_withOwner howner
  obtain ⟨read, hread, hok⟩ := Result.bind_ok.mp hok
  obtain ⟨_, hvalid, heq⟩ := Result.bind_ok.mp hok
  cases heq
  unfold readTask at hread
  split at hread
  · rename_i parsed hparsed
    cases hread
    apply confirmed_of_fromValue hparsed
    exact ScheduledTask.confirmed_of_validate hvalid hauto
  · cases hread

theorem parseTaskLenient_ok {owner : Text} {activeTarget : Option Text} {random : UInt64}
    (hok : parseTaskLenient owner input activeTarget random = .ok task) :
  task.validate = .ok () ∧ task.policy = parsePolicy input
  := by
  unfold parseTaskLenient at hok
  obtain ⟨name, -, hok⟩ := Result.bind_ok.mp hok
  obtain ⟨kind, -, hok⟩ := Result.bind_ok.mp hok
  obtain ⟨trigger, -, hok⟩ := Result.bind_ok.mp hok
  obtain ⟨_, -, hok⟩ := Result.bind_ok.mp hok
  obtain ⟨_, hvalid, heq⟩ := Result.bind_ok.mp hok
  cases heq
  exact ⟨hvalid, rfl⟩

theorem parsePolicy_eq_auto :
  parsePolicy input = .auto ↔ (input.get "policy").bind Value.asStr = some ("auto" : Text)
  := by
  unfold parsePolicy
  split
  · rename_i hnone
    rw [hnone]
    constructor
    · nofun
    · nofun
  · rename_i policy hpolicy
    rw [hpolicy, Option.some.injEq]
    constructor
    · intro hauto
      split at hauto
      · cases hauto
      · split at hauto
        · assumption
        · cases hauto
    · rintro rfl
      rfl

theorem upsertTask_of_valid {g : StoreInner} (hvalid : task.validate = .ok ()) :
  g.upsertTask task = .ok { g with tasks := upsertItem task (fun _ => task) g.tasks }
  := by
  unfold StoreInner.upsertTask
  rw [hvalid]
  rfl

variable [Serde]

/-- An accepted input puts its task into the store; a task that may do anything was confirmed, if
and only if the input came through the command or does not ask for that without a confirmation. -/
theorem auto_consented (path : Ingestion) (input : Value) (writes : Writes) (s : AutomationStore)
    (task : ScheduledTask) (htask : path.task input = some task) :
  (path.ingest input writes s).inner.tasks = upsertItem task (fun _ => task) s.inner.tasks
    ∧ ((task.policy = .auto → Confirmed input) ↔ path.Asks input)
  := by
  cases path with
  | command why =>
    obtain ⟨r, hparsed, hr⟩ := Option.bind_eq_some_iff.mp htask
    cases r with
    | error e => cases hr
    | ok task' =>
      cases hr
      constructor
      · have hvalid : task.validate = .ok () := by
          unfold parseTaskInput at hparsed
          obtain ⟨taskInput, -, hok⟩ := Option.map_eq_some_iff.mp hparsed
          obtain ⟨_, -, hok⟩ := Result.bind_ok.mp hok
          obtain ⟨_, hvalid, heq⟩ := Result.bind_ok.mp hok
          cases heq
          exact hvalid
        unfold Ingestion.ingest createTask
        dsimp only
        rw [hparsed]
        dsimp only
        rw [upsertTask_of_valid hvalid]
        rfl
      · constructor
        · intro _
          trivial
        · intro _ hauto
          exact confirmed_of_command hparsed hauto
  | tool ctx owner =>
    unfold Ingestion.task at htask
    dsimp only at htask
    cases hparsed : parseTaskLenient owner input ctx.activeTarget ctx.random with
    | error e =>
      rw [hparsed] at htask
      cases htask
    | ok task' =>
      rw [hparsed] at htask
      cases htask
      obtain ⟨hvalid, hpolicy⟩ := parseTaskLenient_ok hparsed
      constructor
      · unfold Ingestion.ingest createOrUpdate
        dsimp only
        rw [hparsed]
        dsimp only
        rw [upsertTask_of_valid hvalid]
        rfl
      · rw [hpolicy, parsePolicy_eq_auto]
        rfl

end

/-- What a language model writes for a task that may do anything. -/
def autoInput (more : List (Text × Value)) : Value :=
  .object (("name", .string "clean") :: ("script", .string "rm -rf /tmp/cache")
    :: ("trigger", .string "0 3 * * *") :: ("policy", .string "auto") :: more)

/-- A task that was confirmed, through the tool. -/
theorem auto_consented_tool :
  ∃ task, (Ingestion.tool ⟨none, 7⟩ "alice").task
      (autoInput [("autoConfirmed", .bool true)]) = some task
    ∧ ((task.policy = .auto → Confirmed (autoInput [("autoConfirmed", .bool true)]))
      ↔ (Ingestion.tool ⟨none, 7⟩ "alice").Asks (autoInput [("autoConfirmed", .bool true)]))
  := by
  have htask : ∃ task, (Ingestion.tool ⟨none, 7⟩ "alice").task
      (autoInput [("autoConfirmed", .bool true)]) = some task := ⟨_, rfl⟩
  obtain ⟨task, htask⟩ := htask
  refine ⟨task, htask, ?_⟩
  exact (@auto_consented noFiles _ _ ⟨none, none, none⟩
    (@AutomationStore.open_ noFiles ⟨.absent, .absent, .absent⟩) task htask).2

/-- A task that may do anything is stored through the tool without any confirmation. -/
theorem auto_without_consent :
  ¬ ∀ (path : Ingestion) (input : Value) (task : ScheduledTask), path.task input = some task →
    task.policy = .auto → Confirmed input
  := by
  intro hall
  have htask : ∃ task, (Ingestion.tool ⟨none, 7⟩ "alice").task (autoInput []) = some task
      ∧ task.policy = .auto := ⟨_, rfl, rfl⟩
  obtain ⟨task, htask, hauto⟩ := htask
  have hconfirmed := hall _ _ task htask hauto
  cases hconfirmed

end Automation
