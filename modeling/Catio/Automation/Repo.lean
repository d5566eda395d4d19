import Catio.Automation.Types
import Catio.Lib.First

/-!
# The store of the workbench

The model of `automation/repo.rs`: tasks, skills and connections, session credentials, and the three
files that keep them.  A write succeeds or fails as the file system has it, and leaves whatever it
leaves then.  What `serde_json` renders and parses is a parameter.
-/

namespace Automation

open Agent First Text

/-! ### Items -/

/-- What the store keeps: an item with an id and an owner. -/
class Item (α : Type) where
  id : α → Text
  ownerId : α → Text

instance : Item ScheduledTask := ⟨ScheduledTask.id, ScheduledTask.ownerId⟩

instance : Item Skill := ⟨Skill.id, Skill.ownerId⟩

instance : Item McpConnection := ⟨McpConnection.id, McpConnection.ownerId⟩

section

variable {α : Type} [Item α]

def hasId (id : Text) (item : α) : Bool :=
  Item.id item = id

def isOf (owner : Text) (item : α) : Bool :=
  Item.ownerId item = owner

def isOwned (owner id : Text) (item : α) : Bool :=
  hasId id item && isOf owner item

def listOf (owner : Text) (items : List α) : List α :=
  items.filter (isOf owner)

/-- Renew the item that has the id of this one, or add it. -/
def upsertItem (item : α) (renew : α → α) (items : List α) : List α :=
  (changeFirst (hasId (Item.id item)) (fun existing => some (renew existing)) items).getD
    (items ++ [item])

def changeOwned (owner id : Text) (change : α → Option α) (items : List α) :
    Except AutomationError (List α) :=
  match changeFirst (isOwned owner id) change items with
  | some items' => .ok items'
  | none => .error (.notFound id)

end

/-! ### Files -/

/-- A data file: it is not there, it can be read, or it cannot. -/
inductive DataFile where
  | absent
  | text (content : Text)
  | unreadable
  deriving DecidableEq

def DataFile.readToString : DataFile → Option Text
  | .text content => some content
  | _ => none

/-- What becomes of the write of a file: it succeeds, or it leaves something and fails. -/
abbrev Write :=
  Option (DataFile × Text)

/-- How the items of one kind are rendered and parsed. -/
structure Codec (α : Type) where
  render : List α → Text
  parse : Text → Option (List α)

/-- What `serde_json` does for each kind of item. -/
class Serde where
  tasks : Codec ScheduledTask
  skills : Codec Skill
  mcps : Codec McpConnection

/-- Items are read as far as there are any. -/
def readJson {α : Type} (codec : Codec α) (file : DataFile) : List α :=
  (file.readToString.bind codec.parse).getD []

/-- The file after a write. -/
def writeJson {α : Type} (codec : Codec α) (items : List α) (write : Write) :
    Except AutomationError Unit × DataFile :=
  match write with
  | none => (.ok (), .text (codec.render items))
  | some (left, message) => (.error (.storage message), left)

/-- The three files. -/
structure Disk where
  tasks : DataFile
  skills : DataFile
  mcps : DataFile
  deriving DecidableEq

/-- What becomes of the three writes of a save. -/
structure Writes where
  tasks : Write
  skills : Write
  mcps : Write

/-! ### The store -/

@[ext]
structure StoreInner where
  tasks : List ScheduledTask
  skills : List Skill
  mcps : List McpConnection
  mcpCreds : Text → Option ApiCredential

structure AutomationStore where
  inner : StoreInner
  disk : Disk

/-- What an operation returns, and the store after it. -/
abbrev Answer (α : Type) :=
  Except AutomationError α × AutomationStore

section

variable [Serde]

def AutomationStore.open_ (disk : Disk) : AutomationStore where
  inner :=
    { tasks := readJson Serde.tasks disk.tasks
      skills := readJson Serde.skills disk.skills
      mcps := readJson Serde.mcps disk.mcps
      mcpCreds := fun _ => none }
  disk := disk

/-- The files are written one after the other, up to the first failure. -/
def saveLocked (writes : Writes) (g : StoreInner) (disk : Disk) :
    Except AutomationError Unit × Disk :=
  match writeJson Serde.tasks g.tasks writes.tasks with
  | (.error e, file) => (.error e, { disk with tasks := file })
  | (.ok (), tasks) =>
      match writeJson Serde.skills g.skills writes.skills with
      | (.error e, file) => (.error e, { disk with tasks := tasks, skills := file })
      | (.ok (), skills) =>
          match writeJson Serde.mcps g.mcps writes.mcps with
          | (r, mcps) => (r, ⟨tasks, skills, mcps⟩)

namespace AutomationStore

variable (writes : Writes) (s : AutomationStore)

/-- The store has changed in memory, and is saved. -/
def commit (g : StoreInner) : Answer Unit :=
  match saveLocked writes g s.disk with
  | (r, disk) => (r, ⟨g, disk⟩)

/-- The store changes in memory and is saved, or the operation fails before it. -/
def update (changed : Except AutomationError StoreInner) : Answer Unit :=
  match changed with
  | .ok g => s.commit writes g
  | .error e => (.error e, s)

end AutomationStore

end

namespace StoreInner

variable (g : StoreInner)

/-! ### Tasks -/

def listTasks (owner : Text) : List ScheduledTask :=
  listOf owner g.tasks

def upsertTask (task : ScheduledTask) : Except AutomationError StoreInner := do
  task.validate
  .ok { g with tasks := upsertItem task (fun _ => task) g.tasks }

def deleteTask (owner id : Text) : Except AutomationError StoreInner := do
  let tasks ← changeOwned owner id (fun _ => none) g.tasks
  .ok { g with tasks := tasks }

/-- The tasks that the scheduler sees. -/
def allEnabledTasks : List ScheduledTask :=
  g.tasks.filter ScheduledTask.enabled

def setTaskEnabled (owner id : Text) (enabled : Bool) : Except AutomationError StoreInner := do
  let tasks ← changeOwned owner id (fun task => some { task with enabled := enabled }) g.tasks
  .ok { g with tasks := tasks }

/-! ### Skills -/

def listSkills (owner : Text) : List Skill :=
  listOf owner g.skills

def validateSkill (skill : Skill) : Except AutomationError Unit :=
  if trim skill.name = [] then .error (.invalid "skill name is required")
  else if trim skill.promptTemplate = [] then
    .error (.invalid "skill prompt_template is required")
  else if skill.scope = .target ∧ skill.targetRef.getD [] = [] then
    .error (.invalid "target-scoped skill requires target_ref")
  else .ok ()

/-- A skill never takes the place of one of its version or a later one. -/
def renewSkill (skill existing : Skill) : Skill :=
  if skill.version ≤ existing.version then { skill with version := existing.version + 1 }
  else skill

def upsertSkill (skill : Skill) : Except AutomationError StoreInner := do
  validateSkill skill
  .ok { g with skills := upsertItem skill (renewSkill skill) g.skills }

def deleteSkill (owner id : Text) : Except AutomationError StoreInner := do
  let skills ← changeOwned owner id (fun _ => none) g.skills
  .ok { g with skills := skills }

def setSkillEnabled (owner id : Text) (enabled : Bool) : Except AutomationError StoreInner := do
  let skills ← changeOwned owner id (fun skill => some { skill with enabled := enabled }) g.skills
  .ok { g with skills := skills }

/-! ### Connections -/

def listMcps (owner : Text) : List McpConnection :=
  listOf owner g.mcps

def validateMcp (mcp : McpConnection) : Except AutomationError Unit :=
  if trim mcp.name = [] then .error (.invalid "mcp name is required")
  else if trim mcp.url = [] then .error (.invalid "mcp url is required")
  else .ok ()

/-- A credential that came with a connection is kept for the session. -/
def keepCredential (mcp : McpConnection) : Text → Option ApiCredential :=
  if mcp.credential.expose = [] then g.mcpCreds
  else Function.update g.mcpCreds mcp.id (some mcp.credential)

def upsertMcp (mcp : McpConnection) : Except AutomationError StoreInner := do
  validateMcp mcp
  .ok { g with mcps := upsertItem mcp (fun _ => mcp) g.mcps, mcpCreds := g.keepCredential mcp }

def deleteMcp (owner id : Text) : Except AutomationError StoreInner := do
  let mcps ← changeOwned owner id (fun _ => none) g.mcps
  .ok { g with mcps := mcps, mcpCreds := Function.update g.mcpCreds id none }

/-- The session credential of a connection of the owner. -/
def mcpCredential (owner id : Text) : Option ApiCredential :=
  if g.mcps.any (isOwned owner id) then g.mcpCreds id else none

def setMcpCredential (owner id : Text) (credential : ApiCredential) :
    Except AutomationError StoreInner :=
  if g.mcps.any (isOwned owner id) then
    .ok { g with mcpCreds := Function.update g.mcpCreds id (some credential) }
  else .error (.notFound id)

end StoreInner

/-! ### Operations -/

/-- The operations that change the store and save it. -/
inductive SavingOp where
  | upsertTask (task : ScheduledTask)
  | deleteTask (owner id : Text)
  | setTaskEnabled (owner id : Text) (enabled : Bool)
  | upsertSkill (skill : Skill)
  | deleteSkill (owner id : Text)
  | setSkillEnabled (owner id : Text) (enabled : Bool)
  | upsertMcp (mcp : McpConnection)
  | deleteMcp (owner id : Text)

/-- The owner for whom an operation is issued. -/
def SavingOp.owner : SavingOp → Text
  | .upsertTask task => task.ownerId
  | .deleteTask owner _ => owner
  | .setTaskEnabled owner _ _ => owner
  | .upsertSkill skill => skill.ownerId
  | .deleteSkill owner _ => owner
  | .setSkillEnabled owner _ _ => owner
  | .upsertMcp mcp => mcp.ownerId
  | .deleteMcp owner _ => owner

/-- What an operation makes of the store in memory. -/
def SavingOp.change (op : SavingOp) (g : StoreInner) : Except AutomationError StoreInner :=
  match op with
  | .upsertTask task => g.upsertTask task
  | .deleteTask owner id => g.deleteTask owner id
  | .setTaskEnabled owner id enabled => g.setTaskEnabled owner id enabled
  | .upsertSkill skill => g.upsertSkill skill
  | .deleteSkill owner id => g.deleteSkill owner id
  | .setSkillEnabled owner id enabled => g.setSkillEnabled owner id enabled
  | .upsertMcp mcp => g.upsertMcp mcp
  | .deleteMcp owner id => g.deleteMcp owner id

inductive StoreOp where
  | saving (op : SavingOp)
  | setMcpCredential (owner id : Text) (credential : ApiCredential)
  | listTasks (owner : Text)
  | listSkills (owner : Text)
  | listMcps (owner : Text)
  | mcpCredential (owner id : Text)

/-- The owner for whom an operation is issued. -/
def StoreOp.owner : StoreOp → Text
  | .saving op => op.owner
  | .setMcpCredential owner _ _ => owner
  | .listTasks owner => owner
  | .listSkills owner => owner
  | .listMcps owner => owner
  | .mcpCredential owner _ => owner

/-- What an operation tells its caller. -/
inductive Reply where
  | done
  | tasks (tasks : List ScheduledTask)
  | skills (skills : List Skill)
  | mcps (mcps : List McpConnection)
  | credential (credential : Option ApiCredential)
  deriving DecidableEq

/-- An operation on the store, with what becomes of its writes. -/
def AutomationStore.perform [Serde] (op : StoreOp) (writes : Writes) (s : AutomationStore) :
    Answer Reply :=
  match op with
  | .saving op =>
      match s.update writes (op.change s.inner) with
      | (r, s') => (r.map fun _ => .done, s')
  | .setMcpCredential owner id credential =>
      match s.inner.setMcpCredential owner id credential with
      | .ok g => (.ok .done, { s with inner := g })
      | .error e => (.error e, s)
  | .listTasks owner => (.ok (.tasks (s.inner.listTasks owner)), s)
  | .listSkills owner => (.ok (.skills (s.inner.listSkills owner)), s)
  | .listMcps owner => (.ok (.mcps (s.inner.listMcps owner)), s)
  | .mcpCredential owner id => (.ok (.credential (s.inner.mcpCredential owner id)), s)

/-- The operations one after the other. -/
def AutomationStore.performAll [Serde] (ops : List (StoreOp × Writes)) (s : AutomationStore) :
    AutomationStore :=
  ops.foldl (fun s op => (s.perform op.1 op.2).2) s

/-! ### A task, and files without items -/

/-- A task that runs each minute. -/
def reminder (id owner : Text) : ScheduledTask where
  id := id
  name := "reminder"
  trigger := .interval 60
  kind := .shell
  script := some "date"
  prompt := none
  targetRef := none
  skillIds := []
  mcpIds := []
  policy := .reject
  whitelist := []
  enabled := true
  autoConfirmed := false
  ownerId := owner

/-- Files without items. -/
def noItems {α : Type} : Codec α :=
  ⟨fun _ => "[]", fun _ => some []⟩

@[reducible]
def noFiles : Serde :=
  ⟨noItems, noItems, noItems⟩

end Automation
