import Catio.Automation.Repo

/-!
# The files of the store

What the files have to do with the store in memory: a save that succeeds can be read back, a
save that fails leaves the change in memory, and a file that cannot be read counts as empty
(`storage_durable`).
-/

namespace Automation

open Agent First Text

/-! ### What is kept of the store -/

def McpConnection.withoutCredential (mcp : McpConnection) : McpConnection :=
  { mcp with credential := ⟨[]⟩ }

/-- The store as it is opened again: without the credentials. -/
def StoreInner.persisted (g : StoreInner) : StoreInner :=
  { g with mcps := g.mcps.map McpConnection.withoutCredential, mcpCreds := fun _ => none }

section

variable [Serde] {g g' : StoreInner} {s : AutomationStore} {writes : Writes}

/-- What is rendered of a store is parsed again. -/
structure Serde.Keeps (g : StoreInner) : Prop where
  tasks : Serde.tasks.parse (Serde.tasks.render g.tasks) = some g.tasks
  skills : Serde.skills.parse (Serde.skills.render g.skills) = some g.skills
  mcps : Serde.mcps.parse (Serde.mcps.render g.mcps)
    = some (g.mcps.map McpConnection.withoutCredential)

/-- The files that a store is saved in. -/
def StoreInner.disk (g : StoreInner) : Disk :=
  ⟨.text (Serde.tasks.render g.tasks), .text (Serde.skills.render g.skills),
    .text (Serde.mcps.render g.mcps)⟩

theorem Serde.Keeps.open_ (hkeeps : Serde.Keeps g) :
  (AutomationStore.open_ g.disk).inner = g.persisted
  := by
  apply StoreInner.ext
  · exact congrArg (·.getD []) hkeeps.tasks
  · exact congrArg (·.getD []) hkeeps.skills
  · exact congrArg (·.getD []) hkeeps.mcps
  · rfl

theorem saveLocked_ok {disk disk' : Disk} (hok : saveLocked writes g disk = (.ok (), disk')) :
  disk' = g.disk
  := by
  obtain ⟨tasks, skills, mcps⟩ := writes
  cases tasks with
  | some failure => cases hok
  | none =>
    cases skills with
    | some failure => cases hok
    | none =>
      cases mcps with
      | some failure => cases hok
      | none =>
        cases hok
        rfl

theorem saveLocked_error {disk : Disk} {e : AutomationError}
    (herror : (saveLocked writes g disk).1 = .error e) :
  ∃ message, e = .storage message
  := by
  obtain ⟨tasks, skills, mcps⟩ := writes
  cases tasks with
  | some failure =>
    cases herror
    exact ⟨_, rfl⟩
  | none =>
    cases skills with
    | some failure =>
      cases herror
      exact ⟨_, rfl⟩
    | none =>
      cases mcps with
      | some failure =>
        cases herror
        exact ⟨_, rfl⟩
      | none => cases herror

end

/-! ### Refusals -/

/-- The error is not one of the files. -/
def AutomationError.refuses : AutomationError → Bool
  | .storage _ => false
  | _ => true

theorem check_refuses {α : Type} {p : Prop} [Decidable p] {error e : AutomationError}
    {rest : Except AutomationError α} (herror : (if p then .error error else rest) = .error e)
    (hcheck : error.refuses) (hrest : rest = .error e → e.refuses) :
  e.refuses
  := by
  split at herror
  · cases herror
    exact hcheck
  · exact hrest herror

variable {e : AutomationError} {task : ScheduledTask}

theorem validateName_refuses (herror : task.validateName = .error e) :
  e.refuses
  := check_refuses herror rfl nofun

theorem validateTrigger_refuses {trigger : TaskTrigger} (herror : trigger.validate = .error e) :
  e.refuses
  := by
  cases trigger with
  | cron expr => exact check_refuses herror rfl nofun
  | interval seconds => exact check_refuses herror rfl nofun
  | once at_ => exact check_refuses herror rfl nofun

theorem validateBody_refuses (herror : task.validateBody = .error e) :
  e.refuses
  := by
  unfold ScheduledTask.validateBody at herror
  split at herror
  · exact check_refuses herror rfl nofun
  · exact check_refuses herror rfl nofun

theorem validatePolicy_refuses (herror : task.validatePolicy = .error e) :
  e.refuses
  := check_refuses herror rfl nofun

theorem bind_refuses {α β : Type} {x : Except AutomationError α} {f : α → Except AutomationError β}
    (herror : (x >>= f) = .error e) (hx : ∀ e, x = .error e → e.refuses)
    (hf : ∀ a e, f a = .error e → e.refuses) :
  e.refuses
  := by
  cases x with
  | error e' =>
    cases herror
    exact hx e rfl
  | ok a => exact hf a e herror

theorem validate_refuses (herror : task.validate = .error e) :
  e.refuses
  := by
  apply bind_refuses herror fun _ => validateName_refuses
  intro _ e herror
  apply bind_refuses herror fun _ => validateTrigger_refuses
  intro _ e herror
  exact bind_refuses herror (fun _ => validateBody_refuses) fun _ _ => validatePolicy_refuses

theorem validateSkill_refuses {skill : Skill} (herror : StoreInner.validateSkill skill = .error e) :
  e.refuses
  := by
  apply check_refuses herror rfl
  intro herror
  apply check_refuses herror rfl
  intro herror
  exact check_refuses herror rfl nofun

theorem validateMcp_refuses {mcp : McpConnection} (herror : StoreInner.validateMcp mcp = .error e) :
  e.refuses
  := by
  apply check_refuses herror rfl
  intro herror
  exact check_refuses herror rfl nofun

theorem changeOwned_refuses {α : Type} [Item α] {owner id : Text} {change : α → Option α}
    {items : List α} (herror : changeOwned owner id change items = .error e) :
  e.refuses
  := by
  unfold changeOwned at herror
  split at herror
  · cases herror
  · cases herror
    rfl

theorem SavingOp.refuses {op : SavingOp} {g : StoreInner} (herror : op.change g = .error e) :
  e.refuses
  := by
  cases op with
  | upsertTask task => exact bind_refuses herror (fun _ => validate_refuses) nofun
  | upsertSkill skill => exact bind_refuses herror (fun _ => validateSkill_refuses) nofun
  | upsertMcp mcp => exact bind_refuses herror (fun _ => validateMcp_refuses) nofun
  | _ => exact bind_refuses herror (fun _ => changeOwned_refuses) nofun

/-! ### Runs -/

section

variable [Serde]

/-- What an operation finds and leaves in a run. -/
structure Durable (ops : List (StoreOp × Writes)) (s : AutomationStore) : Prop where
  refused : ∀ pre op post, ops = pre ++ op :: post → ∀ e,
    ((s.performAll pre).perform op.1 op.2).1 = .error e → e.refuses →
      ((s.performAll pre).perform op.1 op.2).2 = s.performAll pre
  failed : ∀ pre op post, ops = pre ++ op :: post → ∀ message,
    ((s.performAll pre).perform op.1 op.2).1 = .error (.storage message) →
      ∃ saving, op.1 = .saving saving
        ∧ saving.change (s.performAll pre).inner
          = .ok ((s.performAll pre).perform op.1 op.2).2.inner
  saved : ∀ pre saving writes post, ops = pre ++ (.saving saving, writes) :: post → ∀ reply,
    ((s.performAll pre).perform (.saving saving) writes).1 = .ok reply →
      (AutomationStore.open_ ((s.performAll pre).perform (.saving saving) writes).2.disk).inner
        = ((s.performAll pre).perform (.saving saving) writes).2.inner.persisted
  kept : ∀ pre op post, ops = pre ++ op :: post → (∀ saving, op.1 ≠ .saving saving) →
    ((s.performAll pre).perform op.1 op.2).2.disk = (s.performAll pre).disk
  bestEffort : ∀ {α : Type} (codec : Codec α) (file : DataFile),
    (file.readToString.bind codec.parse) = none → readJson codec file = []

variable {s : AutomationStore} {writes : Writes}

theorem perform_refused {op : StoreOp} {e : AutomationError}
    (herror : (s.perform op writes).1 = .error e) (hrefuses : e.refuses) :
  (s.perform op writes).2 = s
  := by
  cases op with
  | saving op =>
    unfold AutomationStore.perform AutomationStore.update at herror ⊢
    dsimp only at herror ⊢
    cases hchange : op.change s.inner with
    | error e' => rfl
    | ok g =>
      rw [hchange] at herror
      change Except.map _ (saveLocked writes g s.disk).1 = _ at herror
      cases hsave : (saveLocked writes g s.disk).1 with
      | error e' =>
        rw [hsave] at herror
        cases herror
        obtain ⟨message, rfl⟩ := saveLocked_error hsave
        cases hrefuses
      | ok _ =>
        rw [hsave] at herror
        cases herror
  | setMcpCredential owner id credential =>
    unfold AutomationStore.perform at herror ⊢
    dsimp only at herror ⊢
    cases hset : s.inner.setMcpCredential owner id credential with
    | error e' => rfl
    | ok g =>
      rw [hset] at herror
      cases herror
  | _ => cases herror

theorem perform_failed {op : StoreOp} {message : Text}
    (herror : (s.perform op writes).1 = .error (.storage message)) :
  ∃ saving, op = .saving saving ∧ saving.change s.inner = .ok (s.perform op writes).2.inner
  := by
  cases op with
  | saving op =>
    refine ⟨op, rfl, ?_⟩
    unfold AutomationStore.perform AutomationStore.update at herror ⊢
    dsimp only at herror ⊢
    cases hchange : op.change s.inner with
    | error e' =>
      rw [hchange] at herror
      cases herror
      exact absurd (SavingOp.refuses hchange) nofun
    | ok g => rfl
  | setMcpCredential owner id credential =>
    unfold AutomationStore.perform at herror
    dsimp only at herror
    unfold StoreInner.setMcpCredential at herror
    split at herror
    · cases herror
    · rename_i hset
      split at hset
      · cases hset
      · cases hset
        cases herror
  | _ => cases herror

theorem perform_saved {op : SavingOp} {reply : Reply}
    (hok : (s.perform (.saving op) writes).1 = .ok reply) :
  (s.perform (.saving op) writes).2.disk = (s.perform (.saving op) writes).2.inner.disk
  := by
  unfold AutomationStore.perform AutomationStore.update at hok ⊢
  dsimp only at hok ⊢
  cases hchange : op.change s.inner with
  | error e =>
    rw [hchange] at hok
    cases hok
  | ok g =>
    rw [hchange] at hok
    change Except.map _ (saveLocked writes g s.disk).1 = _ at hok
    change (saveLocked writes g s.disk).2 = g.disk
    cases hsave : saveLocked writes g s.disk with
    | mk r disk =>
      rw [hsave] at hok
      cases r with
      | error e => cases hok
      | ok _ => exact saveLocked_ok hsave

end

/-- A task is saved while the disk is full, and then removed. -/
def savedAndRemoved : List (StoreOp × Writes) :=
  [(.saving (.upsertTask (reminder "task-1" "alice")), ⟨some (.absent, "disk full"), none, none⟩),
    (.saving (.deleteTask "alice" "task-1"), ⟨none, none, none⟩)]

end Automation
