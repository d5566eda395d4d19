import Catio.Automation.Cron
import Catio.Automation.Dispatcher
import Catio.Lib.Steps
import Mathlib.Data.List.Nodup
import Mathlib.Data.Nat.Digits.Defs

/-!
# The scheduler

The model of the loop of `automation/scheduler.rs`, in an application that is started, whose
store changes, and that is started again.  A tick visits the enabled tasks one after the other;
since the visits of two ids do not touch the same marks, what happens on other threads
meanwhile is as if it happened before the tick or after it.
-/

namespace Automation

open Text

/-! ### One tick -/

/-- The marks of the scheduler: the tasks that are running, and when tasks fired last. -/
structure SchedulerInner where
  running : Text → Bool
  lastFired : Text → Option Instant

/-- No marks. -/
def SchedulerInner.new : SchedulerInner :=
  ⟨fun _ => false, fun _ => none⟩

/-- A task has fired. -/
def SchedulerInner.fire (inner : SchedulerInner) (id : Text) (now : Instant) : SchedulerInner :=
  ⟨Function.update inner.running id true, Function.update inner.lastFired id (some now)⟩

section

variable {inner : SchedulerInner} {id other : Text} {now : Instant}

@[simp]
theorem SchedulerInner.fire_running :
  (inner.fire id now).running other = true ↔ inner.running other = true ∨ other = id
  := by
  by_cases hid : other = id
  · simp [fire, hid]
  · simp [fire, hid]

theorem SchedulerInner.fire_running_of_ne (hid : other ≠ id) :
  (inner.fire id now).running other = inner.running other
  := Function.update_of_ne hid _ _

theorem SchedulerInner.fire_lastFired_of_ne (hid : other ≠ id) :
  (inner.fire id now).lastFired other = inner.lastFired other
  := Function.update_of_ne hid _ _

end

/-- The mark of a task that has returned is removed. -/
def SchedulerInner.return_ (inner : SchedulerInner) (id : Text) : SchedulerInner :=
  { inner with running := Function.update inner.running id false }

theorem SchedulerInner.running_of_return {inner : SchedulerInner} {id other : Text}
    (h : (inner.return_ id).running other = true) :
  inner.running other = true
  := by
  unfold return_ at h
  dsimp only at h
  by_cases hid : other = id
  · rw [hid, Function.update_self] at h
    cases h
  · rwa [Function.update_of_ne hid] at h

/-- The marks after a tick, the tasks that it fires, and whether the loop goes on. -/
structure Tick where
  inner : SchedulerInner
  fired : List ScheduledTask
  alive : Bool

/-- A tick visits the tasks in order, and a panic ends the loop. -/
def tickOnce [Rfc3339] (now : Instant) : List ScheduledTask → SchedulerInner → Tick
  | [], inner => ⟨inner, [], true⟩
  | task :: tasks, inner =>
      if inner.running task.id then tickOnce now tasks inner
      else
        match shouldFire task (inner.lastFired task.id) now with
        | none => ⟨inner, [], false⟩
        | some false => tickOnce now tasks inner
        | some true =>
            let rest := tickOnce now tasks (inner.fire task.id now)
            { rest with fired := task :: rest.fired }

/-- A tick fires tasks that are due and idle, no id twice, and marks them; as long as nothing
panics, it fires each task that is due. -/
structure Ticks [Rfc3339] (now : Instant) (tasks : List ScheduledTask) (inner : SchedulerInner)
    (t : Tick) : Prop where
  due : ∀ task ∈ t.fired, task ∈ tasks ∧ inner.running task.id = false
    ∧ shouldFire task (inner.lastFired task.id) now = some true
  nodup : (t.fired.map ScheduledTask.id).Nodup
  running : ∀ id, t.inner.running id = true
    ↔ inner.running id = true ∨ id ∈ t.fired.map ScheduledTask.id
  lastFired : ∀ id, t.inner.lastFired id
    = if id ∈ t.fired.map ScheduledTask.id then some now else inner.lastFired id
  complete : t.alive → ∀ task ∈ tasks, inner.running task.id = false →
    shouldFire task (inner.lastFired task.id) now = some true →
    task.id ∈ t.fired.map ScheduledTask.id
  alive : (∀ task ∈ tasks, inner.running task.id = false →
    (shouldFire task (inner.lastFired task.id) now).isSome) → t.alive

section

variable [Rfc3339] {now : Instant} {task : ScheduledTask} {tasks : List ScheduledTask}
  {inner : SchedulerInner} {t : Tick}

theorem Ticks.nothing {alive : Bool} (hcomplete : alive → ∀ task ∈ tasks,
      inner.running task.id = false → shouldFire task (inner.lastFired task.id) now ≠ some true)
    (halive : (∀ task ∈ tasks, inner.running task.id = false →
      (shouldFire task (inner.lastFired task.id) now).isSome) → alive) :
  Ticks now tasks inner ⟨inner, [], alive⟩
  where
  due _ hmem := absurd hmem List.not_mem_nil
  nodup := List.nodup_nil
  running id := by simp
  lastFired id := by simp
  complete hon task hmem hidle hdue := absurd hdue (hcomplete hon task hmem hidle)
  alive := halive

theorem Ticks.skip (h : Ticks now tasks inner t)
    (hskip : inner.running task.id = true
      ∨ shouldFire task (inner.lastFired task.id) now = some false) :
  Ticks now (task :: tasks) inner t
  where
  due fired hmem := ⟨List.mem_cons_of_mem task (h.due fired hmem).1, (h.due fired hmem).2⟩
  nodup := h.nodup
  running := h.running
  lastFired := h.lastFired
  complete hon := by
    rintro other hmem hidle hdue
    obtain rfl | hmem := List.mem_cons.mp hmem
    · obtain hrunning | hnot := hskip
      · rw [hrunning] at hidle
        cases hidle
      · rw [hnot] at hdue
        cases hdue
    · exact h.complete hon other hmem hidle hdue
  alive hall := h.alive fun other hmem => hall other (List.mem_cons_of_mem task hmem)

theorem Ticks.fire (h : Ticks now tasks (inner.fire task.id now) t)
    (hidle : inner.running task.id = false)
    (hdue : shouldFire task (inner.lastFired task.id) now = some true) :
  Ticks now (task :: tasks) inner { t with fired := task :: t.fired }
  := by
  have hother : ∀ other ∈ t.fired, other.id ≠ task.id := by
    intro other hmem heq
    obtain ⟨-, hother, -⟩ := h.due other hmem
    rw [heq, Bool.eq_false_iff, Ne, SchedulerInner.fire_running] at hother
    exact hother (.inr rfl)
  constructor
  · intro fired hmem
    obtain rfl | hmem := List.mem_cons.mp hmem
    · exact ⟨List.mem_cons_self, hidle, hdue⟩
    · obtain ⟨htask, hrunning, hfires⟩ := h.due fired hmem
      rw [SchedulerInner.fire_running_of_ne (hother fired hmem)] at hrunning
      rw [SchedulerInner.fire_lastFired_of_ne (hother fired hmem)] at hfires
      exact ⟨List.mem_cons_of_mem task htask, hrunning, hfires⟩
  · rw [List.map_cons, List.nodup_cons]
    constructor
    · rw [List.mem_map]
      rintro ⟨other, hmem, heq⟩
      exact hother other hmem heq
    · exact h.nodup
  · intro id
    rw [List.map_cons, List.mem_cons, h.running id]
    rw [SchedulerInner.fire_running, or_assoc]
  · intro id
    dsimp only
    rw [h.lastFired id]
    by_cases hid : id = task.id
    · simp [SchedulerInner.fire, hid]
    · simp [SchedulerInner.fire, hid]
  · intro hon other hmem hrunning hfires
    by_cases hid : other.id = task.id
    · rw [hid]
      exact List.mem_cons_self
    · obtain rfl | hmem := List.mem_cons.mp hmem
      · exact absurd rfl hid
      · apply List.mem_cons_of_mem
        apply h.complete hon other hmem
        · rwa [SchedulerInner.fire_running_of_ne hid]
        · rwa [SchedulerInner.fire_lastFired_of_ne hid]
  · intro hall
    apply h.alive
    intro other hmem hrunning
    rw [Bool.eq_false_iff, Ne, SchedulerInner.fire_running, not_or] at hrunning
    rw [SchedulerInner.fire_lastFired_of_ne hrunning.2]
    exact hall other (List.mem_cons_of_mem task hmem) (Bool.eq_false_iff.mpr hrunning.1)

theorem tickOnce_ticks (now : Instant) (tasks : List ScheduledTask) (inner : SchedulerInner) :
  Ticks now tasks inner (tickOnce now tasks inner)
  := by
  induction tasks generalizing inner with
  | nil =>
    apply Ticks.nothing
    · intro _ task hmem
      exact absurd hmem List.not_mem_nil
    · exact fun _ => rfl
  | cons task tasks ih =>
    unfold tickOnce
    split
    · rename_i hrunning
      exact (ih inner).skip (.inl hrunning)
    · rename_i hidle
      rw [Bool.not_eq_true] at hidle
      split
      · rename_i hpanics
        apply Ticks.nothing
        · exact nofun
        · intro hall
          have hsome := hall task List.mem_cons_self hidle
          rw [hpanics] at hsome
          cases hsome
      · rename_i hnot
        exact (ih inner).skip (.inr hnot)
      · rename_i hdue
        exact (ih (inner.fire task.id now)).fire hidle hdue

/-- What a tick does to a task that shares its id with no other: it is fired if it is idle and due,
and otherwise left alone. -/
theorem Ticks.alone (h : Ticks now tasks inner t) (halive : t.alive) (htask : task ∈ tasks)
    (halone : ∀ other ∈ tasks, other.id = task.id → other = task) :
  (inner.running task.id = false ∧ shouldFire task (inner.lastFired task.id) now = some true
      ∧ t.fired.filter (fun fired => fired.id = task.id) = [task]
      ∧ t.inner.lastFired task.id = some now)
    ∨ (¬ (inner.running task.id = false
          ∧ shouldFire task (inner.lastFired task.id) now = some true)
      ∧ t.fired.filter (fun fired => fired.id = task.id) = []
      ∧ t.inner.lastFired task.id = inner.lastFired task.id)
  := by
  have heq : ∀ fired ∈ t.fired, fired.id = task.id → fired = task :=
    fun fired hmem => halone fired (h.due fired hmem).1
  by_cases hmem : task.id ∈ t.fired.map ScheduledTask.id
  · left
    have hfired : task ∈ t.fired := by
      obtain ⟨fired, hfired, hid⟩ := List.mem_map.mp hmem
      rwa [← heq fired hfired hid]
    obtain ⟨-, hidle, hdue⟩ := h.due task hfired
    refine ⟨hidle, hdue, ?_, ?_⟩
    · apply List.perm_singleton.mp
      rw [List.perm_ext_iff_of_nodup ((List.Nodup.of_map _ h.nodup).filter _)
        (List.nodup_singleton task)]
      intro fired
      rw [List.mem_filter, List.mem_singleton, decide_eq_true_eq]
      constructor
      · rintro ⟨hmem, hid⟩
        exact heq fired hmem hid
      · rintro rfl
        exact ⟨hfired, rfl⟩
    · rw [h.lastFired, if_pos hmem]
  · right
    refine ⟨?_, ?_, ?_⟩
    · rintro ⟨hidle, hdue⟩
      exact hmem (h.complete halive task htask hidle hdue)
    · rw [List.filter_eq_nil_iff]
      intro fired hfired hid
      exact hmem (List.mem_map.mpr ⟨fired, hfired, of_decide_eq_true hid⟩)
    · rw [h.lastFired, if_neg hmem]

end

/-! ### The application -/

/-- One firing of a task, by the process that was started so many times before. -/
structure Firing where
  task : ScheduledTask
  at_ : Instant
  process : ℕ

/-- How far the work of a firing has come. -/
inductive WorkStage where
  | ahead
  | going (work : Work)
  | over

/-- The dispatch may return: its work is over, or handed over. -/
def WorkStage.settled : WorkStage → Bool
  | .ahead => false
  | .going work => !work.awaited
  | .over => true

/-- How far a firing has come: whether its dispatch goes on, and its work. -/
structure Stage where
  dispatching : Bool
  work : WorkStage

/-- A firing that has been spawned. -/
def Stage.spawned : Stage :=
  ⟨true, .ahead⟩

/-- A firing of which nothing is left. -/
def Stage.gone : Stage :=
  ⟨false, .over⟩

/-- The application. -/
structure App where
  store : AutomationStore
  process : ℕ
  alive : Bool
  inner : SchedulerInner
  firings : List Firing
  stage : ℕ → Stage

/-- The loop ticks, a dispatch reaches its work, the work ends, the dispatch returns, the store
changes, or the application is started again. -/
inductive AppEvent where
  | tick (now : Instant)
  | begins (k : ℕ) (world : World)
  | ends (k : ℕ)
  | returns (k : ℕ)
  | perform (op : StoreOp) (writes : Writes)
  | restart

section

variable [Rfc3339] [Serde]

namespace App

/-- The application is started for the first time. -/
def start (disk : Disk) : App where
  store := .open_ disk
  process := 0
  alive := true
  inner := .new
  firings := []
  stage := fun _ => .spawned

/-- The application after a tick. -/
def ticked (app : App) (now : Instant) (t : Tick) : App where
  store := app.store
  process := app.process
  alive := t.alive
  inner := t.inner
  firings := app.firings ++ t.fired.map fun task => ⟨task, now, app.process⟩
  stage := app.stage

/-- The loop ticks, as long as it goes on. -/
def tick (app : App) (now : Instant) : App :=
  if app.alive then
    app.ticked now (tickOnce now app.store.inner.allEnabledTasks app.inner)
  else app

/-- The dispatch of a firing reaches its work. -/
def begins (app : App) (k : ℕ) (world : World) : App :=
  match app.firings[k]?, app.stage k with
  | some firing, ⟨true, .ahead⟩ =>
      let work :=
        match (AutomationDispatcher.dispatch app.store.inner world firing.task).work with
        | some work => WorkStage.going work
        | none => .over
      { app with stage := Function.update app.stage k ⟨true, work⟩ }
  | _, _ => app

/-- The work of a firing ends. -/
def ends (app : App) (k : ℕ) : App :=
  match app.stage k with
  | ⟨dispatching, .going _⟩ =>
      { app with stage := Function.update app.stage k ⟨dispatching, .over⟩ }
  | _ => app

/-- The dispatch of a firing returns. -/
def returns (app : App) (k : ℕ) : App :=
  match app.firings[k]?, app.stage k with
  | some firing, ⟨true, work⟩ =>
      if work.settled then
        { app with
          inner := app.inner.return_ firing.task.id
          stage := Function.update app.stage k ⟨false, work⟩ }
      else app
  | _, _ => app

/-- The application is started again. -/
def restart (app : App) : App where
  store := .open_ app.store.disk
  process := app.process + 1
  alive := true
  inner := .new
  firings := app.firings
  stage := fun k => if k < app.firings.length then .gone else .spawned

/-- What an event makes of the application. -/
def after (app : App) : AppEvent → App
  | .tick now => app.tick now
  | .begins k world => app.begins k world
  | .ends k => app.ends k
  | .returns k => app.returns k
  | .perform op writes => { app with store := (app.store.perform op writes).2 }
  | .restart => app.restart

/-- The application after events. -/
def run (app : App) (events : List AppEvent) : App :=
  events.foldl App.after app

theorem after_tick {app : App} (halive : app.alive) (now : Instant) :
  ∃ t, Ticks now app.store.inner.allEnabledTasks app.inner t
    ∧ app.after (.tick now) = app.ticked now t
  := ⟨_, tickOnce_ticks now _ _, if_pos halive⟩

/-- What other events than ticks and restarts leave as it was; marks of running tasks may go. -/
structure Untouched (app app' : App) : Prop where
  process : app'.process = app.process
  alive : app'.alive = app.alive
  lastFired : app'.inner.lastFired = app.inner.lastFired
  firings : app'.firings = app.firings
  running : ∀ id, app'.inner.running id = true → app.inner.running id = true

omit [Rfc3339] [Serde] in
theorem Untouched.refl (app : App) :
  app.Untouched app
  := ⟨rfl, rfl, rfl, rfl, fun _ => id⟩

theorem after_untouched (app : App) {e : AppEvent} (htick : ∀ now, e ≠ .tick now)
    (hrestart : e ≠ .restart) :
  app.Untouched (app.after e)
  := by
  cases e with
  | tick now => exact absurd rfl (htick now)
  | begins k world =>
    unfold after begins
    dsimp only
    split
    · exact ⟨rfl, rfl, rfl, rfl, fun _ => id⟩
    · exact .refl app
  | ends k =>
    unfold after ends
    dsimp only
    split
    · exact ⟨rfl, rfl, rfl, rfl, fun _ => id⟩
    · exact .refl app
  | returns k =>
    unfold after returns
    dsimp only
    split
    · split
      · exact ⟨rfl, rfl, rfl, rfl, fun _ => SchedulerInner.running_of_return⟩
      · exact .refl app
    · exact .refl app
  | perform op writes => exact ⟨rfl, rfl, rfl, rfl, fun _ => id⟩
  | restart => exact absurd rfl hrestart

end App

end

def App.firingsOf (app : App) (id : Text) : List Firing :=
  app.firings.filter fun f => f.task.id = id

theorem App.firingsOf_ticked (app : App) (now : Instant) (t : Tick) (id : Text) :
  (app.ticked now t).firingsOf id = app.firingsOf id
    ++ (t.fired.filter fun task => task.id = id).map fun task => ⟨task, now, app.process⟩
  := by
  unfold firingsOf ticked
  rw [List.filter_append, List.filter_map]
  rfl

/-! ### A file with one task -/

def numberOf (n : ℕ) : Json.Number :=
  match (Nat.digits 10 n).reverse.map (Fin.ofNat 10) with
  | [] => ⟨false, [0], Json.zero_ne_nil, [], none⟩
  | d :: ds => ⟨false, d :: ds, Json.digits_ne_nil d ds, [], none⟩

def TaskTrigger.toJson : TaskTrigger → Json.Value
  | .cron expr => .object [("type", .string "cron"), ("expr", .string expr)]
  | .interval seconds =>
      .object [("type", .string "interval"), ("seconds", .number (numberOf seconds.toNat))]
  | .once at_ => .object [("type", .string "once"), ("at", .string at_)]

def ScheduledTask.toJson (task : ScheduledTask) : Json.Value :=
  let kind : Text := match task.kind with
    | .shell => "shell"
    | .prompt => "prompt"
  let policy : Text := match task.policy with
    | .reject => "reject"
    | .whitelist => "whitelist"
    | .auto => "auto"
  let text (key value : Text) : Text × Json.Value := (key, .string value)
  let texts (key : Text) (values : List Text) : Text × Json.Value :=
    (key, .array (values.map .string))
  let flag (key : Text) (value : Bool) : Text × Json.Value := (key, .bool value)
  .object ([text "id" task.id, text "name" task.name, ("trigger", task.trigger.toJson),
      text "kind" kind]
    ++ (task.script.map (text "script")).toList ++ (task.prompt.map (text "prompt")).toList
    ++ (task.targetRef.map (text "targetRef")).toList
    ++ [texts "skillIds" task.skillIds, texts "mcpIds" task.mcpIds, text "policy" policy,
      texts "whitelist" task.whitelist, flag "enabled" task.enabled,
      flag "autoConfirmed" task.autoConfirmed, text "ownerId" task.ownerId])

def taskFile (tasks : List ScheduledTask) : Text :=
  (Json.Value.array (tasks.map ScheduledTask.toJson)).toText

def oneTask (task : ScheduledTask) : Disk :=
  ⟨.text (taskFile [task]), .absent, .absent⟩

@[reducible]
def readsOneTask (task : ScheduledTask) : Serde where
  tasks := ⟨taskFile, fun content => if content = taskFile [task] then some [task] else none⟩
  skills := noItems
  mcps := noItems

/-- Nothing is read as a time. -/
@[reducible]
def noTimes : Rfc3339 :=
  ⟨fun _ => none⟩

/-- A world in which nothing is connected. -/
def nowhere : World where
  clock := "2026-08-23T10:00:00+00:00"
  epochSeconds := 1787479200
  provider := none
  sessions := fun _ => none
  visit := id
  onShellFiring := false
  createProvider := fun _ => .ok ()

/-- A task that runs in each minute. -/
def minutely : ScheduledTask :=
  { reminder "minutely" "local" with trigger := .cron "* * * * *" }

end Automation
