import Catio.Automation.Scheduler

/-!
# Tasks that are fired once

A task with a time is to be fired once for each time with which it is saved (`OncePerTime`).  The
mark of that belongs to its id, and is lost at the end of the application.  So it is fired once as
long as no tick finds it due whose id was fired for something else, or before a restart
(`once_per_time`).
-/

namespace Automation

open Text

/-- The firings of an id for a time. -/
def App.firedFor (app : App) (id at_ : Text) : ℕ :=
  app.firings.countP fun f => f.task.id = id ∧ f.task.trigger = .once at_

section

variable [Rfc3339]

/-- The time of a task has come. -/
def isDue (at_ : Text) (now : Instant) : Bool :=
  (Rfc3339.parse at_).any fun due => due ≤ now

theorem isDue_iff {at_ : Text} {now : Instant} :
  isDue at_ now ↔ ∃ due, Rfc3339.parse at_ = some due ∧ due ≤ now
  := by
  unfold isDue
  rw [Option.any_eq_true]
  constructor
  · rintro ⟨due, hparse, hle⟩
    exact ⟨due, hparse, of_decide_eq_true hle⟩
  · rintro ⟨due, hparse, hle⟩
    exact ⟨due, hparse, decide_eq_true hle⟩

/-- Each id is fired at most once for each time, and once for a time that has come when a tick finds
the task enabled. -/
structure OncePerTime [Serde] (app : App) (events : List AppEvent) : Prop where
  atMost : ∀ id at_, (app.run events).firedFor id at_ ≤ 1
  exactly : ∀ pre now post, events = pre ++ .tick now :: post →
    ∀ task ∈ (app.run pre).store.inner.allEnabledTasks, ∀ at_, task.trigger = .once at_ →
      isDue at_ now → (app.run events).firedFor task.id at_ = 1

/-- A due task is fresh: no other has its id, and no earlier process and no other time fired it. -/
structure Fresh (app : App) (task : ScheduledTask) : Prop where
  alone : ∀ other ∈ app.store.inner.allEnabledTasks, other.id = task.id → other = task
  same : ∀ f ∈ app.firings, f.task.id = task.id → f.process = app.process →
    f.task.trigger = task.trigger
  earlier : ∀ f ∈ app.firings, f.task.id = task.id → f.task.trigger = task.trigger →
    f.process = app.process

/-- The trigger of a task is a time that has come. -/
def TaskTrigger.isDue (trigger : TaskTrigger) (now : Instant) : Bool :=
  match trigger with
  | .once at_ => Automation.isDue at_ now
  | _ => false

/-- No arithmetic of a tick panics, and the tasks whose time has come are fresh. -/
def TicksFresh : AppEvent → App → Prop
  | .tick now, app => ∀ task ∈ app.store.inner.allEnabledTasks,
      (app.inner.running task.id = false →
        task.trigger.InRange (app.inner.lastFired task.id) now)
      ∧ (task.trigger.isDue now → Fresh app task)
  | _, _ => True

instance (app : App) (task : ScheduledTask) : Decidable (Fresh app task) :=
  decidable_of_iff
    ((∀ other ∈ app.store.inner.allEnabledTasks, other.id = task.id → other = task)
      ∧ (∀ f ∈ app.firings, f.task.id = task.id → f.process = app.process →
        f.task.trigger = task.trigger)
      ∧ (∀ f ∈ app.firings, f.task.id = task.id → f.task.trigger = task.trigger →
        f.process = app.process))
    ⟨fun ⟨h₁, h₂, h₃⟩ => ⟨h₁, h₂, h₃⟩, fun ⟨h₁, h₂, h₃⟩ => ⟨h₁, h₂, h₃⟩⟩

instance (e : AppEvent) (app : App) : Decidable (TicksFresh e app) :=
  match e with
  | .tick now => inferInstanceAs (Decidable (∀ task ∈ app.store.inner.allEnabledTasks,
      (app.inner.running task.id = false →
        task.trigger.InRange (app.inner.lastFired task.id) now)
      ∧ (task.trigger.isDue now → Fresh app task)))
  | .restart => .isTrue trivial
  | .begins _ _ => .isTrue trivial
  | .ends _ => .isTrue trivial
  | .returns _ => .isTrue trivial
  | .perform _ _ => .isTrue trivial

/-! ### What is kept along a run -/

/-- What the firings have to do with the marks, the processes and the events. -/
structure Fired [Serde] (start : App) (events : List AppEvent) (app : App) : Prop where
  alive : app.alive
  marked : ∀ id, (app.inner.lastFired id).isSome
    ↔ ∃ f ∈ app.firings, f.task.id = id ∧ f.process = app.process
  running : ∀ id, app.inner.running id = true → (app.inner.lastFired id).isSome
  earlier : ∀ f ∈ app.firings, f.process ≤ app.process
  atMost : ∀ id at_, app.firedFor id at_ ≤ 1
  found : ∀ pre now post, events = pre ++ .tick now :: post →
    ∀ task ∈ (start.run pre).store.inner.allEnabledTasks, ∀ at_, task.trigger = .once at_ →
      isDue at_ now → ∃ f ∈ app.firings, f.task.id = task.id ∧ f.task.trigger = .once at_

namespace Fired

variable [Serde] {start app app' : App} {events : List AppEvent} {e : AppEvent} {now : Instant}
  {t : Tick}

theorem init (disk : Disk) :
  Fired (.start disk) [] (.start disk)
  where
  alive := rfl
  marked id := by
    constructor
    · intro hsome
      cases hsome
    · rintro ⟨f, hmem, -⟩
      exact absurd hmem List.not_mem_nil
  running id hrunning := by cases hrunning
  earlier _ hmem := absurd hmem List.not_mem_nil
  atMost _ _ := Nat.zero_le 1
  found pre now post heq := by simp at heq

theorem found_snoc (h : Fired start events app) (hfirings : ∀ f ∈ app.firings, f ∈ app'.firings)
    (htick : ∀ now, e = .tick now → ∀ task ∈ (start.run events).store.inner.allEnabledTasks,
      ∀ at_, task.trigger = .once at_ → isDue at_ now →
        ∃ f ∈ app'.firings, f.task.id = task.id ∧ f.task.trigger = .once at_) :
  ∀ pre now post, events ++ [e] = pre ++ .tick now :: post →
    ∀ task ∈ (start.run pre).store.inner.allEnabledTasks, ∀ at_, task.trigger = .once at_ →
      isDue at_ now → ∃ f ∈ app'.firings, f.task.id = task.id ∧ f.task.trigger = .once at_
  := by
  intro pre now post heq task htask at_ htrigger hdue
  obtain ⟨rfl, he⟩ | ⟨post', rfl⟩ := Steps.snoc_cases heq
  · exact htick now he task htask at_ htrigger hdue
  · obtain ⟨f, hf, hpair⟩ := h.found pre now post' rfl task htask at_ htrigger hdue
    exact ⟨f, hfirings f hf, hpair⟩

theorem untouched (h : Fired start events app) (huntouched : app.Untouched app')
    (htick : ∀ now, e ≠ .tick now) :
  Fired start (events ++ [e]) app'
  := by
  constructor
  · rw [huntouched.alive]
    exact h.alive
  · rw [huntouched.lastFired, huntouched.firings, huntouched.process]
    exact h.marked
  · intro id hrunning
    rw [huntouched.lastFired]
    exact h.running id (huntouched.running id hrunning)
  · rw [huntouched.firings, huntouched.process]
    exact h.earlier
  · intro id at_
    unfold App.firedFor
    rw [huntouched.firings]
    exact h.atMost id at_
  · apply h.found_snoc
    · rw [huntouched.firings]
      exact fun _ => id
    · intro now heq
      exact absurd heq (htick now)

theorem restart (h : Fired start events app) :
  Fired start (events ++ [.restart]) app.restart
  := by
  constructor
  · rfl
  · intro id
    constructor
    · intro hsome
      cases hsome
    · rintro ⟨f, hf, -, hprocess⟩
      have hle := h.earlier f hf
      rw [hprocess] at hle
      exact absurd hle (Nat.not_succ_le_self app.process)
  · intro id hrunning
    cases hrunning
  · intro f hf
    exact Nat.le_succ_of_le (h.earlier f hf)
  · exact h.atMost
  · apply h.found_snoc
    · exact fun _ => id
    · exact nofun

theorem unfired (h : Fired start events app)
    (ht : Ticks now app.store.inner.allEnabledTasks app.inner t)
    (hfresh : TicksFresh (.tick now) app) {task : ScheduledTask} {at_ : Text}
    (hfired : task ∈ t.fired) (htrigger : task.trigger = .once at_) :
  app.firedFor task.id at_ = 0
  := by
  obtain ⟨htask, -, hfires⟩ := ht.due task hfired
  obtain ⟨-, hnone, hdue⟩ := (shouldFire_once htrigger).mp hfires
  have hisDue : task.trigger.isDue now := by
    rw [htrigger]
    exact isDue_iff.mpr hdue
  have hcond := (hfresh task htask).2 hisDue
  apply List.countP_eq_zero.mpr
  intro f hf hpair
  rw [decide_eq_true_eq] at hpair
  have hprocess := hcond.earlier f hf hpair.1 (hpair.2.trans htrigger.symm)
  have hsome := (h.marked task.id).mpr ⟨f, hf, hpair.1, hprocess⟩
  rw [hnone] at hsome
  cases hsome

theorem fired_of_due (h : Fired start events app)
    (ht : Ticks now app.store.inner.allEnabledTasks app.inner t) (halive : t.alive)
    (hfresh : TicksFresh (.tick now) app) {task : ScheduledTask} {at_ : Text}
    (htask : task ∈ app.store.inner.allEnabledTasks) (htrigger : task.trigger = .once at_)
    (hdue : isDue at_ now) :
  ∃ f ∈ (app.ticked now t).firings, f.task.id = task.id ∧ f.task.trigger = .once at_
  := by
  have hcond : Fresh app task := by
    apply (hfresh task htask).2
    rw [htrigger]
    exact hdue
  cases hlast : app.inner.lastFired task.id with
  | some last =>
    have hsome : (app.inner.lastFired task.id).isSome := by rw [hlast]; rfl
    obtain ⟨f, hf, hid, hprocess⟩ := (h.marked task.id).mp hsome
    refine ⟨f, List.mem_append_left _ hf, hid, ?_⟩
    rw [hcond.same f hf hid hprocess, htrigger]
  | none =>
    have hidle : app.inner.running task.id = false := by
      rw [Bool.eq_false_iff]
      intro hrunning
      have hsome := h.running task.id hrunning
      rw [hlast] at hsome
      cases hsome
    have hfires := (shouldFire_once htrigger).mpr
      ⟨(List.mem_filter.mp htask).2, hlast, isDue_iff.mp hdue⟩
    obtain ⟨fired, hfired, hid⟩ :=
      List.mem_map.mp (ht.complete halive task htask hidle hfires)
    have heq := hcond.alone fired (ht.due fired hfired).1 hid
    refine ⟨⟨fired, now, app.process⟩, ?_, hid, ?_⟩
    · exact List.mem_append_right _ (List.mem_map.mpr ⟨fired, hfired, rfl⟩)
    · rw [heq, htrigger]

theorem atMost_tick (h : Fired start events app)
    (ht : Ticks now app.store.inner.allEnabledTasks app.inner t)
    (hfresh : TicksFresh (.tick now) app) (id at_ : Text) :
  (app.ticked now t).firedFor id at_ ≤ 1
  := by
  have hcount : (app.ticked now t).firedFor id at_ = app.firedFor id at_
      + t.fired.countP fun task => task.id = id ∧ task.trigger = .once at_ := by
    unfold App.firedFor App.ticked
    rw [List.countP_append, List.countP_map]
    rfl
  rw [hcount]
  by_cases hfired : ∃ task ∈ t.fired, task.id = id ∧ task.trigger = .once at_
  · obtain ⟨task, hfired, rfl, htrigger⟩ := hfired
    rw [h.unfired ht hfresh hfired htrigger, Nat.zero_add]
    calc t.fired.countP (fun other => other.id = task.id ∧ other.trigger = .once at_)
        ≤ t.fired.countP fun other => other.id = task.id := by
          apply List.countP_mono_left
          intro other _ hpair
          exact decide_eq_true (of_decide_eq_true hpair).1
      _ = (t.fired.map ScheduledTask.id).count task.id := by
          rw [List.count, List.countP_map]
          apply List.countP_congr
          intro other _
          rw [decide_eq_true_eq, Function.comp_apply, beq_iff_eq]
      _ ≤ 1 := List.nodup_iff_count_le_one.mp ht.nodup task.id
  · have hnone : t.fired.countP (fun task => task.id = id ∧ task.trigger = .once at_) = 0 := by
      apply List.countP_eq_zero.mpr
      intro task hmem hpair
      exact hfired ⟨task, hmem, of_decide_eq_true hpair⟩
    rw [hnone]
    exact h.atMost id at_

theorem tick (h : Fired start events (start.run events))
    (hfresh : TicksFresh (.tick now) (start.run events)) :
  Fired start (events ++ [.tick now]) ((start.run events).after (.tick now))
  := by
  obtain ⟨t, ht, hafter⟩ := App.after_tick h.alive now
  rw [hafter]
  have halive : t.alive := by
    apply ht.alive
    intro task htask hidle
    exact shouldFire_isSome ((hfresh task htask).1 hidle)
  constructor
  · exact halive
  · intro id
    change (t.inner.lastFired id).isSome ↔ _
    rw [ht.lastFired id]
    constructor
    · intro hsome
      split at hsome
      · rename_i hfired
        obtain ⟨task, hmem, hid⟩ := List.mem_map.mp hfired
        exact ⟨⟨task, now, _⟩, List.mem_append_right _ (List.mem_map.mpr ⟨task, hmem, rfl⟩),
          hid, rfl⟩
      · obtain ⟨f, hf, hof⟩ := (h.marked id).mp hsome
        exact ⟨f, List.mem_append_left _ hf, hof⟩
    · rintro ⟨f, hf, hid, hprocess⟩
      split
      · rfl
      · rename_i hnot
        obtain hf | hf := List.mem_append.mp hf
        · exact (h.marked id).mpr ⟨f, hf, hid, hprocess⟩
        · obtain ⟨task, hmem, rfl⟩ := List.mem_map.mp hf
          exact absurd (List.mem_map.mpr ⟨task, hmem, hid⟩) hnot
  · intro id hrunning
    change (t.inner.lastFired id).isSome
    rw [ht.lastFired id]
    split
    · rfl
    · rename_i hnot
      obtain hrunning | hfired := (ht.running id).mp hrunning
      · exact h.running id hrunning
      · exact absurd hfired hnot
  · intro f hf
    obtain hf | hf := List.mem_append.mp hf
    · exact h.earlier f hf
    · obtain ⟨task, -, rfl⟩ := List.mem_map.mp hf
      exact Nat.le_refl _
  · exact h.atMost_tick ht hfresh
  · apply h.found_snoc
    · exact fun f hf => List.mem_append_left _ hf
    · intro u heq task htask at_ htrigger hdue
      cases heq
      exact h.fired_of_due ht halive hfresh htask htrigger hdue

theorem after (h : Fired start events (start.run events))
    (hfresh : TicksFresh e (start.run events)) :
  Fired start (events ++ [e]) ((start.run events).after e)
  := by
  by_cases htick : ∃ now, e = .tick now
  · obtain ⟨now, rfl⟩ := htick
    exact h.tick hfresh
  · by_cases hrestart : e = .restart
    · rw [hrestart]
      exact h.restart
    · have hother : ∀ now, e ≠ .tick now := fun now heq => htick ⟨now, heq⟩
      exact h.untouched ((start.run events).after_untouched hother hrestart) hother

end Fired

/-! ### Runs -/

/-- In a run whose ticks find due tasks fresh, each task is fired once for each time that comes
while it is enabled. -/
theorem once_per_time [Serde] (disk : Disk) (events : List AppEvent)
    (hfresh : Steps.Throughout App.after TicksFresh events (.start disk)) :
  OncePerTime (.start disk) events
  := by
  have hfired : Fired (.start disk) events ((App.start disk).run events) :=
    Steps.history (.init disk) (fun _ _ h hfinds => h.after hfinds) hfresh
  constructor
  · exact hfired.atMost
  · intro pre now post heq task htask at_ htrigger hdue
    apply Nat.le_antisymm (hfired.atMost task.id at_)
    obtain ⟨f, hf, hpair⟩ := hfired.found pre now post heq task htask at_ htrigger hdue
    exact List.countP_pos_iff.mpr ⟨f, hf, decide_eq_true hpair⟩

end

/-! ### A task that is fired once -/

/-- A backup on the 23rd of August 2026 at ten. -/
def backup : ScheduledTask :=
  { reminder "backup" "local" with trigger := .once "2026-08-23T10:00:00Z" }

/-- The times of this day at ten and at eleven. -/
@[reducible]
def tenAndEleven : Rfc3339 where
  parse text :=
    if text = "2026-08-23T10:00:00Z" then some tenOClock
    else if text = "2026-08-23T11:00:00Z" then some (tenOClock + 3600 * 10 ^ 9)
    else none

def backupApp : App :=
  @App.start (readsOneTask backup) (oneTask backup)

/-- A tick at ten, and one a minute after eleven; the first firing returns in between. -/
def tenAndLater (between : List AppEvent) : List AppEvent :=
  [.tick tenOClock, .begins 0 nowhere, .returns 0] ++ between
    ++ [.tick (tenOClock + 3660 * 10 ^ 9)]

/-- The backup is fired at ten only, as long as one process goes on. -/
theorem once_per_time_backup :
  @OncePerTime tenAndEleven (readsOneTask backup) backupApp (tenAndLater [])
  := by
  apply @once_per_time tenAndEleven (readsOneTask backup)
  decide +kernel

/-- The backup is fired again in another process; and when it is saved with another time, it is
not fired at that time. -/
theorem backup_not_once :
  ¬ @OncePerTime tenAndEleven (readsOneTask backup) backupApp (tenAndLater [.restart])
    ∧ ¬ @OncePerTime tenAndEleven (readsOneTask backup) backupApp (tenAndLater
      [.perform (.saving (.upsertTask { backup with trigger := .once "2026-08-23T11:00:00Z" }))
        ⟨none, none, none⟩])
  := by
  constructor
  · intro h
    have htwice := @OncePerTime.atMost tenAndEleven (readsOneTask backup) _ _ h "backup"
      "2026-08-23T10:00:00Z"
    revert htwice
    decide +kernel
  · intro h
    have hnever := @OncePerTime.exactly tenAndEleven (readsOneTask backup) _ _ h _ _ [] rfl
      { backup with trigger := .once "2026-08-23T11:00:00Z" } (by decide +kernel)
      "2026-08-23T11:00:00Z" rfl (by decide +kernel)
    revert hnever
    decide +kernel

end Automation
