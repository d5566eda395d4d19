import Catio.Automation.Scheduler

/-!
# Cron tasks and calendar minutes

A cron task is to be fired once in each calendar minute that matches and in which a tick finds
it idle (`OncePerMinute`).  It is, as long as at each tick the last firing is 59 seconds ago if
and only if it was in an earlier minute (`cron_once_per_minute`).
-/

namespace Automation

open Text

/-- The calendar minutes in which an id was fired. -/
def App.minutesOf (app : App) (id : Text) : List ℤ :=
  (app.firingsOf id).map fun f => minuteIndex f.at_

theorem App.minutesOf_eq {app app' : App} {id : Text}
    (hfirings : app'.firingsOf id = app.firingsOf id) :
  app'.minutesOf id = app.minutesOf id
  := by
  unfold minutesOf
  rw [hfirings]

def AppEvent.time : AppEvent → Option Instant
  | .tick now => some now
  | _ => none

section

variable [Rfc3339] [Serde]

/-- The id is fired at most once a minute, only in minutes that match, and once in each in which a
tick finds it idle. -/
structure OncePerMinute (id expr : Text) (app : App) (events : List AppEvent) : Prop where
  atMost : ∀ minute, ((app.run events).minutesOf id).count minute ≤ 1
  matching : ∀ f ∈ (app.run events).firingsOf id, cronMatches expr f.at_
  exactly : ∀ pre now post, events = pre ++ .tick now :: post →
    (app.run pre).inner.running id = false → cronMatches expr now →
    ((app.run events).minutesOf id).count (minuteIndex now) = 1

/-- Each tick finds the task in the store, enabled, and the application is not started again. -/
def KeepsTask (task : ScheduledTask) : AppEvent → App → Prop
  | .tick _, app => task ∈ app.store.inner.allEnabledTasks
  | .restart, _ => False
  | _, _ => True

/-- A tick is in phase with a task: no other one has its id, no arithmetic panics, and if it is idle
in a matching minute, its last firing is over 59 seconds ago just if it was in an earlier minute. -/
structure InPhase (task : ScheduledTask) (expr : Text) (now : Instant) (app : App) : Prop where
  alone : ∀ other ∈ app.store.inner.allEnabledTasks, other.id = task.id → other = task
  range : ∀ other ∈ app.store.inner.allEnabledTasks, app.inner.running other.id = false →
    other.trigger.InRange (app.inner.lastFired other.id) now
  phase : app.inner.running task.id = false → cronMatches expr now →
    ∀ last ∈ app.inner.lastFired task.id,
      (last < now - 59 * 10 ^ 9 ↔ minuteIndex last < minuteIndex now)

def TicksInPhase (task : ScheduledTask) (expr : Text) : AppEvent → App → Prop
  | .tick now, app => InPhase task expr now app
  | _, _ => True

section

variable (task : ScheduledTask) (expr : Text)

instance (now : Instant) (app : App) : Decidable (InPhase task expr now app) :=
  decidable_of_iff
    ((∀ other ∈ app.store.inner.allEnabledTasks, other.id = task.id → other = task)
      ∧ (∀ other ∈ app.store.inner.allEnabledTasks, app.inner.running other.id = false →
        other.trigger.InRange (app.inner.lastFired other.id) now)
      ∧ (app.inner.running task.id = false → cronMatches expr now →
        ∀ last ∈ app.inner.lastFired task.id,
          (last < now - 59 * 10 ^ 9 ↔ minuteIndex last < minuteIndex now)))
    ⟨fun ⟨h₁, h₂, h₃⟩ => ⟨h₁, h₂, h₃⟩, fun ⟨h₁, h₂, h₃⟩ => ⟨h₁, h₂, h₃⟩⟩

instance (e : AppEvent) (app : App) : Decidable (KeepsTask task e app) :=
  match e with
  | .tick _ => inferInstanceAs (Decidable (task ∈ app.store.inner.allEnabledTasks))
  | .restart => .isFalse not_false
  | .begins _ _ => .isTrue trivial
  | .ends _ => .isTrue trivial
  | .returns _ => .isTrue trivial
  | .perform _ _ => .isTrue trivial

instance (e : AppEvent) (app : App) : Decidable (TicksInPhase task expr e app) :=
  match e with
  | .tick now => inferInstanceAs (Decidable (InPhase task expr now app))
  | .restart => .isTrue trivial
  | .begins _ _ => .isTrue trivial
  | .ends _ => .isTrue trivial
  | .returns _ => .isTrue trivial
  | .perform _ _ => .isTrue trivial

end

/-! ### What is kept along a run -/

/-- What the firings of a task have to do with the events, the mark of its last firing, and the
minutes. -/
structure Minutes (task : ScheduledTask) (expr : Text) (start : App) (events : List AppEvent)
    (app : App) : Prop where
  alive : app.alive
  ticked : ∀ f ∈ app.firingsOf task.id, f.at_ ∈ events.filterMap AppEvent.time
  marked : app.inner.lastFired task.id = (app.firingsOf task.id).getLast?.map Firing.at_
  increasing : (app.minutesOf task.id).Pairwise (· < ·)
  matching : ∀ f ∈ app.firingsOf task.id, cronMatches expr f.at_
  found : ∀ pre now post, events = pre ++ .tick now :: post →
    (start.run pre).inner.running task.id = false → cronMatches expr now →
    minuteIndex now ∈ app.minutesOf task.id

namespace Minutes

variable {task : ScheduledTask} {expr : Text} {start app app' : App} {events : List AppEvent}
  {e : AppEvent} {now : Instant} {t : Tick}

theorem init (disk : Disk) :
  Minutes task expr (.start disk) [] (.start disk)
  where
  alive := rfl
  ticked _ hmem := absurd hmem List.not_mem_nil
  marked := rfl
  increasing := .nil
  matching _ hmem := absurd hmem List.not_mem_nil
  found pre now post heq := by simp at heq

theorem unfired (h : Minutes task expr start events app) (halive : app'.alive)
    (hfirings : app'.firingsOf task.id = app.firingsOf task.id)
    (hlast : app'.inner.lastFired task.id = app.inner.lastFired task.id)
    (hfound : ∀ now, e = .tick now → (start.run events).inner.running task.id = false →
      cronMatches expr now → minuteIndex now ∈ app.minutesOf task.id) :
  Minutes task expr start (events ++ [e]) app'
  := by
  constructor
  · exact halive
  · rw [hfirings, List.filterMap_append]
    intro f hf
    exact List.mem_append_left _ (h.ticked f hf)
  · rw [hlast, hfirings]
    exact h.marked
  · rw [App.minutesOf_eq hfirings]
    exact h.increasing
  · rw [hfirings]
    exact h.matching
  · intro pre now post heq
    rw [App.minutesOf_eq hfirings]
    obtain ⟨rfl, he⟩ | ⟨post', rfl⟩ := Steps.snoc_cases heq
    · exact hfound now he
    · exact h.found pre now post' rfl

theorem fired (h : Minutes task expr start events app) {process : ℕ} (halive : app'.alive)
    (hfirings : app'.firingsOf task.id = app.firingsOf task.id ++ [⟨task, now, process⟩])
    (hlast : app'.inner.lastFired task.id = some now) (hmatches : cronMatches expr now)
    (hlater : ∀ m ∈ app.minutesOf task.id, m < minuteIndex now) :
  Minutes task expr start (events ++ [.tick now]) app'
  := by
  have hminutes : app'.minutesOf task.id = app.minutesOf task.id ++ [minuteIndex now] := by
    unfold App.minutesOf
    rw [hfirings, List.map_append, List.map_singleton]
  constructor
  · exact halive
  · rw [hfirings, List.filterMap_append]
    intro f hf
    obtain hf | hf := List.mem_append.mp hf
    · exact List.mem_append_left _ (h.ticked f hf)
    · rw [List.mem_singleton.mp hf]
      exact List.mem_append_right _ List.mem_cons_self
  · rw [hlast, hfirings, List.getLast?_concat]
    rfl
  · rw [hminutes, List.pairwise_append]
    refine ⟨h.increasing, List.pairwise_singleton _ _, ?_⟩
    intro m hm u hu
    rw [List.mem_singleton.mp hu]
    exact hlater m hm
  · rw [hfirings]
    intro f hf
    obtain hf | hf := List.mem_append.mp hf
    · exact h.matching f hf
    · rwa [List.mem_singleton.mp hf]
  · intro pre u post heq hidle hmatches
    rw [hminutes]
    obtain ⟨-, he⟩ | ⟨post', rfl⟩ := Steps.snoc_cases heq
    · cases he
      exact List.mem_append_right _ (List.mem_singleton_self _)
    · exact List.mem_append_left _ (h.found pre u post' rfl hidle hmatches)

theorem le_last (h : Minutes task expr start events app) {last : Instant}
    (hlast : app.inner.lastFired task.id = some last) :
  minuteIndex last ∈ app.minutesOf task.id ∧ ∀ m ∈ app.minutesOf task.id, m ≤ minuteIndex last
  := by
  rw [h.marked] at hlast
  obtain ⟨f, hf, rfl⟩ := Option.map_eq_some_iff.mp hlast
  obtain ⟨before, hsplit⟩ := List.getLast?_eq_some_iff.mp hf
  have hminutes : app.minutesOf task.id
      = before.map (fun f => minuteIndex f.at_) ++ [minuteIndex f.at_] := by
    unfold App.minutesOf
    rw [hsplit, List.map_append, List.map_singleton]
  have hincreasing := h.increasing
  rw [hminutes] at hincreasing ⊢
  rw [List.pairwise_append] at hincreasing
  constructor
  · exact List.mem_append_right _ (List.mem_singleton_self _)
  · intro m hm
    obtain hm | hm := List.mem_append.mp hm
    · exact Int.le_of_lt (hincreasing.2.2 m hm _ (List.mem_singleton_self _))
    · exact Int.le_of_eq (List.mem_singleton.mp hm)

theorem later (h : Minutes task expr start events app) (htrigger : task.trigger = .cron expr)
    (hphase : InPhase task expr now app) (hidle : app.inner.running task.id = false)
    (hdue : shouldFire task (app.inner.lastFired task.id) now = some true) :
  ∀ m ∈ app.minutesOf task.id, m < minuteIndex now
  := by
  obtain ⟨hmatches, hago⟩ := shouldFire_cron htrigger hdue
  cases hlast : app.inner.lastFired task.id with
  | none =>
    rw [h.marked, Option.map_eq_none_iff, List.getLast?_eq_none_iff] at hlast
    unfold App.minutesOf
    rw [hlast]
    exact fun _ hm => absurd hm List.not_mem_nil
  | some last =>
    intro m hm
    apply Int.lt_of_le_of_lt ((h.le_last hlast).2 m hm)
    exact (hphase.phase hidle hmatches last hlast).mp (hago last hlast)

theorem found_of_unfired (h : Minutes task expr start events app)
    (hearlier : ∀ u ∈ events.filterMap AppEvent.time, u < now)
    (htrigger : task.trigger = .cron expr) (htask : task ∈ app.store.inner.allEnabledTasks)
    (hphase : InPhase task expr now app) (hidle : app.inner.running task.id = false)
    (hmatches : cronMatches expr now)
    (hnot : shouldFire task (app.inner.lastFired task.id) now ≠ some true) :
  minuteIndex now ∈ app.minutesOf task.id
  := by
  have hsome := shouldFire_isSome (hphase.range task htask hidle)
  obtain ⟨due, hdue⟩ := Option.isSome_iff_exists.mp hsome
  cases due with
  | true => exact absurd hdue hnot
  | false =>
    obtain ⟨last, hlast, hago⟩ :=
      shouldFire_cron_false htrigger (List.mem_filter.mp htask).2 hmatches hdue
    obtain ⟨hmem, -⟩ := h.le_last hlast
    have hbefore : last < now := by
      rw [h.marked] at hlast
      obtain ⟨f, hf, rfl⟩ := Option.map_eq_some_iff.mp hlast
      exact hearlier _ (h.ticked f (List.mem_of_getLast? hf))
    have hnotlater : ¬ minuteIndex last < minuteIndex now := by
      rw [← hphase.phase hidle hmatches last hlast]
      exact Int.not_lt.mpr hago
    rwa [← Int.le_antisymm (minuteIndex_mono (Int.le_of_lt hbefore)) (Int.not_lt.mp hnotlater)]

theorem tick (h : Minutes task expr start events (start.run events))
    (hearlier : ∀ u ∈ events.filterMap AppEvent.time, u < now)
    (htrigger : task.trigger = .cron expr)
    (htask : task ∈ (start.run events).store.inner.allEnabledTasks)
    (hphase : InPhase task expr now (start.run events)) :
  Minutes task expr start (events ++ [.tick now]) ((start.run events).after (.tick now))
  := by
  obtain ⟨t, ht, hafter⟩ := App.after_tick h.alive now
  rw [hafter]
  have halive : t.alive := by
    apply ht.alive
    intro other hmem hidle
    exact shouldFire_isSome (hphase.range other hmem hidle)
  have hfirings := (start.run events).firingsOf_ticked now t task.id
  obtain ⟨hidle, hdue, hfired, hlast⟩ | ⟨hnot, hfired, hlast⟩ :=
    ht.alone halive htask hphase.alone
  · rw [hfired, List.map_singleton] at hfirings
    exact h.fired halive hfirings hlast (shouldFire_cron htrigger hdue).1
      (h.later htrigger hphase hidle hdue)
  · rw [hfired, List.map_nil, List.append_nil] at hfirings
    apply h.unfired halive hfirings hlast
    intro u heq hidle hmatches
    cases heq
    apply h.found_of_unfired hearlier htrigger htask hphase hidle hmatches
    exact fun hdue => hnot ⟨hidle, hdue⟩

theorem after (h : Minutes task expr start events (start.run events))
    (htrigger : task.trigger = .cron expr)
    (hticks : ((events ++ [e]).filterMap AppEvent.time).Pairwise (· < ·))
    (hkeeps : KeepsTask task e (start.run events))
    (hphase : TicksInPhase task expr e (start.run events)) :
  Minutes task expr start (events ++ [e]) ((start.run events).after e)
  := by
  by_cases htick : ∃ now, e = .tick now
  · obtain ⟨now, rfl⟩ := htick
    rw [List.filterMap_append, List.pairwise_append] at hticks
    exact h.tick (fun u hu => hticks.2.2 u hu now List.mem_cons_self) htrigger hkeeps hphase
  · have hother : ∀ now, e ≠ .tick now := fun now heq => htick ⟨now, heq⟩
    have hrestart : e ≠ .restart := by
      rintro rfl
      exact hkeeps
    have huntouched := (start.run events).after_untouched hother hrestart
    apply h.unfired
    · rw [huntouched.alive]
      exact h.alive
    · unfold App.firingsOf
      rw [huntouched.firings]
    · rw [huntouched.lastFired]
    · intro now heq
      exact absurd heq (hother now)

end Minutes

/-! ### Runs -/

/-- In a run whose ticks are in phase, the task is fired once in each minute that matches and in
which a tick finds it idle. -/
theorem cron_once_per_minute (disk : Disk) (events : List AppEvent) (task : ScheduledTask)
    (expr : Text) (htrigger : task.trigger = .cron expr)
    (hticks : (events.filterMap AppEvent.time).Pairwise (· < ·))
    (hkeeps : Steps.Throughout App.after (KeepsTask task) events (.start disk))
    (hphase : Steps.Throughout App.after (TicksInPhase task expr) events (.start disk)) :
  OncePerMinute task.id expr (.start disk) events
  := by
  have hminutes : Minutes task expr (.start disk) events ((App.start disk).run events) := by
    have hboth : Steps.Throughout App.after (fun e app => KeepsTask task e app
        ∧ TicksInPhase task expr e app) events (.start disk) :=
      fun pre e post heq => ⟨hkeeps pre e post heq, hphase pre e post heq⟩
    refine Steps.history (Q := fun es app => (es.filterMap AppEvent.time).Pairwise (· < ·) →
      Minutes task expr (.start disk) es app) (fun _ => .init disk) ?_ hboth hticks
    intro es e h hfinds hticks
    have hearlier : (es.filterMap AppEvent.time).Pairwise (· < ·) := by
      rw [List.filterMap_append, List.pairwise_append] at hticks
      exact hticks.1
    exact (h hearlier).after htrigger hticks hfinds.1 hfinds.2
  constructor
  · intro minute
    apply List.nodup_iff_count_le_one.mp
    exact hminutes.increasing.imp fun hlt => Int.ne_of_lt hlt
  · exact hminutes.matching
  · intro pre now post heq hidle hmatches
    apply List.count_eq_one_of_mem
    · exact hminutes.increasing.imp fun hlt => Int.ne_of_lt hlt
    · exact hminutes.found pre now post heq hidle hmatches

end

/-! ### A task of each minute -/

/-- The application, whose store has the task. -/
def minutelyApp : App :=
  @App.start (readsOneTask minutely) (oneTask minutely)

/-- Two ticks; the first firing returns in between. -/
def twoTicks (later : ℤ) : List AppEvent :=
  [.tick tenOClock, .begins 0 nowhere, .returns 0, .tick (tenOClock + later)]

/-- The task is fired at ten, and a minute later. -/
theorem cron_once_per_minute_minutely :
  @OncePerMinute noTimes (readsOneTask minutely) "minutely" "* * * * *" minutelyApp
    (twoTicks (60 * 10 ^ 9))
  := by
  let _ : Rfc3339 := noTimes
  let _ : Serde := readsOneTask minutely
  apply cron_once_per_minute (oneTask minutely) _ minutely
  · rfl
  · decide +kernel
  · decide +kernel
  · decide +kernel

/-- The task is fired twice at ten: when the minute begins, and half a second before it ends. -/
theorem fired_twice_in_a_minute :
  (∃ expr, minutely.trigger = .cron expr)
    ∧ ((twoTicks 59500000000).filterMap AppEvent.time).Pairwise (· < ·)
    ∧ @Steps.Throughout _ _ (@App.after noTimes (readsOneTask minutely))
      (KeepsTask minutely) (twoTicks 59500000000) minutelyApp
    ∧ ¬ @OncePerMinute noTimes (readsOneTask minutely) "minutely" "* * * * *"
      minutelyApp (twoTicks 59500000000)
  := by
  refine ⟨⟨_, rfl⟩, by decide, by decide +kernel, ?_⟩
  intro h
  have hcount := @OncePerMinute.atMost noTimes (readsOneTask minutely) _ _ _ _ h
    (minuteIndex tenOClock)
  revert hcount
  decide +kernel

end Automation
