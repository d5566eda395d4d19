import Catio.Automation.Scheduler
import Catio.Lib.Steps

/-!
# Firings are due

The marks of the loop agree with what it has fired.  So each firing of a run was due with respect to
the last one of its id by the same process, whatever happens to the store, to the dispatches and to
the application in between (`firings_due`).
-/

namespace Automation

/-- The last time at which a process fired an id. -/
def lastFiring (firings : List Firing) (process : ℕ) (id : Text) : Option Instant :=
  (firings.filter fun f => f.process = process ∧ f.task.id = id).getLast?.map Firing.at_

theorem lastFiring_append (xs ys : List Firing) (process : ℕ) (id : Text) :
  lastFiring (xs ++ ys) process id = (lastFiring ys process id).or (lastFiring xs process id)
  := by
  unfold lastFiring
  rw [List.filter_append, List.getLast?_append]
  cases (ys.filter fun f => f.process = process ∧ f.task.id = id).getLast? with
  | none => rfl
  | some f => rfl

theorem lastFiring_eq_none {firings : List Firing} {process : ℕ} {id : Text}
    (h : ∀ f ∈ firings, ¬ (f.process = process ∧ f.task.id = id)) :
  lastFiring firings process id = none
  := by
  rw [lastFiring, List.filter_eq_nil_iff.mpr]
  · rfl
  · intro f hf
    rw [decide_eq_true_iff]
    exact h f hf

section

variable [Rfc3339] [Serde]

/-- A tick of the run fired a stored task that was enabled, idle and due, after the firings
before. -/
def FiredAt (start : App) (events : List AppEvent) (before : List Firing) (f : Firing) : Prop :=
  ∃ pre post, events = pre ++ .tick f.at_ :: post
    ∧ f.process = (start.run pre).process
    ∧ f.task ∈ (start.run pre).store.inner.allEnabledTasks
    ∧ (start.run pre).inner.running f.task.id = false
    ∧ shouldFire f.task (lastFiring before f.process f.task.id) f.at_ = some true

theorem FiredAt.snoc {start : App} {events : List AppEvent} {before : List Firing} {f : Firing}
    (h : FiredAt start events before f) (e : AppEvent) :
  FiredAt start (events ++ [e]) before f
  := by
  obtain ⟨pre, post, rfl, hrest⟩ := h
  exact ⟨pre, post ++ [e], by simp, hrest⟩

/-- The marks are those of the firings of the process. -/
structure Marked (start : App) (events : List AppEvent) (app : App) : Prop where
  marks : ∀ id, app.inner.lastFired id = lastFiring app.firings app.process id
  earlier : ∀ f ∈ app.firings, f.process ≤ app.process
  due : ∀ before f after, app.firings = before ++ f :: after → FiredAt start events before f

namespace Marked

variable {start app app' : App} {events : List AppEvent} {now : Instant} {t : Tick}

theorem untouched (h : Marked start events app) (huntouched : app.Untouched app') (e : AppEvent) :
  Marked start (events ++ [e]) app'
  := by
  obtain ⟨hprocess, -, hlast, hfirings, -⟩ := huntouched
  constructor
  · rw [hprocess, hlast, hfirings]
    exact h.marks
  · rw [hprocess, hfirings]
    exact h.earlier
  · rw [hfirings]
    intro before f after heq
    exact (h.due before f after heq).snoc e

/-- Another process starts without marks. -/
theorem restart (h : Marked start events app) :
  Marked start (events ++ [.restart]) app.restart
  := by
  constructor
  · intro id
    symm
    apply lastFiring_eq_none
    rintro f hf ⟨hprocess, -⟩
    have hle := h.earlier f hf
    rw [hprocess] at hle
    exact absurd hle (Nat.not_succ_le_self app.process)
  · intro f hf
    exact Nat.le_succ_of_le (h.earlier f hf)
  · intro before f after heq
    exact (h.due before f after heq).snoc .restart

omit [Rfc3339] [Serde] in
theorem lastFiring_fired (tasks : List ScheduledTask) (process : ℕ) (id : Text) :
  lastFiring (tasks.map fun task => ⟨task, now, process⟩) process id
    = if id ∈ tasks.map ScheduledTask.id then some now else none
  := by
  split_ifs with hmem
  · obtain ⟨task, htask, rfl⟩ := List.mem_map.mp hmem
    have hsome : ((tasks.map fun task => (⟨task, now, process⟩ : Firing)).filter fun f =>
        f.process = process ∧ f.task.id = task.id) ≠ [] := by
      apply List.ne_nil_of_mem (a := ⟨task, now, process⟩)
      simpa using htask
    rw [lastFiring, List.getLast?_eq_some_getLast hsome]
    have hlast := List.mem_of_mem_filter (List.getLast_mem hsome)
    obtain ⟨_, -, heq⟩ := List.mem_map.mp hlast
    rw [← heq]
    rfl
  · apply lastFiring_eq_none
    intro f hf hpair
    obtain ⟨task, htask, rfl⟩ := List.mem_map.mp hf
    exact hmem (List.mem_map.mpr ⟨task, htask, hpair.2⟩)

theorem tick (h : Marked start events (start.run events))
    (ht : Ticks now (start.run events).store.inner.allEnabledTasks (start.run events).inner t) :
  Marked start (events ++ [.tick now]) ((start.run events).ticked now t)
  := by
  generalize happ : start.run events = app at h ht
  constructor
  · intro id
    change t.inner.lastFired id = lastFiring (app.firings ++ _) app.process id
    rw [ht.lastFired, lastFiring_append, lastFiring_fired, h.marks]
    split_ifs
    · rfl
    · rfl
  · intro f hf
    rcases List.mem_append.mp hf with hf | hf
    · exact h.earlier f hf
    · obtain ⟨task, -, rfl⟩ := List.mem_map.mp hf
      exact le_rfl
  · intro before f after heq
    have hsplit : (∃ post, app.firings = before ++ f :: post) ∨ ∃ front,
        before = app.firings ++ front
          ∧ t.fired.map (fun task => ⟨task, now, app.process⟩) = front ++ f :: after := by
      rcases List.append_eq_append_iff.mp heq with ⟨front, hbefore, hnew⟩ | ⟨back, hold, hback⟩
      · exact .inr ⟨front, hbefore, hnew⟩
      · cases back with
        | nil =>
          rw [List.append_nil] at hold
          exact .inr ⟨[], by rw [hold, List.append_nil], hback.symm⟩
        | cons f' back =>
          obtain ⟨rfl, -⟩ := List.cons.inj hback
          exact .inl ⟨back, hold⟩
    rcases hsplit with ⟨post, hold⟩ | ⟨front, rfl, hnew⟩
    · exact (h.due before f post hold).snoc _
    · obtain ⟨earlier, later, hfired, hfront, hlater⟩ := List.map_eq_append_iff.mp hnew
      obtain ⟨task, rest, rfl, rfl, -⟩ := List.map_eq_cons_iff.mp hlater
      obtain ⟨hstored, hidle, hdue⟩ := ht.due task (by simp [hfired])
      have hnot : task.id ∉ earlier.map ScheduledTask.id := by
        have hnodup := ht.nodup
        rw [hfired, List.map_append, List.map_cons, List.nodup_append] at hnodup
        intro hmem
        exact hnodup.2.2 _ hmem _ List.mem_cons_self rfl
      refine ⟨events, [], rfl, ?_⟩
      rw [happ, lastFiring_append, ← hfront, lastFiring_fired, if_neg hnot, ← h.marks]
      exact ⟨rfl, hstored, hidle, hdue⟩

theorem after (h : Marked start events (start.run events)) (e : AppEvent) :
  Marked start (events ++ [e]) ((start.run events).after e)
  := by
  cases e with
  | restart => exact h.restart
  | tick now =>
    by_cases halive : (start.run events).alive
    · obtain ⟨t, ht, heq⟩ := App.after_tick halive now
      rw [heq]
      exact h.tick ht
    · have hsame : (start.run events).after (.tick now) = start.run events := if_neg halive
      rw [hsame]
      exact h.untouched (.refl _) _
  | _ =>
    apply h.untouched (App.after_untouched _ _ _)
    · intro now heq
      cases heq
    · intro heq
      cases heq

end Marked

theorem firings_due (disk : Disk) (events : List AppEvent) (before : List Firing) (f : Firing)
    (after : List Firing) (h : ((App.start disk).run events).firings = before ++ f :: after) :
  FiredAt (.start disk) events before f
  := by
  have hmarked : Marked (.start disk) events ((App.start disk).run events) := by
    clear h
    induction events using List.reverseRecOn with
    | nil =>
      exact ⟨fun _ => rfl, fun _ hf => absurd hf List.not_mem_nil, by simp [App.run, App.start]⟩
    | append_singleton events e ih =>
      rw [App.run, List.foldl_concat]
      exact ih.after e
  exact hmarked.due before f after h

end

deriving instance DecidableEq for Firing

theorem firings_due_minutely :
  @FiredAt noTimes (readsOneTask minutely) (@App.start (readsOneTask minutely) (oneTask minutely))
    [.tick tenOClock] [] ⟨minutely, tenOClock, 0⟩
  := by
  apply @firings_due noTimes (readsOneTask minutely) (oneTask minutely) [.tick tenOClock] []
    ⟨minutely, tenOClock, 0⟩ []
  decide +kernel

end Automation
