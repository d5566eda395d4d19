import Catio.Automation.Scheduler

/-!
# Firings of one task that overlap

No firing of a task is to be under way while the work of another one goes on (`App.Overlaps`).
None is, as long as no tick finds a task due whose work goes on after its dispatch has returned
(`never_overlaps`).  The work of a script ends before its dispatch returns (`Apart.script`); turns
of the agent and commands in the terminal go on.
-/

namespace Automation

open Text

/-- The work of a firing goes on. -/
def Stage.working (stage : Stage) : Bool :=
  match stage.work with
  | .going _ => true
  | _ => false

/-- A firing has been spawned, and its dispatch or its work has not ended. -/
def Stage.underWay (stage : Stage) : Bool :=
  stage.dispatching || stage.working

namespace App

/-- The ids that were fired, in order. -/
def ids (app : App) : List Text :=
  app.firings.map fun f => f.task.id

/-- The work of one firing goes on while another firing of the same id is under way. -/
def Overlaps (app : App) : Prop :=
  ∃ i j id, app.ids[i]? = some id ∧ app.ids[j]? = some id ∧ i ≠ j
    ∧ (app.stage i).working ∧ (app.stage j).underWay

/-- No firings overlap in any state of a run. -/
def NeverOverlaps [Rfc3339] [Serde] (app : App) (events : List AppEvent) : Prop :=
  ∀ pre post, events = pre ++ post → ¬ (app.run pre).Overlaps

end App

section

variable [Rfc3339]

/-- A tick finds no task due that is not marked as running and has a firing whose work goes on. -/
def Settled : AppEvent → App → Prop
  | .tick now, app => ∀ task ∈ app.store.inner.allEnabledTasks,
      app.inner.running task.id = false →
      shouldFire task (app.inner.lastFired task.id) now = some true →
      ∀ k < app.ids.length, app.ids[k]? = some task.id → ¬ (app.stage k).working
  | _, _ => True

instance (e : AppEvent) (app : App) : Decidable (Settled e app) :=
  match e with
  | .tick now => inferInstanceAs (Decidable (∀ task ∈ app.store.inner.allEnabledTasks,
      app.inner.running task.id = false →
      shouldFire task (app.inner.lastFired task.id) now = some true →
      ∀ k < app.ids.length, app.ids[k]? = some task.id → ¬ (app.stage k).working))
  | .restart => .isTrue trivial
  | .begins _ _ => .isTrue trivial
  | .ends _ => .isTrue trivial
  | .returns _ => .isTrue trivial
  | .perform _ _ => .isTrue trivial

end

/-! ### What is kept along a run -/

/-- What is dispatched is marked, a dispatch that returned is settled, and at most one firing of
each id is under way. -/
structure Apart (app : App) : Prop where
  spawned : ∀ k, app.ids.length ≤ k → app.stage k = .spawned
  marked : ∀ (k : ℕ) id, app.ids[k]? = some id → (app.stage k).dispatching →
    app.inner.running id = true
  settled : ∀ k, (app.stage k).dispatching = false → (app.stage k).work.settled
  single : ∀ (i j : ℕ) id, app.ids[i]? = some id → app.ids[j]? = some id →
    (app.stage i).underWay → (app.stage j).underWay → i = j

namespace Apart

variable {app app' : App} {now : Instant} {t : Tick} {k : ℕ} {s : Stage}

theorem ids_lt {id : Text} (h : app.ids[k]? = some id) :
  k < app.ids.length
  := (List.getElem?_eq_some_iff.mp h).1

theorem not_overlaps (h : Apart app) :
  ¬ app.Overlaps
  := by
  rintro ⟨i, j, id, hi, hj, hne, hworking, hunderWay⟩
  apply hne
  apply h.single i j id hi hj _ hunderWay
  unfold Stage.underWay
  rw [hworking, Bool.or_true]

theorem script (h : Apart app) {target command : Text}
    (hwork : (app.stage k).work = .going (.script target command)) :
  (app.stage k).dispatching
  := by
  by_contra hnot
  have hsettled := h.settled k (Bool.eq_false_iff.mpr hnot)
  rw [hwork] at hsettled
  cases hsettled

theorem further (h : Apart app) (hids : app'.ids = app.ids) (hk : k < app.ids.length)
    (hstage : app'.stage = Function.update app.stage k s)
    (hunderWay : s.underWay → (app.stage k).underWay)
    (hsettled : s.dispatching = false → s.work.settled)
    (hmarked : ∀ (j : ℕ) id, app.ids[j]? = some id → (app'.stage j).dispatching →
      app'.inner.running id = true) :
  Apart app'
  := by
  have hold : ∀ j, (app'.stage j).underWay → (app.stage j).underWay := by
    intro j hj
    rw [hstage] at hj
    by_cases hjk : j = k
    · rw [hjk, Function.update_self] at hj
      rw [hjk]
      exact hunderWay hj
    · rwa [Function.update_of_ne hjk] at hj
  constructor
  · intro j hj
    rw [hids] at hj
    rw [hstage, Function.update_of_ne (Nat.ne_of_gt (Nat.lt_of_lt_of_le hk hj))]
    exact h.spawned j hj
  · intro j id hj
    rw [hids] at hj
    exact hmarked j id hj
  · intro j hj
    rw [hstage] at hj ⊢
    by_cases hjk : j = k
    · rw [hjk, Function.update_self] at hj ⊢
      exact hsettled hj
    · rw [Function.update_of_ne hjk] at hj ⊢
      exact h.settled j hj
  · intro i j id hi hj hiway hjway
    rw [hids] at hi hj
    exact h.single i j id hi hj (hold i hiway) (hold j hjway)

theorem marked_of_update (h : Apart app)
    (hdispatching : s.dispatching → (app.stage k).dispatching) :
  ∀ (j : ℕ) id, app.ids[j]? = some id → (Function.update app.stage k s j).dispatching →
    app.inner.running id = true
  := by
  intro j id hj hdispatched
  apply h.marked j id hj
  by_cases hjk : j = k
  · rw [hjk, Function.update_self] at hdispatched
    rw [hjk]
    exact hdispatching hdispatched
  · rwa [Function.update_of_ne hjk] at hdispatched

theorem start [Serde] (disk : Disk) :
  Apart (.start disk)
  where
  spawned _ _ := rfl
  marked k id hk := by cases hk
  settled _ hnot := by cases hnot
  single i j id hi := by cases hi

theorem begins (h : Apart app) (k : ℕ) (world : World) :
  Apart (app.begins k world)
  := by
  unfold App.begins
  split
  · rename_i firing hfiring hspawned
    have hk : k < app.ids.length := by
      obtain ⟨hlt, -⟩ := List.getElem?_eq_some_iff.mp hfiring
      rwa [App.ids, List.length_map]
    have hway : (app.stage k).underWay := by
      rw [hspawned]
      rfl
    refine h.further rfl hk rfl ?_ ?_ ?_
    · exact fun _ => hway
    · exact nofun
    · refine h.marked_of_update ?_
      rw [hspawned]
      exact fun _ => rfl
  · exact h

theorem ends (h : Apart app) (k : ℕ) :
  Apart (app.ends k)
  := by
  unfold App.ends
  split
  · rename_i dispatching work hgoing
    have hk : k < app.ids.length := by
      by_contra hnot
      rw [h.spawned k (Nat.not_lt.mp hnot)] at hgoing
      cases hgoing
    have hway : (app.stage k).underWay := by
      rw [hgoing]
      exact Bool.or_true dispatching
    refine h.further rfl hk rfl ?_ ?_ ?_
    · exact fun _ => hway
    · exact fun _ => rfl
    · refine h.marked_of_update ?_
      rw [hgoing]
      exact id
  · exact h

theorem returns (h : Apart app) (k : ℕ) :
  Apart (app.returns k)
  := by
  unfold App.returns
  split
  · rename_i firing work hfiring hstage
    split
    · rename_i hsettled
      have hid : app.ids[k]? = some firing.task.id := by
        rw [App.ids, List.getElem?_map, hfiring]
        rfl
      have hway : (app.stage k).underWay := by
        rw [hstage]
        rfl
      refine h.further rfl (ids_lt hid) rfl ?_ ?_ ?_
      · exact fun _ => hway
      · exact fun _ => hsettled
      · intro j id hj hdispatched
        dsimp only at hdispatched
        have hjk : j ≠ k := by
          rintro rfl
          rw [Function.update_self] at hdispatched
          cases hdispatched
        rw [Function.update_of_ne hjk] at hdispatched
        have hne : id ≠ firing.task.id := by
          rintro rfl
          apply hjk
          apply h.single j k _ hj hid _ hway
          unfold Stage.underWay
          rw [hdispatched, Bool.true_or]
        unfold SchedulerInner.return_
        dsimp only
        rw [Function.update_of_ne hne]
        exact h.marked j id hj hdispatched
    · exact h
  · exact h

theorem restart [Serde] (app : App) :
  Apart app.restart
  := by
  have hgone : ∀ k < app.ids.length, app.restart.stage k = .gone := by
    intro k hk
    rw [App.ids, List.length_map] at hk
    exact if_pos hk
  have hspawned : ∀ k, app.ids.length ≤ k → app.restart.stage k = .spawned := by
    intro k hk
    rw [App.ids, List.length_map] at hk
    exact if_neg (Nat.not_lt.mpr hk)
  constructor
  · exact hspawned
  · intro k id hk hdispatching
    rw [hgone k (ids_lt hk)] at hdispatching
    cases hdispatching
  · intro k hnot
    by_cases hk : k < app.ids.length
    · rw [hgone k hk]
      rfl
    · rw [hspawned k (Nat.not_lt.mp hk)] at hnot
      cases hnot
  · intro i j id hi _ hway
    rw [hgone i (ids_lt hi)] at hway
    cases hway

theorem tick [Rfc3339] (h : Apart app) (ht : Ticks now app.store.inner.allEnabledTasks app.inner t)
    (hsettled : Settled (.tick now) app) :
  Apart (app.ticked now t)
  := by
  have hids : (app.ticked now t).ids = app.ids ++ t.fired.map ScheduledTask.id := by
    unfold App.ids App.ticked
    rw [List.map_append, List.map_map]
    rfl
  -- A firing that is under way already keeps its id from being fired.
  have hold : ∀ (i j : ℕ) id, app.ids[i]? = some id → (app.stage i).underWay →
      (t.fired.map ScheduledTask.id)[j]? ≠ some id := by
    intro i j id hi hway hj
    obtain ⟨task, hfired, rfl⟩ := List.mem_map.mp (List.mem_of_getElem? hj)
    obtain ⟨htask, hidle, hdue⟩ := ht.due task hfired
    obtain hdispatching | hworking := Bool.or_eq_true_iff.mp hway
    · rw [h.marked i _ hi hdispatching] at hidle
      cases hidle
    · exact hsettled task htask hidle hdue i (ids_lt hi) hi hworking
  constructor
  · intro k hk
    rw [hids, List.length_append] at hk
    exact h.spawned k (Nat.le_of_add_right_le hk)
  · intro k id hk hdispatching
    rw [hids] at hk
    apply (ht.running id).mpr
    obtain hlt | hge := Nat.lt_or_ge k app.ids.length
    · rw [List.getElem?_append_left hlt] at hk
      exact .inl (h.marked k id hk hdispatching)
    · rw [List.getElem?_append_right hge] at hk
      exact .inr (List.mem_of_getElem? hk)
  · exact h.settled
  · intro i j id hi hj hiway hjway
    rw [hids] at hi hj
    obtain hilt | hige := Nat.lt_or_ge i app.ids.length
    · rw [List.getElem?_append_left hilt] at hi
      obtain hjlt | hjge := Nat.lt_or_ge j app.ids.length
      · rw [List.getElem?_append_left hjlt] at hj
        exact h.single i j id hi hj hiway hjway
      · rw [List.getElem?_append_right hjge] at hj
        exact absurd hj (hold i _ id hi hiway)
    · rw [List.getElem?_append_right hige] at hi
      obtain hjlt | hjge := Nat.lt_or_ge j app.ids.length
      · rw [List.getElem?_append_left hjlt] at hj
        exact absurd hi (hold j _ id hj hjway)
      · rw [List.getElem?_append_right hjge] at hj
        have hlt := (List.getElem?_eq_some_iff.mp hi).1
        have heq := (List.getElem?_inj hlt ht.nodup).mp (hi.trans hj.symm)
        omega

theorem after [Rfc3339] [Serde] (h : Apart app) {e : AppEvent} (hsettled : Settled e app) :
  Apart (app.after e)
  := by
  cases e with
  | tick now =>
    change Apart (app.tick now)
    unfold App.tick
    split
    · exact h.tick (tickOnce_ticks now _ _) hsettled
    · exact h
  | begins k world => exact h.begins k world
  | ends k => exact h.ends k
  | returns k => exact h.returns k
  | perform op writes => exact ⟨h.spawned, h.marked, h.settled, h.single⟩
  | restart => exact restart app

end Apart

/-! ### Runs -/

/-- In a run in which no tick finds a task due whose work goes on after its dispatch has returned,
no firings overlap. -/
theorem never_overlaps [Rfc3339] [Serde] (disk : Disk) (events : List AppEvent)
    (hsettled : Steps.Throughout App.after Settled events (.start disk)) :
  (App.start disk).NeverOverlaps events
  := by
  rintro pre post rfl
  have hpre : Steps.Throughout App.after Settled pre (.start disk) := hsettled.of_append
  have hapart : Apart ((App.start disk).run pre) :=
    Steps.invariant (.start disk) (fun _ _ h hfinds => h.after hfinds) hpre
  exact hapart.not_overlaps

/-! ### A task whose turn goes on -/

/-- A prompt for each minute. -/
def watcher : ScheduledTask :=
  { minutely with id := "watcher", kind := .prompt, script := none, prompt := some "check disks" }

def withProvider : World :=
  { nowhere with provider := some ⟨.openai, "https://api.openai.com/v1", "gpt-4o", ⟨"sk-1"⟩⟩ }

def watcherApp : App :=
  @App.start (readsOneTask watcher) (oneTask watcher)

/-- The turn of the first firing, and a tick a minute later. -/
def slowTurn (between : List AppEvent) : List AppEvent :=
  [.tick tenOClock, .begins 0 withProvider, .returns 0] ++ between
    ++ [.tick (tenOClock + 60 * 10 ^ 9), .begins 1 withProvider]

/-- The turn ends before the next minute. -/
theorem never_overlaps_watcher :
  @App.NeverOverlaps noTimes (readsOneTask watcher) watcherApp (slowTurn [.ends 0])
  := by
  apply @never_overlaps noTimes (readsOneTask watcher)
  decide +kernel

/-- The turn goes on in the next minute, in which the task is fired again. -/
theorem watcher_overlaps :
  ¬ @App.NeverOverlaps noTimes (readsOneTask watcher) watcherApp (slowTurn [])
  := by
  intro h
  apply @h _ [] (List.append_nil _).symm
  refine ⟨0, 1, "watcher", ?_, ?_, Nat.zero_ne_one, ?_, ?_⟩
  · decide +kernel
  · decide +kernel
  · decide +kernel
  · decide +kernel

end Automation
