import Catio.Automation.Cron

/-!
# The arithmetic of due times

The check of a task bounds an interval from below only, while `shouldFire` reads it as a signed
number and adds it to an instant.  It returns, and what it says of an interval is right, exactly
if the next due time is an instant (`shouldFire_sound_iff`).
-/

namespace Automation

/-- An instant that `chrono` has. -/
def IsUtc (t : Instant) : Prop :=
  MIN_UTC ≤ t ∧ t ≤ MAX_UTC

instance (t : Instant) : Decidable (IsUtc t) :=
  inferInstanceAs (Decidable (MIN_UTC ≤ t ∧ t ≤ MAX_UTC))

theorem addSeconds_of_isUtc {t : Instant} {seconds : ℤ} (h : IsUtc (t + seconds * 10 ^ 9)) :
  addSeconds t seconds = some (t + seconds * 10 ^ 9)
  := if_pos h

theorem isUtc_of_addSeconds {t : Instant} {seconds : ℤ} (h : (addSeconds t seconds).isSome) :
  IsUtc (t + seconds * 10 ^ 9)
  := by
  unfold addSeconds at h
  dsimp only at h
  split at h
  · assumption
  · cases h

theorem seconds_lt {first t seconds last : ℤ} (hfirst : first = -8334601315200 * 10 ^ 9)
    (hlast : last = 8210266876799 * 10 ^ 9 + 999999999) (hmin : first ≤ t)
    (hmax : t + seconds * 10 ^ 9 ≤ last) :
  seconds < 2 ^ 63
  := by omega

theorem minuteAgo_mem {first t last : ℤ} (hmax : t ≤ last) :
  first ≤ t + -59 * 10 ^ 9 ∧ t + -59 * 10 ^ 9 ≤ last ↔ first + 59 * 10 ^ 9 ≤ t
  := by omega

theorem le_add_seconds {first t : ℤ} (hmin : first ≤ t) (seconds : ℕ) :
  first ≤ t + seconds * 10 ^ 9
  := by omega

theorem toInt64_of_lt {seconds : UInt64} (h : seconds.toNat < 2 ^ 63) :
  seconds.toInt64.toInt = seconds.toNat
  := by
  apply BitVec.toInt_eq_toNat_of_lt
  change 2 * seconds.toNat < 2 ^ 64
  omega

section

variable [Rfc3339] {task : ScheduledTask} {lastFired : Option Instant} {now : Instant}

/-- The due test is right at an instant: it returns, and a task with an interval is due if it is
enabled and so many seconds have passed. -/
structure DueTest (task : ScheduledTask) (lastFired : Option Instant) (now : Instant) : Prop where
  returns : (shouldFire task lastFired now).isSome
  unwrapped : ∀ seconds last, task.enabled → task.trigger = .interval seconds →
    lastFired = some last → seconds.toInt64.toInt = seconds.toNat
  due : ∀ seconds last, task.trigger = .interval seconds → lastFired = some last →
    (shouldFire task lastFired now = some true
      ↔ task.enabled ∧ last + seconds.toNat * 10 ^ 9 ≤ now)

/-- The instants that the due test of a task computes are not too late, and not too early. -/
def InTime (task : ScheduledTask) (lastFired : Option Instant) (now : Instant) : Prop :=
  ∀ last, task.enabled → lastFired = some last →
    match task.trigger with
    | .interval seconds => last + seconds.toNat * 10 ^ 9 ≤ MAX_UTC
    | .cron expr => cronMatches expr now → MIN_UTC + 59 * 10 ^ 9 ≤ now
    | .once _ => True

theorem shouldFire_disabled (h : ¬ task.enabled) :
  shouldFire task lastFired now = some false
  := by
  unfold shouldFire
  rw [if_pos (by simpa using h)]

theorem shouldFire_interval {seconds : UInt64} {last : Instant} (henabled : task.enabled)
    (htrigger : task.trigger = .interval seconds) :
  shouldFire task (some last) now
    = (addSeconds last seconds.toInt64.toInt).map fun due => decide (due ≤ now)
  := by
  unfold shouldFire
  rw [if_neg (by simpa using henabled), htrigger]

theorem shouldFire_of_cron {expr : Text} (henabled : task.enabled)
    (htrigger : task.trigger = .cron expr) :
  shouldFire task lastFired now
    = if !cronMatches expr now then some false
      else
        match lastFired with
        | none => some true
        | some last => (addSeconds now (-59)).map fun ago => decide (last < ago)
  := by
  unfold shouldFire
  rewrite [if_neg (by simpa using henabled), htrigger]
  rfl

theorem DueTest.interval {seconds : UInt64} {last : Instant} (henabled : task.enabled)
    (htrigger : task.trigger = .interval seconds) (hlast : IsUtc last)
    (hmax : last + seconds.toNat * 10 ^ 9 ≤ MAX_UTC) :
  DueTest task (some last) now
  := by
  have hmin : MIN_UTC ≤ last := hlast.1
  have hlt : seconds.toNat < 2 ^ 63 := by
    have hfew := seconds_lt rfl rfl hmin hmax
    omega
  have hint := toInt64_of_lt hlt
  have hadd : addSeconds last seconds.toInt64.toInt = some (last + seconds.toNat * 10 ^ 9) := by
    rw [hint]
    apply addSeconds_of_isUtc
    apply And.intro (le_add_seconds hmin seconds.toNat) hmax
  have hfire := @shouldFire_interval _ _ now _ last henabled htrigger
  rw [hadd, Option.map_some] at hfire
  constructor
  · rw [hfire]
    rfl
  · rintro seconds' last' - htrigger' -
    rw [htrigger] at htrigger'
    cases htrigger'
    apply hint
  · rintro seconds' last' htrigger' hsome
    rw [htrigger] at htrigger'
    cases htrigger'
    cases hsome
    rw [hfire]
    simp [henabled]

theorem DueTest.of_returns (hreturns : (shouldFire task lastFired now).isSome)
    (hother : ∀ seconds last, task.trigger = .interval seconds → lastFired ≠ some last) :
  DueTest task lastFired now
  := by
  constructor
  · apply hreturns
  · intro seconds last _ htrigger hlast
    apply (hother seconds last htrigger hlast).elim
  · intro seconds last htrigger hlast
    apply (hother seconds last htrigger hlast).elim

theorem DueTest.disabled (h : ¬ task.enabled) :
  DueTest task lastFired now
  := by
  have hfire := @shouldFire_disabled _ _ lastFired now h
  constructor
  · rw [hfire]
    rfl
  · intro seconds last henabled
    apply (h henabled).elim
  · intro seconds last _ _
    rw [hfire]
    simp [h]

theorem InTime.dueTest (hlast : ∀ last, lastFired = some last → IsUtc last) (hnow : IsUtc now)
    (h : InTime task lastFired now) :
  DueTest task lastFired now
  := by
  by_cases henabled : task.enabled
  · cases htrigger : task.trigger with
    | interval seconds =>
      cases lastFired with
      | none =>
        apply DueTest.of_returns
        · apply shouldFire_isSome
          rw [htrigger]
          trivial
        · intro _ _ _ hsome
          cases hsome
      | some last =>
        have hmax := h last henabled rfl
        rw [htrigger] at hmax
        apply DueTest.interval henabled htrigger (hlast last rfl) hmax
    | cron expr =>
      apply DueTest.of_returns
      · rw [shouldFire_of_cron henabled htrigger]
        split
        · rfl
        · rename_i hmatches
          cases lastFired with
          | none => rfl
          | some last =>
            have hmin := h last henabled rfl
            rw [htrigger] at hmin
            have hle := hmin (by simpa using hmatches)
            dsimp only
            rw [Option.isSome_map, addSeconds_of_isUtc ((minuteAgo_mem hnow.2).mpr hle)]
            rfl
      · intro seconds last hinterval _
        rw [htrigger] at hinterval
        cases hinterval
    | once at_ =>
      apply DueTest.of_returns
      · apply shouldFire_isSome
        rw [htrigger]
        cases lastFired <;> trivial
      · intro seconds last hinterval _
        rw [htrigger] at hinterval
        cases hinterval
  · apply DueTest.disabled henabled

theorem DueTest.inTime (hnow : IsUtc now) (h : DueTest task lastFired now) :
  InTime task lastFired now
  := by
  rintro last henabled rfl
  have hreturns := h.returns
  cases htrigger : task.trigger with
  | interval seconds =>
    rw [shouldFire_interval henabled htrigger, Option.isSome_map] at hreturns
    have hutc := isUtc_of_addSeconds hreturns
    rw [h.unwrapped seconds last henabled htrigger rfl] at hutc
    apply hutc.2
  | cron expr =>
    intro hmatches
    rw [shouldFire_of_cron henabled htrigger, if_neg (by simpa using hmatches),
      Option.isSome_map] at hreturns
    apply (minuteAgo_mem hnow.2).mp (isUtc_of_addSeconds hreturns)
  | once at_ => trivial

/-- The due test is right exactly if the due time of its interval is not after the last instant, and
the minute before a cron task fires again not before the first. -/
theorem shouldFire_sound_iff (task : ScheduledTask) (lastFired : Option Instant) (now : Instant)
    (hlast : ∀ last, lastFired = some last → IsUtc last) (hnow : IsUtc now) :
  DueTest task lastFired now ↔ InTime task lastFired now
  := by
  constructor
  · apply DueTest.inTime hnow
  · apply InTime.dueTest hlast hnow

end

/-- A task with an interval of so many seconds. -/
def everySeconds (seconds : UInt64) : ScheduledTask where
  id := "every"
  name := "every"
  trigger := .interval seconds
  kind := .shell
  script := some "true"
  prompt := none
  targetRef := none
  skillIds := []
  mcpIds := []
  policy := .reject
  whitelist := []
  enabled := true
  autoConfirmed := false
  ownerId := "local"

/-- An interval of a minute is in time. -/
theorem shouldFire_sound_minute :
  ∃ _ : Rfc3339, DueTest (everySeconds 60) (some tenOClock) tenOClock
  := by
  use ⟨fun _ => none⟩
  let _ : Rfc3339 := ⟨fun _ => none⟩
  apply (shouldFire_sound_iff (everySeconds 60) (some tenOClock) tenOClock
    (fun last hlast => by cases hlast; decide) (by decide)).mpr
  rintro last - hlast
  cases hlast
  change tenOClock + (60 : UInt64).toNat * 10 ^ 9 ≤ MAX_UTC
  decide

/-- The check of a task admits an interval for which the due test panics. -/
theorem interval_panics :
  (everySeconds 9223372036854775808).validate = .ok () ∧ IsUtc tenOClock
    ∧ ∃ _ : Rfc3339, ¬ DueTest (everySeconds 9223372036854775808) (some tenOClock) tenOClock
  := by
  refine ⟨rfl, by decide, ⟨fun _ => none⟩, ?_⟩
  let _ : Rfc3339 := ⟨fun _ => none⟩
  intro h
  have hmax := h.inTime (by decide) tenOClock rfl rfl
  revert hmax
  change ¬ tenOClock + (9223372036854775808 : UInt64).toNat * 10 ^ 9 ≤ MAX_UTC
  decide

end Automation
