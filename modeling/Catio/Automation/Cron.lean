import Catio.Automation.Types

/-!
# When a task is due

The pure part of `automation/scheduler.rs`: which instants a cron expression matches, and
whether a task fires at an instant (`shouldFire`).  Instants are those of `chrono`, in
nanoseconds since the epoch; an addition that leaves their range panics.
-/

namespace Automation

open Text

/-- An instant, in nanoseconds since the epoch. -/
abbrev Instant :=
  ℤ

/-- What `chrono` reads as a time in the format of RFC 3339: the first instant that is not
before it. -/
class Rfc3339 where
  parse : Text → Option Instant

/-! ### Arithmetic of instants -/

/-- The first instant, at the start of the year -262143. -/
def MIN_UTC : Instant :=
  -8334601315200 * 10 ^ 9

/-- The last instant, at the end of the year 262142. -/
def MAX_UTC : Instant :=
  8210266876799 * 10 ^ 9 + 999999999

/-- The instant so many seconds later, unless there is none. -/
def addSeconds (t : Instant) (seconds : ℤ) : Option Instant :=
  let later := t + seconds * 10 ^ 9
  if MIN_UTC ≤ later ∧ later ≤ MAX_UTC then some later else none

theorem addSeconds_eq_some {t u : Instant} {seconds : ℤ} (h : addSeconds t seconds = some u) :
  u = t + seconds * 10 ^ 9
  := by
  unfold addSeconds at h
  dsimp only at h
  split at h
  · cases h
    rfl
  · cases h

/-- The calendar minute of an instant, counted from the epoch. -/
def minuteIndex (t : Instant) : ℤ :=
  t / (60 * 10 ^ 9)

theorem minuteIndex_mono {s t : Instant} (h : s ≤ t) :
  minuteIndex s ≤ minuteIndex t
  := by
  apply Int.ediv_le_ediv
  · decide
  · exact h

def monthAndDay (days : ℤ) : ℕ × ℕ :=
  let doe := ((days + 719468) % 146097).toNat
  let yoe := (doe - doe / 1460 + doe / 36524 - doe / 146096) / 365
  let doy := doe - (365 * yoe + yoe / 4 - yoe / 100)
  let mp := (5 * doy + 2) / 153
  (if mp < 10 then mp + 3 else mp - 9, doy - (153 * mp + 2) / 5 + 1)

/-- The fields of a calendar minute that a cron expression is about. -/
structure CronTime where
  minute : ℕ
  hour : ℕ
  day : ℕ
  month : ℕ
  weekday : ℕ
  deriving DecidableEq

/-- The fields of an instant; the epoch is a Thursday. -/
def cronTime (t : Instant) : CronTime :=
  let minutes := minuteIndex t
  let days := minutes / 1440
  { minute := (minutes % 60).toNat
    hour := (minutes / 60 % 24).toNat
    day := (monthAndDay days).2
    month := (monthAndDay days).1
    weekday := ((days + 4) % 7).toNat }

/-! ### Cron expressions -/

/-- A number of 32 bits, in decimal. -/
def parseU32 (t : Text) : Option ℕ :=
  let digits := (stripPrefix "+" t).getD t
  let value := digits.foldl (fun n c => 10 * n + (c.toNat - '0'.toNat)) 0
  if digits ≠ [] ∧ digits.all Char.isDigit ∧ value < 2 ^ 32 then some value else none

/-- One part of a segment accepts a value. -/
def partMatches (part : Text) (min max value : ℕ) : Bool :=
  if part = [] then false
  else if part = "*" then true
  else
    match stripPrefix "*/" part with
    | some rest =>
        let n := (parseU32 rest).getD 1
        0 < n ∧ value % n = 0
    | none =>
        match splitOnce '-' part with
        | some (a, b) =>
            (parseU32 (trim a)).getD min ≤ value ∧ value ≤ (parseU32 (trim b)).getD max
        | none => parseU32 part = some value

/-- A segment accepts a value. -/
def fieldMatches (field : Text) (min max value : ℕ) : Bool :=
  (field.splitOn ',').any fun part => partMatches (trim part) min max value

/-- A cron expression matches the calendar minute of an instant. -/
def cronMatches (expr : Text) (dt : Instant) : Bool :=
  match splitWhitespace expr with
  | [minute, hour, day, month, weekday] =>
      let t := cronTime dt
      fieldMatches minute 0 59 t.minute && fieldMatches hour 0 23 t.hour
        && fieldMatches day 1 31 t.day && fieldMatches month 1 12 t.month
        && fieldMatches weekday 0 6 t.weekday
  | _ => false

/-- Sunday, the 23rd of August 2026, at ten. -/
def tenOClock : Instant :=
  1787479200 * 10 ^ 9

example : cronTime tenOClock = ⟨0, 10, 23, 8, 0⟩ := by decide

example : cronMatches "*/15 9-17 * * 0,6" tenOClock := by decide

/-! ### Tasks that are due -/

section

variable [Rfc3339]

/-- The task fires, given when it fired last; there is nothing where the arithmetic panics. -/
def shouldFire (task : ScheduledTask) (lastFired : Option Instant) (now : Instant) :
    Option Bool :=
  if !task.enabled then some false
  else
    match task.trigger with
    | .interval seconds =>
        match lastFired with
        | none => some true
        | some last => (addSeconds last seconds.toInt64.toInt).map fun due => due ≤ now
    | .cron expr =>
        if !cronMatches expr now then some false
        else
          match lastFired with
          | none => some true
          | some last => (addSeconds now (-59)).map fun ago => last < ago
    | .once at_ =>
        match Rfc3339.parse at_ with
        | none => some false
        | some at_ =>
            match lastFired with
            | none => some (at_ ≤ now)
            | some _ => some false

def TaskTrigger.InRange (trigger : TaskTrigger) (lastFired : Option Instant) (now : Instant) :
    Prop :=
  match trigger, lastFired with
  | .interval seconds, some last => (addSeconds last seconds.toInt64.toInt).isSome
  | .cron _, some _ => (addSeconds now (-59)).isSome
  | _, _ => True

instance (trigger : TaskTrigger) (lastFired : Option Instant) (now : Instant) :
    Decidable (trigger.InRange lastFired now) :=
  match trigger, lastFired with
  | .interval seconds, some last =>
      inferInstanceAs (Decidable ((addSeconds last seconds.toInt64.toInt).isSome = true))
  | .cron _, some _ => inferInstanceAs (Decidable ((addSeconds now (-59)).isSome = true))
  | .interval _, none => .isTrue trivial
  | .cron _, none => .isTrue trivial
  | .once _, _ => .isTrue trivial

variable {task : ScheduledTask} {lastFired : Option Instant} {now : Instant}

theorem shouldFire_isSome (h : task.trigger.InRange lastFired now) :
  (shouldFire task lastFired now).isSome
  := by
  unfold shouldFire
  unfold TaskTrigger.InRange at h
  split
  · rfl
  · cases htrigger : task.trigger with
    | interval seconds =>
      rw [htrigger] at h
      cases lastFired with
      | none => rfl
      | some last => rwa [Option.isSome_map]
    | cron expr =>
      rw [htrigger] at h
      dsimp only
      split
      · rfl
      · cases lastFired with
        | none => rfl
        | some last => rwa [Option.isSome_map]
    | once at_ =>
      dsimp only
      cases Rfc3339.parse at_ with
      | none => rfl
      | some at_ => cases lastFired <;> rfl

theorem enabled_of_shouldFire (hfires : shouldFire task lastFired now = some true) :
  task.enabled
  := by
  unfold shouldFire at hfires
  split at hfires
  · cases hfires
  · rename_i henabled
    simpa using henabled

theorem shouldFire_cron {expr : Text} (htrigger : task.trigger = .cron expr)
    (hfires : shouldFire task lastFired now = some true) :
  cronMatches expr now ∧ ∀ last, lastFired = some last → last < now - 59 * 10 ^ 9
  := by
  unfold shouldFire at hfires
  rw [if_neg (by rw [enabled_of_shouldFire hfires]; decide), htrigger] at hfires
  dsimp only at hfires
  split at hfires
  · cases hfires
  · rename_i hmatches
    constructor
    · simpa using hmatches
    · rintro last rfl
      obtain ⟨ago, hago, hlast⟩ := Option.map_eq_some_iff.mp hfires
      have hlt := of_decide_eq_true hlast
      rwa [addSeconds_eq_some hago, Int.neg_mul, ← Int.sub_eq_add_neg] at hlt

theorem shouldFire_cron_false {expr : Text} (htrigger : task.trigger = .cron expr)
    (henabled : task.enabled) (hmatches : cronMatches expr now)
    (hnot : shouldFire task lastFired now = some false) :
  ∃ last, lastFired = some last ∧ now - 59 * 10 ^ 9 ≤ last
  := by
  unfold shouldFire at hnot
  rw [if_neg (by rw [henabled]; decide), htrigger] at hnot
  dsimp only at hnot
  rw [if_neg (by rw [hmatches]; decide)] at hnot
  cases lastFired with
  | none => cases hnot
  | some last =>
    obtain ⟨ago, hago, hlast⟩ := Option.map_eq_some_iff.mp hnot
    have hle := Int.not_lt.mp (of_decide_eq_false hlast)
    rw [addSeconds_eq_some hago, Int.neg_mul, ← Int.sub_eq_add_neg] at hle
    exact ⟨last, rfl, hle⟩

theorem shouldFire_once {at_ : Text} (htrigger : task.trigger = .once at_) :
  shouldFire task lastFired now = some true
    ↔ task.enabled ∧ lastFired = none ∧ ∃ due, Rfc3339.parse at_ = some due ∧ due ≤ now
  := by
  unfold shouldFire
  rw [htrigger]
  cases task.enabled with
  | false => simp
  | true =>
    dsimp only [Bool.not_true]
    cases Rfc3339.parse at_ with
    | none => simp
    | some due =>
      cases lastFired with
      | none => simp
      | some last => simp

end

end Automation
