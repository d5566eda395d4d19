import Catio.Automation.Cron
import Catio.Lib.Numerals

/-!
# What a cron expression denotes

Each part of a segment denotes a set of values, a malformed one none (`PartDenotes`).  `cronMatches`
counts the steps of a segment from zero, also where it starts at one, and reads a malformed step as
one and a malformed bound as the end of the range.  `cronMatches_denotes_iff` says where the two
agree.
-/

namespace Automation

open Text

/-! ### Parts -/

/-- A value belongs to the set that a part of a segment denotes, where the segment starts at
`min`. -/
inductive PartDenotes (min : ℕ) : Text → ℕ → Prop where
  | star (value : ℕ) : PartDenotes min "*" value
  | step {rest : Text} {n : ℕ} (hn : parseU32 rest = some n) (pos : 0 < n) (k : ℕ) :
      PartDenotes min ("*/" ++ rest) (min + k * n)
  | range {a b : Text} {first last value : ℕ} (ha : parseU32 a = some first)
      (hb : parseU32 b = some last) (le : first ≤ value) (ge : value ≤ last) :
      PartDenotes min (a ++ '-' :: b) value
  | number {part : Text} {value : ℕ} (h : parseU32 part = some value) :
      PartDenotes min part value

def StepDivides (part : Text) (value : ℕ) : Prop :=
  ∃ rest n, part = "*/" ++ rest ∧ parseU32 rest = some n ∧ 0 < n ∧ n ∣ value

def StepMalformed (part : Text) : Prop :=
  ∃ rest, part = "*/" ++ rest ∧ parseU32 rest = none

/-- A value is between the bounds of a part, where an end of the range stands for a bound that is
no number, and there is one. -/
def BoundMalformed (min max : ℕ) (part : Text) (value : ℕ) : Prop :=
  ∃ a b, '-' ∉ a ∧ part = a ++ '-' :: b ∧ (parseU32 a = none ∨ parseU32 b = none)
    ∧ (parseU32 a).getD min ≤ value ∧ value ≤ (parseU32 b).getD max

/-- A part accepts a value by mistake: it counts its steps from zero, or it is malformed. -/
def Mistaken (min max : ℕ) (part : Text) (value : ℕ) : Prop :=
  StepDivides part value ∨ StepMalformed part ∨ BoundMalformed min max part value

/-- A part does not accept a value that it denotes: it counts its steps from zero. -/
def Missed (part : Text) (value : ℕ) : Prop :=
  ∃ rest n, part = "*/" ++ rest ∧ parseU32 rest = some n ∧ ¬ n ∣ value

theorem isDigit_of_parseU32 {t : Text} {n : ℕ} (h : parseU32 t = some n) :
  ∀ c ∈ t, c = '+' ∨ c.isDigit
  := isDigit_of_parseUnsigned (show parseUnsigned (2 ^ 32) t = some n from h)

theorem not_mem_of_parseU32 {c : Char} (hc : c ≠ '+' ∧ c.isDigit = false) {t : Text} {n : ℕ}
    (h : parseU32 t = some n) :
  c ∉ t
  := by
  intro hmem
  rcases isDigit_of_parseU32 h c hmem with hplus | hdigit
  · exact hc.1 hplus
  · rw [hc.2] at hdigit
    cases hdigit

theorem parseU32_nil :
  parseU32 [] = none
  := by decide

/-! ### What a part accepts -/

theorem partMatches_step (rest : Text) (min max value : ℕ) :
  partMatches ("*/" ++ rest) min max value
    ↔ parseU32 rest = none ∨ ∃ n, parseU32 rest = some n ∧ 0 < n ∧ n ∣ value
  := by
  have hne : ("*/" ++ rest : Text) ≠ [] := by simp
  have hstar : ("*/" ++ rest : Text) ≠ "*" := by simp
  unfold partMatches
  rw [if_neg hne, if_neg hstar, stripPrefix_append]
  dsimp only
  cases parseU32 rest with
  | none => simp [Nat.mod_one]
  | some n => simp [Nat.dvd_iff_mod_eq_zero]

theorem partMatches_range {a : Text} (ha : '-' ∉ a) (b : Text)
    (hstep : ∀ rest, a ++ '-' :: b ≠ "*/" ++ rest) (hta : trim a = a) (htb : trim b = b)
    (min max value : ℕ) :
  partMatches (a ++ '-' :: b) min max value
    ↔ (parseU32 a).getD min ≤ value ∧ value ≤ (parseU32 b).getD max
  := by
  have hne : a ++ '-' :: b ≠ [] := by simp
  have hstar : a ++ '-' :: b ≠ "*" := by
    intro h
    have hmem : '-' ∈ ("*" : Text) := by
      rw [← h]
      simp
    revert hmem
    decide
  have hprefix : stripPrefix "*/" (a ++ '-' :: b) = none := by
    cases h : stripPrefix "*/" (a ++ '-' :: b) with
    | none => rfl
    | some rest => exact absurd (stripPrefix_eq_some h) (hstep rest)
  unfold partMatches
  rw [if_neg hne, if_neg hstar, hprefix, splitOnce_append ha]
  dsimp only
  rw [hta, htb]
  simp

variable {part : Text} {value : ℕ} {min : ℕ}

theorem partMatches_number (hstar : part ≠ "*") (hstep : ∀ rest, part ≠ "*/" ++ rest)
    (hrange : '-' ∉ part) (min max value : ℕ) :
  partMatches part min max value ↔ parseU32 part = some value
  := by
  have hprefix : stripPrefix "*/" part = none := by
    cases h : stripPrefix "*/" part with
    | none => rfl
    | some rest => exact absurd (stripPrefix_eq_some h) (hstep rest)
  have honce : splitOnce '-' part = none := if_neg hrange
  unfold partMatches
  by_cases hne : part = []
  · rw [if_pos hne, hne, parseU32_nil]
    simp
  · rw [if_neg hne, if_neg hstar, hprefix, honce]
    simp

/-! ### What a part denotes -/

theorem parseU32_star (rest : Text) :
  parseU32 ('*' :: rest) = none
  := by
  cases h : parseU32 ('*' :: rest) with
  | none => rfl
  | some n => exact absurd List.mem_cons_self (not_mem_of_parseU32 (by decide) h)

theorem partDenotes_step {rest : Text} :
  PartDenotes min ("*/" ++ rest) value
    ↔ ∃ n, parseU32 rest = some n ∧ 0 < n ∧ ∃ k, value = min + k * n
  := by
  constructor
  · intro h
    generalize hpart : ("*/" ++ rest : Text) = part at h
    cases h with
    | star => simp at hpart
    | @step rest' n hn pos k =>
      obtain rfl := List.append_cancel_left hpart
      exact ⟨n, hn, pos, k, rfl⟩
    | @range a b first last _ ha =>
      cases a with
      | nil => cases parseU32_nil.symm.trans ha
      | cons c a =>
        obtain rfl : '*' = c := by simpa using congrArg List.head? hpart
        cases (parseU32_star a).symm.trans ha
    | number h =>
      rw [← hpart] at h
      cases (parseU32_star ('/' :: rest)).symm.trans h
  · rintro ⟨n, hn, pos, k, rfl⟩
    exact .step hn pos k

theorem partDenotes_range {a b : Text} (ha : '-' ∉ a)
    (hstep : ∀ rest, a ++ '-' :: b ≠ "*/" ++ rest) :
  PartDenotes min (a ++ '-' :: b) value
    ↔ ∃ first last, parseU32 a = some first ∧ parseU32 b = some last
      ∧ first ≤ value ∧ value ≤ last
  := by
  constructor
  · intro h
    generalize hpart : a ++ '-' :: b = part at h
    cases h with
    | star =>
      have hmem : '-' ∈ ("*" : Text) := by
        rw [← hpart]
        simp
      exact absurd hmem (by decide)
    | step => exact absurd hpart (hstep _)
    | @range a' b' first last _ ha' hb' le ge =>
      have hnot := not_mem_of_parseU32 (c := '-') (by decide) ha'
      have hboth := congrArg (splitOnce '-') hpart
      rw [splitOnce_append ha, splitOnce_append hnot] at hboth
      cases hboth
      exact ⟨first, last, ha', hb', le, ge⟩
    | number h =>
      rw [← hpart] at h
      exact absurd (by simp) (not_mem_of_parseU32 (c := '-') (by decide) h)
  · rintro ⟨first, last, hfirst, hlast, le, ge⟩
    exact .range hfirst hlast le ge

theorem partDenotes_number (hstar : part ≠ "*") (hstep : ∀ rest, part ≠ "*/" ++ rest)
    (hrange : '-' ∉ part) :
  PartDenotes min part value ↔ parseU32 part = some value
  := by
  constructor
  · intro h
    cases h with
    | star => exact absurd rfl hstar
    | step => exact absurd rfl (hstep _)
    | range => simp at hrange
    | number h => exact h
  · intro h
    exact .number h

/-! ### A part at a value -/

theorem not_stepDivides (hstep : ∀ rest, part ≠ "*/" ++ rest) (value : ℕ) :
  ¬ StepDivides part value
  := by
  rintro ⟨rest, -, h, -⟩
  exact hstep rest h

/-- What a part accepts: what it denotes and does not miss, and what it accepts by mistake. -/
theorem partMatches_iff (hvisible : ∀ c ∈ part, isWhitespace c = false) (min max value : ℕ) :
  partMatches part min max value
    ↔ PartDenotes min part value ∧ ¬ Missed part value ∨ Mistaken min max part value
  := by
  by_cases hstar : part = "*"
  · subst hstar
    apply iff_of_true rfl
    refine .inl ⟨.star value, ?_⟩
    rintro ⟨rest, n, h, -⟩
    simp at h
  by_cases hstep : ∃ rest, part = "*/" ++ rest
  · obtain ⟨rest, rfl⟩ := hstep
    rw [partMatches_step, partDenotes_step]
    have hself {rest' : Text} (h : ("*/" ++ rest : Text) = "*/" ++ rest') : rest' = rest :=
      (List.append_cancel_left h).symm
    constructor
    · rintro (hnone | ⟨n, hn, pos, hdvd⟩)
      · exact .inr (.inr (.inl ⟨rest, rfl, hnone⟩))
      · exact .inr (.inl ⟨rest, n, rfl, hn, pos, hdvd⟩)
    · rintro (⟨⟨n, hn, pos, -⟩, hnot⟩ | hdivides | hmalformed | hbound)
      · refine .inr ⟨n, hn, pos, ?_⟩
        by_contra hdvd
        exact hnot ⟨rest, n, rfl, hn, hdvd⟩
      · obtain ⟨rest', n, h, hn, pos, hdvd⟩ := hdivides
        rw [hself h] at hn
        exact .inr ⟨n, hn, pos, hdvd⟩
      · obtain ⟨rest', h, hnone⟩ := hmalformed
        rw [hself h] at hnone
        exact .inl hnone
      · obtain ⟨a, b, ha, h, -⟩ := hbound
        have hmem : '-' ∈ rest := by
          have hall : '-' ∈ ("*/" ++ rest : Text) := by
            rw [h]
            simp
          rcases List.mem_append.mp hall with hfalse | hmem
          · exact absurd hfalse (by decide)
          · exact hmem
        cases hn : parseU32 rest with
        | none => exact .inl rfl
        | some n => exact absurd hmem (not_mem_of_parseU32 (by decide) hn)
  have hnostep : ∀ rest, part ≠ "*/" ++ rest := by
    intro rest h
    exact hstep ⟨rest, h⟩
  have hnotmissed : ¬ Missed part value := by
    rintro ⟨rest, -, h, -⟩
    exact hnostep rest h
  by_cases hrange : '-' ∈ part
  · obtain ⟨a, b, rfl, ha⟩ := List.eq_append_cons_of_mem hrange
    have hta : trim a = a := by
      apply trim_of_visible
      intro c hc
      apply hvisible c (List.mem_append_left _ hc)
    have htb : trim b = b := by
      apply trim_of_visible
      intro c hc
      apply hvisible c (List.mem_append_right a (List.mem_cons_of_mem '-' hc))
    rw [partMatches_range ha b hnostep hta htb, partDenotes_range ha hnostep]
    constructor
    · rintro ⟨le, ge⟩
      by_cases hmalformed : parseU32 a = none ∨ parseU32 b = none
      · exact .inr (.inr (.inr ⟨a, b, ha, rfl, hmalformed, le, ge⟩))
      · obtain ⟨hfirst, hlast⟩ := not_or.mp hmalformed
        obtain ⟨first, hfirst⟩ := Option.ne_none_iff_exists'.mp hfirst
        obtain ⟨last, hlast⟩ := Option.ne_none_iff_exists'.mp hlast
        rw [hfirst] at le
        rw [hlast] at ge
        exact .inl ⟨⟨first, last, hfirst, hlast, le, ge⟩, hnotmissed⟩
    · rintro (⟨⟨first, last, hfirst, hlast, le, ge⟩, -⟩ | hdivides | ⟨rest, h, -⟩ | hbound)
      · rw [hfirst, hlast]
        exact ⟨le, ge⟩
      · exact absurd hdivides (not_stepDivides hnostep value)
      · exact absurd h (hnostep rest)
      · obtain ⟨a', b', ha', h, -, le, ge⟩ := hbound
        have hboth := congrArg (splitOnce '-') h
        rw [splitOnce_append ha, splitOnce_append ha'] at hboth
        cases hboth
        exact ⟨le, ge⟩
  · rw [partMatches_number hstar hnostep hrange, partDenotes_number hstar hnostep hrange]
    constructor
    · intro h
      exact .inl ⟨h, hnotmissed⟩
    · rintro (⟨h, -⟩ | hdivides | ⟨rest, h, -⟩ | ⟨a, b, -, rfl, -⟩)
      · exact h
      · exact absurd hdivides (not_stepDivides hnostep value)
      · exact absurd h (hnostep rest)
      · simp at hrange

/-! ### Segments -/

/-- A segment of an expression, with the range of its values and the value of an instant. -/
structure Segment where
  field : Text
  min : ℕ
  max : ℕ
  value : ℕ
  deriving DecidableEq

namespace Segment

variable (s : Segment)

def parts : List Text :=
  (s.field.splitOn ',').map trim

/-- The value belongs to the union of what the parts denote. -/
def Denotes : Prop :=
  ∃ part ∈ s.parts, PartDenotes s.min part s.value

/-- The segment denotes the value, but its parts that denote it miss it, and no part accepts it
by mistake. -/
def IsMissed : Prop :=
  s.Denotes ∧ ∀ part ∈ s.parts, ¬ Mistaken s.min s.max part s.value
    ∧ (PartDenotes s.min part s.value → Missed part s.value)

/-- The segment does not denote the value, but some part accepts it by mistake. -/
def IsMistaken : Prop :=
  ¬ s.Denotes ∧ ∃ part ∈ s.parts, Mistaken s.min s.max part s.value

/-- The segment accepts the value, rightly or by mistake. -/
def Accepts : Prop :=
  (s.Denotes ∧ ¬ s.IsMissed) ∨ s.IsMistaken

variable {s}

theorem accepts_iff :
  s.Accepts
    ↔ ∃ part ∈ s.parts, PartDenotes s.min part s.value ∧ ¬ Missed part s.value
      ∨ Mistaken s.min s.max part s.value
  := by
  constructor
  · rintro (⟨hdenotes, hnot⟩ | ⟨-, part, hpart, hmistaken⟩)
    · by_contra hnone
      push Not at hnone
      apply hnot
      use hdenotes
      intro part hpart
      obtain ⟨hmissed, hmistaken⟩ := hnone part hpart
      exact ⟨hmistaken, hmissed⟩
    · exact ⟨part, hpart, .inr hmistaken⟩
  · rintro ⟨part, hpart, haccepts⟩
    by_cases hdenotes : s.Denotes
    · left
      use hdenotes
      rintro ⟨-, hall⟩
      obtain ⟨hmistaken, hmissed⟩ := hall part hpart
      rcases haccepts with ⟨hpartDenotes, hnot⟩ | h
      · exact hnot (hmissed hpartDenotes)
      · exact hmistaken h
    · right
      rcases haccepts with ⟨hpartDenotes, -⟩ | h
      · exact absurd ⟨part, hpart, hpartDenotes⟩ hdenotes
      · exact ⟨hdenotes, part, hpart, h⟩

theorem visible_of_mem_parts (hword : IsWord s.field) {part : Text} (hpart : part ∈ s.parts) :
  ∀ c ∈ part, isWhitespace c = false
  := by
  obtain ⟨piece, hpiece, rfl⟩ := List.mem_map.mp hpart
  have hvisible : ∀ c ∈ piece, isWhitespace c = false := by
    intro c hc
    apply hword.2 c (mem_of_mem_splitOnP hpiece hc).1
  rwa [trim_of_visible hvisible]

theorem fieldMatches_iff (hword : IsWord s.field) :
  fieldMatches s.field s.min s.max s.value ↔ s.Accepts
  := by
  rw [accepts_iff, fieldMatches, List.any_eq_true]
  constructor
  · rintro ⟨piece, hpiece, hmatches⟩
    have hpart : trim piece ∈ s.parts := List.mem_map_of_mem hpiece
    exact ⟨trim piece, hpart,
      (partMatches_iff (visible_of_mem_parts hword hpart) _ _ _).mp hmatches⟩
  · rintro ⟨part, hpart, haccepts⟩
    have hvisible := visible_of_mem_parts hword hpart
    obtain ⟨piece, hpiece, rfl⟩ := List.mem_map.mp hpart
    exact ⟨piece, hpiece, (partMatches_iff hvisible _ _ _).mpr haccepts⟩

end Segment

/-- The segments of an expression at an instant, if there are five. -/
def segments (expr : Text) (dt : Instant) : Option (List Segment) :=
  match splitWhitespace expr with
  | [minute, hour, day, month, weekday] =>
      let t := cronTime dt
      some [⟨minute, 0, 59, t.minute⟩, ⟨hour, 0, 23, t.hour⟩, ⟨day, 1, 31, t.day⟩,
        ⟨month, 1, 12, t.month⟩, ⟨weekday, 0, 6, t.weekday⟩]
  | _ => none

/-- An instant belongs to what an expression denotes: there are five segments, and the value of
each belongs to its set. -/
def CronDenotes (expr : Text) (dt : Instant) : Prop :=
  ∃ ss, segments expr dt = some ss ∧ ∀ s ∈ ss, s.Denotes

/-- An expression is read at an instant as it is meant: no match is missed, and none is made by
mistake. -/
def ReadRight (expr : Text) (dt : Instant) : Prop :=
  ∀ ss, segments expr dt = some ss →
    ((∀ s ∈ ss, s.Denotes) → ∀ s ∈ ss, ¬ s.IsMissed)
      ∧ ((∀ s ∈ ss, s.Accepts) → ∀ s ∈ ss, ¬ s.IsMistaken)

theorem isWord_of_mem_segments {expr : Text} {dt : Instant} {ss : List Segment}
    (h : segments expr dt = some ss) {s : Segment} (hs : s ∈ ss) :
  IsWord s.field
  := by
  have hword : ∀ w ∈ splitWhitespace expr, IsWord w := fun w => isWord_of_mem
  unfold segments at h
  split at h
  · rename_i hsplit
    cases h
    rw [hsplit] at hword
    simp only [List.mem_cons, List.not_mem_nil, or_false] at hs
    rcases hs with rfl | rfl | rfl | rfl | rfl
    all_goals
      apply hword
      simp
  · cases h

theorem cronMatches_iff (expr : Text) (dt : Instant) :
  cronMatches expr dt ↔ ∃ ss, segments expr dt = some ss ∧ ∀ s ∈ ss, s.Accepts
  := by
  have hall : cronMatches expr dt
      ↔ ∃ ss, segments expr dt = some ss
        ∧ ∀ s ∈ ss, fieldMatches s.field s.min s.max s.value := by
    unfold cronMatches segments
    split
    · rename_i hsplit
      simp [hsplit, and_assoc]
    · simp_all
  rw [hall]
  constructor
  · rintro ⟨ss, hss, hmatches⟩
    use ss, hss
    intro s hs
    apply (Segment.fieldMatches_iff (isWord_of_mem_segments hss hs)).mp (hmatches s hs)
  · rintro ⟨ss, hss, haccepts⟩
    use ss, hss
    intro s hs
    apply (Segment.fieldMatches_iff (isWord_of_mem_segments hss hs)).mpr (haccepts s hs)

/-- An expression matches an instant exactly if the instant belongs to what it denotes, for those
that are read as they are meant and no others. -/
theorem cronMatches_denotes_iff (expr : Text) (dt : Instant) :
  (cronMatches expr dt ↔ CronDenotes expr dt) ↔ ReadRight expr dt
  := by
  rw [cronMatches_iff]
  constructor
  · intro hiff ss hss
    have hsame {ss' : List Segment} (h : segments expr dt = some ss') : ss' = ss := by
      rw [hss] at h
      exact (Option.some.inj h).symm
    constructor
    · intro hdenotes s hs
      obtain ⟨ss', hss', haccepts⟩ := hiff.mpr ⟨ss, hss, hdenotes⟩
      rw [hsame hss'] at haccepts
      rcases haccepts s hs with ⟨-, hnot⟩ | ⟨hnot, -⟩
      · exact hnot
      · exact absurd (hdenotes s hs) hnot
    · intro haccepts s hs hmistaken
      obtain ⟨ss', hss', hdenotes⟩ := hiff.mp ⟨ss, hss, haccepts⟩
      rw [hsame hss'] at hdenotes
      exact hmistaken.1 (hdenotes s hs)
  · intro hright
    constructor
    · rintro ⟨ss, hss, haccepts⟩
      use ss, hss
      intro s hs
      rcases haccepts s hs with ⟨hdenotes, -⟩ | hmistaken
      · exact hdenotes
      · exact absurd hmistaken ((hright ss hss).2 haccepts s hs)
    · rintro ⟨ss, hss, hdenotes⟩
      use ss, hss
      intro s hs
      exact .inl ⟨hdenotes s hs, (hright ss hss).1 hdenotes s hs⟩

def everySecondDay : Text :=
  "0 10 */2 * *"

theorem everySecondDay_denotes :
  CronDenotes everySecondDay tenOClock
  := by
  use [⟨"0", 0, 59, 0⟩, ⟨"10", 0, 23, 10⟩, ⟨"*/2", 1, 31, 23⟩, ⟨"*", 1, 12, 8⟩, ⟨"*", 0, 6, 0⟩]
  constructor
  · decide
  · intro s hs
    simp only [List.mem_cons, List.not_mem_nil, or_false] at hs
    rcases hs with rfl | rfl | rfl | rfl | rfl
    · exact ⟨"0", by decide, .number (by decide)⟩
    · exact ⟨"10", by decide, .number (by decide)⟩
    · exact ⟨"*/2", by decide, @PartDenotes.step 1 "2" 2 (by decide) (by decide) 11⟩
    · exact ⟨"*", by decide, .star 8⟩
    · exact ⟨"*", by decide, .star 0⟩

/-- An expression may denote an instant that it does not match. -/
theorem everySecondDay_not_matched :
  ¬ ∀ expr dt, cronMatches expr dt ↔ CronDenotes expr dt
  := by
  intro h
  have hmatches := (h everySecondDay tenOClock).mpr everySecondDay_denotes
  revert hmatches
  decide

end Automation
