import Catio.Lib.Utf8

/-!
# The log file

The model of `append_capped` in `mcp/mod.rs`: a line is appended to the file of the log, and whole
lines are dropped from the front of the file until the new one fits.  The file is what it holds, and
the file system does what it is told.
-/

namespace Mcp

open Utf8

/-- How many bytes the file may hold. -/
def maxLogBytes : ℕ :=
  2 * 1024 * 1024

def lineFeed : UInt8 :=
  10

/-- The loop that drops lines: `rest` is what of the file is kept so far, and `added` is how long the
new line is. -/
def dropLines (added : ℕ) (rest : Bytes) : Bytes :=
  if maxLogBytes < rest.length + added then
    match h : rest.idxOf? lineFeed with
    | some nl => dropLines added (rest.drop (nl + 1))
    | none => []
  else rest
termination_by rest.length
decreasing_by
  obtain ⟨hlt, -⟩ := List.idxOf?_eq_some_iff.mp h
  simp only [List.length_drop]
  omega

/-- The file with a line behind what it holds. -/
def appendCapped (file : Option Bytes) (line : Bytes) : Option Bytes :=
  let existing := file.getD []
  if existing.length + line.length ≤ maxLogBytes then some (existing ++ line)
  else some (dropLines line.length existing ++ line)

/-! ### Whole lines -/

/-- A line of the log: it ends with its only line feed. -/
structure LogLine where
  body : Bytes
  not_mem : lineFeed ∉ body

def LogLine.bytes (line : LogLine) : Bytes :=
  line.body ++ [lineFeed]

/-- A file of whole lines. -/
def stored (lines : List LogLine) : Bytes :=
  lines.flatMap LogLine.bytes

/-- The file after some lines, from when there is none. -/
def logged (lines : List LogLine) : Option Bytes :=
  lines.foldl (fun file line => appendCapped file line.bytes) none

theorem stored_append (lines later : List LogLine) :
  stored (lines ++ later) = stored lines ++ stored later
  := by
  rw [stored, List.flatMap_append]
  rfl

theorem idxOf_stored (line : LogLine) (lines : List LogLine) :
  (stored (line :: lines)).idxOf? lineFeed = some line.body.length
  := by
  have hstored : stored (line :: lines) = line.body ++ lineFeed :: stored lines := by
    simp [stored, LogLine.bytes]
  rw [hstored, List.idxOf?_eq_some_iff]
  refine ⟨by simp, by simp, ?_⟩
  intro j hj
  rw [List.getElem_append_left hj]
  intro heq
  apply line.not_mem
  simpa [heq] using List.getElem_mem hj

theorem drop_stored (line : LogLine) (lines : List LogLine) :
  (stored (line :: lines)).drop (line.body.length + 1) = stored lines
  := by
  have hstored : stored (line :: lines) = line.bytes ++ stored lines := rfl
  have hlength : line.bytes.length = line.body.length + 1 := by simp [LogLine.bytes]
  rw [hstored, ← hlength, List.drop_left]

theorem dropLines_stored (added : ℕ) (lines : List LogLine) :
  ∃ dropped kept, lines = dropped ++ kept ∧ dropLines added (stored lines) = stored kept
    ∧ ((stored kept).length + added ≤ maxLogBytes ∨ kept = [])
  := by
  induction lines with
  | nil =>
    refine ⟨[], [], rfl, ?_, .inr rfl⟩
    rw [dropLines]
    split <;> rfl
  | cons line lines ih =>
    by_cases hfull : maxLogBytes < (stored (line :: lines)).length + added
    · obtain ⟨dropped, kept, rfl, hdrop, hfits⟩ := ih
      refine ⟨line :: dropped, kept, rfl, ?_, hfits⟩
      rw [dropLines, if_pos hfull]
      split
      · rename_i nl hnl
        rw [idxOf_stored, Option.some_inj] at hnl
        rw [← hnl, drop_stored, hdrop]
      · rename_i hnone
        rw [idxOf_stored] at hnone
        cases hnone
    · refine ⟨[], line :: lines, rfl, ?_, .inl (Nat.not_lt.mp hfull)⟩
      rw [dropLines, if_neg hfull]

theorem appendCapped_stored {file : Option Bytes} {lines : List LogLine}
    (h : file.getD [] = stored lines) (newest : LogLine) :
  ∃ dropped kept, lines = dropped ++ kept
    ∧ appendCapped file newest.bytes = some (stored (kept ++ [newest]))
    ∧ ((stored (kept ++ [newest])).length ≤ maxLogBytes
      ∨ (kept = [] ∧ maxLogBytes < newest.bytes.length))
  := by
  have hnewest : ∀ kept, stored (kept ++ [newest]) = stored kept ++ newest.bytes := by
    intro kept
    rw [stored_append, stored, stored, List.flatMap_singleton]
  unfold appendCapped
  dsimp only
  rw [h]
  split
  · rename_i hfits
    refine ⟨[], lines, rfl, by rw [hnewest], .inl ?_⟩
    rw [hnewest, List.length_append]
    exact hfits
  · obtain ⟨dropped, kept, hlines, hdrop, hfits⟩ := dropLines_stored newest.bytes.length lines
    refine ⟨dropped, kept, hlines, by rw [hdrop, hnewest], ?_⟩
    rw [hnewest, List.length_append]
    obtain hfits | rfl := hfits
    · exact .inl hfits
    · by_cases hlong : maxLogBytes < newest.bytes.length
      · exact .inr ⟨rfl, hlong⟩
      · left
        simpa [stored] using hlong

theorem logged_stored (lines : List LogLine) :
  ∃ dropped kept, lines = dropped ++ kept ∧ (logged lines).getD [] = stored kept
  := by
  induction lines using List.reverseRecOn with
  | nil => exact ⟨[], [], rfl, rfl⟩
  | append_singleton lines newest ih =>
    obtain ⟨dropped, kept, rfl, hstored⟩ := ih
    obtain ⟨dropped', kept', rfl, happend, -⟩ := appendCapped_stored hstored newest
    refine ⟨dropped ++ dropped', kept' ++ [newest], by simp, ?_⟩
    rw [logged, List.foldl_append, List.foldl_cons, List.foldl_nil]
    change (appendCapped (logged _) newest.bytes).getD [] = _
    rw [happend, Option.getD_some]

/-- The file holds the newest lines as a whole within its bound, unless the newest alone is too
long; then it holds that one. -/
theorem logged_suffix (lines : List LogLine) (newest : LogLine) :
  ∃ dropped kept, lines = dropped ++ kept
    ∧ logged (lines ++ [newest]) = some (stored (kept ++ [newest]))
    ∧ ((stored (kept ++ [newest])).length ≤ maxLogBytes
      ∨ (kept = [] ∧ maxLogBytes < newest.bytes.length))
  := by
  obtain ⟨dropped, kept, rfl, hstored⟩ := logged_stored lines
  obtain ⟨dropped', kept', rfl, happend, hfits⟩ := appendCapped_stored hstored newest
  refine ⟨dropped ++ dropped', kept', by simp, ?_, hfits⟩
  rw [logged, List.foldl_append, List.foldl_cons, List.foldl_nil]
  exact happend

def lineOfZeros (n : ℕ) : LogLine where
  body := List.replicate n 0
  not_mem := by
    intro hmem
    exact absurd (List.eq_of_mem_replicate hmem) (by decide)

theorem length_stored_lineOfZeros (n : ℕ) :
  (stored [lineOfZeros n]).length = n + 1
  := by
  simp [stored, LogLine.bytes, lineOfZeros]

/-- With a line as long as the file may be, and its end, the file is longer. -/
theorem logged_not_bounded :
  ¬∀ (lines : List LogLine) (newest : LogLine),
    ∃ dropped kept, lines = dropped ++ kept
      ∧ logged (lines ++ [newest]) = some (stored (kept ++ [newest]))
      ∧ (stored (kept ++ [newest])).length ≤ maxLogBytes
  := by
  intro h
  obtain ⟨dropped, kept, -, -, hfits⟩ := h [] (lineOfZeros maxLogBytes)
  rw [stored_append, List.length_append, length_stored_lineOfZeros] at hfits
  exact absurd hfits (Nat.not_le.mpr (Nat.lt_of_lt_of_le (Nat.lt_succ_self _)
    (Nat.le_add_left _ _)))

end Mcp
