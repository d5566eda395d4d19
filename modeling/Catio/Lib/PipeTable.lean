import Catio.Lib.Text

/-!
# Pipe tables

Tables in Markdown as GitHub reads them: the lines of a text, and the cells of a line between pipes.
A pipe directly behind a backslash belongs to its cell, where it is written without the backslash;
blanks at the ends of a cell do not count.  A row of escaped cells is read back (`cells_row`).
-/

namespace PipeTable

/-! ### Lines -/

/-- Put a character in front of the first part. -/
def push (c : Char) : List Text → List Text
  | [] => [[c]]
  | part :: parts => (c :: part) :: parts

/-- What stands between the ends of lines: a line feed, a carriage return, or both. -/
def splitLines : Text → List Text
  | [] => [[]]
  | '\r' :: '\n' :: t => [] :: splitLines t
  | c :: t => if c = '\n' ∨ c = '\r' then [] :: splitLines t else push c (splitLines t)

/-- The lines of a text.  The last one may end too. -/
def lines (t : Text) : List Text :=
  let parts := splitLines t
  if parts.getLast? = some [] then parts.dropLast else parts

/-- Line breaks are shown as `<br>`. -/
def showBreaks : Text → Text
  | [] => []
  | '\r' :: '\n' :: t => "<br>".toList ++ showBreaks t
  | c :: t => if c = '\n' ∨ c = '\r' then "<br>".toList ++ showBreaks t else c :: showBreaks t

/-- A carriage return stands in front of something else than a line feed. -/
def hasLoneReturn : Text → Bool
  | [] => false
  | '\r' :: '\n' :: t => hasLoneReturn t
  | c :: t => c = '\r' || hasLoneReturn t

/-! ### Cells -/

/-- White space at the ends of a cell. -/
def isBlank (c : Char) : Bool :=
  c == ' ' || (0x09 ≤ c.toNat && c.toNat ≤ 0x0D)

/-- A cell without the blanks at its ends. -/
def trim (t : Text) : Text :=
  (t.dropWhile isBlank).rdropWhile isBlank

/-- What stands between the pipes that are not escaped. -/
def splitPipes : Text → List Text
  | [] => [[]]
  | '\\' :: '|' :: t => push '\\' (push '|' (splitPipes t))
  | c :: t => if c = '|' then [] :: splitPipes t else push c (splitPipes t)

/-- Take the backslashes in front of pipes away. -/
def unescape : Text → Text
  | [] => []
  | '\\' :: '|' :: t => '|' :: unescape t
  | c :: t => c :: unescape t

/-- Put a backslash in front of each pipe. -/
def escape (t : Text) : Text :=
  Text.replaceChar '|' "\\|" t

/-- Take the pipe at the start of a row away. -/
def dropPipe : Text → Text
  | '|' :: t => t
  | t => t

/-- The cells of a row.  There may be a pipe at its start and at its end. -/
def cells (row : Text) : List Text :=
  let parts := splitPipes (dropPipe (row.dropWhile isBlank))
  let parts := if (parts.getLastD []).all isBlank then parts.dropLast else parts
  parts.map fun part => trim (unescape part)

/-! ### Reading of lines -/

theorem splitLines_line {line : Text} (h : ∀ c ∈ line, c ≠ '\n' ∧ c ≠ '\r') (rest : Text) :
  splitLines (line ++ '\n' :: rest) = line :: splitLines rest
  := by
  induction line with
  | nil => simp [splitLines]
  | cons c line ih =>
    obtain ⟨hfeed, hreturn⟩ := h c (by simp)
    rw [List.cons_append, splitLines, ih fun d hd => h d (List.mem_cons_of_mem c hd),
      if_neg (by simp [hfeed, hreturn])]
    · rfl
    · rintro _ rfl
      exact absurd rfl hreturn

theorem lines_flatMap {ls : List Text} (h : ∀ line ∈ ls, ∀ c ∈ line, c ≠ '\n' ∧ c ≠ '\r') :
  lines (ls.flatMap fun line => line ++ ['\n']) = ls
  := by
  have hsplit : splitLines (ls.flatMap fun line => line ++ ['\n']) = ls ++ [[]] := by
    induction ls with
    | nil => rfl
    | cons line ls ih =>
      rw [List.flatMap_cons, List.append_assoc, List.singleton_append,
        splitLines_line (h line (by simp)), ih fun l hl => h l (List.mem_cons_of_mem line hl),
        List.cons_append]
  simp [lines, hsplit]

/-! ### Reading of cells -/

/-- Put a text in front of the first part. -/
def prepend (t : Text) (parts : List Text) : List Text :=
  t.foldr push parts

theorem prepend_cons (t part : Text) (parts : List Text) :
  prepend t (part :: parts) = (t ++ part) :: parts
  := by
  induction t with
  | nil => rfl
  | cons c t ih =>
    change push c (prepend t (part :: parts)) = _
    rw [ih]
    rfl

@[simp] theorem escape_nil :
  escape [] = []
  := by
  rfl

theorem escape_cons (c : Char) (t : Text) :
  escape (c :: t) = (if c = '|' then ['\\', '|'] else [c]) ++ escape t
  := by
  rw [escape, escape, Text.replaceChar, Text.replaceChar, List.flatMap_cons]
  rfl

theorem head_escape {t rest : Text} (h : rest.head? ≠ some '|') :
  (escape t ++ rest).head? ≠ some '|'
  := by
  obtain _ | ⟨c, t⟩ := t
  · exact h
  · rw [escape_cons]
    split
    · simp
    · simpa

theorem splitPipes_cons {c : Char} {t : Text} (hc : c ≠ '|') (ht : t.head? ≠ some '|') :
  splitPipes (c :: t) = push c (splitPipes t)
  := by
  rw [splitPipes, if_neg hc]
  rintro t' rfl rfl
  exact ht rfl

theorem unescape_cons {c : Char} {t : Text} (ht : t.head? ≠ some '|') :
  unescape (c :: t) = c :: unescape t
  := by
  rw [unescape]
  rintro t' rfl rfl
  exact ht rfl

theorem splitPipes_escape {rest : Text} (h : rest.head? ≠ some '|') (t : Text) :
  splitPipes (escape t ++ rest) = prepend (escape t) (splitPipes rest)
  := by
  induction t with
  | nil => rfl
  | cons c t ih =>
    rw [escape_cons]
    split
    · change push '\\' (push '|' (splitPipes (escape t ++ rest))) = _
      rw [ih]
      rfl
    · rename_i hc
      change splitPipes (c :: (escape t ++ rest)) = _
      rw [splitPipes_cons hc (head_escape h), ih]
      rfl

theorem unescape_escape {rest : Text} (h : rest.head? ≠ some '|') (t : Text) :
  unescape (escape t ++ rest) = t ++ unescape rest
  := by
  induction t with
  | nil => rfl
  | cons c t ih =>
    rw [escape_cons]
    split
    · rename_i hc
      change '|' :: unescape (escape t ++ rest) = _
      rw [ih, hc]
      rfl
    · change unescape (c :: (escape t ++ rest)) = _
      rw [unescape_cons (head_escape h), ih]
      rfl

theorem splitPipes_spaces (n : ℕ) (rest : Text) :
  splitPipes (List.replicate n ' ' ++ ' ' :: '|' :: rest)
    = (List.replicate n ' ' ++ [' ']) :: splitPipes rest
  := by
  induction n with
  | zero => simp [splitPipes, push]
  | succ n ih =>
    rw [List.replicate_succ, List.cons_append, splitPipes_cons (by decide), ih]
    · rfl
    · cases n <;> simp [List.replicate_succ]

theorem unescape_spaces (n : ℕ) :
  unescape (List.replicate n ' ') = List.replicate n ' '
  := by
  induction n with
  | zero => rfl
  | succ n ih =>
    rw [List.replicate_succ, unescape_cons, ih]
    cases n <;> simp [List.replicate_succ]

theorem head_spaces (n : ℕ) {rest : Text} (h : rest.head? ≠ some '|') :
  (List.replicate n ' ' ++ rest).head? ≠ some '|'
  := by
  cases n with
  | zero => exact h
  | succ n => simp [List.replicate_succ]

/-- A cell in a row: some text that is escaped, and blanks up to the width of its column. -/
structure Padded where
  text : Text
  blanks : ℕ

/-- How a cell is written. -/
def Padded.written (p : Padded) : Text :=
  escape p.text ++ List.replicate p.blanks ' '

theorem splitPipes_written (p : Padded) (rest : Text) :
  splitPipes (' ' :: (p.written ++ ' ' :: '|' :: rest))
    = (' ' :: (p.written ++ [' '])) :: splitPipes rest
  := by
  have hblank : (' ' :: '|' :: rest).head? ≠ some '|' := by simp
  rw [Padded.written, List.append_assoc,
    splitPipes_cons (by decide) (head_escape (head_spaces _ hblank)),
    splitPipes_escape (head_spaces _ hblank), splitPipes_spaces, prepend_cons, List.append_assoc]
  rfl

theorem trim_unescape_written (p : Padded) :
  trim (unescape (' ' :: (p.written ++ [' ']))) = trim p.text
  := by
  have hspaces : List.replicate p.blanks ' ' ++ [' '] = List.replicate (p.blanks + 1) ' ' := by
    rw [List.replicate_succ']
  have hhead : (List.replicate (p.blanks + 1) ' ').head? ≠ some '|' := by
    simp [List.replicate_succ]
  rw [Padded.written, List.append_assoc, hspaces, unescape_cons (head_escape hhead),
    unescape_escape hhead, unescape_spaces, trim, List.dropWhile_cons_of_pos (by decide)]
  apply Text.trimBy_append
  intro c hc
  rw [List.eq_of_mem_replicate hc]
  rfl

/-- A row of cells between pipes. -/
def row (written : List Text) : Text :=
  "| ".toList ++ Text.join " | " written ++ " |".toList

theorem row_eq {written : List Text} (h : written ≠ []) :
  row written = '|' :: written.flatMap fun w => ' ' :: (w ++ [' ', '|'])
  := by
  have hjoin : ∀ (first : Text) (others : List Text),
      Text.join " | " (first :: others) ++ [' ', '|']
        = first ++ [' ', '|'] ++ others.flatMap fun w => ' ' :: (w ++ [' ', '|']) := by
    intro first others
    induction others generalizing first with
    | nil => simp [Text.join_singleton]
    | cons second others ih =>
      rw [Text.join_cons_cons, List.append_assoc, List.append_assoc, ih, List.flatMap_cons]
      simp
  obtain _ | ⟨first, others⟩ := written
  · exact absurd rfl h
  · change '|' :: ' ' :: (Text.join " | " (first :: others) ++ [' ', '|']) = _
    rw [hjoin, List.flatMap_cons]
    rfl

theorem cells_row {padded : List Padded} (h : padded ≠ []) :
  cells (row (padded.map Padded.written)) = padded.map fun p => trim p.text
  := by
  have hsplit : splitPipes ((padded.map Padded.written).flatMap fun w => ' ' :: (w ++ [' ', '|']))
      = (padded.map fun p => ' ' :: (p.written ++ [' '])) ++ [[]] := by
    clear h
    induction padded with
    | nil => rfl
    | cons p padded ih =>
      rw [List.map_cons, List.flatMap_cons]
      have hcell := splitPipes_written p
        ((padded.map Padded.written).flatMap fun w => ' ' :: (w ++ [' ', '|']))
      rw [ih] at hcell
      simpa using hcell
  rw [row_eq (by simpa using h)]
  unfold cells
  rw [List.dropWhile_cons_of_neg (by decide), dropPipe, hsplit]
  simp only [List.getLastD_concat, List.all_nil, if_true, List.dropLast_concat, List.map_map]
  apply List.map_congr_left
  intro p _
  exact trim_unescape_written p

end PipeTable
