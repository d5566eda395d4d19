import Catio.Lib.JavaScript
import Catio.Lib.PipeTable

/-!
# Tables in Markdown

The model of `components/dbviews/markdownTable.ts`: rows as a pipe table of Markdown, where pipes and
line breaks in cells are escaped, and cells are filled up with blanks to the width of their columns.
-/

namespace Workbench

open JavaScript

def displayCell (v : Value) : Text :=
  if v.isNullish then "NULL"
  else match v with
    | .boolean b => if b then "true" else "false"
    | .number n => n.toText
    | .string s => s
    | v => v.toJson.getD v.toText

/-- `replace(/\r\n/g, '<br>')`. -/
def replaceReturns : Text → Text
  | [] => []
  | '\r' :: '\n' :: t => "<br>".toList ++ replaceReturns t
  | c :: t => c :: replaceReturns t

/-- Escape what would break the table. -/
def escapeCell (s : Text) : Text :=
  Text.replaceChar '\n' "<br>" (replaceReturns (Text.replaceChar '|' "\\|" s))

/-- The width that a text is shown with: its characters. -/
def displayWidth (s : Text) : ℕ :=
  s.length

/-- Fill a text up with blanks. -/
def pad (s : Text) (width : ℕ) : Text :=
  let cur := displayWidth s
  if width ≤ cur then s else s ++ List.replicate (width - cur) ' '

def bodyCells (columns : List Text) (rows : List (List Value)) : List (List Text) :=
  rows.map fun row => columns.mapIdx fun ci _ => escapeCell (displayCell (row.getD ci .undefined))

def columnWidths (columns : List Text) (rows : List (List Value)) : List ℕ :=
  columns.mapIdx fun ci column =>
    let colMax := (bodyCells columns rows).foldl (fun m row => max m (displayWidth (row.getD ci []))) 0
    max (max (displayWidth (escapeCell column)) colMax) 3

def pipeLine (cells : List Text) : Text :=
  "| ".toList ++ Text.join " | " cells ++ " |".toList

def buildMarkdownTable (columns : List Text) (rows : List (List Value)) : Text :=
  if columns = [] then []
  else
    let widths := columnWidths columns rows
    let padCells := fun cells : List Text => cells.mapIdx fun ci c => pad c (widths.getD ci 0)
    let header := pipeLine (padCells (columns.map escapeCell))
    let separator := pipeLine (widths.map fun w => List.replicate w '-')
    let body := (bodyCells columns rows).map fun row => pipeLine (padCells row)
    Text.join ['\n'] (header :: separator :: body) ++ ['\n']

end Workbench

/-!
## Reading tables back

What GitHub makes of the table: its lines, and their cells.  Each cell comes back as the text that
is shown for it, with its line breaks as `<br>` and without the blanks at its ends, which cannot be
told from those that fill the cell up.  This is so unless a carriage return stands alone, which is
written as it is and ends the line.
-/

namespace Workbench

open JavaScript PipeTable

section

variable (columns : List Text) (rows : List (List Value))

def displayRow (row : List Value) : List Text :=
  (List.range columns.length).map fun ci => displayCell (row.getD ci .undefined)

/-- A text is read as the table: a line for the header, one of dashes and one for each row, with a
cell for each column. -/
def IsTable (shown : Text → Text) (text : Text) : Prop :=
  (PipeTable.lines text).length = rows.length + 2
    ∧ ∃ delimiters, (PipeTable.lines text).map cells
        = columns.map shown :: delimiters :: rows.map (fun row => (displayRow columns row).map shown)
      ∧ delimiters.length = columns.length ∧ ∀ d ∈ delimiters, 3 ≤ d.length ∧ ∀ c ∈ d, c = '-'

end

/-! ### Texts without line ends -/

variable {texts : List Text} {c : Char} {s : Text}

theorem replaceReturns_cons (h : c ≠ '\r') (t : Text) :
  replaceReturns (c :: t) = c :: replaceReturns t
  := by
  rw [replaceReturns]
  rintro t' rfl
  exact absurd rfl h

theorem escapeCell_cons (h : c ≠ '\r') (t : Text) :
  escapeCell (c :: t)
    = (if c = '|' then ['\\', '|'] else if c = '\n' then "<br>".toList else [c]) ++ escapeCell t
  := by
  unfold escapeCell
  by_cases hpipe : c = '|'
  · subst hpipe
    rfl
  · have hfirst : Text.replaceChar '|' "\\|" (c :: t) = c :: Text.replaceChar '|' "\\|" t := by
      simp [Text.replaceChar, hpipe]
    rw [hfirst, replaceReturns_cons h, if_neg hpipe]
    rfl

theorem escapeCell_eq (h : hasLoneReturn s = false) :
  escapeCell s = escape (showBreaks s)
  := by
  induction s using hasLoneReturn.induct with
  | case1 => rfl
  | case2 t ih =>
    change "<br>".toList ++ escapeCell t = _
    rw [ih h]
    rfl
  | case3 c t hne ih =>
    rw [hasLoneReturn, Bool.or_eq_false_iff, decide_eq_false_iff_not] at h
    · obtain ⟨hreturn, ht⟩ := h
      rw [escapeCell_cons hreturn, ih ht, showBreaks]
      · by_cases hfeed : c = '\n'
        · subst hfeed
          rfl
        · have hend : ¬(c = '\n' ∨ c = '\r') := not_or.mpr ⟨hfeed, hreturn⟩
          rw [if_neg hfeed, if_neg hend, escape_cons]
      · exact hne
    · exact hne

theorem mem_showBreaks (h : c ∈ showBreaks s) :
  c ≠ '\n' ∧ c ≠ '\r'
  := by
  have hbreak : ∀ d ∈ "<br>".toList, d ≠ '\n' ∧ d ≠ '\r' := by
    simp
  induction s using showBreaks.induct with
  | case1 => cases h
  | case2 t ih =>
    obtain h | h := List.mem_append.mp h
    · exact hbreak c h
    · exact ih h
  | case3 d t hne hend ih =>
    rw [showBreaks, if_pos hend] at h
    · obtain h | h := List.mem_append.mp h
      · exact hbreak c h
      · exact ih h
    · exact hne
  | case4 d t hne hend ih =>
    rw [showBreaks, if_neg hend] at h
    · obtain rfl | h := List.mem_cons.mp h
      · exact not_or.mp hend
      · exact ih h
    · exact hne

theorem mem_escape (h : c ∈ escape s) :
  c ∈ s ∨ c = '\\' ∨ c = '|'
  := by
  obtain ⟨d, hd, hc⟩ := List.mem_flatMap.mp h
  split at hc
  · right
    simpa using hc
  · rw [List.mem_singleton.mp hc]
    exact .inl hd

theorem mem_pipeLine {padded : List Padded} (hne : padded ≠ [])
    (h : ∀ p ∈ padded, ∀ c ∈ p.text, c ≠ '\n' ∧ c ≠ '\r') :
  ∀ c ∈ pipeLine (padded.map Padded.written), c ≠ '\n' ∧ c ≠ '\r'
  := by
  have hframe : ∀ d : Char, d = '\\' ∨ d = '|' ∨ d = ' ' → d ≠ '\n' ∧ d ≠ '\r' := by
    rintro d (rfl | rfl | rfl) <;> decide
  have hwritten : ∀ p ∈ padded, ∀ c ∈ p.written, c ≠ '\n' ∧ c ≠ '\r' := by
    intro p hp c hc
    obtain hc | hc := List.mem_append.mp hc
    · obtain hc | hc | hc := mem_escape hc
      · exact h p hp c hc
      · exact hframe c (.inl hc)
      · exact hframe c (.inr (.inl hc))
    · exact hframe c (.inr (.inr (List.eq_of_mem_replicate hc)))
  intro c hc
  change c ∈ row _ at hc
  rw [row_eq (by simpa using hne)] at hc
  obtain hc | hc := List.mem_cons.mp hc
  · exact hframe c (.inr (.inl hc))
  · obtain ⟨w, hw, hc⟩ := List.mem_flatMap.mp hc
    obtain ⟨p, hp, rfl⟩ := List.mem_map.mp hw
    obtain hc | hc := List.mem_cons.mp hc
    · exact hframe c (.inr (.inr hc))
    obtain hc | hc := List.mem_append.mp hc
    · exact hwritten p hp c hc
    · apply hframe
      simp only [List.mem_cons, List.not_mem_nil, or_false] at hc
      obtain rfl | rfl := hc
      · exact .inr (.inr rfl)
      · exact .inr (.inl rfl)

/-! ### Lines -/

theorem pad_eq (s : Text) (width : ℕ) :
  pad s width = s ++ List.replicate (width - s.length) ' '
  := by
  unfold pad displayWidth
  simp only
  split
  · rename_i hle
    rw [Nat.sub_eq_zero_of_le hle]
    simp
  · rfl

/-- Escaped cells are filled up with blanks. -/
def paddedCells (widths : List ℕ) (texts : List Text) : List Padded :=
  texts.mapIdx fun ci s => ⟨showBreaks s, widths.getD ci 0 - (escape (showBreaks s)).length⟩

theorem pad_escapeCell (widths : List ℕ) (h : ∀ s ∈ texts, hasLoneReturn s = false) :
  (texts.map escapeCell).mapIdx (fun ci c => pad c (widths.getD ci 0))
    = (paddedCells widths texts).map Padded.written
  := by
  apply List.ext_getElem
  · simp [paddedCells]
  · intro ci hleft hright
    have hci : ci < texts.length := by simpa using hleft
    simp [paddedCells, Padded.written, pad_eq, escapeCell_eq (h _ (List.getElem_mem hci))]

theorem cells_padded (widths : List ℕ) (hne : texts ≠ [])
    (h : ∀ s ∈ texts, hasLoneReturn s = false) :
  cells (pipeLine ((texts.map escapeCell).mapIdx fun ci c => pad c (widths.getD ci 0)))
    = texts.map fun s => PipeTable.trim (showBreaks s)
  := by
  have hpadded : paddedCells widths texts ≠ [] := by simpa [paddedCells] using hne
  rw [pad_escapeCell widths h]
  change cells (row _) = _
  rw [cells_row hpadded]
  apply List.ext_getElem
  · simp [paddedCells]
  · intro ci hleft hright
    simp [paddedCells]

theorem line_padded (widths : List ℕ) (hne : texts ≠ [])
    (h : ∀ s ∈ texts, hasLoneReturn s = false) :
  ∀ c ∈ pipeLine ((texts.map escapeCell).mapIdx fun ci c => pad c (widths.getD ci 0)),
    c ≠ '\n' ∧ c ≠ '\r'
  := by
  have hpadded : paddedCells widths texts ≠ [] := by simpa [paddedCells] using hne
  rw [pad_escapeCell widths h]
  apply mem_pipeLine hpadded
  intro p hp c hc
  obtain ⟨ci, hci, rfl⟩ := List.mem_mapIdx.mp hp
  exact mem_showBreaks hc

def dashes (widths : List ℕ) : List Padded :=
  widths.map fun w => ⟨List.replicate w '-', 0⟩

theorem written_dashes (widths : List ℕ) :
  (dashes widths).map Padded.written = widths.map fun w => List.replicate w '-'
  := by
  rw [dashes, List.map_map]
  apply List.map_congr_left
  intro w _
  have hescape : escape (List.replicate w '-') = List.replicate w '-' := by
    apply Text.replaceChar_of_not_mem
    intro hmem
    exact absurd (List.eq_of_mem_replicate hmem) (by decide)
  simp [Padded.written, hescape]

theorem trim_dashes (w : ℕ) :
  PipeTable.trim (List.replicate w '-') = List.replicate w '-'
  := by
  have hstart : (List.replicate w '-').dropWhile PipeTable.isBlank = List.replicate w '-' := by
    cases w with
    | zero => rfl
    | succ w => rfl
  rw [PipeTable.trim, hstart, List.rdropWhile_eq_self_iff]
  intro hne
  rw [List.getLast_replicate]
  decide

theorem le_columnWidths (columns : List Text) (rows : List (List Value)) :
  ∀ w ∈ columnWidths columns rows, 3 ≤ w
  := by
  intro w hw
  obtain ⟨ci, hci, rfl⟩ := List.mem_mapIdx.mp hw
  apply le_max_right

theorem length_columnWidths (columns : List Text) (rows : List (List Value)) :
  (columnWidths columns rows).length = columns.length
  := by
  simp [columnWidths]

theorem bodyCells_eq (columns : List Text) (rows : List (List Value)) :
  bodyCells columns rows = rows.map fun row => (displayRow columns row).map escapeCell
  := by
  unfold bodyCells displayRow
  apply List.map_congr_left
  intro row _
  apply List.ext_getElem
  · simp
  · intro ci hleft hright
    simp

/-! ### The table -/

theorem lines_buildMarkdownTable {columns : List Text} (rows : List (List Value))
    (hne : columns ≠ []) (hcolumns : ∀ s ∈ columns, hasLoneReturn s = false)
    (hrows : ∀ row ∈ rows, ∀ s ∈ displayRow columns row, hasLoneReturn s = false) :
  let widths := columnWidths columns rows
  let line := fun texts : List Text =>
    pipeLine ((texts.map escapeCell).mapIdx fun ci c => pad c (widths.getD ci 0))
  PipeTable.lines (buildMarkdownTable columns rows)
    = line columns :: row ((dashes widths).map Padded.written)
      :: rows.map fun row => line (displayRow columns row)
  := by
  intro widths line
  have hwidths : widths ≠ [] := by
    intro hnil
    have hlength := length_columnWidths columns rows
    change widths.length = _ at hlength
    rw [hnil] at hlength
    exact hne (List.length_eq_zero_iff.mp hlength.symm)
  have hdisplay : ∀ row, displayRow columns row ≠ [] := by
    intro row
    simpa [displayRow] using hne
  have hbuild : buildMarkdownTable columns rows
      = Text.join ['\n'] (line columns :: row ((dashes widths).map Padded.written)
        :: rows.map fun row => line (displayRow columns row)) ++ ['\n'] := by
    rw [buildMarkdownTable, if_neg hne, bodyCells_eq, written_dashes]
    dsimp only
    rw [List.map_map]
    rfl
  rw [hbuild, Text.join_append _ (List.cons_ne_nil _ _)]
  apply lines_flatMap
  intro l hl
  obtain rfl | hl := List.mem_cons.mp hl
  · exact line_padded widths hne hcolumns
  obtain rfl | hl := List.mem_cons.mp hl
  · apply mem_pipeLine
    · simpa [dashes] using hwidths
    · intro p hp c hc
      obtain ⟨w, hw, rfl⟩ := List.mem_map.mp hp
      rw [List.eq_of_mem_replicate hc]
      decide
  · obtain ⟨row, hrow, rfl⟩ := List.mem_map.mp hl
    exact line_padded widths (hdisplay row) (hrows row hrow)

/-- A table without lone carriage returns is read back, but for the blanks at the ends of its
cells. -/
theorem buildMarkdownTable_exact {columns : List Text} (rows : List (List Value))
    (hne : columns ≠ []) (hcolumns : ∀ s ∈ columns, hasLoneReturn s = false)
    (hrows : ∀ row ∈ rows, ∀ s ∈ displayRow columns row, hasLoneReturn s = false) :
  IsTable columns rows (fun s => PipeTable.trim (showBreaks s)) (buildMarkdownTable columns rows)
  := by
  have hlines := lines_buildMarkdownTable rows hne hcolumns hrows
  have hlength := length_columnWidths columns rows
  have hdashes : dashes (columnWidths columns rows) ≠ [] := by
    intro hnil
    rw [dashes, List.map_eq_nil_iff] at hnil
    rw [hnil] at hlength
    exact hne (List.length_eq_zero_iff.mp hlength.symm)
  unfold IsTable
  rw [hlines]
  constructor
  · simp
  refine ⟨(columnWidths columns rows).map fun w => List.replicate w '-', ?_, ?_, ?_⟩
  · rw [List.map_cons, List.map_cons, List.map_map, cells_padded _ hne hcolumns,
      cells_row hdashes]
    congr 2
    · simp [dashes, trim_dashes]
    · apply List.map_congr_left
      intro row hrow
      apply cells_padded _ _ (hrows row hrow)
      simpa [displayRow] using hne
  · rw [List.length_map, hlength]
  · intro d hd
    obtain ⟨w, hw, rfl⟩ := List.mem_map.mp hd
    constructor
    · rw [List.length_replicate]
      exact le_columnWidths columns rows w hw
    · intro c hc
      exact List.eq_of_mem_replicate hc

/-- A cell with a pipe behind a backslash, a line break and a blank behind them. -/
theorem buildMarkdownTable_exact_escaped :
  IsTable ["a".toList] [[.string "\\|\r\n ".toList]] (fun s => PipeTable.trim (showBreaks s))
    (buildMarkdownTable ["a".toList] [[.string "\\|\r\n ".toList]])
  := by
  apply buildMarkdownTable_exact
  · decide
  · decide
  · decide

/-- The blank at the start of a cell is not read back, and a lone carriage return ends the line. -/
theorem buildMarkdownTable_not_exact :
  ¬IsTable ["a".toList] [[.string " b".toList]] showBreaks
      (buildMarkdownTable ["a".toList] [[.string " b".toList]])
    ∧ ¬IsTable ["a".toList] [[.string "b\rc".toList]] showBreaks
      (buildMarkdownTable ["a".toList] [[.string "b\rc".toList]])
  := by
  constructor
  · rintro ⟨-, delimiters, hcells, -⟩
    have hlast := congrArg List.getLast? hcells
    revert hlast
    simp only [List.map_cons, List.map_nil, List.getLast?_cons_cons, List.getLast?_singleton]
    decide
  · rintro ⟨hlength, -⟩
    revert hlength
    decide

end Workbench
