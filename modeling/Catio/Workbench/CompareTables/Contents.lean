import Catio.Workbench.CompareTables.Difference

/-!
# Contents of tables

The rows of a table with what of them is binary, read in the order of some columns.  These are what a
comparison is about (`Ready.source_cells`, `Ready.target_cells`).
-/

namespace Workbench

open JavaScript

/-! ### Tables -/

structure Table where
  columns : List Text
  rows : List (List Value)
  binaryCells : List BinaryCell

def CompareInput.source (input : CompareInput) : Table where
  columns := input.srcColumns
  rows := input.srcRows
  binaryCells := input.srcBinaryCells

def CompareInput.target (input : CompareInput) : Table where
  columns := input.tgtColumns
  rows := input.tgtRows
  binaryCells := input.tgtBinaryCells

/-- The comparison of the same source with another target. -/
def CompareInput.withTarget (input : CompareInput) (t : Table) : CompareInput :=
  { input with tgtColumns := t.columns, tgtRows := t.rows, tgtBinaryCells := t.binaryCells }

/-- The rows of a table, with what of them is binary: a place that is noted and has a value. -/
def Table.contents (t : Table) : List (List Cell) :=
  t.rows.mapIdx fun r row => row.mapIdx fun c value =>
    ⟨value, decide (((r : ℚ), (c : ℚ)) ∈ t.binaryCells) && !value.isNullish⟩

def Table.ofContents (columns : List Text) (contents : List (List Cell)) : Table where
  columns := columns
  rows := contents.map fun row => row.map Cell.value
  binaryCells := (contents.mapIdx fun r row =>
    (row.mapIdx fun c cell => if cell.binary then [((r : ℚ), (c : ℚ))] else []).flatten).flatten

/-- A row of one table in the order of the columns of another. -/
def reorder (fromColumns toColumns : List Text) (row : List Cell) : List Cell :=
  toColumns.map fun name => cellOf row (fromColumns.idxOf name)

/-- Two tables have the same contents up to the order of columns and rows, and up to when two cells
count as the same. -/
def Table.EqualUpTo (same : Cell → Cell → Prop) (s t : Table) : Prop :=
  s.columns.Perm t.columns
    ∧ ∃ rows, rows.Perm (t.contents.map (reorder t.columns s.columns))
      ∧ List.Forall₂ (List.Forall₂ same) s.contents rows

/-! ### Contents -/

theorem isNullish_of_validBinaryHex {value : Value} (h : validBinaryHex value) :
  value.isNullish = false
  := by
  cases value with
  | string s => rfl
  | _ => cases h

theorem mem_binaryCells {columns : List Text} {contents : List (List Cell)} {cell : BinaryCell} :
  cell ∈ (Table.ofContents columns contents).binaryCells
    ↔ ∃ (r : ℕ) (c : ℕ) (hr : r < contents.length) (hc : c < contents[r].length),
      cell = ((r : ℚ), (c : ℚ)) ∧ contents[r][c].binary
  := by
  simp only [Table.ofContents, List.mem_flatten, List.mem_mapIdx]
  constructor
  · rintro ⟨_, ⟨r, hr, rfl⟩, hcell⟩
    obtain ⟨_, hplace, hcell⟩ := List.mem_flatten.mp hcell
    obtain ⟨c, hc, rfl⟩ := List.mem_mapIdx.mp hplace
    split at hcell
    · rename_i hbinary
      exact ⟨r, c, hr, hc, List.mem_singleton.mp hcell, hbinary⟩
    · cases hcell
  · rintro ⟨r, c, hr, hc, rfl, hbinary⟩
    refine ⟨_, ⟨r, hr, rfl⟩, List.mem_flatten.mpr ⟨_, List.mem_mapIdx.mpr ⟨c, hc, rfl⟩, ?_⟩⟩
    rw [if_pos hbinary]
    exact List.mem_singleton_self _

theorem contents_ofContents {columns : List Text} {contents : List (List Cell)}
    (h : ∀ row ∈ contents, ∀ cell ∈ row, cell.binary → validBinaryHex cell.value) :
  (Table.ofContents columns contents).contents = contents
  := by
  apply List.ext_getElem
  · simp [Table.contents, Table.ofContents]
  · intro r hr hr'
    apply List.ext_getElem
    · simp [Table.contents, Table.ofContents]
    · intro c hc hc'
      have hbinary : ((r : ℚ), (c : ℚ)) ∈ (Table.ofContents columns contents).binaryCells
          ↔ contents[r][c].binary := by
        rw [mem_binaryCells]
        constructor
        · rintro ⟨r', c', hr', hc', hcell, hbinary⟩
          obtain ⟨hrow, hcolumn⟩ := Prod.mk.inj hcell
          obtain rfl := Nat.cast_inj.mp hrow
          obtain rfl := Nat.cast_inj.mp hcolumn
          exact hbinary
        · exact fun hbinary => ⟨r, c, hr', hc', rfl, hbinary⟩
      have hvalue : contents[r][c].binary → contents[r][c].value.isNullish = false := fun hb =>
        isNullish_of_validBinaryHex
          (h _ (List.getElem_mem hr') _ (List.getElem_mem hc') hb)
      have hcell : contents[r][c] = ⟨contents[r][c].value, contents[r][c].binary⟩ := rfl
      rw [hcell]
      simp only [Table.contents, List.getElem_mapIdx, Cell.mk.injEq]
      apply And.intro
      · simp [Table.ofContents]
      · rw [Bool.eq_iff_iff, Bool.and_eq_true, decide_eq_true_eq, hbinary, Bool.not_eq_true']
        constructor
        · exact And.left
        · exact fun hb => ⟨hb, by simpa [Table.ofContents] using hvalue hb⟩

theorem cellOf_mapIdx {row : List Value} {f : ℕ → Value → Cell} {c : ℕ} (h : c < row.length) :
  cellOf (row.mapIdx f) c = f c (cellAt row c)
  := by
  simp [cellOf, cellAt, List.getD_eq_getElem?_getD, List.getElem?_mapIdx,
    List.getElem?_eq_getElem h]

theorem columnsMismatch_eq_false {input : CompareInput} :
  columnsMismatch input = false
    ↔ input.srcColumns.Nodup ∧ input.tgtColumns.Nodup
      ∧ input.srcColumns.length = input.tgtColumns.length
      ∧ (∀ c ∈ input.srcColumns, c ∈ input.tgtColumns)
      ∧ (∀ row ∈ input.srcRows, row.length = input.srcColumns.length)
      ∧ ∀ row ∈ input.tgtRows, row.length = input.tgtColumns.length
  := by
  simp [columnsMismatch, and_assoc]

theorem mem_binary {rows : List (List Value)} {cells : List BinaryCell} {binary : List (List ℕ)}
    {r c : ℕ} (hr : r < rows.length) (hr' : r < binary.length) (hc : c < rows[r].length)
    (hmem : ∀ r c, c ∈ binary.getD r [] ↔
      ((r : ℚ), (c : ℚ)) ∈ cells ∧ (cellAt (rows.getD r []) c).isNullish = false) :
  c ∈ binary[r] ↔ ((r : ℚ), (c : ℚ)) ∈ cells ∧ rows[r][c].isNullish = false
  := by
  have h := hmem r c
  simpa [cellAt, List.getD_eq_getElem?_getD, List.getElem?_eq_getElem hr,
    List.getElem?_eq_getElem hr', List.getElem?_eq_getElem hc] using h

theorem Ready.source_cells {input : CompareInput} {p : Prepared} (h : Ready input p) :
  p.source.map Item.cells = input.source.contents
  := by
  obtain ⟨binary, hbinary, hsource⟩ := h.source
  obtain ⟨hlength, _, hmem⟩ := binaryRows_eq_some hbinary
  rw [hsource]
  apply List.ext_getElem
  · simp [Table.contents, CompareInput.source, hlength]
  · intro r hr hr'
    have hrow : r < input.srcRows.length := by
      simpa [Table.contents, CompareInput.source] using hr'
    apply List.ext_getElem
    · simp [Item.cells, Table.contents, CompareInput.source]
    · intro c hc hc'
      have hcolumn : c < input.srcRows[r].length := by
        simpa [Table.contents, CompareInput.source] using hc'
      have hcell := mem_binary hrow (hlength ▸ hrow) hcolumn hmem
      simp only [Item.cells, Table.contents, CompareInput.source, List.getElem_map,
        List.getElem_zipWith, List.getElem_mapIdx, Cell.mk.injEq, true_and]
      rw [Bool.eq_iff_iff, decide_eq_true_eq, hcell, Bool.and_eq_true, Bool.not_eq_true']
      exact and_congr_left' decide_eq_true_iff.symm

theorem targetItem_cells {input : CompareInput} {binary : List (List ℕ)}
    (hcolumns : columnsMismatch input = false)
    (hbinary : binaryRows input.tgtRows input.tgtColumns input.tgtBinaryCells = some binary) :
  (List.zipWith (targetItem (input.srcColumns.map fun c => input.tgtColumns.idxOf c))
      input.tgtRows binary).map Item.cells
    = input.target.contents.map (reorder input.tgtColumns input.srcColumns)
  := by
  obtain ⟨hlength, _, hmem⟩ := binaryRows_eq_some hbinary
  obtain ⟨_, _, _, hsub, _, hrows⟩ := columnsMismatch_eq_false.mp hcolumns
  apply List.ext_getElem
  · simp [Table.contents, CompareInput.target, hlength]
  · intro r hr hr'
    have hrow : r < input.tgtRows.length := by
      simpa [Table.contents, CompareInput.target] using hr'
    apply List.ext_getElem
    · simp [Item.cells, targetItem, reorder]
    · intro i hi hi'
      have hi : i < input.srcColumns.length := by simpa [reorder] using hi'
      have hplace : input.tgtColumns.idxOf input.srcColumns[i] < input.tgtRows[r].length := by
        rw [hrows _ (List.getElem_mem hrow)]
        exact List.idxOf_lt_length_of_mem (hsub _ (List.getElem_mem hi))
      have hcell := mem_binary hrow (hlength ▸ hrow) hplace hmem
      simp only [Item.cells, targetItem, reorder, Table.contents, CompareInput.target,
        List.getElem_map, List.getElem_zipWith, List.getElem_mapIdx, cellOf_mapIdx hplace,
        Cell.mk.injEq, true_and]
      have horder : i ∈ (List.range (input.srcColumns.map
            fun c => input.tgtColumns.idxOf c).length).filter (fun i =>
          (input.srcColumns.map fun c => input.tgtColumns.idxOf c).getD i 0 ∈ binary[r])
            ↔ input.tgtColumns.idxOf input.srcColumns[i] ∈ binary[r] := by
        simp [List.mem_filter, List.getD_eq_getElem?_getD, hi]
      have hvalue : cellAt input.tgtRows[r] (input.tgtColumns.idxOf input.srcColumns[i])
          = input.tgtRows[r][input.tgtColumns.idxOf input.srcColumns[i]] := by
        simp [cellAt, List.getD_eq_getElem?_getD, List.getElem?_eq_getElem hplace]
      rw [Bool.eq_iff_iff, decide_eq_true_eq, horder, hcell, Bool.and_eq_true,
        Bool.not_eq_true', hvalue]
      exact and_congr_left' decide_eq_true_iff.symm

theorem Ready.target_cells {input : CompareInput} {p : Prepared} (h : Ready input p) :
  p.target.map Item.cells
    = input.target.contents.map (reorder input.tgtColumns input.srcColumns)
  := by
  obtain ⟨binary, hbinary, htarget⟩ := h.target
  rw [htarget]
  exact targetItem_cells h.columns hbinary

end Workbench
