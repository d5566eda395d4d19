import Catio.Workbench.CompareTables.Contents

/-!
# The statements of a difference

What the statements of a difference do to the rows of the target, whatever the order of its columns
is.
-/

namespace Workbench

open JavaScript

/-! ### Statements -/

def holdsKey (columns : List Text) (key : List (Text × Cell)) (row : List Cell) : Bool :=
  key.all fun (name, cell) => (cellOf row (columns.idxOf name)).keyForm = cell.keyForm

def setCells (columns : List Text) (values : List (Text × Cell)) (row : List Cell) : List Cell :=
  List.zipWith (fun name cell => (values.lookup name).getD cell) columns row

/-- Do what a statement says to the rows of a table. -/
def SyncStatement.run (columns : List Text) (rows : List (List Cell)) :
    SyncStatement → List (List Cell)
  | .insert values =>
      rows ++ [columns.map fun name => (values.lookup name).getD ⟨.null, false⟩]
  | .update values key =>
      rows.map fun row => if holdsKey columns key row then setCells columns values row else row
  | .delete key => rows.filter fun row => !holdsKey columns key row

/-- The target after the statements of a difference. -/
def synchronized (input : CompareInput) (diff : CompareDiff) : Table :=
  Table.ofContents input.tgtColumns
    ((genSyncStatements diff true).foldl (SyncStatement.run input.tgtColumns)
      input.target.contents)

/-! ### Order of columns -/

section Reorder

variable {fromColumns toColumns : List Text} {row : List Cell}

theorem cellOf_reorder {name : Text} (h : name ∈ toColumns) :
  cellOf (reorder fromColumns toColumns row) (toColumns.idxOf name)
    = cellOf row (fromColumns.idxOf name)
  := by
  have hplace : toColumns.idxOf name < toColumns.length := List.idxOf_lt_length_of_mem h
  simp [cellOf, reorder, List.getD_eq_getElem?_getD, hplace, List.getElem_idxOf]

theorem holdsKey_reorder {key : List (Text × Cell)} (h : ∀ v ∈ key, v.1 ∈ toColumns) :
  holdsKey toColumns key (reorder fromColumns toColumns row) = holdsKey fromColumns key row
  := by
  unfold holdsKey
  rw [Bool.eq_iff_iff, List.all_eq_true, List.all_eq_true]
  apply forall₂_congr
  rintro ⟨name, cell⟩ hv
  dsimp only
  rw [cellOf_reorder (h _ hv)]

theorem reorder_setCells (values : List (Text × Cell)) (hlength : row.length = fromColumns.length)
    (h : ∀ name ∈ toColumns, name ∈ fromColumns) :
  reorder fromColumns toColumns (setCells fromColumns values row)
    = setCells toColumns values (reorder fromColumns toColumns row)
  := by
  apply List.ext_getElem
  · simp [reorder, setCells]
  · intro c hc hc'
    have hc : c < toColumns.length := by simpa [reorder] using hc
    have hplace : fromColumns.idxOf toColumns[c] < fromColumns.length :=
      List.idxOf_lt_length_of_mem (h _ (List.getElem_mem hc))
    simp [reorder, setCells, cellOf, List.getD_eq_getElem?_getD, List.getElem?_zipWith, hplace,
      hlength, List.getElem_idxOf]

theorem length_run {rows : List (List Cell)} {columns : List Text} (st : SyncStatement)
    (h : ∀ row ∈ rows, row.length = columns.length) :
  ∀ row ∈ st.run columns rows, row.length = columns.length
  := by
  cases st with
  | insert values =>
    intro row hrow
    obtain hrow | hrow := List.mem_append.mp hrow
    · exact h row hrow
    · rw [List.mem_singleton.mp hrow, List.length_map]
  | update values key =>
    intro row hrow
    obtain ⟨old, hold, rfl⟩ := List.mem_map.mp hrow
    split
    · simp [setCells, h old hold]
    · exact h old hold
  | delete key =>
    intro row hrow
    exact h row (List.mem_of_mem_filter hrow)

def SyncStatement.keyNames : SyncStatement → List Text
  | .insert _ => []
  | .update _ key => key.map Prod.fst
  | .delete key => key.map Prod.fst

theorem map_reorder_run {rows : List (List Cell)} {st : SyncStatement}
    (h : ∀ name ∈ toColumns, name ∈ fromColumns)
    (hrows : ∀ row ∈ rows, row.length = fromColumns.length)
    (hkey : ∀ name ∈ st.keyNames, name ∈ toColumns) :
  (st.run fromColumns rows).map (reorder fromColumns toColumns)
    = st.run toColumns (rows.map (reorder fromColumns toColumns))
  := by
  cases st with
  | insert values =>
    have hnew : reorder fromColumns toColumns
          (fromColumns.map fun name => (values.lookup name).getD ⟨.null, false⟩)
        = toColumns.map fun name => (values.lookup name).getD ⟨.null, false⟩ := by
      apply List.map_congr_left
      intro name hname
      have hplace : fromColumns.idxOf name < fromColumns.length :=
        List.idxOf_lt_length_of_mem (h name hname)
      simp [cellOf, List.getD_eq_getElem?_getD, hplace, List.getElem_idxOf]
    simp [SyncStatement.run, hnew]
  | update values key =>
    have hnames : ∀ v ∈ key, v.1 ∈ toColumns := fun v hv => hkey _ (List.mem_map_of_mem hv)
    simp only [SyncStatement.run, List.map_map]
    apply List.map_congr_left
    intro row hrow
    simp only [Function.comp_apply, holdsKey_reorder hnames]
    split
    · exact reorder_setCells values (hrows row hrow) h
    · rfl
  | delete key =>
    have hnames : ∀ v ∈ key, v.1 ∈ toColumns := fun v hv => hkey _ (List.mem_map_of_mem hv)
    simp only [SyncStatement.run, List.filter_map]
    congr 1
    apply List.filter_congr
    intro row hrow
    simp only [Function.comp_apply, holdsKey_reorder hnames]

theorem map_reorder_foldl {rows : List (List Cell)} {sts : List SyncStatement}
    (h : ∀ name ∈ toColumns, name ∈ fromColumns)
    (hrows : ∀ row ∈ rows, row.length = fromColumns.length)
    (hkey : ∀ st ∈ sts, ∀ name ∈ st.keyNames, name ∈ toColumns) :
  (sts.foldl (SyncStatement.run fromColumns) rows).map (reorder fromColumns toColumns)
      = sts.foldl (SyncStatement.run toColumns) (rows.map (reorder fromColumns toColumns))
    ∧ ∀ row ∈ sts.foldl (SyncStatement.run fromColumns) rows, row.length = fromColumns.length
  := by
  induction sts generalizing rows with
  | nil => exact ⟨rfl, hrows⟩
  | cons st sts ih =>
    rw [List.foldl_cons, List.foldl_cons,
      ← map_reorder_run h hrows (hkey st (List.mem_cons_self ..))]
    exact ih (length_run st hrows) fun st hst => hkey st (List.mem_cons_of_mem _ hst)

end Reorder

/-! ### Rows that are compared -/

/-- A row can be compared: what is binary in it is so, and its key tells it apart. -/
structure GoodRow (width : ℕ) (keys : List ℕ) (row : List Cell) : Prop where
  length : row.length = width
  binary : ∀ cell ∈ row, cell.binary → validBinaryHex cell.value
  safe : ∀ i ∈ keys, unsafeKey (cellOf row i).value = false

theorem binary_contents {t : Table} (h : ∀ cell ∈ t.binaryCells, GoodPlace t.rows t.columns cell) :
  ∀ row ∈ t.contents, ∀ cell ∈ row, cell.binary → validBinaryHex cell.value
  := by
  intro row hrow cell hcell hbinary
  obtain ⟨r, hr, rfl⟩ := List.mem_mapIdx.mp hrow
  obtain ⟨c, hc, rfl⟩ := List.mem_mapIdx.mp hcell
  rw [Bool.and_eq_true, decide_eq_true_iff, Bool.not_eq_true'] at hbinary
  obtain ⟨hmem, hnull⟩ := hbinary
  obtain ⟨r', c', hplace, _, _, hvalue⟩ := h _ hmem
  obtain ⟨hrow, hcolumn⟩ := Prod.mk.inj hplace
  obtain rfl := Nat.cast_inj.mp hrow
  obtain rfl := Nat.cast_inj.mp hcolumn
  have hcellAt : cellAt (t.rows.getD r []) c = t.rows[r][c] := by
    simp [cellAt, List.getD_eq_getElem?_getD, hr, hc]
  rw [hcellAt, hnull] at hvalue
  exact hvalue.resolve_left (by simp)

variable {input : CompareInput} {row : List Cell} {items : List Item} {p : Prepared}
    {keys : List ℕ}

theorem binary_reorder {fromColumns toColumns : List Text}
    (h : ∀ cell ∈ row, cell.binary → validBinaryHex cell.value) :
  ∀ cell ∈ reorder fromColumns toColumns row, cell.binary → validBinaryHex cell.value
  := by
  intro cell hcell hbinary
  obtain ⟨name, _, rfl⟩ := List.mem_map.mp hcell
  unfold cellOf at hbinary ⊢
  rw [List.getD_eq_getElem?_getD] at hbinary ⊢
  cases hplace : row[fromColumns.idxOf name]? with
  | none =>
    rw [hplace] at hbinary
    cases hbinary
  | some cell =>
    rw [hplace] at hbinary
    exact h cell (List.mem_of_getElem? hplace) hbinary

theorem Ready.key_lt (h : Ready input p) :
  ∀ i ∈ p.keys, i < input.srcColumns.length
  := by
  intro i hi
  rw [h.keys] at hi
  obtain ⟨name, hname, rfl⟩ := List.mem_map.mp hi
  exact List.idxOf_lt_length_of_mem (h.pk_mem name hname)

theorem Ready.row_length (h : Ready input p) :
  ∀ item ∈ p.source ++ p.target, item.row.length = input.srcColumns.length
  := by
  obtain ⟨_, _, _, _, hrows, _⟩ := columnsMismatch_eq_false.mp h.columns
  intro item hitem
  obtain hitem | hitem := List.mem_append.mp hitem
  · obtain ⟨binary, _, hsource⟩ := h.source
    rw [hsource] at hitem
    obtain ⟨r, hr, rfl⟩ := List.getElem_of_mem hitem
    rw [List.getElem_zipWith]
    exact hrows _ (List.getElem_mem _)
  · obtain ⟨binary, _, htarget⟩ := h.target
    rw [htarget] at hitem
    obtain ⟨r, hr, rfl⟩ := List.getElem_of_mem hitem
    rw [List.getElem_zipWith]
    simp [targetItem]

theorem Ready.good (h : Ready input p) :
  ∀ item ∈ p.source ++ p.target, GoodRow input.srcColumns.length p.keys item.cells
  := by
  intro item hitem
  have hlength := h.row_length item hitem
  constructor
  · rw [length_cells, hlength]
  · obtain hitem | hitem := List.mem_append.mp hitem
    · obtain ⟨_, hbinary, _⟩ := h.source
      obtain ⟨_, hgood, _⟩ := binaryRows_eq_some hbinary
      apply binary_contents (t := input.source) hgood
      rw [← h.source_cells]
      exact List.mem_map_of_mem hitem
    · obtain ⟨_, hbinary, _⟩ := h.target
      obtain ⟨_, hgood, _⟩ := binaryRows_eq_some hbinary
      have hcells := List.mem_map_of_mem (f := Item.cells) hitem
      rw [h.target_cells] at hcells
      obtain ⟨row, hrow, heq⟩ := List.mem_map.mp hcells
      rw [← heq]
      exact binary_reorder (binary_contents (t := input.target) hgood row hrow)
  · intro i hi
    rw [cellOf_cells (hlength ▸ h.key_lt i hi)]
    exact h.safe item hitem i hi

theorem Ready.rowKey (h : Ready input p) :
  ∀ item ∈ p.source ++ p.target,
    Workbench.rowKey item p.keys = keysText (keyOf p.keys item.cells)
  := by
  intro item hitem
  apply rowKey_eq
  intro i hi
  rw [h.row_length item hitem]
  exact h.key_lt i hi

theorem nodup_keyOf
    (h : ∀ item ∈ items, Workbench.rowKey item keys = keysText (keyOf keys item.cells)) :
  (items.map fun item => rowKey item keys).Nodup
    ↔ (items.map fun item => keyOf keys item.cells).Nodup
  := by
  have heq : items.map (fun item => rowKey item keys)
      = (items.map fun item => keyOf keys item.cells).map keysText := by
    rw [List.map_map]
    exact List.map_congr_left h
  rw [heq, List.nodup_map_iff keysText_injective]

/-! ### Where a row belongs -/

theorem lookup_byKey (keys : List ℕ) (target : List Item) (key : Text) :
  (target.map fun item => (rowKey item keys, item)).lookup key
    = target.find? fun item => rowKey item keys = key
  := by
  induction target with
  | nil => rfl
  | cons item target ih =>
    rw [List.map_cons, List.lookup_cons, List.find?_cons, ih]
    by_cases hkey : rowKey item keys = key
    · simp [hkey]
    · have hne : (key == rowKey item keys) = false := beq_false_of_ne (Ne.symm hkey)
      simp [hkey, hne]

section Parts

variable {input : CompareInput} {p : Prepared}

theorem Ready.isNew_iff (h : Ready input p) {s : Item} (hs : s ∈ p.source) :
  isNew p s ↔ ∀ t ∈ p.target, keyOf p.keys t.cells ≠ keyOf p.keys s.cells
  := by
  unfold isNew byKey
  rw [lookup_byKey, Option.isNone_iff_eq_none, List.find?_eq_none]
  apply forall₂_congr
  intro t ht
  rw [decide_eq_true_eq, h.rowKey t (List.mem_append_right _ ht),
    h.rowKey s (List.mem_append_left _ hs), keysText_injective.eq_iff]

theorem Ready.isGone_iff (h : Ready input p) {t : Item} (ht : t ∈ p.target) :
  isGone p t ↔ ∀ s ∈ p.source, keyOf p.keys s.cells ≠ keyOf p.keys t.cells
  := by
  unfold isGone
  rw [decide_eq_true_eq, List.mem_map, not_exists]
  apply forall_congr'
  intro s
  rw [not_and]
  apply imp_congr_right
  intro hs
  rw [h.rowKey t (List.mem_append_right _ ht), h.rowKey s (List.mem_append_left _ hs),
    keysText_injective.eq_iff]

theorem Ready.isChanged_iff (h : Ready input p)
    (hnodup : (p.target.map fun item => keyOf p.keys item.cells).Nodup) {s t : Item}
    (hs : s ∈ p.source) (ht : t ∈ p.target) (hkey : keyOf p.keys t.cells = keyOf p.keys s.cells) :
  isChanged input.srcColumns.length p s
    ↔ ∃ c < input.srcColumns.length, sameCell (cellOf s.cells c) (cellOf t.cells c) = false
  := by
  have hlookup : (byKey p).lookup (Workbench.rowKey s p.keys) = some t := by
    unfold byKey
    rw [lookup_byKey]
    have hsome : (p.target.find? fun item =>
        Workbench.rowKey item p.keys = Workbench.rowKey s p.keys).isSome := by
      rw [List.find?_isSome]
      refine ⟨t, ht, ?_⟩
      rw [decide_eq_true_eq, h.rowKey t (List.mem_append_right _ ht),
        h.rowKey s (List.mem_append_left _ hs), hkey]
    obtain ⟨found, hfound⟩ := Option.isSome_iff_exists.mp hsome
    have hmem := List.mem_of_find?_eq_some hfound
    have hsame := List.find?_some hfound
    rw [decide_eq_true_eq, h.rowKey found (List.mem_append_right _ hmem),
      h.rowKey s (List.mem_append_left _ hs), keysText_injective.eq_iff, ← hkey] at hsame
    rw [hfound, List.inj_on_of_nodup_map hnodup hmem ht hsame]
  unfold isChanged
  rw [hlookup, Option.any_some, List.any_eq_true]
  apply exists_congr
  intro c
  rw [List.mem_range]
  apply and_congr_right
  intro hc
  rw [cellChanged_eq, Bool.not_eq_true']
  · rw [h.row_length s (List.mem_append_left _ hs)]
    exact hc
  · rw [h.row_length t (List.mem_append_right _ ht)]
    exact hc

theorem Ready.exists_of_isChanged (h : Ready input p) {s : Item} (hs : s ∈ p.source)
    (hchanged : isChanged input.srcColumns.length p s) :
  ∃ t ∈ p.target, keyOf p.keys t.cells = keyOf p.keys s.cells
  := by
  by_contra hnone
  have hnew : isNew p s := by
    rw [h.isNew_iff hs]
    intro t ht hkey
    exact hnone ⟨t, ht, hkey⟩
  unfold isNew at hnew
  unfold isChanged at hchanged
  rw [Option.isNone_iff_eq_none] at hnew
  rw [hnew] at hchanged
  cases hchanged

end Parts

/-! ### What the statements do -/

/-- The values of a row by the names of the columns. -/
def Item.named (columns : List Text) (item : Item) : List (Text × Cell) :=
  namedCells columns item.row fun c => c ∈ item.binary

/-- The values of a row in the columns of the key. -/
def Item.whereCells (columns pkNames : List Text) (item : Item) : List (Text × Cell) :=
  pkNames.map fun name =>
    (name, ⟨cellAt item.row (columns.idxOf name), columns.idxOf name ∈ item.binary⟩)

/-- The values that an update sets. -/
def Item.values (columns pkNames : List Text) (item : Item) : List (Text × Cell) :=
  (item.named columns).filter fun v => v.1 ∉ pkNames

theorem mem_marks {r c : ℕ} (hr : r < items.length) :
  (r, c) ∈ marks items ↔ c ∈ items[r].binary
  := by
  simp only [marks, List.mem_flatten, List.mem_mapIdx]
  constructor
  · rintro ⟨_, ⟨r', hr', rfl⟩, hmark⟩
    obtain ⟨c', hc', heq⟩ := List.mem_map.mp hmark
    obtain ⟨rfl, rfl⟩ := Prod.mk.inj heq
    exact hc'
  · intro hc
    exact ⟨_, ⟨r, hr, rfl⟩, List.mem_map_of_mem hc⟩

theorem mapIdx_marks {α : Type} (f : List Value → (ℕ → Bool) → α) (items : List Item) :
  (items.map Item.row).mapIdx (fun r row => f row fun c => decide ((r, c) ∈ marks items))
    = items.map fun item => f item.row fun c => decide (c ∈ item.binary)
  := by
  apply List.ext_getElem
  · simp
  · intro r hr hr'
    have hr : r < items.length := by simpa using hr'
    simp [mem_marks hr]

theorem mapIdx_map {α β γ : Type} (f : α → β) (g : ℕ → β → γ) (l : List α) :
  (l.map f).mapIdx g = l.mapIdx fun i a => g i (f a)
  := by
  apply List.ext_getElem
  · simp
  · intro i hi hi'
    simp

theorem CompareDiff.Consists.genSyncStatements_eq {diff : CompareDiff}
    {inserted updated deleted : List Item} (hp : Ready input p)
    (h : diff.Consists input inserted updated deleted) :
  genSyncStatements diff true
    = inserted.map (fun item => SyncStatement.insert (item.named input.srcColumns))
      ++ (updated.filterMap fun item =>
        if item.values input.srcColumns input.pkNames = [] then none
        else some (SyncStatement.update (item.values input.srcColumns input.pkNames)
          (item.whereCells input.srcColumns input.pkNames)))
      ++ deleted.map fun item =>
        SyncStatement.delete (item.whereCells input.srcColumns input.pkNames)
  := by
  have hcheck : ¬(diff.pkNames = [] ∨ diff.pkNames.any (· ∉ diff.colNames)) := by
    rw [h.pkNames, h.colNames, not_or]
    refine ⟨hp.pk_ne, ?_⟩
    simpa using hp.pk_mem
  have hinserts : (diff.inserts.mapIdx fun r row =>
        SyncStatement.insert (namedCells diff.colNames row fun c =>
          (r, c) ∈ diff.binary.inserts))
      = inserted.map fun item => SyncStatement.insert (item.named input.srcColumns) := by
    rw [h.inserts, h.binaryInserts, h.colNames]
    exact mapIdx_marks (fun row binary =>
      SyncStatement.insert (namedCells input.srcColumns row binary)) inserted
  have hdeletes : (diff.deletes.mapIdx fun r row =>
        SyncStatement.delete (whereCells diff row fun c => (r, c) ∈ diff.binary.deletes))
      = deleted.map fun item =>
        SyncStatement.delete (item.whereCells input.srcColumns input.pkNames) := by
    rw [h.deletes, h.binaryDeletes]
    unfold whereCells Item.whereCells
    rw [h.colNames, h.pkNames]
    exact mapIdx_marks (fun row binary => SyncStatement.delete (input.pkNames.map fun name =>
      (name, ⟨cellAt row (input.srcColumns.idxOf name),
        binary (input.srcColumns.idxOf name)⟩))) deleted
  have hupdates : (diff.updates.mapIdx fun r u =>
        if ((namedCells diff.colNames u.src fun c => decide ((r, c) ∈ diff.binary.updates)).filter
            fun v => v.1 ∉ diff.pkNames) = [] then none
        else some (SyncStatement.update
          ((namedCells diff.colNames u.src fun c =>
            decide ((r, c) ∈ diff.binary.updates)).filter fun v => v.1 ∉ diff.pkNames)
          (whereCells diff u.src fun c => decide ((r, c) ∈ diff.binary.updates))))
      = updated.map fun item =>
        if item.values input.srcColumns input.pkNames = [] then none
        else some (SyncStatement.update (item.values input.srcColumns input.pkNames)
          (item.whereCells input.srcColumns input.pkNames)) := by
    unfold whereCells Item.whereCells Item.values Item.named
    rw [h.colNames, h.pkNames, h.binaryUpdates]
    rw [← mapIdx_marks (fun row binary =>
      if ((namedCells input.srcColumns row binary).filter fun v => v.1 ∉ input.pkNames) = [] then
        none
      else some (SyncStatement.update
        ((namedCells input.srcColumns row binary).filter fun v => v.1 ∉ input.pkNames)
        (input.pkNames.map fun name =>
          (name, ⟨cellAt row (input.srcColumns.idxOf name),
            binary (input.srcColumns.idxOf name)⟩)))) updated, ← h.updates, mapIdx_map]
  unfold genSyncStatements
  rw [if_neg hcheck]
  simp only [hinserts, hdeletes, hupdates, List.filterMap_map, ↓reduceIte]
  rfl

theorem lookup_of_mem {l : List (Text × Cell)} {name : Text} {cell : Cell}
    (hnodup : (l.map Prod.fst).Nodup) (h : (name, cell) ∈ l) :
  l.lookup name = some cell
  := by
  induction l with
  | nil => cases h
  | cons first l ih =>
    obtain ⟨other, value⟩ := first
    rw [List.map_cons, List.nodup_cons] at hnodup
    rw [List.lookup_cons]
    obtain heq | hmem := List.mem_cons.mp h
    · obtain ⟨rfl, rfl⟩ := Prod.mk.inj heq
      rw [beq_self_eq_true]
    · have hne : name ≠ other := by
        rintro rfl
        exact hnodup.1 (List.mem_map.mpr ⟨_, hmem, rfl⟩)
      rw [beq_false_of_ne hne]
      exact ih hnodup.2 hmem

section Rows

variable {columns pkNames : List Text} {item : Item} {row : List Cell}

theorem getElem_mem_named (hlength : item.row.length = columns.length) {c : ℕ}
    (hc : c < columns.length) :
  (columns[c], cellOf item.cells c) ∈ item.named columns
  := by
  rw [cellOf_cells (hlength ▸ hc)]
  exact List.mem_mapIdx.mpr ⟨c, hc, rfl⟩

theorem map_fst_named (columns : List Text) (item : Item) :
  (item.named columns).map Prod.fst = columns
  := by
  apply List.ext_getElem
  · simp [Item.named, namedCells]
  · intro c hc hc'
    simp [Item.named, namedCells]

theorem insert_named (hnodup : columns.Nodup) (hlength : item.row.length = columns.length) :
  columns.map (fun name => ((item.named columns).lookup name).getD ⟨.null, false⟩) = item.cells
  := by
  apply List.ext_getElem
  · rw [List.length_map, length_cells, hlength]
  · intro c hc hc'
    have hc : c < columns.length := by simpa using hc
    have hnames : ((item.named columns).map Prod.fst).Nodup := by rwa [map_fst_named]
    rw [List.getElem_map, lookup_of_mem hnames (getElem_mem_named hlength hc), Option.getD_some]
    simp [cellOf, List.getD_eq_getElem?_getD, hc']

theorem holdsKey_whereCells (hlength : item.row.length = columns.length)
    (hmem : ∀ name ∈ pkNames, name ∈ columns) :
  holdsKey columns (item.whereCells columns pkNames) row
    ↔ keyOf (pkNames.map fun name => columns.idxOf name) row
      = keyOf (pkNames.map fun name => columns.idxOf name) item.cells
  := by
  unfold holdsKey Item.whereCells keyOf
  rw [List.all_map, List.all_eq_true, List.map_map, List.map_map, List.map_inj_left]
  apply forall₂_congr
  intro name hname
  have hplace : columns.idxOf name < item.row.length :=
    hlength ▸ List.idxOf_lt_length_of_mem (hmem name hname)
  simp only [Function.comp_apply, decide_eq_true_eq, cellOf_cells hplace]

/-- The values of one row in the columns of a key, and of another in the other columns. -/
def mixed (keys : List ℕ) (row other : List Cell) : List Cell :=
  row.mapIdx fun c cell => if c ∈ keys then cell else cellOf other c

theorem cellOf_mixed {keys : List ℕ} {other : List Cell} {c : ℕ} (h : c < row.length) :
  cellOf (mixed keys row other) c = if c ∈ keys then cellOf row c else cellOf other c
  := by
  simp [mixed, cellOf, List.getD_eq_getElem?_getD, h]

theorem keyOf_mixed {keys : List ℕ} {other : List Cell} (h : ∀ i ∈ keys, i < row.length) :
  keyOf keys (mixed keys row other) = keyOf keys row
  := by
  apply List.map_congr_left
  intro i hi
  rw [cellOf_mixed (h i hi), if_pos hi]

theorem mem_keys (hnodup : columns.Nodup) {c : ℕ} (hc : c < columns.length) :
  c ∈ (pkNames.map fun name => columns.idxOf name) ↔ columns[c] ∈ pkNames
  := by
  rw [List.mem_map]
  constructor
  · rintro ⟨name, hname, rfl⟩
    rwa [List.getElem_idxOf]
  · intro hname
    exact ⟨columns[c], hname, hnodup.idxOf_getElem c hc⟩

theorem setCells_values (hnodup : columns.Nodup) (hlength : item.row.length = columns.length)
    (hrow : row.length = columns.length) :
  setCells columns (item.values columns pkNames) row
    = mixed (pkNames.map fun name => columns.idxOf name) row item.cells
  := by
  apply List.ext_getElem
  · simp [setCells, mixed, hrow]
  · intro c hc hc'
    have hc : c < columns.length := by simpa [setCells, hrow] using hc
    simp only [setCells, mixed, List.getElem_zipWith, List.getElem_mapIdx,
      mem_keys hnodup hc]
    split
    · rename_i hkey
      have hnone : (item.values columns pkNames).lookup columns[c] = none := by
        rw [List.lookup_eq_none_iff]
        intro v hv
        rw [bne_iff_ne]
        intro heq
        have hother : v.1 ∉ pkNames := by simpa using (List.mem_filter.mp hv).2
        exact hother (heq ▸ hkey)
      rw [hnone]
      rfl
    · rename_i hkey
      have hnames : ((item.values columns pkNames).map Prod.fst).Nodup := by
        apply List.Nodup.sublist (List.Sublist.map _ List.filter_sublist)
        rwa [map_fst_named]
      have hvalue : (columns[c], cellOf item.cells c) ∈ item.values columns pkNames :=
        List.mem_filter.mpr ⟨getElem_mem_named hlength hc, by simpa using hkey⟩
      rw [lookup_of_mem hnames hvalue, Option.getD_some]

end Rows

/-! ### Runs of statements -/

def updateRow (keys : List ℕ) (row : List Cell) (item : Item) : List Cell :=
  if keyOf keys row = keyOf keys item.cells then mixed keys row item.cells else row

theorem setCells_nil {columns : List Text} (h : row.length = columns.length) :
  setCells columns [] row = row
  := by
  apply List.ext_getElem
  · simp [setCells, h]
  · intro c hc hc'
    simp [setCells]

section Runs

variable {columns pkNames : List Text}

theorem foldl_inserts (hnodup : columns.Nodup) {items : List Item}
    (hitems : ∀ item ∈ items, item.row.length = columns.length) (rows : List (List Cell)) :
  (items.map fun item => SyncStatement.insert (item.named columns)).foldl
      (SyncStatement.run columns) rows
    = rows ++ items.map Item.cells
  := by
  induction items generalizing rows with
  | nil => simp
  | cons item items ih =>
    have hitem := insert_named hnodup (hitems item (List.mem_cons_self ..))
    rw [List.map_cons, List.foldl_cons, ih fun i hi => hitems i (List.mem_cons_of_mem _ hi)]
    simp [SyncStatement.run, hitem]

theorem foldl_deletes {items : List Item}
    (hitems : ∀ item ∈ items, item.row.length = columns.length)
    (hmem : ∀ name ∈ pkNames, name ∈ columns) (rows : List (List Cell)) :
  (items.map fun item => SyncStatement.delete (item.whereCells columns pkNames)).foldl
      (SyncStatement.run columns) rows
    = rows.filter fun row => items.all fun item =>
      keyOf (pkNames.map fun name => columns.idxOf name) row
        ≠ keyOf (pkNames.map fun name => columns.idxOf name) item.cells
  := by
  induction items generalizing rows with
  | nil => simp
  | cons item items ih =>
    have hlength := hitems item (List.mem_cons_self ..)
    rw [List.map_cons, List.foldl_cons, ih fun i hi => hitems i (List.mem_cons_of_mem _ hi)]
    simp only [SyncStatement.run, List.filter_filter]
    apply List.filter_congr
    intro row _
    rw [List.all_cons, Bool.and_comm]
    congr 1
    rw [Bool.eq_iff_iff, Bool.not_eq_true', ← Bool.not_eq_true,
      holdsKey_whereCells hlength hmem, decide_eq_true_iff]

theorem foldl_updates (hnodup : columns.Nodup) {items : List Item}
    (hitems : ∀ item ∈ items, item.row.length = columns.length)
    (hmem : ∀ name ∈ pkNames, name ∈ columns) {rows : List (List Cell)}
    (hrows : ∀ row ∈ rows, row.length = columns.length) :
  (items.filterMap fun item =>
      if item.values columns pkNames = [] then none
      else some (SyncStatement.update (item.values columns pkNames)
        (item.whereCells columns pkNames))).foldl (SyncStatement.run columns) rows
    = rows.map fun row => items.foldl (updateRow (pkNames.map fun name => columns.idxOf name)) row
  := by
  induction items generalizing rows with
  | nil => simp
  | cons item items ih =>
    have hlength := hitems item (List.mem_cons_self ..)
    have hrest := fun i hi => hitems i (List.mem_cons_of_mem _ hi)
    have hstep : rows.map (fun row =>
          if holdsKey columns (item.whereCells columns pkNames) row then
            setCells columns (item.values columns pkNames) row else row)
        = rows.map fun row => updateRow (pkNames.map fun name => columns.idxOf name) row item := by
      apply List.map_congr_left
      intro row hrow
      rw [setCells_values hnodup hlength (hrows row hrow)]
      unfold updateRow
      simp only [holdsKey_whereCells hlength hmem]
    have hsplit : rows.map (fun row => (item :: items).foldl
          (updateRow (pkNames.map fun name => columns.idxOf name)) row)
        = (rows.map fun row => updateRow (pkNames.map fun name => columns.idxOf name) row
            item).map fun row =>
          items.foldl (updateRow (pkNames.map fun name => columns.idxOf name)) row := by
      rw [List.map_map]
      rfl
    rw [List.filterMap_cons, hsplit, ← hstep]
    by_cases hvalues : item.values columns pkNames = []
    · have hnothing : rows.map (fun row =>
          if holdsKey columns (item.whereCells columns pkNames) row then
            setCells columns (item.values columns pkNames) row else row) = rows := by
        rw [hvalues, List.map_congr_left (g := id), List.map_id]
        intro row hrow
        rw [setCells_nil (hrows row hrow), ite_self, id]
      rw [hnothing, if_pos hvalues]
      exact ih hrest hrows
    · rw [if_neg hvalues, List.foldl_cons]
      exact ih hrest (length_run (.update (item.values columns pkNames)
        (item.whereCells columns pkNames)) hrows)

end Runs

theorem foldl_updateRow (items : List Item) (h : ∀ i ∈ keys, i < row.length) :
  keyOf keys (items.foldl (updateRow keys) row) = keyOf keys row
    ∧ (items.foldl (updateRow keys) row).length = row.length
  := by
  induction items generalizing row with
  | nil => exact ⟨rfl, rfl⟩
  | cons item items ih =>
    have hlength : (updateRow keys row item).length = row.length := by
      unfold updateRow
      split
      · exact List.length_mapIdx
      · rfl
    have hkey : keyOf keys (updateRow keys row item) = keyOf keys row := by
      unfold updateRow
      split
      · exact keyOf_mixed h
      · rfl
    rw [← hkey, ← hlength]
    apply ih
    rwa [hlength]

theorem foldl_updateRow_of_ne (h : ∀ item ∈ items, keyOf keys row ≠ keyOf keys item.cells) :
  items.foldl (updateRow keys) row = row
  := by
  induction items with
  | nil => rfl
  | cons item items ih =>
    rw [List.foldl_cons, updateRow, if_neg (h item (List.mem_cons_self ..))]
    exact ih fun i hi => h i (List.mem_cons_of_mem _ hi)

theorem foldl_updateRow_of_mem {item : Item}
    (hnodup : (items.map fun item => keyOf keys item.cells).Nodup)
    (hlength : ∀ i ∈ keys, i < row.length) (hitem : item ∈ items)
    (hkey : keyOf keys row = keyOf keys item.cells) :
  items.foldl (updateRow keys) row = mixed keys row item.cells
  := by
  induction items with
  | nil => cases hitem
  | cons first items ih =>
    rw [List.map_cons, List.nodup_cons] at hnodup
    rw [List.foldl_cons, updateRow]
    obtain rfl | hitem := List.mem_cons.mp hitem
    · rw [if_pos hkey]
      apply foldl_updateRow_of_ne
      intro other hother heq
      rw [keyOf_mixed hlength, hkey] at heq
      exact hnodup.1 (List.mem_map.mpr ⟨other, hother, heq.symm⟩)
    · rw [if_neg, ih hnodup.2 hitem]
      intro heq
      exact hnodup.1 (List.mem_map.mpr ⟨item, hitem, hkey.symm.trans heq⟩)

end Workbench
