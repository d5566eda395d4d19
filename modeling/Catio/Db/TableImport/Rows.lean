import Catio.Db.TableImport

/-!
# The rows of a file

No row of a file is lost on its way into the statements.  The parsed rows are those of the file,
up to the limit of the preview, and no field of a record is left out
(`parseImportBytesWithOptions_rows`); the statements hold every parsed row once, in order, by the
literals of its mapped cells (`buildImportInsertBatches_ok`).
-/

namespace Db

open Text Json

/-! ### Records -/

/-- A row holds the values of the fields of a record, and nothing else. -/
def CellsOf (o : ImportParseOptions) (record : List Text) (row : List Value) : Prop :=
  ∀ c : ℕ, row[c]?.getD .null = (record[c]?.map (importValue o)).getD .null

/-- The rows are those of the records from the first one with data on, up to the limit, and the
records are counted. -/
structure HoldsRecords (o : ImportParseOptions) (previewLimit : ℕ) (records : List (List Text))
    (rows : List (List Value)) (totalRows : ℕ) : Prop where
  rows : List.Forall₂ (CellsOf o)
    ((records.drop (o.dataStartRow.getD 0 - 1)).take previewLimit) rows
  total : totalRows = (records.drop (o.dataStartRow.getD 0 - 1)).length

theorem getElem?_paddedRow {α : Type} {width : ℕ} {cells : List α} (hwidth : cells.length ≤ width)
    (f : α → Value) (c : ℕ) :
  (paddedRow width f cells)[c]?.getD .null = (cells[c]?.map f).getD .null
  := by
  rw [paddedRow, List.getElem?_map]
  by_cases hc : c < width
  · rw [List.getElem?_range hc]
    rfl
  · have hrange : (List.range width)[c]? = none := by
      rw [List.getElem?_eq_none_iff, List.length_range]
      omega
    have hcells : cells[c]? = none := by
      rw [List.getElem?_eq_none_iff]
      omega
    rw [hrange, hcells]
    rfl

section

variable {o : ImportParseOptions} {previewLimit : ℕ}

theorem importRecord_ok {number : ℕ} {record : List Text} {s s' : ImportRows}
    (h : importRecord o previewLimit number record s = .ok s') :
  s'.totalRows = s.totalRows + 1 ∧ ∃ row, CellsOf o record row
    ∧ s'.rows = if s.rows.length < previewLimit then s.rows ++ [row] else s.rows
  := by
  simp only [importRecord] at h
  generalize (if o.headerRow = 0 ∧ s.columns = [] then (List.range record.length).map columnName
    else s.columns) = columns at h
  split at h
  · cases h
  · rename_i hwidth
    cases h
    refine ⟨rfl, paddedRow columns.length (importValue o) record, ?_, rfl⟩
    apply getElem?_paddedRow
    omega

theorem readRecord_ok {record : Except Text (List Text)} {index : ℕ} {s s' : ImportRows}
    (h : readRecord o previewLimit s (record, index) = .ok s') :
  ∃ fields, record = .ok fields
    ∧ (index + 1 < o.dataStartRow.getD 0 → s'.totalRows = s.totalRows ∧ s'.rows = s.rows)
    ∧ (o.dataStartRow.getD 0 ≤ index + 1 → s'.totalRows = s.totalRows + 1
      ∧ ∃ row, CellsOf o fields row
        ∧ s'.rows = if s.rows.length < previewLimit then s.rows ++ [row] else s.rows)
  := by
  simp only [readRecord] at h
  cases record with
  | error e => cases h
  | ok fields =>
    obtain ⟨columns, -, h⟩ := Result.bind_ok.mp h
    refine ⟨fields, rfl, ?_, ?_⟩
    · intro hbefore
      rw [if_pos hbefore] at h
      cases h
      exact ⟨rfl, rfl⟩
    · intro hdata
      rw [if_neg (by omega)] at h
      have hrecord := importRecord_ok h
      exact hrecord

theorem HoldsRecords.snoc {records : List (List Text)} {s s' : ImportRows}
    {record : Except Text (List Text)} (hs : HoldsRecords o previewLimit records s.rows s.totalRows)
    (h : readRecord o previewLimit s (record, records.length) = .ok s') :
  ∃ fields, record = .ok fields
    ∧ HoldsRecords o previewLimit (records ++ [fields]) s'.rows s'.totalRows
  := by
  obtain ⟨fields, rfl, hbefore, hdata⟩ := readRecord_ok h
  refine ⟨fields, rfl, ?_⟩
  obtain ⟨hrows, htotal⟩ := hs
  by_cases hstart : records.length + 1 < o.dataStartRow.getD 0
  · obtain ⟨htotal', hrows'⟩ := hbefore hstart
    have hold : records.drop (o.dataStartRow.getD 0 - 1) = [] := by
      rw [List.drop_eq_nil_iff]
      omega
    have hnew : (records ++ [fields]).drop (o.dataStartRow.getD 0 - 1) = [] := by
      rw [List.drop_eq_nil_iff, List.length_append, List.length_singleton]
      omega
    constructor
    · rw [hrows', hnew, ← hold]
      exact hrows
    · rw [htotal', htotal, hnew, hold]
  · obtain ⟨htotal', row, hrow, hrows'⟩ := hdata (by omega)
    have hnew : (records ++ [fields]).drop (o.dataStartRow.getD 0 - 1)
        = records.drop (o.dataStartRow.getD 0 - 1) ++ [fields] := by
      apply List.drop_append_of_le_length
      omega
    constructor
    · have hlength := hrows.length_eq
      rw [List.length_take] at hlength
      rw [hrows', hnew, List.take_append]
      split
      · rename_i hroom
        have hone : [fields].take
            (previewLimit - (records.drop (o.dataStartRow.getD 0 - 1)).length) = [fields] := by
          apply List.take_of_length_le
          rw [List.length_singleton]
          omega
        rw [hone]
        exact List.rel_append hrows (.cons hrow .nil)
      · rename_i hfull
        have hnone : previewLimit - (records.drop (o.dataStartRow.getD 0 - 1)).length = 0 := by
          omega
        rw [hnone, List.take_zero, List.append_nil]
        exact hrows
    · rw [htotal', htotal, hnew, List.length_append, List.length_singleton]

theorem HoldsRecords.run {rest : List (Except Text (List Text))} {records : List (List Text)}
    {s s' : ImportRows} (hs : HoldsRecords o previewLimit records s.rows s.totalRows)
    (h : (rest.zipIdx records.length).foldlM (readRecord o previewLimit) s = .ok s') :
  ∃ fields, rest = fields.map .ok
    ∧ HoldsRecords o previewLimit (records ++ fields) s'.rows s'.totalRows
  := by
  induction rest generalizing records s with
  | nil =>
    cases h
    exact ⟨[], rfl, by rwa [List.append_nil]⟩
  | cons record rest ih =>
    rw [List.zipIdx_cons, List.foldlM_cons] at h
    obtain ⟨s₁, hfirst, hrest⟩ := Result.bind_ok.mp h
    obtain ⟨fields, rfl, hs₁⟩ := hs.snoc hfirst
    have hlength : records.length + 1 = (records ++ [fields]).length := by simp
    rw [hlength] at hrest
    obtain ⟨more, rfl, hs'⟩ := ih hs₁ hrest
    refine ⟨fields :: more, rfl, ?_⟩
    rwa [List.append_assoc] at hs'

end

theorem parseImportBytesWithOptions_records {crates : Crates} {kind : ImportFileKind}
    {bytes : Bytes} {previewLimit : ℕ} {options : Option ImportParseOptions}
    {o : ImportParseOptions} {parsed : ParsedImportFile}
    (hoptions : resolveImportOptions kind options = .ok (some o))
    (h : parseImportBytesWithOptions crates kind bytes previewLimit options = .ok parsed) :
  ∃ records, crates.csvRecords ((o.delimiter.getD []).headD ',') bytes = records.map .ok
    ∧ HoldsRecords o previewLimit records parsed.rows parsed.totalRows
  := by
  obtain ⟨resolved, hresolved, h⟩ := Result.bind_ok.mp h
  rw [hoptions] at hresolved
  cases hresolved
  simp only at h
  split at h
  · cases h
  · obtain ⟨s, hs, h⟩ := Result.bind_ok.mp h
    have start : HoldsRecords o previewLimit [] ({} : ImportRows).rows
        ({} : ImportRows).totalRows := ⟨by simp, by simp⟩
    obtain ⟨records, hrecords, hholds⟩ := start.run hs
    split at h
    · cases h
    · cases h
      exact ⟨records, hrecords, hholds⟩

section

variable {crates : Crates} {bytes : Bytes} {previewLimit : ℕ} {parsed : ParsedImportFile}

theorem parseDelimitedBytes_length {delimiter : Char}
    (h : parseDelimitedBytes crates bytes delimiter previewLimit = .ok parsed) :
  parsed.rows.length = min previewLimit parsed.totalRows
  := by
  obtain ⟨headers, -, h⟩ := Result.bind_ok.mp h
  simp only at h
  split at h
  · cases h
  · obtain ⟨records, -, h⟩ := Result.bind_ok.mp h
    cases h
    simp

theorem parseTypedFile_length {data : TypedFile}
    (h : parseTypedFile data previewLimit = .ok parsed) :
  parsed.rows.length = min previewLimit parsed.totalRows
  := by
  unfold parseTypedFile at h
  split at h
  · cases h
  · obtain ⟨seen, -, h⟩ := Result.bind_ok.mp h
    cases h
    simp

theorem parseItems_length {items : List Value} (h : parseItems items previewLimit = .ok parsed) :
  parsed.rows.length = min previewLimit parsed.totalRows
  := by
  unfold parseItems at h
  split at h
  · cases h
  · split at h
    · rename_i objects hobjects
      simp only [parseObjects] at h
      split at h
      · cases h
      · cases h
        simp
    · rename_i arrays _ harrays
      simp only [parseArrays] at h
      split at h
      · cases h
      · cases h
        simp
    · cases h

theorem parseXlsxBytes_length (h : parseXlsxBytes crates bytes previewLimit = .ok parsed) :
  parsed.rows.length = min previewLimit parsed.totalRows
  := by
  obtain ⟨workbook, -, h⟩ := Result.bind_ok.mp h
  split at h
  · cases h
  · obtain ⟨range, -, h⟩ := Result.bind_ok.mp h
    split at h
    · cases h
    · simp only at h
      split at h
      · cases h
      · cases h
        simp

theorem parseImportBytes_length {kind : ImportFileKind}
    (h : parseImportBytes crates kind bytes previewLimit = .ok parsed) :
  parsed.rows.length = min previewLimit parsed.totalRows
  := by
  cases kind with
  | csv => exact parseDelimitedBytes_length h
  | tsv => exact parseDelimitedBytes_length h
  | json =>
    obtain ⟨value, -, h⟩ := Result.bind_ok.mp h
    split at h
    · obtain ⟨data, -, h⟩ := Result.bind_ok.mp h
      exact parseTypedFile_length h
    · obtain ⟨items, -, h⟩ := Result.bind_ok.mp h
      exact parseItems_length h
  | xlsx => exact parseXlsxBytes_length h

theorem parseImportBytesWithOptions_length {kind : ImportFileKind}
    {options : Option ImportParseOptions}
    (h : parseImportBytesWithOptions crates kind bytes previewLimit options = .ok parsed) :
  parsed.rows.length = min previewLimit parsed.totalRows
  := by
  obtain ⟨resolved, hresolved, hparsed⟩ := Result.bind_ok.mp h
  cases resolved with
  | none => exact parseImportBytes_length hparsed
  | some o =>
    obtain ⟨records, -, hrows, htotal⟩ := parseImportBytesWithOptions_records hresolved h
    rw [← hrows.length_eq, List.length_take, htotal]

end

/-! ### Mapped columns -/

/-- The columns that are not left out, in order, each with the first position of its source column,
and no target twice. -/
structure IsMapping (columns : List Text) (mappings : List ImportColumnMapping)
    (mapped : List (ℕ × Text)) : Prop where
  columns : List.Forall₂
    (fun mapping column => columns.findIdx? (· = mapping.sourceColumn) = some column.1
      ∧ column.2 = mapping.targetColumn)
    (mappings.filter fun mapping => !mapping.isSkipped) mapped
  nodup : (mapped.map Prod.snd).Nodup

theorem IsMapping.snoc {columns : List Text} {mappings : List ImportColumnMapping}
    {mapped mapped' : List (ℕ × Text)} {mapping : ImportColumnMapping}
    (hm : IsMapping columns mappings mapped)
    (h : resolveMapping columns mapped mapping = .ok mapped') :
  IsMapping columns (mappings ++ [mapping]) mapped'
  := by
  obtain ⟨hcolumns, hnodup⟩ := hm
  unfold resolveMapping at h
  split at h
  · rename_i hskipped
    cases h
    constructor
    · simpa [List.filter_append, hskipped] using hcolumns
    · exact hnodup
  · rename_i hmapped
    split at h
    · cases h
    · rename_i sourceIndex hindex
      split at h
      · cases h
      · rename_i hnew
        cases h
        constructor
        · rw [List.filter_append]
          apply List.rel_append hcolumns
          simp [hmapped, hindex]
        · rw [List.map_append, List.map_singleton, List.nodup_append]
          refine ⟨hnodup, by simp, ?_⟩
          intro target htarget other hother
          rw [List.mem_singleton] at hother
          rintro rfl
          rw [hother] at htarget
          exact hnew htarget

theorem IsMapping.run {columns : List Text} {rest mappings : List ImportColumnMapping}
    {mapped mapped' : List (ℕ × Text)} (hm : IsMapping columns mappings mapped)
    (h : rest.foldlM (resolveMapping columns) mapped = .ok mapped') :
  IsMapping columns (mappings ++ rest) mapped'
  := by
  induction rest generalizing mappings mapped with
  | nil =>
    cases h
    rwa [List.append_nil]
  | cons mapping rest ih =>
    rw [List.foldlM_cons] at h
    obtain ⟨mapped₁, hfirst, hrest⟩ := Result.bind_ok.mp h
    have hall := ih (hm.snoc hfirst) hrest
    rwa [List.append_assoc] at hall

variable {data : ParsedImportFile} {mapped : List (ℕ × Text)} {db : DatabaseType}
    {schema : Option Text} {table : Text}

theorem mappingIndexes_ok {mappings : List ImportColumnMapping}
    (h : mappingIndexes data mappings = .ok mapped) :
  IsMapping data.columns mappings mapped ∧ mapped ≠ []
  := by
  obtain ⟨mapped', hmapped, h⟩ := Result.bind_ok.mp h
  split at h
  · cases h
  · rename_i hne
    cases h
    have start : IsMapping data.columns [] [] := ⟨.nil, List.nodup_nil⟩
    exact ⟨start.run hmapped, hne⟩

/-! ### Statements -/

/-- The literals of the mapped cells of a row, in the order of the mapping. -/
def IsTuple (db : DatabaseType) (data : ParsedImportFile) (mapped : List (ℕ × Text))
    (numbered : List Value × ℕ) (tuple : Text) : Prop :=
  ∃ cells, tuple = "(" ++ join ", " cells ++ ")"
    ∧ List.Forall₂
      (fun column cell => sqlValue db (numbered.1[column.1]?.getD .null)
        ((numbered.2, column.1) ∈ data.binaryCells.getD []) = .ok cell)
      mapped cells

/-- The statement that writes tuples to a table. -/
def insertTuples (db : DatabaseType) (schema : Option Text) (table : Text)
    (mapped : List (ℕ × Text)) (tuples : List Text) : Text :=
  "INSERT INTO " ++ qualifiedTable db true schema table ++ " ("
    ++ join ", " (mapped.map fun (_, target) => quoteIdent db target) ++ ") VALUES "
    ++ join ", " tuples ++ ";"

theorem importRow_ok {numbered : List Value × ℕ} {tuple : Text}
    (h : importRow db data mapped numbered = .ok tuple) :
  IsTuple db data mapped numbered tuple
  := by
  obtain ⟨cells, hcells, h⟩ := Result.bind_ok.mp h
  cases h
  refine ⟨cells, rfl, ?_⟩
  apply (Result.mapM_ok.mp hcells).imp
  intro column cell hcell
  exact Result.mapError_ok.mp hcell

theorem importBatch_ok {chunk : List (List Value × ℕ)} {batch : ImportSqlBatch}
    (h : importBatch db true schema table data mapped chunk = .ok batch) :
  ∃ tuples, batch = ⟨insertTuples db schema table mapped tuples, chunk.length⟩
    ∧ List.Forall₂ (IsTuple db data mapped) chunk tuples
  := by
  obtain ⟨tuples, htuples, h⟩ := Result.bind_ok.mp h
  cases h
  refine ⟨tuples, rfl, ?_⟩
  apply (Result.mapM_ok.mp htuples).imp
  intro numbered tuple htuple
  exact importRow_ok htuple

theorem importBatches_ok {chunks : List (List (List Value × ℕ))} {batches : List ImportSqlBatch}
    (h : List.Forall₂ (fun chunk batch =>
      importBatch db true schema table data mapped chunk = .ok batch) chunks batches) :
  ∃ groups, List.Forall₂ (List.Forall₂ (IsTuple db data mapped)) chunks groups
    ∧ batches.map ImportSqlBatch.sql = groups.map (insertTuples db schema table mapped)
  := by
  induction h with
  | nil => exact ⟨[], .nil, rfl⟩
  | @cons chunk batch chunks batches hbatch _ ih =>
    obtain ⟨tuples, rfl, htuples⟩ := importBatch_ok hbatch
    obtain ⟨groups, hgroups, hsqls⟩ := ih
    refine ⟨tuples :: groups, .cons htuples hgroups, ?_⟩
    rw [List.map_cons, List.map_cons, hsqls]

/-- The statements write every row once, in order. -/
structure WritesRows (db : DatabaseType) (data : ParsedImportFile)
    (mappings : List ImportColumnMapping) (mapped : List (ℕ × Text)) (groups : List (List Text)) :
    Prop where
  mapping : IsMapping data.columns mappings mapped
  columns : mapped ≠ []
  rows : List.Forall₂ (IsTuple db data mapped) data.rows.zipIdx groups.flatten
  nonempty : ∀ group ∈ groups, group ≠ []

theorem buildImportInsertBatches_ok {mappings : List ImportColumnMapping} {batchSize : ℕ}
    {batches : List ImportSqlBatch}
    (h : buildImportInsertBatches db true schema table data mappings batchSize = .ok batches) :
  ∃ mapped groups, WritesRows db data mappings mapped groups
    ∧ batches.map ImportSqlBatch.sql = groups.map (insertTuples db schema table mapped)
  := by
  obtain ⟨mapped, hmapped, h⟩ := Result.bind_ok.mp h
  obtain ⟨hmapping, hne⟩ := mappingIndexes_ok hmapped
  have hbatch : 0 < max batchSize 1 := by omega
  have hbatches := Result.mapM_ok.mp h
  generalize hchunks : List.map _ (chunksOf (max batchSize 1) data.rows).zipIdx = chunks
  have hall : List.Forall₂ (fun chunk batch =>
      importBatch db true schema table data mapped chunk = .ok batch) chunks batches := by
    rw [← hchunks, List.forall₂_map_left_iff]
    exact hbatches
  obtain ⟨groups, hgroups, hsqls⟩ := importBatches_ok hall
  refine ⟨mapped, groups, ⟨hmapping, hne, ?_, ?_⟩, hsqls⟩
  · rw [← Chunks.flatten_chunksOf_zipIdx hbatch data.rows, hchunks]
    exact List.rel_flatten hgroups
  · intro group hgroup
    obtain ⟨chunk, hchunk, hrel⟩ := Result.exists_left hgroups hgroup
    rw [← hchunks, ← Chunks.chunksOf_zipIdx] at hchunk
    rintro rfl
    rw [List.forall₂_nil_right_iff] at hrel
    exact Chunks.ne_nil_of_mem_chunksOf hbatch hchunk hrel

end Db
