import Catio.Lib.Chunks
import Catio.Db.Transfer

/-!
# Table imports

The model of `table_import.rs`: a file of comma-separated values, JSON or a spreadsheet is
parsed into rows, its columns are mapped to those of a table, and the rows are written by
statements with so many rows each.
-/

namespace Db

open Text Json

/-- The number of rows of an `INSERT` statement, where none is given. -/
def DEFAULT_BATCH_SIZE : ℕ := 500

/-- The limit on the bytes of a file. -/
def MAX_IMPORT_BYTES : ℕ := 200 * 1024 * 1024

/-- The largest limit of a preview, which stands for none. -/
def USIZE_MAX : ℕ := 2 ^ 64 - 1

/-- Reject too large files. -/
def checkImportSize (len : ℕ) : Except Text Unit :=
  if len > MAX_IMPORT_BYTES then
    let capMb := MAX_IMPORT_BYTES / (1024 * 1024)
    let gotMb := len / (1024 * 1024)
    .error ("导入文件过大（" ++ ofNat gotMb ++ " MB），超过上限 " ++ ofNat capMb
      ++ " MB；请拆分文件或先分批导入")
  else .ok ()

/-- A parsed file: its columns, its rows up to the limit of the preview, and the number of all
of its rows. -/
structure ParsedImportFile where
  columns : List Text
  rows : List (List Value)
  totalRows : ℕ
  binaryCells : Option (List (ℕ × ℕ))

/-- An `INSERT` statement, and how many rows it writes. -/
structure ImportSqlBatch where
  sql : Text
  rowCount : ℕ
  deriving DecidableEq

/-- A source column and the target column it is written to. -/
abbrev ImportColumnMapping :=
  TransferColumnMapping

/-! ### Kinds of files -/

inductive ImportFileKind where
  | csv
  | tsv
  | json
  | xlsx
  deriving DecidableEq

def ImportFileKind.label : ImportFileKind → Text
  | .csv => "csv"
  | .tsv => "tsv"
  | .json => "json"
  | .xlsx => "xlsx"

/-- The kind of a file by its name.  No letter outside of ASCII has a letter of these suffixes
for its lower case. -/
def importFileKind (path : Text) : Except Text ImportFileKind :=
  let lower := toAsciiLowercase path
  if ".csv".toList <:+ lower then .ok .csv
  else if ".tsv".toList <:+ lower then .ok .tsv
  else if ".json".toList <:+ lower then .ok .json
  else if ".xlsx".toList <:+ lower ∨ ".xlsm".toList <:+ lower ∨ ".xls".toList <:+ lower then
    .ok .xlsx
  else .error "不支持的导入文件类型"

/-! ### What reads the files -/

/-- A cell of a spreadsheet. A floating point number has its JSON number, if there is one, and its
text; a date and an error have their text. -/
inductive Data where
  | empty
  | string (s : Text)
  | float (number : Option Number) (text : Text)
  | int (n : Number)
  | bool (b : Bool)
  | dateTime (text : Text)
  | dateTimeIso (s : Text)
  | durationIso (s : Text)
  | error (text : Text)

/-- A spreadsheet: the names of its sheets and their rows. -/
structure Workbook where
  sheetNames : List Text
  worksheetRange : Text → Except Text (List (List Data))

/-- A table with typed cells. -/
structure TypedFile where
  columns : List Text
  rows : List (List Value)
  binaryCells : List (ℕ × ℕ)

/-- What other crates do: separated values, JSON values and their typed tables, spreadsheets, and
digests. -/
structure Crates where
  csvRecords : Char → Bytes → List (Except Text (List Text))
  jsonFromSlice : Bytes → Except Text Value
  typedFileFromValue : Value → Except Text TypedFile
  openWorkbook : Bytes → Except Text Workbook
  sha256 : Bytes → Bytes

/-! ### Separated values -/

/-- The name of a column without a header. -/
def columnName (index : ℕ) : Text :=
  "column_" ++ ofNat (index + 1)

/-- A header without the white space around it, or a name where there is none. -/
def normalizeHeader (value : Text) (index : ℕ) : Text :=
  if trim value = [] then columnName index else trim value

/-- The value of a cell, which is `null` if the cell is empty. -/
def csvValue (value : Text) : Value :=
  if value = [] then .null else .string value

/-- A row with as many cells as there are columns. -/
def paddedRow {α : Type} (width : ℕ) (cellValue : α → Value) (cells : List α) : List Value :=
  (List.range width).map fun index => (cells[index]?.map cellValue).getD .null

/-- The rows of a file with a header.  The first record is the header, and an empty one where
there is none. -/
def parseDelimitedBytes (crates : Crates) (bytes : Bytes) (delimiter : Char)
    (previewLimit : ℕ) : Except Text ParsedImportFile := do
  let records := crates.csvRecords delimiter bytes
  let headers ← records.headD (.ok [])
  let columns := headers.zipIdx.map fun (header, index) => normalizeHeader header index
  if columns = [] then .error "导入文件没有列"
  else do
    let records ← records.tail.mapM id
    return {
      columns := columns
      rows := (records.take previewLimit).map (paddedRow columns.length csvValue)
      totalRows := records.length
      binaryCells := none }

/-! ### JSON -/

/-- A binary cell is in the table, it is there once, and its value is binary. -/
def checkBinaryCell (data : TypedFile) (seen : List (ℕ × ℕ)) :
    ℕ × ℕ → Except Text (List (ℕ × ℕ))
  | (r, c) =>
      if r ≥ data.rows.length ∨ c ≥ data.columns.length ∨ (r, c) ∈ seen then
        .error "Invalid typed JSON binary coordinates"
      else do
        let value := ((data.rows[r]?.getD [])[c]?).getD .null
        if value.isNull then .ok ((r, c) :: seen)
        else do
          let _ ← (binaryHex value).mapError DbError.toText
          return (r, c) :: seen

/-- The rows of a table with typed cells. -/
def parseTypedFile (data : TypedFile) (previewLimit : ℕ) : Except Text ParsedImportFile :=
  if data.columns = [] ∨ ¬ data.columns.Nodup ∨ [] ∈ data.columns
      ∨ data.rows.any fun row => row.length ≠ data.columns.length then
    .error "Invalid typed JSON column names or row width"
  else do
    let _ ← data.binaryCells.foldlM (checkBinaryCell data) []
    let rows := data.rows.take previewLimit
    return {
      columns := data.columns
      rows := rows
      totalRows := data.rows.length
      binaryCells := some (data.binaryCells.filter fun (r, _) => r < rows.length) }

/-- Names behind which a new one is put. -/
def pushNew (columns : List Text) (key : Text) : List Text :=
  if key ∈ columns then columns else columns ++ [key]

/-- The rows of objects: the columns are the names of all fields. -/
def parseObjects (objects : List (List (Text × Value))) (previewLimit : ℕ) :
    Except Text ParsedImportFile :=
  let columns := (objects.flatMap fun fields => fields.map Prod.fst).foldl pushNew []
  if columns = [] then .error "导入文件没有列"
  else .ok {
    columns := columns
    rows := (objects.take previewLimit).map fun fields =>
      columns.map fun column => (fields.lookup column).getD .null
    totalRows := objects.length
    binaryCells := none }

/-- The rows of arrays: there are as many columns as the longest of them has items. -/
def parseArrays (arrays : List (List Value)) (previewLimit : ℕ) :
    Except Text ParsedImportFile :=
  let maxCols := (arrays.map List.length).foldl max 0
  if maxCols = 0 then .error "导入文件没有列"
  else .ok {
    columns := (List.range maxCols).map columnName
    rows := (arrays.take previewLimit).map (paddedRow maxCols id)
    totalRows := arrays.length
    binaryCells := none }

def jsonItems : Value → Except Text (List Value)
  | .array items => .ok items
  | .object fields => .ok [.object fields]
  | _ => .error "JSON 导入必须是对象或数组"

/-- The rows of items that are all objects or all arrays. -/
def parseItems (items : List Value) (previewLimit : ℕ) : Except Text ParsedImportFile :=
  if items = [] then .error "导入文件没有数据行"
  else
    match items.mapM Value.asObject, items.mapM Value.asArray with
    | some objects, _ => parseObjects objects previewLimit
    | none, some arrays => parseArrays arrays previewLimit
    | none, none => .error "JSON 行必须全为对象或全为数组"

/-- The rows of a JSON value: a typed table, objects or arrays. -/
def parseJsonBytes (crates : Crates) (bytes : Bytes) (previewLimit : ℕ) :
    Except Text ParsedImportFile := do
  let value ← crates.jsonFromSlice bytes
  if (value.get "format").bind Value.asStr = some "catio-table-v1".toList then do
    let data ← (crates.typedFileFromValue value).mapError fun e =>
      "Invalid Catio typed JSON: " ++ e
    parseTypedFile data previewLimit
  else do
    let items ← jsonItems value
    parseItems items previewLimit

/-! ### Spreadsheets -/

/-- The text of a truth value. -/
def boolText (b : Bool) : Text :=
  if b then "true" else "false"

def xlsxCellValue : Data → Value
  | .empty => .null
  | .string s => csvValue s
  | .float number _ => (number.map Value.number).getD .null
  | .int n => .number n
  | .bool b => .bool b
  | .dateTime text => .string text
  | .dateTimeIso s => .string s
  | .durationIso s => .string s
  | .error text => .string text

def xlsxCellLabel : Data → Text
  | .empty => []
  | .string s => s
  | .float _ text => text
  | .int n => n.toText
  | .bool b => boolText b
  | .dateTime text => text
  | .dateTimeIso s => s
  | .durationIso s => s
  | .error text => text

/-- The rows of the first sheet, the first of which is the header. -/
def parseXlsxBytes (crates : Crates) (bytes : Bytes) (previewLimit : ℕ) :
    Except Text ParsedImportFile := do
  let workbook ← crates.openWorkbook bytes
  match workbook.sheetNames with
  | [] => .error "工作簿没有工作表"
  | sheetName :: _ => do
      let range ← workbook.worksheetRange sheetName
      match range with
      | [] => .error "导入文件没有数据行"
      | header :: sourceRows =>
          let columns := header.zipIdx.map fun (cell, index) =>
            normalizeHeader (xlsxCellLabel cell) index
          if columns = [] then .error "导入文件没有列"
          else .ok {
            columns := columns
            rows := (sourceRows.take previewLimit).map (paddedRow columns.length xlsxCellValue)
            totalRows := sourceRows.length
            binaryCells := none }

def parseImportBytes (crates : Crates) (kind : ImportFileKind) (bytes : Bytes)
    (previewLimit : ℕ) : Except Text ParsedImportFile :=
  match kind with
  | .csv => parseDelimitedBytes crates bytes ',' previewLimit
  | .tsv => parseDelimitedBytes crates bytes '\t' previewLimit
  | .json => parseJsonBytes crates bytes previewLimit
  | .xlsx => parseXlsxBytes crates bytes previewLimit

/-! ### Parsing options -/

/-- How the records of separated values are read.  Records are numbered from one. -/
structure ImportParseOptions where
  delimiter : Option Text := none
  headerRow : ℕ := 1
  dataStartRow : Option ℕ := none
  trimValues : Bool := false
  emptyStringAsNull : Bool := true
  deriving DecidableEq

/-- A delimiter is one byte. -/
def validDelimiter : Text → Bool
  | [c] => c.toNat < 128 ∧ c ∉ ['\x00', '\r', '\n', '"']
  | _ => false

def resolveImportOptions (kind : ImportFileKind) (options : Option ImportParseOptions) :
    Except Text (Option ImportParseOptions) :=
  if kind ≠ .csv ∧ kind ≠ .tsv then
    if options.isSome then .error "Parsing options are currently available for CSV/TSV only"
    else .ok none
  else
    let o := options.getD {}
    let delimiter := o.delimiter.getD (if kind = .tsv then "\t" else ",")
    if ¬ validDelimiter delimiter then
      .error "Delimiter must be one ASCII character other than a quote, newline or NUL"
    else if o.headerRow > 1000000 then
      .error "Header record must be between 0 and 1000000"
    else
      let start := o.dataStartRow.getD (o.headerRow + 1)
      if start = 0 ∨ start > 1000001 ∨ start ≤ o.headerRow then
        .error ("Data start record must follow the header record "
          ++ "(or start at 1 without a header)")
      else .ok (some { o with delimiter := some delimiter, dataStartRow := some start })

/-- The locals of the loop over the records. -/
structure ImportRows where
  columns : List Text := []
  rows : List (List Value) := []
  totalRows : ℕ := 0

def importValue (o : ImportParseOptions) (value : Text) : Value :=
  let value := if o.trimValues then trim value else value
  if value = [] ∧ o.emptyStringAsNull then .null else .string value

/-- The columns behind a record: the header names them, and without a header the first record
with data does. -/
def importColumns (o : ImportParseOptions) (number : ℕ) (record columns : List Text) :
    Except Text (List Text) :=
  if number = o.headerRow then
    let columns := record.zipIdx.map fun (header, index) => normalizeHeader header index
    if columns.Nodup then .ok columns
    else .error "Duplicate source headers; correct the header record or use no-header mode"
  else .ok columns

def importRecord (o : ImportParseOptions) (previewLimit number : ℕ) (record : List Text)
    (s : ImportRows) : Except Text ImportRows :=
  let columns :=
    if o.headerRow = 0 ∧ s.columns = [] then (List.range record.length).map columnName
    else s.columns
  if record.length > columns.length then
    .error ("Record " ++ ofNat number ++ " has more fields than the reviewed columns; "
      ++ "refusing to discard data")
  else .ok {
    columns := columns
    rows := if s.rows.length < previewLimit then
        s.rows ++ [paddedRow columns.length (importValue o) record]
      else s.rows
    totalRows := s.totalRows + 1 }

/-- One turn of the loop over the records. -/
def readRecord (o : ImportParseOptions) (previewLimit : ℕ) (s : ImportRows) :
    Except Text (List Text) × ℕ → Except Text ImportRows
  | (record, index) => do
      let number := index + 1
      match record with
      | .error _ => .error ("Cannot parse CSV/TSV record " ++ ofNat number)
      | .ok record => do
          let columns ← importColumns o number record s.columns
          let s := { s with columns := columns }
          if number < o.dataStartRow.getD 0 then return s
          else importRecord o previewLimit number record s

/-- The rows of a file that is read with options. -/
def parseImportBytesWithOptions (crates : Crates) (kind : ImportFileKind) (bytes : Bytes)
    (previewLimit : ℕ) (options : Option ImportParseOptions) : Except Text ParsedImportFile := do
  match ← resolveImportOptions kind options with
  | none => parseImportBytes crates kind bytes previewLimit
  | some o =>
      if (Utf8.fromUtf8 bytes).2.isSome then
        .error "CSV/TSV must be valid UTF-8 (BOM is allowed)"
      else do
        let delimiter := (o.delimiter.getD []).headD ','
        let s ← (crates.csvRecords delimiter bytes).zipIdx.foldlM (readRecord o previewLimit) {}
        if s.columns = [] then .error "No columns at the selected header/data record"
        else return {
          columns := s.columns
          rows := s.rows
          totalRows := s.totalRows
          binaryCells := none }

/-! ### Fingerprints -/

def optionsJson : Option ImportParseOptions → Text
  | none => "null"
  | some o =>
      '{' :: join "," [
        "\"delimiter\":" ++ (o.delimiter.map quote).getD "null",
        "\"headerRow\":" ++ ofNat o.headerRow,
        "\"dataStartRow\":" ++ (o.dataStartRow.map ofNat).getD "null",
        "\"trimValues\":" ++ boolText o.trimValues,
        "\"emptyStringAsNull\":" ++ boolText o.emptyStringAsNull] ++ ['}']

/-- The digest of the bytes, the kind and the options of a file that has been reviewed. -/
def importFingerprint (crates : Crates) (kind : ImportFileKind) (bytes : Bytes)
    (options : Option ImportParseOptions) : Except Text Text := do
  let effective ← resolveImportOptions kind options
  let digest := crates.sha256 (Utf8.encode "catio-import-review-v1\x00"
    ++ Utf8.encode kind.label ++ [0] ++ Utf8.encode (optionsJson effective) ++ [0] ++ bytes)
  return digest.flatMap hexByte

/-! ### Statements -/

/-- The positions of the mapped source columns, with their target columns. -/
def mappingIndexes (data : ParsedImportFile) (mappings : List ImportColumnMapping) :
    Except Text (List (ℕ × Text)) := do
  let mapped ← mappings.foldlM (resolveMapping data.columns) []
  if mapped = [] then .error "没有可导入的列映射" else .ok mapped

/-- The literals of the mapped cells of a row, in parentheses. -/
def importRow (db : DatabaseType) (data : ParsedImportFile) (mapped : List (ℕ × Text)) :
    List Value × ℕ → Except Text Text
  | (row, r) => do
      let cells ← mapped.mapM fun (sourceIndex, _) =>
        (sqlValue db (row[sourceIndex]?.getD .null)
          ((r, sourceIndex) ∈ data.binaryCells.getD [])).mapError DbError.toText
      return "(" ++ join ", " cells ++ ")"

/-- The statement that writes a chunk of the rows, which are numbered. -/
def importBatch (db : DatabaseType) (hasSchemas : Bool) (schema : Option Text) (table : Text)
    (data : ParsedImportFile) (mapped : List (ℕ × Text)) (chunk : List (List Value × ℕ)) :
    Except Text ImportSqlBatch := do
  let tbl := qualifiedTable db hasSchemas schema table
  let cols := join ", " (mapped.map fun (_, target) => quoteIdent db target)
  let values ← chunk.mapM (importRow db data mapped)
  return {
    sql := "INSERT INTO " ++ tbl ++ " (" ++ cols ++ ") VALUES " ++ join ", " values ++ ";"
    rowCount := chunk.length }

/-- The statements that write the rows, with at most `batchSize` rows each. -/
def buildImportInsertBatches (db : DatabaseType) (hasSchemas : Bool) (schema : Option Text)
    (table : Text) (data : ParsedImportFile) (mappings : List ImportColumnMapping)
    (batchSize : ℕ) : Except Text (List ImportSqlBatch) := do
  let mapped ← mappingIndexes data mappings
  let batch := max batchSize 1
  (chunksOf batch data.rows).zipIdx.mapM fun (chunk, batchIndex) =>
    importBatch db hasSchemas schema table data mapped (chunk.zipIdx (batchIndex * batch))

end Db

/-!
## The preview of a file

What is parsed for a preview are the first rows of what is parsed for an import, whatever the file
is: the limit changes no error, no column and no count (`parseImportBytesWithOptions_preview`).
-/

namespace Db

open Text Json

def ParsedImportFile.firstRows (k : ℕ) (parsed : ParsedImportFile) : ParsedImportFile :=
  { parsed with
    rows := parsed.rows.take k
    binaryCells := parsed.binaryCells.map fun cells => cells.filter fun (r, _) => r < k }

/-- The first rows that the loop over the records has taken. -/
def ImportRows.firstRows (k : ℕ) (s : ImportRows) : ImportRows :=
  { s with rows := s.rows.take k }

variable {crates : Crates} {bytes : Bytes} {k limit : ℕ}

/-! ### Files without options -/

theorem parseDelimitedBytes_preview (hk : k ≤ limit) (delimiter : Char) :
  parseDelimitedBytes crates bytes delimiter k
    = (parseDelimitedBytes crates bytes delimiter limit).map (·.firstRows k)
  := by
  unfold parseDelimitedBytes
  apply Result.bind_map
  intro headers
  dsimp only
  split
  · rfl
  · apply Result.bind_map
    intro records
    simp [ParsedImportFile.firstRows, pure, Except.pure, Except.map, ← List.map_take,
      List.take_take, hk]

theorem parseTypedFile_preview (hk : k ≤ limit) (data : TypedFile) :
  parseTypedFile data k = (parseTypedFile data limit).map (·.firstRows k)
  := by
  unfold parseTypedFile
  split
  · rfl
  · apply Result.bind_map
    intro seen
    have hcells : data.binaryCells.filter (fun (r, _) => r < min k data.rows.length)
        = (data.binaryCells.filter fun (r, _) => r < min limit data.rows.length).filter
          fun (r, _) => r < k := by
      rw [List.filter_filter]
      apply List.filter_congr
      rintro ⟨r, c⟩ -
      rw [← Bool.decide_and]
      apply decide_eq_decide.mpr
      omega
    simp only [ParsedImportFile.firstRows, pure, Except.pure, Except.map, List.length_take,
      Option.map_some, hcells, List.take_take, Nat.min_eq_left hk]

theorem parseItems_preview (hk : k ≤ limit) (items : List Value) :
  parseItems items k = (parseItems items limit).map (·.firstRows k)
  := by
  unfold parseItems
  split
  · rfl
  · split
    · unfold parseObjects
      dsimp only
      split
      · rfl
      · simp [ParsedImportFile.firstRows, Except.map, ← List.map_take, List.take_take, hk]
    · unfold parseArrays
      dsimp only
      split
      · rfl
      · simp [ParsedImportFile.firstRows, Except.map, ← List.map_take, List.take_take, hk]
    · rfl

theorem parseJsonBytes_preview (hk : k ≤ limit) :
  parseJsonBytes crates bytes k = (parseJsonBytes crates bytes limit).map (·.firstRows k)
  := by
  unfold parseJsonBytes
  apply Result.bind_map
  intro value
  split
  · apply Result.bind_map
    intro data
    exact parseTypedFile_preview hk data
  · apply Result.bind_map
    intro items
    exact parseItems_preview hk items

theorem parseXlsxBytes_preview (hk : k ≤ limit) :
  parseXlsxBytes crates bytes k = (parseXlsxBytes crates bytes limit).map (·.firstRows k)
  := by
  unfold parseXlsxBytes
  apply Result.bind_map
  intro workbook
  split
  · rfl
  · apply Result.bind_map
    intro range
    split
    · rfl
    · dsimp only
      split
      · rfl
      · simp [ParsedImportFile.firstRows, Except.map, ← List.map_take, List.take_take, hk]

theorem parseImportBytes_preview (hk : k ≤ limit) (kind : ImportFileKind) :
  parseImportBytes crates kind bytes k
    = (parseImportBytes crates kind bytes limit).map (·.firstRows k)
  := by
  cases kind with
  | csv => exact parseDelimitedBytes_preview hk ','
  | tsv => exact parseDelimitedBytes_preview hk '\t'
  | json => exact parseJsonBytes_preview hk
  | xlsx => exact parseXlsxBytes_preview hk

/-! ### Files with options -/

theorem importRecord_preview (hk : k ≤ limit) (o : ImportParseOptions) (number : ℕ)
    (record : List Text) (s : ImportRows) :
  importRecord o k number record (s.firstRows k)
    = (importRecord o limit number record s).map (·.firstRows k)
  := by
  have hcolumns : (s.firstRows k).columns = s.columns := rfl
  have hrows : (s.firstRows k).rows = s.rows.take k := rfl
  have htotal : (s.firstRows k).totalRows = s.totalRows := rfl
  unfold importRecord
  dsimp only
  rw [hcolumns, hrows, htotal]
  generalize (if o.headerRow = 0 ∧ s.columns = [] then (List.range record.length).map columnName
    else s.columns) = columns
  split
  · rfl
  · simp only [ImportRows.firstRows, Except.map, Except.ok.injEq, ImportRows.mk.injEq, true_and,
      and_true]
    obtain hroom | hfull := Nat.lt_or_ge s.rows.length k
    · -- there is room for the row in both
      have hlimit : s.rows.length < limit := by omega
      have htake : s.rows.take k = s.rows := List.take_of_length_le (by omega)
      rw [htake, if_pos hroom, if_pos hlimit, List.take_of_length_le]
      rw [List.length_append, List.length_singleton]
      omega
    · have htake : (s.rows.take k).length = k := by
        rw [List.length_take]
        omega
      rw [htake, if_neg (lt_irrefl k)]
      split
      · rw [List.take_append_of_le_length hfull]
      · rfl

theorem readRecord_preview (hk : k ≤ limit) (o : ImportParseOptions) (s : ImportRows)
    (record : Except Text (List Text) × ℕ) :
  readRecord o k (s.firstRows k) record = (readRecord o limit s record).map (·.firstRows k)
  := by
  obtain ⟨record, index⟩ := record
  cases record with
  | error e => rfl
  | ok fields =>
    unfold readRecord
    dsimp only
    apply Result.bind_map
    intro columns
    split
    · rfl
    · exact importRecord_preview hk o (index + 1) fields { s with columns := columns }

theorem parseImportBytesWithOptions_firstRows (hk : k ≤ limit) (kind : ImportFileKind)
    (options : Option ImportParseOptions) :
  parseImportBytesWithOptions crates kind bytes k options
    = (parseImportBytesWithOptions crates kind bytes limit options).map (·.firstRows k)
  := by
  unfold parseImportBytesWithOptions
  apply Result.bind_map
  intro resolved
  cases resolved with
  | none => exact parseImportBytes_preview hk kind
  | some o =>
    dsimp only
    split
    · rfl
    · have hrun := Result.foldlM_map (readRecord_preview hk o)
        ((crates.csvRecords ((o.delimiter.getD []).headD ',') bytes).zipIdx) {}
      have hstart : ({} : ImportRows).firstRows k = {} := by
        simp [ImportRows.firstRows]
      rw [hstart] at hrun
      rw [hrun]
      cases List.foldlM (readRecord o limit) {} _ with
      | error e => rfl
      | ok s =>
        change (if s.columns = [] then _ else _)
          = Except.map _ (if s.columns = [] then _ else _)
        split
        · rfl
        · rfl

/-- A preview fails if and only if the import fails, and it has the columns, the count and the first
rows of it. -/
theorem parseImportBytesWithOptions_preview (hk : k ≤ USIZE_MAX) (kind : ImportFileKind)
    (options : Option ImportParseOptions) :
  parseImportBytesWithOptions crates kind bytes k options
    = (parseImportBytesWithOptions crates kind bytes USIZE_MAX options).map (·.firstRows k)
  := parseImportBytesWithOptions_firstRows hk kind options

/-- Other crates, for separated values without quotes. -/
def unquotedCrates : Crates where
  csvRecords delimiter bytes :=
    (lines (Utf8.fromUtf8 bytes).1).map fun line => .ok (line.splitOn delimiter)
  jsonFromSlice _ := .error "expected value at line 1 column 1"
  typedFileFromValue _ := .error "missing field columns"
  openWorkbook _ := .error "Cannot detect file format"
  sha256 _ := []

theorem parseImportBytesWithOptions_preview_names :
  parseImportBytesWithOptions unquotedCrates .csv (Utf8.encode "name\nAda\nBob\n") 1 none
    = (parseImportBytesWithOptions unquotedCrates .csv (Utf8.encode "name\nAda\nBob\n") USIZE_MAX
      none).map (·.firstRows 1)
  := parseImportBytesWithOptions_preview (by decide) .csv none

/-- The second name is counted, but not shown. -/
example :
  parseImportBytesWithOptions unquotedCrates .csv (Utf8.encode "name\nAda\nBob\n") 1 none
    = .ok ⟨["name"], [[.string "Ada"]], 2, none⟩
  := rfl

end Db
