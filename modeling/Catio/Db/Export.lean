import Catio.Lib.Chunks
import Catio.Db.Driver

/-!
# Exports

The model of `export.rs` and of `export_database_core` in `commands.rs`: tables are read page by
page, and become one script with the statements that create them and those that write their rows.
-/

namespace Db

open Text Json

/-- The number of rows of an `INSERT` statement, where none is given. -/
def DEFAULT_INSERT_BATCH_SIZE : ℕ := 1000

structure ExportTable where
  displayName : Text
  schema : Option Text
  tableName : Text
  ddl : Option Text
  columns : List Text
  rows : List (List Value)
  binaryCells : List (ℕ × ℕ)
  truncated : Bool

/-! ### Statements -/

/-- The literals of the cells of a row, in parentheses. -/
def exportRow (db : DatabaseType) (binary : List (ℕ × ℕ)) :
    List Value × ℕ → Except DbError Text
  | (row, r) => do
      let cells ← row.zipIdx.mapM fun (value, c) => sqlValue db value ((r, c) ∈ binary)
      return "(" ++ join ", " cells ++ ")"

/-- The statement that writes a chunk of the rows, which are numbered. -/
def exportBatch (db : DatabaseType) (target names : Text) (binary : List (ℕ × ℕ))
    (chunk : List (List Value × ℕ)) : Except DbError Text := do
  let values ← chunk.mapM (exportRow db binary)
  return "INSERT INTO " ++ target ++ " (" ++ names ++ ") VALUES " ++ join ", " values ++ ";"

/-- The statements that write the rows, with at most `batchSize` rows each. -/
def buildInsertStatementsTyped (db : DatabaseType) (hasSchemas : Bool) (schema : Option Text)
    (table : Text) (columns : List Text) (rows : List (List Value)) (batchSize : ℕ)
    (binaryCells : List (ℕ × ℕ)) : Except DbError (List Text) :=
  if columns = [] ∨ rows = [] then .ok []
  else if (rows.any fun row => row.length ≠ columns.length)
      ∨ (binaryCells.any fun (r, c) => r ≥ rows.length ∨ c ≥ columns.length) then
    .error (.queryFailed "Invalid export row/column metadata")
  else
    let target := qualifiedTable db hasSchemas schema table
    let names := join ", " (columns.map (quoteIdent db))
    let batch := max batchSize 1
    (chunksOf batch rows).zipIdx.mapM fun (chunk, chunkIndex) =>
      exportBatch db target names binaryCells (chunk.zipIdx (chunkIndex * batch))

/-! ### The script -/

def structureLines (table : ExportTable) : List Text :=
  match (table.ddl.map trim).filter (· ≠ []) with
  | some ddl =>
      ["-- Structure for " ++ table.displayName,
        (ddl.reverse.dropWhile (· = ';')).reverse ++ ";", []]
  | none => []

/-- The lines that write the rows of a table. -/
def dataLines (db : DatabaseType) (hasSchemas : Bool) (batchSize : ℕ) (table : ExportTable) :
    Except DbError (List Text) := do
  let exported := "-- Exported rows: " ++ ofNat table.rows.length
  let inserts ← buildInsertStatementsTyped db hasSchemas table.schema table.tableName table.columns
    table.rows batchSize table.binaryCells
  let header : List Text := ["-- Data for " ++ table.displayName,
    if table.truncated then exported ++ " (truncated)" else exported]
  let written : List Text := if inserts = [] then ["-- No rows"] else inserts
  return header ++ written ++ [[]]

def tableLines (db : DatabaseType) (hasSchemas includeStructure includeData : Bool) (batchSize : ℕ)
    (table : ExportTable) : Except DbError (List Text) := do
  let created := if includeStructure then structureLines table else []
  let written ← if includeData then dataLines db hasSchemas batchSize table else .ok []
  return created ++ written

def buildDatabaseSqlExport (db : DatabaseType) (hasSchemas : Bool) (databaseName exportedAt : Text)
    (tables : List ExportTable) (includeStructure includeData : Bool) (batchSize : ℕ) :
    Except DbError Text := do
  let lines ← tables.mapM (tableLines db hasSchemas includeStructure includeData batchSize)
  let header : List Text :=
    ["-- Catio database export: " ++ databaseName, "-- Exported at: " ++ exportedAt, []]
  let unchecked : List Text := if db = .mysql then ["SET FOREIGN_KEY_CHECKS = 0;", []] else []
  let checked : List Text := if db = .mysql then ["SET FOREIGN_KEY_CHECKS = 1;"] else []
  return join "\n" (header ++ unchecked ++ lines.flatten ++ checked)

/-! ### Reading the tables -/

/-- What a table is called and what it is. -/
structure TableInfo where
  name : Text
  kind : Text
  deriving DecidableEq

/-- What a driver answers while a database does not change: tables, whether rows can be located, and
pages. -/
structure StableDatabase where
  listTables : Text → Except DbError (List TableInfo)
  tableHasRowIdentity : Option Text → Text → Except DbError Bool
  tableData : Option Text → Text → ℕ → ℕ → Except DbError QueryResult

/-- The column that locates the rows of a table without a key. -/
def LOCATOR : Text := "__ctid"

/-- The counters are of 32 bits. -/
def U32 : ℕ := 2 ^ 32

/-- The limit on the rows of a table is the one that was asked for. -/
def resolveExportRowCap (rowLimit : Option ℕ) : Option ℕ :=
  rowLimit

/-- The schema, unless it is blank. -/
def resolveSchemaQualifier (schema : Text) : Option Text :=
  if trim schema = [] then none else some (trim schema)

/-- The locals of the loop over the pages. -/
structure ExportRows where
  columns : List Text := []
  rows : List (List Value) := []
  binaryCells : List (ℕ × ℕ) := []
  offset : ℕ := 0
  truncated : Bool := false

/-- How many rows the next page may have; none if no row is left to read. -/
def nextPage (cap : Option ℕ) (batch rows : ℕ) : Option ℕ :=
  match cap with
  | some c =>
      let remaining := c - rows % U32
      if remaining = 0 then none else some (min remaining (batch % U32))
  | none => some (batch % U32)

/-- The cell of a page among those of the pages before, without the column that locates rows. -/
def exportedCell (base : ℕ) (locator : Option ℕ) : ℕ × ℕ → Option (ℕ × ℕ)
  | (r, c) =>
      if locator = some c then none
      else some (base + r, c - if locator.any (· < c) then 1 else 0)

/-- A row without the column that locates it. -/
def exportedRow (locator : Option ℕ) (row : List Value) : List Value :=
  match locator with
  | some i => (row.zipIdx.filter fun (_, j) => j ≠ i).map Prod.fst
  | none => row

/-- The locals behind a page.  The offset wraps around. -/
def takePage (hasLocator : Bool) (s : ExportRows) (res : QueryResult) : ExportRows :=
  let locator :=
    if hasLocator then res.columns.findIdx? fun column => column.name = LOCATOR else none
  { s with
    columns :=
      if s.columns = [] then
        (res.columns.map (·.name)).filter fun name => !hasLocator ∨ name ≠ LOCATOR
      else s.columns
    binaryCells := s.binaryCells ++ res.binaryCells.filterMap (exportedCell s.rows.length locator)
    rows := s.rows ++ res.rows.map (exportedRow locator)
    offset := (s.offset + res.rows.length) % U32 }

/-- One turn of the loop over the pages: the locals behind it, and whether it is the last. -/
def exportTurn (tableData : ℕ → ℕ → Except DbError QueryResult) (hasLocator : Bool) (cap : Option ℕ)
    (batch : ℕ) (s : ExportRows) : Except DbError (ExportRows × Bool) :=
  match nextPage cap batch s.rows.length with
  | none => .ok ({ s with truncated := true }, true)
  | some page => do
      let res ← tableData page s.offset
      return (takePage hasLocator s res, res.rows.length % U32 < page)

/-- The loop over the pages, for so many turns. -/
def exportLoop (tableData : ℕ → ℕ → Except DbError QueryResult) (hasLocator : Bool) (cap : Option ℕ)
    (batch : ℕ) : ℕ → ExportRows → Option (Except DbError ExportRows)
  | 0, _ => none
  | fuel + 1, s =>
      match exportTurn tableData hasLocator cap batch s with
      | .error e => some (.error e)
      | .ok (s, true) => some (.ok s)
      | .ok (s, false) => exportLoop tableData hasLocator cap batch fuel s

/-- The table that has been read. -/
def exportedTable (schema : Option Text) (tableDdls : Text → Option Text) (info : TableInfo)
    (s : ExportRows) : ExportTable where
  displayName := info.name
  schema := schema
  tableName := info.name
  ddl := tableDdls info.name
  columns := s.columns
  rows := s.rows
  binaryCells := s.binaryCells
  truncated := s.truncated

/-- A table that is exported, read in so many turns. -/
def exportTable (database : StableDatabase) (fuel : ℕ) (schema : Option Text)
    (tableDdls : Text → Option Text) (includeData : Bool) (batch : ℕ) (cap : Option ℕ)
    (info : TableInfo) : Option (Except DbError ExportTable) :=
  match database.tableHasRowIdentity schema info.name with
  | .error e => some (.error e)
  | .ok hasLocator =>
      let read :=
        if includeData then
          exportLoop (database.tableData schema info.name) hasLocator cap batch fuel {}
        else some (.ok {})
      read.map fun result => result.map (exportedTable schema tableDdls info)

/-- The tables that are exported, up to the first that fails. -/
def exportTables (exportOne : TableInfo → Option (Except DbError ExportTable)) :
    List TableInfo → Option (Except DbError (List ExportTable))
  | [] => some (.ok [])
  | info :: infos =>
      match exportOne info with
      | none => none
      | some (.error e) => some (.error e)
      | some (.ok table) => (exportTables exportOne infos).map fun rest => rest.map (table :: ·)

def wantedTables (all : List TableInfo) (selectedTables : List Text) : List TableInfo :=
  all.filter fun info =>
    info.kind ≠ "view".toList ∧ (selectedTables = [] ∨ info.name ∈ selectedTables)

/-- Read the tables of a database, in so many turns each. -/
def readTables (database : StableDatabase) (fuel : ℕ) (schema : Text) (selectedTables : List Text)
    (tableDdls : Text → Option Text) (includeData : Bool) (batch : ℕ) (rowLimit : Option ℕ) :
    Option (Except DbError (List ExportTable)) :=
  match database.listTables schema with
  | .error e => some (.error e)
  | .ok all =>
      exportTables (exportTable database fuel (resolveSchemaQualifier schema) tableDdls includeData
        batch (resolveExportRowCap rowLimit)) (wantedTables all selectedTables)

/-- The script of a database, all tables of which are read in so many turns each. -/
def exportDatabaseCore (database : StableDatabase) (fuel : ℕ) (dbType : DatabaseType)
    (databaseName schema : Text) (selectedTables : List Text) (tableDdls : Text → Option Text)
    (includeStructure includeData : Bool) (batchSize : Option ℕ) (rowLimit : Option ℕ)
    (exportedAt : Text) : Option (Except DbError Text) :=
  let batch := batchSize.getD DEFAULT_INSERT_BATCH_SIZE
  (readTables database fuel schema selectedTables tableDdls includeData batch rowLimit).map
    fun result => do
      let tables ← result
      buildDatabaseSqlExport dbType (trim schema ≠ []) databaseName exportedAt tables
        includeStructure includeData batch

end Db
