import Catio.Db.Driver
import Catio.Db.TableImport

/-!
# Writing rows

The model of `write_ops.rs`: saving the row edits of a grid, transferring a table, and importing
a file.  A transfer stages all its statements in a private spool before it writes to the target,
and an import builds all of them before it writes.
-/

namespace Db

open Text Json

/-- The target must be writable by SQL. -/
def sqlWriter (driver : Driver) : Except DbError Unit :=
  if ¬ driver.capabilities.writable then .error (.unsupported "read-only engine")
  else if driver.dbType ∈ [DatabaseType.redis, .mongodb, .elasticsearch] then
    .error (.unsupported "Use the native document/key editor for this engine")
  else .ok ()

/-! ### Row edits -/

def looksBinary (value : Value) : Bool :=
  value.asStr.any fun text => (stripPrefix "0x" text).any fun hex =>
    hex.length % 2 = 0 ∧ hex.all isHexDigit

/-- The statement of a row edit, with guards against degenerate requests. -/
def buildSql (db : DatabaseType) (req : EditRequest) : Except DbError Text :=
  if req.table = [] then .error (.unsupported "An explicit target table is required")
  else if req.kind ≠ "insert" ∧ req.binaryPkColumns = none
      ∧ req.pk.any fun (_, value) => looksBinary value then
    .error (.unsupported ("Hex-encoded row keys require type-aware binary binding; "
      ++ "use explicit SQL to avoid updating a different row"))
  else if req.kind ≠ "insert" ∧ req.pk.any fun (_, value) => value.isNull then
    .error (.unsupported "Row edits require a complete, non-null row key")
  else if db = .clickhouse ∧ req.kind ≠ "insert" then
    .error (.unsupported ("ClickHouse primary keys are sorting keys, not unique row "
      ++ "identities; use an explicit mutation query"))
  else if req.kind = "update" then
    if req.cells.isEmpty ∨ req.pk.isEmpty then
      .error (.unsupported "update requires changed cells and a primary key")
    else editSql db req
  else if req.kind = "insert" then
    if req.cells.isEmpty then .error (.unsupported "insert requires at least one cell")
    else editSql db req
  else if req.kind = "delete" then
    if req.pk.isEmpty then .error (.unsupported "delete requires a primary key")
    else editSql db req
  else .error (.unsupported ("edit kind " ++ req.kind))

/-- Check each table of the edits once. -/
def ensureAtomicTables : List (Option Text × Text) → List EditRequest → DriverProgram Unit
  | _, [] => pure ()
  | checked, edit :: edits =>
      if (edit.schema, edit.table) ∈ checked then ensureAtomicTables checked edits
      else do
        let answer ← (DriverCall.ensureAtomicTable edit.schema edit.table).ask
        liftM answer
        ensureAtomicTables ((edit.schema, edit.table) :: checked) edits

/-- Save row edits, several of them in one transaction. -/
def applyEdits (driver : Driver) (edits : List EditRequest) : DriverProgram ℕ := do
  sqlWriter driver
  let statements ← (edits.mapM (buildSql driver.dbType) : Except DbError (List Text))
  match statements with
  | [] => return 0
  | [statement] => do
      let answer ← (DriverCall.query statement 0).ask
      let result ← answer
      return result.rowsAffected.getD 0
  | statements =>
      if driver.capabilities.transactions then do
        ensureAtomicTables [] edits
        execBatch driver statements
      else
        .fail (.unsupported ("This engine cannot atomically save multiple row edits; "
          ++ "save one edit at a time"))

/-! ### Transfers -/

structure TransferRequest where
  sourceSchema : Option Text
  sourceTable : Text
  targetSchema : Option Text
  targetTable : Text
  mappings : List TransferColumnMapping
  mode : TransferMode
  upsertKeys : List Text
  batchSize : ℕ
  allowDestructive : Bool
  deriving DecidableEq

inductive TransferCall where
  | source (c : DriverCall)
  | target (c : DriverCall)
  | stageIo
  | readBack
  | progress (transferred : ℕ) (committed : Bool)

/-- What each call answers: an operation that stages its error, and reading the spool back before
which line it fails. -/
@[reducible]
def TransferCall.Answer : TransferCall → Type
  | .source c => c.Answer
  | .target c => c.Answer
  | .stageIo => Option Text
  | .readBack => Option (ℕ × Text)
  | .progress .. => Unit

abbrev TransferProgram :=
  Program TransferCall TransferCall.Answer Unit DbError

@[reducible]
def TransferCall.ask (c : TransferCall) : TransferProgram c.Answer :=
  Program.ask c

/-- An operation on the spool. -/
def stageIo : TransferProgram Unit := do
  match ← TransferCall.stageIo.ask with
  | some error => .fail (.io error)
  | none => pure ()

/-- The statement that removes the rows of the target before a replacement. -/
def replacementSql (driver : Driver) (schema : Option Text) (table : Text) :
    Except DbError Text :=
  if ¬ driver.capabilities.transactions then
    .error (.unsupported ("Atomic replacement is unavailable for this engine; use append or "
      ++ "a native backup/restore workflow"))
  else .ok ("DELETE FROM " ++ qualifiedTable driver.dbType true schema table)

def MAX_SPOOL_BYTES : ℕ := 1024 * 1024 * 1024

/-- The locals of the preparation. -/
structure Staging where
  spool : Text := []
  written : ℕ := 0
  offset : ℕ := 0
  transferred : ℕ := 0
  expectedColumns : Option (List Text) := none
  mapped : List (ℕ × Text) := []
  deriving DecidableEq

/-- Write a statement to the spool, as a JSON string on a line of its own. -/
def writeRecord (s : Staging) (sql : Text) : TransferProgram Staging :=
  let encoded := quote sql
  let bytes := utf8Len encoded + 1
  if bytes > MAX_SPOOL_BYTES - s.written then
    .fail (.unsupported ("Transfer staging exceeds 1 GiB; narrow the source or use a native "
      ++ "bulk-transfer tool. Target unchanged"))
  else do
    stageIo
    stageIo
    return { s with
      spool := s.spool ++ (encoded ++ ['\n'])
      written := s.written + bytes }

/-- The position of the row locator. -/
def locatorOf (hasLocator : Bool) (columns : List ColumnInfo) : Option ℕ :=
  if hasLocator then columns.findIdx? (·.name = "__ctid".toList) else none

/-- The entries of a row besides the one at the locator. -/
def withoutLocator {α : Type} (locator : Option ℕ) (row : List α) : List α :=
  (row.zipIdx.filter fun (_, i) => some i ≠ locator).map Prod.fst

def shiftBinaryCells (locator : Option ℕ) (cells : List (ℕ × ℕ)) : List (ℕ × ℕ) :=
  cells.filterMap fun (r, c) =>
    if locator = some c then none
    else some (r, c - (if locator.any (· < c) then 1 else 0))

/-- Some column holds collections of binary values. -/
def hasNestedBinary (columns : List ColumnInfo) : Bool :=
  columns.any fun c =>
    let ty := toAsciiLowercase c.typeName
    ("list".toList <:+: ty ∨ "struct".toList <:+: ty ∨ "map".toList <:+: ty)
      ∧ ("binary".toList <:+: ty ∨ "blob".toList <:+: ty)

/-- Resolve the mapping with the first page, and check the columns of the others. -/
def stageColumns (req : TransferRequest) (s : Staging) (columns : List Text) :
    Except DbError Staging :=
  match s.expectedColumns with
  | some expected =>
      if expected ≠ columns then
        .error (.queryFailed "Source structure changed during transfer preparation")
      else .ok s
  | none => do
      let mapped ← (resolveTransferMapping columns req.mappings).mapError DbError.queryFailed
      return { s with mapped := mapped, expectedColumns := some columns }

def stagePage (target : Driver) (req : TransferRequest) (hasLocator : Bool) (s : Staging)
    (result : QueryResult) : TransferProgram Staging := do
  let locator := locatorOf hasLocator result.columns
  let s ← stageColumns req s (withoutLocator locator (result.columns.map ColumnInfo.name))
  let binaryCells := shiftBinaryCells locator result.binaryCells
  let rows := result.rows.map (withoutLocator locator)
  if hasNestedBinary result.columns then
    .fail (.unsupported ("Nested binary collection transfer requires a recursive typed "
      ++ "serializer"))
  else if result.rows ≠ [] then do
    let sql ← buildTransferWriteSqlTyped req.mode target.dbType true req.targetSchema
      req.targetTable s.mapped rows req.upsertKeys binaryCells
    let s ← writeRecord s sql
    return { s with transferred := s.transferred + result.rows.length }
  else return s

/-- The loop over the pages of the source. The offset grows with each turn below `2 ^ 32`, which is
enough fuel. -/
def stagePages (target : Driver) (req : TransferRequest) (order : Option Text)
    (hasLocator : Bool) : ℕ → Staging → TransferProgram Staging
  | 0, s => pure s
  | fuel + 1, s => do
      let batch := max 1 (min req.batchSize 1000)
      let answer ← (TransferCall.source
        (.tableQuery req.sourceSchema req.sourceTable none order batch s.offset)).ask
      let result ← answer
      let s ← stagePage target req hasLocator s result
      let count := result.rows.length
      if ¬ result.truncated then return s
      else if count = 0 then
        .fail (.queryFailed "Source returned an empty page with more rows indicated")
      else
        let offset := s.offset + count % 2 ^ 32
        if offset < 2 ^ 32 then
          stagePages target req order hasLocator fuel { s with offset := offset }
        else .fail (.queryFailed "Transfer offset overflow")

/-- The order of the pages: the primary key, where there is one. -/
def pageOrder (source : Driver) (tableStructure : TableStructure) : Option Text :=
  let order := join ", " ((tableStructure.columns.filter (·.key = "PK".toList)).map fun c =>
    quoteIdent source.dbType c.name)
  if order ≠ [] then some order else none

/-- Check the request, and prepare the replacement of the rows of the target where it is asked
for. -/
def checkRequest (target : Driver) (req : TransferRequest) : Except DbError (Option Text) := do
  let targets := (req.mappings.filter fun m => ¬ m.isSkipped).map (·.targetColumn)
  (checkTransferPreconditions req.mode target.dbType targets req.upsertKeys
    req.allowDestructive).mapError DbError.queryFailed
  if req.mode = .overwrite then do
    let sql ← replacementSql target req.targetSchema req.targetTable
    return some sql
  else return none

def checkTarget (target : Driver) (req : TransferRequest) : TransferProgram (Option Text) := do
  sqlWriter target
  if target.capabilities.transactions then do
    let answer ← (TransferCall.target (.ensureAtomicTable req.targetSchema req.targetTable)).ask
    liftM answer
  else pure ()
  checkRequest target req

/-- Stage all statements of a transfer. -/
def prepareTransfer (source target : Driver) (req : TransferRequest) :
    TransferProgram Staging := do
  if source.dbType ∈ [DatabaseType.redis, .mongodb, .elasticsearch] then
    .fail (.unsupported "SQL table transfer requires a relational source")
  else do
    let replacement ← checkTarget target req
    stageIo
    let answer ← (TransferCall.source
      (.tableStructure (req.sourceSchema.getD []) req.sourceTable)).ask
    let tableStructure ← answer
    let answer ← (TransferCall.source
      (.tableHasRowIdentity req.sourceSchema req.sourceTable)).ask
    let hasLocator ← answer
    let s ← match replacement with
      | some sql => writeRecord {} sql
      | none => pure {}
    let s ← stagePages target req (pageOrder source tableStructure) hasLocator (2 ^ 32) s
    stageIo
    stageIo
    return s

/-- A line of the spool as a statement.  The message on a line that is no JSON string is a
parameter. -/
def spooledStatement (jsonError : Text → Text) (line : Text) : Except DbError Text :=
  match parseString line with
  | some sql => .ok sql
  | none => .error (.io (jsonError line))

/-- The statements that are read back from the spool, up to the first line that cannot be
read. -/
def spooledStatements (jsonError : Text → Text) (spool : Text) (failure : Option (ℕ × Text)) :
    StatementBatch :=
  let statements := (lines spool).map (spooledStatement jsonError)
  match failure with
  | some (n, error) => statements.take n ++ [.error (.io error)]
  | none => statements

/-- Execute statements one by one. -/
def sendStatements : ℕ → StatementBatch → TransferProgram Unit
  | _, [] => pure ()
  | batches, statement :: statements => do
      let sql ← statement
      let answer ← (TransferCall.target (.query sql 0)).ask
      let _ ← (answer.mapError fun e => DbError.queryFailed ("Transfer stopped after "
        ++ ofNat batches ++ " committed batches (non-transactional engine): " ++ e.toText))
      sendStatements (batches + 1) statements

/-- Execute the staged statements, as one transaction where the target has transactions. -/
def sendStaged (target : Driver) (statements : StatementBatch) : TransferProgram Unit :=
  if target.capabilities.transactions then do
    let answer ← (TransferCall.target (.execStatementBatch statements)).ask
    let _ ← answer
    pure ()
  else sendStatements 0 statements

/-- Transfer a table, and return the number of its rows. -/
def transferTable (jsonError : Text → Text) (source target : Driver) (req : TransferRequest) :
    TransferProgram ℕ := do
  let s ← prepareTransfer source target req
  let failure ← TransferCall.readBack.ask
  (TransferCall.progress 0 false).ask
  sendStaged target (spooledStatements jsonError s.spool failure)
  (TransferCall.progress s.transferred true).ask
  return s.transferred

/-! ### Imports -/

/-- A request to import a file that has been reviewed. -/
structure ImportRequest where
  schema : Option Text
  table : Text
  fileName : Text
  bytes : Bytes
  mappings : List ImportColumnMapping
  mode : Text
  batchSize : ℕ
  allowDestructive : Bool
  options : Option ImportParseOptions
  sourceFingerprint : Option Text
  deriving DecidableEq

/-- A blank schema is none. -/
def ImportRequest.targetSchema (req : ImportRequest) : Option Text :=
  req.schema.filter fun s => trim s ≠ []

/-- How many rows have been imported, of how many. -/
structure ImportSummary where
  rowsImported : ℕ
  totalRows : ℕ
  deriving DecidableEq

/-- The kind of the file, if the request may be carried out and the file has not changed since
its review. -/
def checkImport (crates : Crates) (driver : Driver) (req : ImportRequest) :
    Except DbError ImportFileKind := do
  sqlWriter driver
  if req.mode ≠ "append" ∧ req.mode ≠ "truncate" then
    .error (.queryFailed "Import mode must be append or truncate")
  else if req.mode = "truncate" ∧ ¬ req.allowDestructive then
    .error (.queryFailed "Replacing table data requires explicit confirmation")
  else do
    (checkImportSize req.bytes.length).mapError DbError.queryFailed
    let kind ← (importFileKind req.fileName).mapError DbError.queryFailed
    if req.options.isSome ∧ req.sourceFingerprint = none then
      .error (.queryFailed ("Parsing options require a preview fingerprint; preview and review "
        ++ "before importing"))
    else do
      let fingerprint ← (importFingerprint crates kind req.bytes req.options).mapError
        DbError.queryFailed
      if req.sourceFingerprint.any fun expected => expected ≠ fingerprint then
        .error (.queryFailed ("Import source or parsing options changed after preview; no write "
          ++ "was sent. Preview and review again."))
      else return kind

/-- The parsed file and its statements.  Nothing is sent for them. -/
def prepareImport (crates : Crates) (driver : Driver) (req : ImportRequest) :
    Except DbError (ParsedImportFile × List ImportSqlBatch) := do
  let kind ← checkImport crates driver req
  let parsed ← (parseImportBytesWithOptions crates kind req.bytes USIZE_MAX req.options).mapError
    DbError.queryFailed
  let batches ← (buildImportInsertBatches driver.dbType true req.targetSchema req.table parsed
    req.mappings (max 1 (min req.batchSize 1000))).mapError DbError.queryFailed
  return (parsed, batches)

/-- Send the statements one by one, where there are no transactions. -/
def sendBatches : ℕ → List ImportSqlBatch → DriverProgram Unit
  | _, [] => pure ()
  | imported, batch :: batches => do
      let answer ← (DriverCall.query batch.sql 0).ask
      match answer with
      | .ok _ => sendBatches (imported + batch.rowCount) batches
      | .error e => .fail (.queryFailed ("Import stopped after " ++ ofNat imported
          ++ " committed rows (non-transactional engine): " ++ e.toText))

/-- The statement that removes the rows of the table, where they are replaced. -/
def importRemoval (driver : Driver) (req : ImportRequest) : Except DbError (List Text) :=
  if req.mode = "truncate" then do
    let sql ← replacementSql driver req.targetSchema req.table
    return [sql]
  else .ok []

/-- Import a file that has been reviewed. -/
def importBytesReviewed (crates : Crates) (driver : Driver) (req : ImportRequest) :
    DriverProgram ImportSummary := do
  let (parsed, batches) ← prepareImport crates driver req
  if driver.capabilities.transactions then do
    let answer ← (DriverCall.ensureAtomicTable req.targetSchema req.table).ask
    liftM answer
    let removal ← importRemoval driver req
    let _ ← execBatch driver (removal ++ batches.map ImportSqlBatch.sql)
    return ⟨parsed.totalRows, parsed.totalRows⟩
  else do
    let _ ← importRemoval driver req
    sendBatches 0 batches
    return ⟨parsed.totalRows, parsed.totalRows⟩

end Db
