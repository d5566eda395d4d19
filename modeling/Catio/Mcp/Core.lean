import Catio.Automation.TaskRouter
import Catio.Db.Driver
import Catio.Db.TableImport
import Catio.Ssh.Exec
import Mathlib.Data.Nat.Digits.Defs

/-!
# The tools

The model of `mcp/core.rs`: the tools on connections to databases and on sessions with hosts.  What
a caller may see is given by its targets; what drivers and hosts answer is up to the outside.  The
tools ask drivers and hosts for nothing but what their targets resolve to (`callTool_onlyCalls`).
-/

namespace Mcp

open Json Text Db

/-! ### Targets -/

/-- A connection to a database that a caller sees. -/
structure ConnEntry where
  connId : Text
  name : Text
  dbType : Text
  deriving DecidableEq

/-- A host that a caller sees. -/
structure HostEntry where
  sessionId : Text
  name : Text
  host : Text
  deriving DecidableEq

/-- What a caller sees, and how names and ids are resolved to ids. -/
structure McpTargets where
  listConnections : List ConnEntry
  resolveDb : Text → Option Text
  listHosts : List HostEntry
  resolveHost : Option Text → Except Text Text

/-- The id of a connection, or that of a session. -/
inductive Target where
  | db (connId : Text)
  | ssh (sessionId : Text)
  deriving DecidableEq

/-- What a caller may reach: all that some text is resolved to. -/
def McpTargets.Reaches (targets : McpTargets) : Target → Prop
  | .db connId => ∃ key, targets.resolveDb key = some connId
  | .ssh sessionId => ∃ key, targets.resolveHost key = .ok sessionId

/-! ### Calls -/

/-- A table, with a number of its rows in JSON. -/
structure TableInfo where
  name : Text
  kind : Text
  rowsEstimate : Value

/-- The parts of the structure of a table, in JSON. -/
structure StructureParts where
  columns : Value
  indexes : Value
  fks : Value

/-- The calls to the managers of connections and sessions, to drivers and to hosts. -/
inductive TargetCall where
  | connection (connId : Text)
  | listSchemas (connId : Text)
  | listTables (connId schema : Text)
  | objectSource (connId schema name kind : Text)
  | tableStructure (connId schema table : Text)
  | query (connId sql : Text) (maxRows : ℕ)
  | execBatch (connId : Text) (statements : List Text)
  | session (sessionId : Text)
  | runOnSession (sessionId command : Text) (timeoutMs : Option ℕ)
  | uploadBlocking (sessionId localPath remotePath : Text)
  | downloadBlocking (sessionId remotePath localPath : Text)

@[reducible]
def TargetCall.Answer : TargetCall → Type
  | .connection _ => Option Driver
  | .listSchemas _ => Except DbError (List Text)
  | .listTables _ _ => Except DbError (List TableInfo)
  | .objectSource _ _ _ _ => Except DbError Text
  | .tableStructure _ _ _ => Except DbError StructureParts
  | .query _ _ _ => Except DbError QueryResult
  | .execBatch _ _ => Except DbError ℕ
  | .session _ => Bool
  | .runOnSession _ _ _ => Except Ssh.SshError Text
  | .uploadBlocking _ _ _ => Except Ssh.SshError ℕ
  | .downloadBlocking _ _ _ => Except Ssh.SshError ℕ

def TargetCall.target : TargetCall → Target
  | .connection connId => .db connId
  | .listSchemas connId => .db connId
  | .listTables connId _ => .db connId
  | .objectSource connId _ _ _ => .db connId
  | .tableStructure connId _ _ => .db connId
  | .query connId _ _ => .db connId
  | .execBatch connId _ => .db connId
  | .session sessionId => .ssh sessionId
  | .runOnSession sessionId _ _ => .ssh sessionId
  | .uploadBlocking sessionId _ _ => .ssh sessionId
  | .downloadBlocking sessionId _ _ => .ssh sessionId

/-- Programs of tools; an error is a text. -/
abbrev ToolProgram :=
  Program TargetCall TargetCall.Answer Unit Text

@[reducible]
def TargetCall.ask (c : TargetCall) : ToolProgram c.Answer :=
  Program.ask c

/-- The result of a driver, whose error is shown. -/
def shown {α : Type} (x : Except DbError α) : Except Text α :=
  x.mapError DbError.toText

/-! ### Reading arguments -/

def strField (args : Value) (key : Text) : Option Text :=
  (args.get key).bind Value.asStr

/-- The error of an argument that is missing. -/
def missing (key : Text) : Text :=
  "missing '" ++ key ++ "'"

def orError {α : Type} (x : Option α) (e : Text) : Except Text α :=
  match x with
  | some a => .ok a
  | none => .error e

/-- The natural number of a field. -/
def natField (args : Value) (key : Text) : Option ℕ :=
  ((args.get key).bind Automation.asU64).map UInt64.toNat

/-- A natural number in JSON. -/
def natValue (n : ℕ) : Value :=
  match (Nat.digits 10 n).reverse.map (Fin.ofNat 10) with
  | [] => .number ⟨false, [0], Json.zero_ne_nil, [], none⟩
  | d :: ds => .number ⟨false, d :: ds, Json.digits_ne_nil d ds, [], none⟩

/-- A number of rows, which may not be known. -/
def countValue : Option ℕ → Value
  | some n => natValue n
  | none => .null

/-! ### Databases -/

def toolListConnections (targets : McpTargets) : Text :=
  (Value.object [("connections", .array (targets.listConnections.map fun c => .object
    [("name", .string c.name), ("connId", .string c.connId), ("dbType", .string c.dbType)]))])
    |>.toTextPretty 0

/-- The connection that a name or an id stands for, with its driver. -/
def driverFor (targets : McpTargets) (conn : Text) : ToolProgram (Text × Driver) := do
  let connId ← orError (targets.resolveDb conn) ("connection not found: " ++ conn)
  let driver ← (TargetCall.connection connId).ask
  let driver ← orError driver ("no active connection: " ++ conn)
  pure (connId, driver)

def connArg (args : Value) : Except Text Text :=
  orError (strField args "connection") (missing "connection")

/-- The schema of the arguments, or the first one. -/
def firstSchema (connId : Text) (args : Value) : ToolProgram Text :=
  match strField args "schema" with
  | some schema => pure schema
  | none => do
      let schemas ← (TargetCall.listSchemas connId).ask
      let schemas ← shown schemas
      pure (schemas.headD [])

def toolListSchemas (targets : McpTargets) (args : Value) : ToolProgram Text := do
  let conn ← connArg args
  let (connId, _) ← driverFor targets conn
  let schemas ← (TargetCall.listSchemas connId).ask
  let schemas ← shown schemas
  pure ((Value.object [("schemas", .array (schemas.map .string))]).toTextPretty 0)

def toolListTables (targets : McpTargets) (args : Value) : ToolProgram Text := do
  let conn ← connArg args
  let (connId, _) ← driverFor targets conn
  let schema ← firstSchema connId args
  let tables ← (TargetCall.listTables connId schema).ask
  let tables ← shown tables
  pure ((Value.object [("schema", .string schema), ("tables", .array (tables.map fun t => .object
    [("name", .string t.name), ("kind", .string t.kind), ("rowsEstimate", t.rowsEstimate)]))])
    |>.toTextPretty 0)

def isNonSqlDmlEngine (db : DatabaseType) : Bool :=
  db = .mongodb ∨ db = .redis ∨ db = .elasticsearch

/-- The structure of a table, or the source of a view. -/
def toolGetDdl (targets : McpTargets) (args : Value) : ToolProgram Text := do
  let conn ← connArg args
  let (connId, driver) ← driverFor targets conn
  if isNonSqlDmlEngine driver.dbType then .fail "get_ddl 仅支持 SQL 引擎"
  else do
    let table ← orError (strField args "table") (missing "table")
    let schema ← firstSchema connId args
    let source ← (TargetCall.objectSource connId schema table "view").ask
    -- an error, like an empty source, means that it is no view
    let ddl := match source with
      | .ok source => if trim source = [] then none else some source
      | .error _ => none
    match ddl with
    | some ddl =>
        pure ((Value.object [("schema", .string schema), ("name", .string table),
          ("kind", .string "view"), ("ddl", .string ddl)]).toTextPretty 0)
    | none => do
        let parts ← (TargetCall.tableStructure connId schema table).ask
        let parts ← shown parts
        pure ((Value.object [("schema", .string schema), ("name", .string table),
          ("kind", .string "table"), ("columns", parts.columns), ("indexes", parts.indexes),
          ("foreignKeys", parts.fks)]).toTextPretty 0)

def toolQuerySql (targets : McpTargets) (args : Value) : ToolProgram Text := do
  let sql ← orError (strField args "sql") (missing "sql")
  let maxRows := ((natField args "maxRows").getD 200) % 2 ^ 32
  let conn ← connArg args
  let (connId, driver) ← driverFor targets conn
  if isNonSqlDmlEngine driver.dbType then .fail "query_sql 仅支持 SQL 引擎"
  else do
    let res ← (TargetCall.query connId sql maxRows).ask
    let res ← shown res
    pure ((Value.object [("columns", .array (res.columns.map fun c => .string c.name)),
      ("rows", .array (res.rows.map .array)), ("rowsAffected", countValue res.rowsAffected),
      ("truncated", .bool res.truncated)]).toTextPretty 0)

/-- Execute a statement whose first word is given. -/
def toolWriteSql (targets : McpTargets) (args : Value) (keyword : Text) : ToolProgram Text := do
  let sql ← orError (strField args "sql") (missing "sql")
  let first := toAsciiUppercase ((splitWhitespace sql).headD [])
  if first ≠ keyword then
    .fail ("this tool only runs " ++ keyword ++ " statements (got '" ++ first ++ "')")
  else do
    let conn ← connArg args
    let (connId, driver) ← driverFor targets conn
    if driver.capabilities.writable = false then .fail "read-only engine"
    else if isNonSqlDmlEngine driver.dbType then
      .fail "editing via SQL DML is not supported for this engine"
    else do
      let res ← (TargetCall.query connId sql 0).ask
      let res ← shown res
      pure ((Value.object [("rowsAffected", countValue res.rowsAffected)]).toTextPretty 0)

/-! ### Rows to insert -/

def INSERT_ROWS_MAX_ROWS : ℕ := 50000

def INSERT_ROWS_MAX_BATCH_SIZE : ℕ := 5000

structure InsertRowsArgs where
  schema : Option Text
  table : Text
  columns : List Text
  rows : List (List Value)
  batchSize : ℕ

/-- The trimmed string of a value, if it is not empty. -/
def trimmed (value : Option Value) : Option Text :=
  match value.bind Value.asStr with
  | some s => if trim s = [] then none else some (trim s)
  | none => none

def stringArg (args : Value) (key : Text) : Except Text Text :=
  orError (trimmed (args.get key)) (missing key)

/-- The cells of a row, which is an array with one cell for each column, or an object. -/
def rowCells (columns : List Text) (rowIdx : ℕ) : Value → Except Text (List Value)
  | .array cells =>
      if cells.length ≠ columns.length then
        .error ("rows[" ++ ofNat rowIdx ++ "] has " ++ ofNat cells.length
          ++ " values but columns has " ++ ofNat columns.length)
      else .ok cells
  | .object obj =>
      columns.mapM fun column => orError (obj.lookup column)
        ("rows[" ++ ofNat rowIdx ++ "] object is missing column '" ++ column ++ "'")
  | _ => .error ("rows[" ++ ofNat rowIdx ++ "] must be an array or object")

/-- The number of rows of a statement. -/
def batchSizeOf (args : Value) : Except Text ℕ :=
  match args.get "batchSize" with
  | some v =>
      match (Automation.asU64 v).map UInt64.toNat with
      | some n =>
          if n = 0 then .error "'batchSize' must be a positive integer"
          else .ok (min n INSERT_ROWS_MAX_BATCH_SIZE)
      | none => .error "'batchSize' must be a positive integer"
  | none => .ok DEFAULT_BATCH_SIZE

def parseInsertRowsArgs (args : Value) : Except Text InsertRowsArgs := do
  let table ← stringArg args "table"
  let schema := trimmed (args.get "schema")
  let columnsValue ← orError ((args.get "columns").bind Value.asArray) (missing "columns")
  if columnsValue = [] then .error "'columns' must not be empty"
  else do
    let columns ← columnsValue.zipIdx.mapM fun (value, idx) =>
      orError (trimmed (some value)) ("columns[" ++ ofNat idx ++ "] must be a non-empty string")
    let rowsValue ← orError ((args.get "rows").bind Value.asArray) (missing "rows")
    if rowsValue = [] then .error "'rows' must not be empty"
    else if INSERT_ROWS_MAX_ROWS < rowsValue.length then
      .error ("'rows' has " ++ ofNat rowsValue.length ++ " entries, over the limit "
        ++ ofNat INSERT_ROWS_MAX_ROWS
        ++ "; split the import into multiple insert_rows calls")
    else do
      let rows ← rowsValue.zipIdx.mapM fun (row, rowIdx) => rowCells columns rowIdx row
      let batchSize ← batchSizeOf args
      pure ⟨schema, table, columns, rows, batchSize⟩

def buildInsertRowBatches (db : DatabaseType) (hasSchemas : Bool) (args : InsertRowsArgs) :
    Except Text (List ImportSqlBatch) :=
  buildImportInsertBatches db hasSchemas args.schema args.table
    { columns := args.columns, rows := args.rows, totalRows := args.rows.length,
      binaryCells := none }
    (args.columns.map fun column => { sourceColumn := column, targetColumn := column })
    args.batchSize

/-- Execute statements one by one, and add up the rows, as long as their numbers are known. -/
def executeEach (connId : Text) (affected : Option ℕ) :
    List ImportSqlBatch → ToolProgram (Option ℕ)
  | [] => pure affected
  | batch :: batches => do
      let res ← (TargetCall.query connId batch.sql 0).ask
      let res ← shown res
      let affected := match affected, res.rowsAffected with
        | some total, some n => some (total + n)
        | _, _ => none
      executeEach connId affected batches

/-- Execute statements as one transaction, or one by one where there are no transactions. -/
def executeInsertBatches (connId : Text) (batches : List ImportSqlBatch) :
    ToolProgram (Option ℕ × Bool) :=
  match batches with
  | [batch] => do
      let res ← (TargetCall.query connId batch.sql 0).ask
      let res ← shown res
      pure (res.rowsAffected, true)
  | batches => do
      let n ← (TargetCall.execBatch connId (batches.map ImportSqlBatch.sql)).ask
      match n with
      | .ok n => pure (some n, true)
      | .error (.unsupported _) => do
          let affected ← executeEach connId (some 0) batches
          pure (affected, false)
      | .error e => .fail e.toText

def toolInsertRows (targets : McpTargets) (args : Value) : ToolProgram Text := do
  let parsed ← parseInsertRowsArgs args
  let conn ← connArg args
  let (connId, driver) ← driverFor targets conn
  if driver.capabilities.writable = false then .fail "read-only engine"
  else if isNonSqlDmlEngine driver.dbType then
    .fail "editing via SQL DML is not supported for this engine"
  else do
    let batches ← buildInsertRowBatches driver.dbType driver.capabilities.schemas parsed
    let (rowsAffected, transactional) ← executeInsertBatches connId batches
    pure ((Value.object [("rowsSubmitted", natValue parsed.rows.length),
      ("batches", natValue batches.length), ("rowsAffected", countValue rowsAffected),
      ("transactional", .bool transactional)]).toTextPretty 0)

/-! ### Hosts -/

def shellQuote (s : Text) : Text :=
  ['\''] ++ replaceChar '\'' "'\\''" s ++ ['\'']

def toolListHosts (targets : McpTargets) : Text :=
  (Value.object [("hosts", .array (targets.listHosts.map fun h => .object
    [("name", .string h.name), ("host", .string h.host), ("sessionId", .string h.sessionId)]))])
    |>.toTextPretty 0

/-- The session of the host that a name or an id stands for. -/
def sessionFor (targets : McpTargets) (conn : Option Text) : ToolProgram Text := do
  let sid ← targets.resolveHost conn
  let found ← (TargetCall.session sid).ask
  if found then pure sid else .fail ("session not found: " ++ sid)

def commandError (timeoutMs : Option ℕ) : Ssh.SshError → Text
  | .timedOut partialOutput =>
      if partialOutput = [] then
        "command timed out after " ++ ofNat (timeoutMs.getD 0) ++ "ms (no output before timeout)"
      else "command timed out after " ++ ofNat (timeoutMs.getD 0)
        ++ "ms; partial output before timeout:\n" ++ partialOutput
  | .cancelled => "operation cancelled"
  | e => e.toText

def toolExecuteCommand (targets : McpTargets) (args : Value) : ToolProgram Text := do
  let cmd ← orError (strField args "cmdString") (missing "cmdString")
  let timeoutMs := (natField args "timeout").filter fun ms => 0 < ms
  let sid ← sessionFor targets (strField args "connectionName")
  let full := match strField args "directory" with
    | some d => if d = [] then cmd else "cd " ++ shellQuote d ++ " && " ++ cmd
    | none => cmd
  let out ← (TargetCall.runOnSession sid full timeoutMs).ask
  liftM (out.mapError (commandError timeoutMs))

def toolUploadFile (targets : McpTargets) (args : Value) : ToolProgram Text := do
  let localPath ← orError (strField args "localPath") (missing "localPath")
  let remotePath ← orError (strField args "remotePath") (missing "remotePath")
  let sid ← targets.resolveHost (strField args "connectionName")
  let n ← (TargetCall.uploadBlocking sid localPath remotePath).ask
  let n ← n.mapError Ssh.SshError.toText
  pure ("Uploaded " ++ ofNat n ++ " bytes to " ++ remotePath)

def toolDownloadFile (targets : McpTargets) (args : Value) : ToolProgram Text := do
  let remotePath ← orError (strField args "remotePath") (missing "remotePath")
  let localPath ← orError (strField args "localPath") (missing "localPath")
  let sid ← targets.resolveHost (strField args "connectionName")
  let n ← (TargetCall.downloadBlocking sid remotePath localPath).ask
  let n ← n.mapError Ssh.SshError.toText
  pure ("Downloaded " ++ ofNat n ++ " bytes to " ++ localPath)

/-! ### All tools -/

def callTool (targets : McpTargets) (name : Text) (args : Value) : ToolProgram Text :=
  if name = "list_connections" then pure (toolListConnections targets)
  else if name = "list_schemas" then toolListSchemas targets args
  else if name = "list_tables" then toolListTables targets args
  else if name = "get_ddl" then toolGetDdl targets args
  else if name = "query_sql" then toolQuerySql targets args
  else if name = "insert_sql" then toolWriteSql targets args "INSERT"
  else if name = "insert_rows" then toolInsertRows targets args
  else if name = "update_sql" then toolWriteSql targets args "UPDATE"
  else if name = "delete_sql" then toolWriteSql targets args "DELETE"
  else if name = "list_hosts" then pure (toolListHosts targets)
  else if name = "execute_command" then toolExecuteCommand targets args
  else if name = "upload_file" then toolUploadFile targets args
  else if name = "download_file" then toolDownloadFile targets args
  else .fail ("unknown tool: " ++ name)

/-! ### What tools call -/

section

variable {targets : McpTargets} {connId : Text}

open Program

/-- Only what the targets resolve to is called. -/
abbrev McpTargets.Only (targets : McpTargets) {α : Type} (p : ToolProgram α) : Prop :=
  p.OnlyCalls fun c => targets.Reaches c.target

theorem onlyCalls_ask_bind {α : Type} {c : TargetCall} (h : targets.Reaches c.target)
    {f : c.Answer → ToolProgram α} (hf : ∀ r, targets.Only (f r)) :
  targets.Only (c.ask >>= f)
  := onlyCalls_bind (onlyCalls_ask h) hf

theorem onlyCalls_lift_bind {α β : Type} {x : Except Text α} {f : α → ToolProgram β}
    (hf : ∀ a, targets.Only (f a)) :
  targets.Only (liftM x >>= f)
  := onlyCalls_bind (onlyCalls_lift x) hf

theorem onlyCalls_driverFor {α : Type} (conn : Text) {f : Text × Driver → ToolProgram α}
    (hf : ∀ connId driver, targets.Reaches (.db connId) → targets.Only (f (connId, driver))) :
  targets.Only (driverFor targets conn >>= f)
  := by
  unfold driverFor
  cases h : targets.resolveDb conn with
  | none => trivial
  | some connId =>
    have hreaches : targets.Reaches (.db connId) := ⟨conn, h⟩
    refine ⟨hreaches, ?_⟩
    intro driver
    cases driver with
    | none => trivial
    | some driver => exact hf connId driver hreaches

theorem onlyCalls_resolveHost {α : Type} (conn : Option Text) {f : Text → ToolProgram α}
    (hf : ∀ sid, targets.Reaches (.ssh sid) → targets.Only (f sid)) :
  targets.Only (liftM (targets.resolveHost conn) >>= f)
  := by
  cases h : targets.resolveHost conn with
  | error e => trivial
  | ok sid => exact hf sid ⟨conn, h⟩

theorem onlyCalls_sessionFor {α : Type} (conn : Option Text) {f : Text → ToolProgram α}
    (hf : ∀ sid, targets.Reaches (.ssh sid) → targets.Only (f sid)) :
  targets.Only (sessionFor targets conn >>= f)
  := by
  unfold sessionFor
  cases h : targets.resolveHost conn with
  | error e => trivial
  | ok sid =>
    have hreaches : targets.Reaches (.ssh sid) := ⟨conn, h⟩
    refine ⟨hreaches, ?_⟩
    intro found
    cases found with
    | false => trivial
    | true => exact hf sid hreaches

theorem onlyCalls_firstSchema (h : targets.Reaches (.db connId)) (args : Value) :
  targets.Only (firstSchema connId args)
  := by
  unfold firstSchema
  split
  · trivial
  · apply onlyCalls_ask_bind h
    intro schemas
    apply onlyCalls_lift_bind
    intro schemas
    trivial

theorem onlyCalls_toolListSchemas (args : Value) :
  targets.Only (toolListSchemas targets args)
  := by
  apply onlyCalls_lift_bind
  intro conn
  apply onlyCalls_driverFor
  intro connId driver h
  apply onlyCalls_ask_bind h
  intro schemas
  apply onlyCalls_lift_bind
  intro schemas
  trivial

theorem onlyCalls_toolListTables (args : Value) :
  targets.Only (toolListTables targets args)
  := by
  apply onlyCalls_lift_bind
  intro conn
  apply onlyCalls_driverFor
  intro connId driver h
  apply onlyCalls_bind (onlyCalls_firstSchema h args)
  intro schema
  apply onlyCalls_ask_bind h
  intro tables
  apply onlyCalls_lift_bind
  intro tables
  trivial

theorem onlyCalls_toolGetDdl (args : Value) :
  targets.Only (toolGetDdl targets args)
  := by
  apply onlyCalls_lift_bind
  intro conn
  apply onlyCalls_driverFor
  intro connId driver h
  dsimp only
  split
  · trivial
  · apply onlyCalls_lift_bind
    intro table
    apply onlyCalls_bind (onlyCalls_firstSchema h args)
    intro schema
    apply onlyCalls_ask_bind h
    intro source
    split
    · trivial
    · apply onlyCalls_ask_bind h
      intro parts
      apply onlyCalls_lift_bind
      intro parts
      trivial

theorem onlyCalls_toolQuerySql (args : Value) :
  targets.Only (toolQuerySql targets args)
  := by
  apply onlyCalls_lift_bind
  intro sql
  apply onlyCalls_lift_bind
  intro conn
  apply onlyCalls_driverFor
  intro connId driver h
  dsimp only
  split
  · trivial
  · apply onlyCalls_ask_bind h
    intro res
    apply onlyCalls_lift_bind
    intro res
    trivial

theorem onlyCalls_toolWriteSql (args : Value) (keyword : Text) :
  targets.Only (toolWriteSql targets args keyword)
  := by
  apply onlyCalls_lift_bind
  intro sql
  dsimp only
  split
  · trivial
  · apply onlyCalls_lift_bind
    intro conn
    apply onlyCalls_driverFor
    intro connId driver h
    dsimp only
    split
    · trivial
    · split
      · trivial
      · apply onlyCalls_ask_bind h
        intro res
        apply onlyCalls_lift_bind
        intro res
        trivial

theorem onlyCalls_executeEach (h : targets.Reaches (.db connId)) (batches : List ImportSqlBatch)
    (affected : Option ℕ) :
  targets.Only (executeEach connId affected batches)
  := by
  induction batches generalizing affected with
  | nil => trivial
  | cons batch batches ih =>
    apply onlyCalls_ask_bind h
    intro res
    apply onlyCalls_lift_bind
    intro res
    apply ih

theorem onlyCalls_executeInsertBatches (h : targets.Reaches (.db connId))
    (batches : List ImportSqlBatch) :
  targets.Only (executeInsertBatches connId batches)
  := by
  unfold executeInsertBatches
  split
  · apply onlyCalls_ask_bind h
    intro res
    apply onlyCalls_lift_bind
    intro res
    trivial
  · apply onlyCalls_ask_bind h
    intro n
    split
    · trivial
    · apply onlyCalls_bind (onlyCalls_executeEach h _ _)
      intro affected
      trivial
    · trivial

theorem onlyCalls_toolInsertRows (args : Value) :
  targets.Only (toolInsertRows targets args)
  := by
  apply onlyCalls_lift_bind
  intro parsed
  apply onlyCalls_lift_bind
  intro conn
  apply onlyCalls_driverFor
  intro connId driver h
  dsimp only
  split
  · trivial
  · split
    · trivial
    · apply onlyCalls_lift_bind
      intro batches
      apply onlyCalls_bind (onlyCalls_executeInsertBatches h batches)
      intro result
      trivial

theorem onlyCalls_toolExecuteCommand (args : Value) :
  targets.Only (toolExecuteCommand targets args)
  := by
  apply onlyCalls_lift_bind
  intro cmd
  apply onlyCalls_sessionFor
  intro sid h
  apply onlyCalls_ask_bind h
  intro out
  apply onlyCalls_lift

theorem onlyCalls_toolUploadFile (args : Value) :
  targets.Only (toolUploadFile targets args)
  := by
  apply onlyCalls_lift_bind
  intro localPath
  apply onlyCalls_lift_bind
  intro remotePath
  apply onlyCalls_resolveHost
  intro sid h
  apply onlyCalls_ask_bind h
  intro n
  apply onlyCalls_lift_bind
  intro n
  trivial

theorem onlyCalls_toolDownloadFile (args : Value) :
  targets.Only (toolDownloadFile targets args)
  := by
  apply onlyCalls_lift_bind
  intro remotePath
  apply onlyCalls_lift_bind
  intro localPath
  apply onlyCalls_resolveHost
  intro sid h
  apply onlyCalls_ask_bind h
  intro n
  apply onlyCalls_lift_bind
  intro n
  trivial

theorem callTool_onlyCalls (targets : McpTargets) (name : Text) (args : Value) :
  targets.Only (callTool targets name args)
  := by
  have hite : ∀ (s : Text) {p q : ToolProgram Text}, targets.Only p → targets.Only q →
      targets.Only (if name = s then p else q) := by
    intro s p q hp hq
    split
    · exact hp
    · exact hq
  apply hite _ (onlyCalls_pure _)
  apply hite _ (onlyCalls_toolListSchemas args)
  apply hite _ (onlyCalls_toolListTables args)
  apply hite _ (onlyCalls_toolGetDdl args)
  apply hite _ (onlyCalls_toolQuerySql args)
  apply hite _ (onlyCalls_toolWriteSql args _)
  apply hite _ (onlyCalls_toolInsertRows args)
  apply hite _ (onlyCalls_toolWriteSql args _)
  apply hite _ (onlyCalls_toolWriteSql args _)
  apply hite _ (onlyCalls_pure _)
  apply hite _ (onlyCalls_toolExecuteCommand args)
  apply hite _ (onlyCalls_toolUploadFile args)
  apply hite _ (onlyCalls_toolDownloadFile args)
  trivial

end

end Mcp
