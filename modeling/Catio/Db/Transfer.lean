import Catio.Db.Dialect

/-!
# Table transfers

The model of `transfer.rs`: the mapping of columns, the checks before a transfer and the
statements that write a page of rows to the target.
-/

namespace Db

open Text Json

/-- How rows are written to the target. -/
inductive TransferMode where
  | append
  | overwrite
  | upsert
  deriving DecidableEq

/-- A source column and the target column it is written to.  A blank target column means
that the source column is left out. -/
structure TransferColumnMapping where
  sourceColumn : Text
  targetColumn : Text
  deriving DecidableEq

/-- The source column is left out. -/
def TransferColumnMapping.isSkipped (mapping : TransferColumnMapping) : Bool :=
  trim mapping.targetColumn = []

/-- Resolve one mapping behind others. -/
def resolveMapping (sourceColumns : List Text) (mapped : List (ℕ × Text))
    (mapping : TransferColumnMapping) : Except Text (List (ℕ × Text)) :=
  if mapping.isSkipped then .ok mapped
  else
    match sourceColumns.findIdx? (· = mapping.sourceColumn) with
    | none => .error ("源列不存在: " ++ mapping.sourceColumn)
    | some sourceIndex =>
        if mapping.targetColumn ∈ mapped.map Prod.snd then
          .error ("目标列被重复映射: " ++ mapping.targetColumn)
        else .ok (mapped ++ [(sourceIndex, mapping.targetColumn)])

def resolveTransferMapping (sourceColumns : List Text) (mappings : List TransferColumnMapping) :
    Except Text (List (ℕ × Text)) := do
  let mapped ← mappings.foldlM (resolveMapping sourceColumns) []
  if mapped = [] then .error "没有可迁移的列映射" else .ok mapped

def validateUpsertKeys (targetColumns upsertKeys : List Text) : Except Text Unit :=
  if upsertKeys = [] then .error "Upsert 模式必须指定至少一个键列"
  else
    match upsertKeys.find? (· ∉ targetColumns) with
    | some key => .error ("Upsert 键不在目标列中: " ++ key)
    | none => .ok ()

/-- The engine has an upsert of its own. -/
def supportsNativeUpsert (db : DatabaseType) : Bool :=
  db ∈ [DatabaseType.postgres, .sqlite, .duckdb, .mysql, .sqlserver]

/-- Reject engines without an upsert of their own. -/
def ensureUpsertSupported (db : DatabaseType) : Except Text Unit :=
  if supportsNativeUpsert db then .ok ()
  else .error ("目标引擎 " ++ db.debugName ++ " 不支持原生 Upsert,请改用 Append 或 Overwrite 模式")

/-- What is checked before anything is read or written. -/
def checkTransferPreconditions (mode : TransferMode) (db : DatabaseType)
    (targetColumns upsertKeys : List Text) (allowDestructive : Bool) : Except Text Unit :=
  match mode with
  | .append => .ok ()
  | .overwrite =>
      if allowDestructive then .ok ()
      else .error "Overwrite 是破坏性操作（会清空目标表）,需显式确认后才能执行"
  | .upsert => do
      ensureUpsertSupported db
      validateUpsertKeys targetColumns upsertKeys

/-- The statement that writes rendered rows to the target.  The first key of an upsert is
there because of the checks before. -/
def buildTransferSqlValues (mode : TransferMode) (db : DatabaseType) (hasSchemas : Bool)
    (schema : Option Text) (table : Text) (mapped : List (ℕ × Text)) (upsertKeys : List Text)
    (values : Text) : Text :=
  let tbl := qualifiedTable db hasSchemas schema table
  let targetColumns := mapped.map Prod.snd
  let colList := join ", " (targetColumns.map (quoteIdent db))
  let baseInsert := "INSERT INTO " ++ tbl ++ " (" ++ colList ++ ") VALUES " ++ values
  if mode ≠ .upsert then baseInsert
  else
    let nonKey := targetColumns.filter (· ∉ upsertKeys)
    match db with
    | .postgres | .sqlite | .duckdb =>
        let conflict := join ", " (upsertKeys.map (quoteIdent db))
        if nonKey = [] then baseInsert ++ " ON CONFLICT (" ++ conflict ++ ") DO NOTHING"
        else
          let set := join ", " (nonKey.map fun c =>
            let q := quoteIdent db c
            q ++ " = EXCLUDED." ++ q)
          baseInsert ++ " ON CONFLICT (" ++ conflict ++ ") DO UPDATE SET " ++ set
    | .mysql =>
        if nonKey = [] then
          let first := quoteIdent db (upsertKeys.headD [])
          baseInsert ++ " ON DUPLICATE KEY UPDATE " ++ first ++ " = " ++ first
        else
          let set := join ", " (nonKey.map fun c =>
            let q := quoteIdent db c
            q ++ " = VALUES(" ++ q ++ ")")
          baseInsert ++ " ON DUPLICATE KEY UPDATE " ++ set
    | .sqlserver =>
        let srcCols := join ", " (targetColumns.map (quoteIdent db))
        let on := join " AND " (upsertKeys.map fun c =>
          let q := quoteIdent db c
          "target." ++ q ++ " = src." ++ q)
        let set := join ", " (nonKey.map fun c =>
          let q := quoteIdent db c
          "target." ++ q ++ " = src." ++ q)
        let matched : Text := if nonKey = [] then [] else " WHEN MATCHED THEN UPDATE SET " ++ set
        let insertCols := join ", " (targetColumns.map (quoteIdent db))
        let insertVals := join ", " (targetColumns.map fun c => "src." ++ quoteIdent db c)
        "MERGE INTO " ++ tbl ++ " AS target USING (VALUES " ++ values ++ ") AS src (" ++ srcCols
          ++ ") ON " ++ on ++ matched ++ " WHEN NOT MATCHED THEN INSERT (" ++ insertCols
          ++ ") VALUES (" ++ insertVals ++ ");"
    | _ => baseInsert

/-- The literals of the mapped cells of a row, in parentheses.  The cells at `isBinary` are
binary. -/
def transferRow (db : DatabaseType) (mapped : List (ℕ × Text)) (isBinary : ℕ → Bool)
    (row : List Value) : Except DbError Text := do
  let values ← mapped.mapM fun (c, _) =>
    match row[c]? with
    | none => .error (.queryFailed "Transfer row is missing a mapped column")
    | some value => sqlValue db value (isBinary c)
  return "(" ++ join ", " values ++ ")"

/-- The statement that writes a page of rows to the target. -/
def buildTransferWriteSqlTyped (mode : TransferMode) (db : DatabaseType) (hasSchemas : Bool)
    (schema : Option Text) (table : Text) (mapped : List (ℕ × Text)) (rows : List (List Value))
    (upsertKeys : List Text) (binaryCells : List (ℕ × ℕ)) : Except DbError Text :=
  if mapped = [] ∨ rows = [] then .ok []
  else do
    let values ← rows.zipIdx.mapM fun (row, r) =>
      transferRow db mapped (fun c => (r, c) ∈ binaryCells) row
    return buildTransferSqlValues mode db hasSchemas schema table mapped upsertKeys
      (join ", " values)

end Db
