import Catio.Lib.Json
import Catio.Lib.Result
import Catio.Lib.Utf8

/-!
# Engines and errors

The engine types, the errors of the database backend and the capabilities of an engine.
-/

namespace Db

/-- The engine type of a connection. -/
inductive DatabaseType where
  | postgres
  | mysql
  | sqlite
  | duckdb
  | sqlserver
  | clickhouse
  | elasticsearch
  | rqlite
  | mongodb
  | redis
  | jdbc
  deriving DecidableEq

/-- The name of an engine type in messages. -/
def DatabaseType.debugName : DatabaseType → Text
  | .postgres => "Postgres"
  | .mysql => "Mysql"
  | .sqlite => "Sqlite"
  | .duckdb => "Duckdb"
  | .sqlserver => "Sqlserver"
  | .clickhouse => "Clickhouse"
  | .elasticsearch => "Elasticsearch"
  | .rqlite => "Rqlite"
  | .mongodb => "Mongodb"
  | .redis => "Redis"
  | .jdbc => "Jdbc"

/-- The errors of the database backend. -/
inductive DbError where
  | connectFailed (message : Text)
  | authFailed
  | notFound (message : Text)
  | queryFailed (message : Text)
  | unsupported (message : Text)
  | cancelled
  | timedOut
  | io (message : Text)
  deriving DecidableEq

def DbError.toText : DbError → Text
  | .connectFailed m => "connect failed: " ++ m
  | .authFailed => "authentication failed"
  | .notFound m => "connection not found: " ++ m
  | .queryFailed m => "query failed: " ++ m
  | .unsupported m => "unsupported for this engine: " ++ m
  | .cancelled => "query cancelled"
  | .timedOut => "query timed out"
  | .io m => "io error: " ++ m

/-- What an engine can do. -/
structure Capabilities where
  querySessions : Bool
  writable : Bool
  transactions : Bool
  schemas : Bool
  sqlConsole : Bool
  er : Bool
  structureEdit : Bool
  views : Bool
  functions : Bool
  deriving DecidableEq

/-- The capabilities of each engine type. -/
def capabilitiesFor : DatabaseType → Capabilities
  | .postgres | .sqlserver => ⟨true, true, true, true, true, true, true, true, true⟩
  | .mysql => ⟨true, true, true, false, true, true, true, true, true⟩
  | .sqlite => ⟨true, true, true, false, true, true, true, true, false⟩
  | .duckdb => ⟨true, true, true, true, true, true, true, true, true⟩
  | .rqlite => ⟨false, true, true, false, true, false, false, true, false⟩
  | .clickhouse => ⟨false, true, false, false, true, false, false, true, true⟩
  | .elasticsearch => ⟨false, true, false, false, true, false, false, false, false⟩
  | .mongodb => ⟨false, true, false, true, true, false, false, false, false⟩
  | .redis => ⟨false, true, false, true, true, false, false, false, false⟩
  | .jdbc => ⟨false, true, false, true, true, false, false, true, true⟩

end Db

/-!
## Dialects

Quoting of identifiers and literals in each dialect (`dialect.rs`, `dml.rs`), literals of
typed cells and the statements of row edits (`typed_value.rs`).
-/

namespace Db

open Text Json

/-! ### Identifiers and tables -/

/-- An identifier in the quotes of the dialect. -/
def quoteIdent (db : DatabaseType) (ident : Text) : Text :=
  match db with
  | .mysql => '`' :: replaceChar '`' ['`', '`'] ident ++ ['`']
  | .sqlserver => '[' :: replaceChar ']' [']', ']'] ident ++ [']']
  | _ => '"' :: replaceChar '"' ['"', '"'] ident ++ ['"']

/-- A string literal with its single quotes doubled. -/
def quoteLiteral (s : Text) : Text :=
  '\'' :: replaceChar '\'' ['\'', '\''] s ++ ['\'']

/-- A query with the paging clause of the dialect. -/
def paginate (db : DatabaseType) (sql : Text) (limit offset : ℕ) : Text :=
  match db with
  | .sqlserver => sql ++ " OFFSET " ++ ofNat offset ++ " ROWS FETCH NEXT " ++ ofNat limit
      ++ " ROWS ONLY"
  | _ => sql ++ " LIMIT " ++ ofNat limit ++ " OFFSET " ++ ofNat offset

/-- A table name, with its schema where there is one. -/
def qualifiedTable (db : DatabaseType) (hasSchemas : Bool) (schema : Option Text)
    (table : Text) : Text :=
  match schema with
  | some s =>
      if hasSchemas ∧ s ≠ [] then quoteIdent db s ++ ['.'] ++ quoteIdent db table
      else quoteIdent db table
  | none => quoteIdent db table

/-- A clause behind a query, unless it is blank. -/
def optionalClause (keyword : Text) (clause : Option Text) : Text :=
  match clause.map trim with
  | some clause => if clause ≠ [] then keyword ++ clause else []
  | none => []

/-- The query of a table, without paging. -/
def buildTableSelectSql (db : DatabaseType) (hasSchemas : Bool) (schema : Option Text)
    (table : Text) (whereClause orderBy : Option Text) (withCtid : Bool) : Text :=
  let projection : Text := if withCtid then "ctid AS __ctid, *" else "*"
  "SELECT " ++ projection ++ " FROM " ++ qualifiedTable db hasSchemas schema table
    ++ optionalClause " WHERE " whereClause ++ optionalClause " ORDER BY " orderBy

/-! ### Literals -/

/-- A text as two hexadecimal digits for each byte. -/
def hexBytes (s : Text) : Text :=
  (Utf8.encode s).flatMap hexByte

def stringLiteral (db : DatabaseType) (s : Text) : Text :=
  match db with
  | .mysql =>
      if '\\' ∈ s ∨ '\x00' ∈ s then "CONVERT(X'" ++ hexBytes s ++ "' USING utf8mb4)"
      else quoteLiteral s
  | .postgres =>
      if '\\' ∈ s then 'E' :: quoteLiteral (replaceChar '\\' ['\\', '\\'] s)
      else quoteLiteral s
  | .clickhouse =>
      if '\\' ∈ s ∨ '\x00' ∈ s then "unhex('" ++ hexBytes s ++ "')"
      else quoteLiteral s
  | .sqlserver => 'N' :: quoteLiteral s
  | _ => quoteLiteral s

/-- The literal of a JSON value. -/
def valueToSqlFor (db : DatabaseType) (value : Value) : Text :=
  match value with
  | .null => "NULL"
  | .bool b =>
      if db = .sqlserver then (if b then "1" else "0" : Text)
      else (if b then "TRUE" else "FALSE" : Text)
  | .number n => n.toText
  | .string s => stringLiteral db s
  | other => stringLiteral db other.toText

/-! ### Typed cells -/

/-- The hexadecimal digits of a binary value. -/
def binaryHex (value : Value) : Except DbError Text :=
  match value.asStr with
  | none => .error (.queryFailed "Binary values must be 0x-prefixed hexadecimal text")
  | some text =>
      match (stripPrefix "0x" text).or (stripPrefix "0X" text) with
      | none => .error (.queryFailed "Binary values must start with 0x")
      | some hex =>
          if hex.length % 2 ≠ 0 ∨ ¬ hex.all isHexDigit then
            .error (.queryFailed "Binary values require an even number of hexadecimal digits")
          else .ok hex

/-- The literal of a cell, which is binary or not. -/
def sqlValue (db : DatabaseType) (value : Value) (binary : Bool) : Except DbError Text :=
  if !binary ∨ value.isNull then .ok (valueToSqlFor db value)
  else do
    let hex ← binaryHex value
    match db with
    | .postgres => .ok ("decode('" ++ hex ++ "', 'hex')")
    | .sqlserver => .ok ("0x" ++ hex)
    | .duckdb => .ok ("from_hex('" ++ hex ++ "')")
    | .clickhouse => .ok ("unhex('" ++ hex ++ "')")
    | .mysql | .sqlite | .rqlite | .jdbc => .ok ("X'" ++ hex ++ "'")
    | _ => .error (.unsupported "SQL binary literals are unavailable for this engine")

/-! ### Row edits -/

structure EditRequest where
  schema : Option Text
  table : Text
  kind : Text
  pk : List (Text × Value)
  cells : List (Text × Value)
  binaryColumns : List Text
  binaryPkColumns : Option (List Text)

/-- Each name is there once, and names a column. -/
def validateColumns (names : List Text) (values : List (Text × Value)) :
    Except DbError (List Text) :=
  if names.Nodup ∧ ∀ name ∈ names, name ∈ values.map Prod.fst then .ok names
  else .error (.queryFailed
    "Binary column metadata must reference each supplied column at most once")

/-- The comparison of a key column with its value. -/
def keyPredicate (db : DatabaseType) (binary : List Text) (key : Text × Value) :
    Except DbError Text := do
  let value ← sqlValue db key.2 (key.1 ∈ binary)
  return quoteIdent db key.1 ++ " = " ++ value

/-- The statement of a row edit. -/
def editSql (db : DatabaseType) (req : EditRequest) : Except DbError Text := do
  let binary ← validateColumns req.binaryColumns req.cells
  let binaryPk ← validateColumns (req.binaryPkColumns.getD []) req.pk
  let target := qualifiedTable db true req.schema req.table
  let values ← req.cells.mapM fun (name, value) => sqlValue db value (name ∈ binary)
  let predicates ← req.pk.mapM (keyPredicate db binaryPk)
  let predicates := join " AND " predicates
  let columns := req.cells.map fun (name, _) => quoteIdent db name
  if req.kind = "insert" then
    .ok ("INSERT INTO " ++ target ++ " (" ++ join ", " columns ++ ") VALUES ("
      ++ join ", " values ++ ")")
  else if req.kind = "update" then
    .ok ("UPDATE " ++ target ++ " SET "
      ++ join ", " (List.zipWith (fun column value => column ++ " = " ++ value) columns values)
      ++ " WHERE " ++ predicates)
  else if req.kind = "delete" then
    .ok ("DELETE FROM " ++ target ++ " WHERE " ++ predicates)
  else .error (.unsupported "Unknown edit operation")

end Db
