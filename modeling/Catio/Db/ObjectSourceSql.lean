import Catio.Db.Dialect
import Catio.Lib.Slices

/-!
# Source of objects

The model of `db/object_source_sql.rs`: the statement that saves the edited source of a view, a
function or a procedure.  Keywords at the start of a source are looked for by slices of its bytes,
which can panic; then there is no result.
-/

namespace Db

open Text

/-- The objects whose source can be saved. -/
inductive ObjectSourceKind where
  | view
  | function
  | procedure
  deriving DecidableEq

structure EditableObjectSourceSqlInput where
  databaseType : DatabaseType
  objectType : ObjectSourceKind
  schema : Option Text
  name : Text
  source : Text

def objectTypeKeyword : ObjectSourceKind → Text
  | .view => "VIEW"
  | .function => "FUNCTION"
  | .procedure => "PROCEDURE"

def isSqlEngine (db : DatabaseType) : Bool :=
  !(db = .mongodb || db = .redis || db = .elasticsearch)

def isPostgresLike (db : DatabaseType) : Bool :=
  db = .postgres

/-- An engine without functions and procedures. -/
def lacksRoutines (db : DatabaseType) : Bool :=
  db = .sqlite || db = .duckdb || db = .rqlite

/-- A trimmed statement with a semicolon at its end. -/
def ensureSemicolon (sql : Text) : Text :=
  let trimmed := trim sql
  if trimmed.getLast? = some ';' then trimmed else trimmed ++ [';']

/-- The name of an object with its schema, unless that is empty. -/
def qualifiedName (db : DatabaseType) (schema : Option Text) (name : Text) : Text :=
  match schema with
  | some s => if s ≠ [] then quoteIdent db s ++ ['.'] ++ quoteIdent db name else quoteIdent db name
  | none => quoteIdent db name

def startsWithKeyword (source keyword : Text) : Option Bool :=
  startsWithWord (trimStart source) keyword

/-- `s[n..].trim_start()`. -/
def restFrom (s : Text) (n : ℕ) : Option Text :=
  (splitBytes s n).map fun p => trimStart p.2

/-- What stands behind `CREATE` is `OR ALTER`. -/
def startsWithOrAlter (afterCreate : Text) : Option Bool := do
  if ← startsWithKeyword afterCreate "OR" then
    startsWithKeyword (← restFrom afterCreate 2) "ALTER"
  else return false

/-- The source of an object of SQL Server, with `CREATE OR ALTER` for the keywords at its start. -/
def replaceSqlserverCreateWithCreateOrAlter (source : Text) : Option Text := do
  let s := trimStart source
  if ← startsWithKeyword s "CREATE" then
    let afterCreate ← restFrom s 6
    if ← startsWithOrAlter afterCreate then return trim s
    else return "CREATE OR ALTER " ++ trim afterCreate
  else if ← startsWithKeyword s "ALTER" then
    return "CREATE OR ALTER " ++ trim (← restFrom s 5)
  else return trim s

/-- A source is a whole statement. -/
def isFullDdl (source : Text) : Option Bool := do
  if ← startsWithKeyword source "CREATE" then return true
  else startsWithKeyword source "ALTER"

/-- The statement that saves a source, unless the program panics. -/
def buildExecutableObjectSourceSql (input : EditableObjectSourceSqlInput) :
    Option (Except Text Text) :=
  if !isSqlEngine input.databaseType then
    some (.error ("Saving object source is not supported for " ++ input.databaseType.debugName
      ++ ".".toList))
  else
    let source := trim input.source
    if source = [] then some (.error "Object source is empty.")
    else if input.databaseType = .sqlserver then
      (replaceSqlserverCreateWithCreateOrAlter source).map fun sql => .ok (ensureSemicolon sql)
    else if isPostgresLike input.databaseType && input.objectType = .view then
      (isFullDdl source).map fun full =>
        if full then .ok (ensureSemicolon source)
        else .ok ("CREATE OR REPLACE VIEW " ++ qualifiedName input.databaseType input.schema input.name
          ++ " AS\n" ++ ensureSemicolon source)
    else if isPostgresLike input.databaseType then some (.ok (ensureSemicolon source))
    else if lacksRoutines input.databaseType && input.objectType ≠ .view then
      some (.error (input.databaseType.debugName ++ " does not support stored "
        ++ toAsciiLowercase (objectTypeKeyword input.objectType) ++ "s."))
    else if input.databaseType = .jdbc then some (.ok (ensureSemicolon source))
    else
      some (.ok ("DROP " ++ objectTypeKeyword input.objectType ++ " IF EXISTS "
        ++ qualifiedName input.databaseType input.schema input.name ++ ";\n"
        ++ ensureSemicolon source))

end Db
