import Catio.Workbench.CompareTables
import Catio.Workbench.CopySql

/-!
# Statements of a comparison as SQL

The rest of the model of `components/workbench/compareTables.ts`: the statements that bring the
target to the source as they are written, for any record of a difference, also one that no
comparison has made.  They come of the rows one after the other (`genSyncStatements_eq_collect`).
-/

namespace Workbench.CompareSql

open JavaScript

/-! ### Names and values -/

/-- An engine is one of those with a word in their names, whatever its case. -/
def engineMatches (words : List Text) (engine : Option Text) : Bool :=
  words.any fun word => word <:+: Text.toAsciiLowercase (engine.getD [])

def isMysqlish (engine : Option Text) : Bool :=
  engineMatches ["mysql", "maria", "tidb", "oceanbase", "goldendb"] engine

def qid (name : Text) (engine : Option Text) : Text :=
  if isMysqlish engine then '`' :: Text.replaceChar '`' "``" name ++ ['`']
  else if engineMatches ["sqlserver", "mssql", "tiberius"] engine then
    '[' :: Text.replaceChar ']' "]]" name ++ [']']
  else '"' :: Text.replaceChar '"' "\"\"" name ++ ['"']

/-- The text of a value is that of a finite number with an exponent. -/
def hasExponent (value : Value) : Bool :=
  match value with
  | .number n => n.isFinite && n.toText.any fun c => c = 'e' || c = 'E'
  | _ => false

def qval (value : Value) (engine : Option Text) (binary : Bool) : Except Text Text :=
  match value with
  | .boolean b =>
      if isMysqlish engine then .ok (if b then "1" else "0")
      else sqlValue value (copyDialectFor engine) binary
  | value =>
      let dialect := copyDialectFor (if isMysqlish engine then some "mysql".toList else engine)
      if hasExponent value then sqlValue (.string value.toText) dialect false
      else sqlValue value dialect binary

/-- A table with its schema, unless that is empty. -/
def qtable (schema table : Text) (engine : Option Text) : Text :=
  if schema ≠ [] then qid schema engine ++ ['.'] ++ qid table engine else qid table engine

/-! ### Records of differences -/

structure SyncUpdate where
  src : List Value
  tgt : Option (List Value)
  changedColumns : Option (List ℚ)
  targetBinary : Option (List ℚ)

inductive CompareChangeKind where
  | inserts
  | updates
  | deletes
  deriving DecidableEq

/-- The binary cells of each kind, by the row among those of the kind and the column. -/
structure BinarySidecar where
  inserts : List BinaryCell
  updates : List BinaryCell
  deletes : List BinaryCell

def BinarySidecar.of (binary : BinarySidecar) : CompareChangeKind → List BinaryCell
  | .inserts => binary.inserts
  | .updates => binary.updates
  | .deletes => binary.deletes

/-- A difference with everything that it may have. -/
structure SyncDiff where
  colNames : List Text
  pkNames : List Text
  inserts : List (List Value)
  updates : List SyncUpdate
  deletes : List (List Value)
  binary : Option BinarySidecar
  error : Option CompareError

def SyncDiff.binaryOf (diff : SyncDiff) (kind : CompareChangeKind) : List BinaryCell :=
  (diff.binary.map fun binary => binary.of kind).getD []

def marked (cells : List BinaryCell) (r c : ℕ) : Bool :=
  decide (((r : ℚ), (c : ℚ)) ∈ cells)

/-! ### Statements -/

/-- What statements are written for. -/
structure SyncTarget where
  schema : Text
  table : Text
  engine : Option Text

section

variable (target : SyncTarget) (colNames pkNames : List Text)

/-- The places of the key columns, unless one is missing. -/
def keyPlaces : List (Option ℕ) :=
  pkNames.map fun name => colNames.idxOf? name

/-- The condition on the key of a row. -/
def whereText (row : List Value) (binary : ℕ → Bool) : Except Text Text := do
  let conditions ← (pkNames.zip (keyPlaces colNames pkNames)).mapM fun (name, key) => do
    let c := key.getD 0
    let literal ← qval (cellAt row c) target.engine (binary c)
    return qid name target.engine ++ " = " ++ literal
  return Text.join " AND " conditions

def reference : Text :=
  qtable target.schema target.table target.engine

def insertText (row : List Value) (binary : ℕ → Bool) : Except Text Text := do
  let literals ← (row.mapIdx fun c value => (c, value)).mapM fun (c, value) =>
    qval value target.engine (binary c)
  return "INSERT INTO " ++ reference target ++ " ("
    ++ Text.join ", " (colNames.map fun c => qid c target.engine) ++ ") VALUES ("
    ++ Text.join ", " literals ++ ");"

/-- The statement that updates a row, if there is a column besides the key. -/
def updateText (src : List Value) (binary : ℕ → Bool) : Except Text (Option Text) := do
  let values ← ((colNames.mapIdx fun c name => (c, name)).filter fun p =>
      some p.1 ∉ keyPlaces colNames pkNames).mapM fun (c, name) => do
    let literal ← qval (cellAt src c) target.engine (binary c)
    return qid name target.engine ++ " = " ++ literal
  if values = [] then return none
  else
    let condition ← whereText target colNames pkNames src binary
    return some ("UPDATE " ++ reference target ++ " SET " ++ Text.join ", " values ++ " WHERE "
      ++ condition ++ ";")

/-- The statement that deletes a row. -/
def deleteText (row : List Value) (binary : ℕ → Bool) : Except Text Text := do
  let condition ← whereText target colNames pkNames row binary
  return "DELETE FROM " ++ reference target ++ " WHERE " ++ condition ++ ";"

end

/-- There are no statements: the tables were not compared, or the key is missing. -/
def refused (target : SyncTarget) (diff : SyncDiff) : Bool :=
  diff.error.isSome || diff.pkNames = [] || target.table = []
    || (keyPlaces diff.colNames diff.pkNames).any Option.isNone

/-- The statements that bring the target to the source, unless a binary value is none. -/
def genSyncStatements (target : SyncTarget) (diff : SyncDiff) (allowDelete : Bool) :
    Except Text (List Text) :=
  if refused target diff then .ok []
  else do
    let inserts ← (diff.inserts.mapIdx fun r row => (r, row)).mapM fun (r, row) =>
      insertText target diff.colNames row (marked (diff.binaryOf .inserts) r)
    let updates ← (diff.updates.mapIdx fun r u => (r, u)).mapM fun (r, u) =>
      updateText target diff.colNames diff.pkNames u.src (marked (diff.binaryOf .updates) r)
    let deletes ←
      if allowDelete then
        (diff.deletes.mapIdx fun r row => (r, row)).mapM fun (r, row) =>
          deleteText target diff.colNames diff.pkNames row (marked (diff.binaryOf .deletes) r)
      else pure []
    return inserts ++ updates.filterMap id ++ deletes

/-! ### Results -/

/-- The statements among some results, unless one of them is an error. -/
def collect : List (Except Text (Option Text)) → Except Text (List Text)
  | [] => .ok []
  | result :: results => do
      let text ← result
      let texts ← collect results
      return text.toList ++ texts

theorem collect_cons (result : Except Text (Option Text))
    (results : List (Except Text (Option Text))) :
  collect (result :: results) = do
    let text ← result
    let texts ← collect results
    return text.toList ++ texts
  := rfl

theorem collect_append (results later : List (Except Text (Option Text))) :
  collect (results ++ later) = do
    let texts ← collect results
    let others ← collect later
    return texts ++ others
  := by
  induction results with
  | nil =>
    rw [List.nil_append]
    cases hlater : collect later <;> rfl
  | cons result results ih =>
    rw [List.cons_append, collect_cons, collect_cons, ih]
    cases result with
    | error e => rfl
    | ok text =>
      cases collect results with
      | error e => rfl
      | ok texts =>
        cases collect later with
        | error e => rfl
        | ok others => simp [bind, Except.bind, pure, Except.pure]

theorem collect_map_some {α : Type} (items : List α) (f : α → Except Text Text) :
  collect (items.map fun x => (f x).map some) = items.mapM f
  := by
  induction items with
  | nil => rfl
  | cons x items ih =>
    rw [List.map_cons, collect_cons, ih, List.mapM_cons]
    cases f x <;> rfl

theorem collect_map {α : Type} (items : List α) (f : α → Except Text (Option Text)) :
  collect (items.map f) = (items.mapM f).map fun texts => texts.filterMap id
  := by
  induction items with
  | nil => rfl
  | cons x items ih =>
    rw [List.map_cons, collect_cons, ih, List.mapM_cons]
    cases f x with
    | error e => rfl
    | ok text =>
      cases items.mapM f with
      | error e => rfl
      | ok texts => cases text <;> rfl

theorem collect_cons_eq_ok {result : Except Text (Option Text)}
    {results : List (Except Text (Option Text))} {lines : List Text} :
  collect (result :: results) = .ok lines
    ↔ ∃ text texts, result = .ok text ∧ collect results = .ok texts
      ∧ text.toList ++ texts = lines
  := by
  rw [collect_cons]
  cases result with
  | error e => simp [bind, Except.bind]
  | ok text =>
    cases collect results with
    | error e => simp [bind, Except.bind]
    | ok texts => simp [bind, Except.bind, pure, Except.pure]

theorem collect_sublist {results fewer : List (Except Text (Option Text))}
    (h : fewer.Sublist results) {lines : List Text} (hlines : collect results = .ok lines) :
  ∃ lines', collect fewer = .ok lines' ∧ lines'.Sublist lines
  := by
  induction h generalizing lines with
  | slnil => exact ⟨[], rfl, List.nil_sublist lines⟩
  | cons result h ih =>
    obtain ⟨text, texts, -, hrest, rfl⟩ := collect_cons_eq_ok.mp hlines
    obtain ⟨lines', hfewer, hsublist⟩ := ih hrest
    exact ⟨lines', hfewer, hsublist.trans (List.sublist_append_right _ _)⟩
  | cons_cons result h ih =>
    obtain ⟨text, texts, hresult, hrest, rfl⟩ := collect_cons_eq_ok.mp hlines
    obtain ⟨lines', hfewer, hsublist⟩ := ih hrest
    exact ⟨text.toList ++ lines',
      collect_cons_eq_ok.mpr ⟨text, lines', hresult, hfewer, rfl⟩, hsublist.append_left _⟩

/-! ### Scripts -/

section

variable (target : SyncTarget) (diff : SyncDiff)

/-- What comes of the rows of each kind. -/
def insertResult (r : ℕ) (row : List Value) : Except Text (Option Text) :=
  (insertText target diff.colNames row (marked (diff.binaryOf .inserts) r)).map some

def updateResult (r : ℕ) (u : SyncUpdate) : Except Text (Option Text) :=
  updateText target diff.colNames diff.pkNames u.src (marked (diff.binaryOf .updates) r)

def deleteResult (r : ℕ) (row : List Value) : Except Text (Option Text) :=
  (deleteText target diff.colNames diff.pkNames row (marked (diff.binaryOf .deletes) r)).map some

theorem genSyncStatements_eq_collect (allowDelete : Bool) :
  genSyncStatements target diff allowDelete
    = if refused target diff then .ok []
      else collect (diff.inserts.mapIdx (insertResult target diff)
        ++ diff.updates.mapIdx (updateResult target diff)
        ++ if allowDelete then diff.deletes.mapIdx (deleteResult target diff) else [])
  := by
  have hpairs : ∀ {α : Type} (rows : List α) (f : ℕ → α → Except Text (Option Text)),
      rows.mapIdx f = (rows.mapIdx fun r row => (r, row)).map fun p => f p.1 p.2 := by
    intro α rows f
    apply List.ext_getElem
    · simp
    · intro r hleft hright
      simp
  unfold genSyncStatements
  split
  · rfl
  · rw [collect_append, collect_append, hpairs diff.inserts, hpairs diff.updates]
    unfold insertResult updateResult
    rw [collect_map_some, collect_map]
    cases hinserts : (diff.inserts.mapIdx fun r row => (r, row)).mapM fun p =>
        insertText target diff.colNames p.2 (marked (diff.binaryOf .inserts) p.1) with
    | error e => rfl
    | ok inserts =>
      cases hupdates : (diff.updates.mapIdx fun r u => (r, u)).mapM fun p =>
          updateText target diff.colNames diff.pkNames p.2.src
            (marked (diff.binaryOf .updates) p.1) with
      | error e => rfl
      | ok updates =>
        cases allowDelete with
        | false => rfl
        | true =>
          have hdeletes : collect (diff.deletes.mapIdx (deleteResult target diff))
              = (diff.deletes.mapIdx fun r row => (r, row)).mapM fun p =>
                deleteText target diff.colNames diff.pkNames p.2
                  (marked (diff.binaryOf .deletes) p.1) := by
            rw [hpairs diff.deletes]
            exact collect_map_some _ _
          rw [if_pos rfl, hdeletes]
          rfl

end

end Workbench.CompareSql
