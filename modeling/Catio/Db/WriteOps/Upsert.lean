import Catio.Lib.KeyedTable
import Catio.Db.Transfer

/-!
# Upserting in batches

What the statements of an upsert leave in a table whose only unique key are the upsert keys.
The statement of a batch is that of an upsert of the batch's rows (`render_upsertStatement`).
SQLite and MySQL go through the rows of a statement; PostgreSQL refuses to update a row twice
in one statement, and SQL Server compares all rows of a `MERGE` with the table as it was.
-/

namespace Db

open Text Json KeyedTable

/-! ### Statements -/

inductive UpsertForm where
  | onConflict
  | onDuplicateKey
  | merge
  deriving DecidableEq

def DatabaseType.upsertForm : DatabaseType → UpsertForm
  | .mysql => .onDuplicateKey
  | .sqlserver => .merge
  | _ => .onConflict

/-- A statement that writes rows of literals to columns. Where the keys are in the table, it sets
the columns `set`, which are no keys. -/
structure UpsertStatement where
  form : UpsertForm
  target : Text
  columns : List Text
  keys : List Text
  set : List Text
  rows : List (List Text)
  keys_notMem_set : ∀ k ∈ keys, k ∉ set

def UpsertStatement.render (db : DatabaseType) (st : UpsertStatement) : Text :=
  let names (columns : List Text) := join ", " (columns.map (quoteIdent db))
  let tuples := join ", " (st.rows.map fun row => "(" ++ join ", " row ++ ")")
  let baseInsert := "INSERT INTO " ++ st.target ++ " (" ++ names st.columns ++ ") VALUES " ++ tuples
  let fromSource (c : Text) : Text :=
    let q := quoteIdent db c
    "target." ++ q ++ " = src." ++ q
  match st.form with
  | .onConflict =>
      if st.set = [] then baseInsert ++ " ON CONFLICT (" ++ names st.keys ++ ") DO NOTHING"
      else
        let set := join ", " (st.set.map fun c =>
          let q := quoteIdent db c
          q ++ " = EXCLUDED." ++ q)
        baseInsert ++ " ON CONFLICT (" ++ names st.keys ++ ") DO UPDATE SET " ++ set
  | .onDuplicateKey =>
      if st.set = [] then
        -- a column that is set to itself is not changed
        let first := quoteIdent db (st.keys.headD [])
        baseInsert ++ " ON DUPLICATE KEY UPDATE " ++ first ++ " = " ++ first
      else
        let set := join ", " (st.set.map fun c =>
          let q := quoteIdent db c
          q ++ " = VALUES(" ++ q ++ ")")
        baseInsert ++ " ON DUPLICATE KEY UPDATE " ++ set
  | .merge =>
      let set := join ", " (st.set.map fromSource)
      let matched : Text := if st.set = [] then [] else " WHEN MATCHED THEN UPDATE SET " ++ set
      let insertVals := join ", " (st.columns.map fun c => "src." ++ quoteIdent db c)
      "MERGE INTO " ++ st.target ++ " AS target USING (VALUES " ++ tuples ++ ") AS src ("
        ++ names st.columns ++ ") ON " ++ join " AND " (st.keys.map fromSource) ++ matched
        ++ " WHEN NOT MATCHED THEN INSERT (" ++ names st.columns ++ ") VALUES (" ++ insertVals
        ++ ");"

def nonKeys (columns upsertKeys : List Text) : List Text :=
  columns.filter (· ∉ upsertKeys)

theorem notMem_nonKeys (columns upsertKeys : List Text) :
  ∀ k ∈ upsertKeys, k ∉ nonKeys columns upsertKeys
  := by
  intro k hk hmem
  simp [nonKeys, hk] at hmem

/-- The upsert of rows of literals. -/
def upsertStatement (db : DatabaseType) (target : Text) (columns upsertKeys : List Text)
    (rows : List (List Text)) : UpsertStatement where
  form := db.upsertForm
  target := target
  columns := columns
  keys := upsertKeys
  set := nonKeys columns upsertKeys
  rows := rows
  keys_notMem_set := notMem_nonKeys columns upsertKeys

/-- The literals of the mapped cells of a row. -/
def transferLiterals (db : DatabaseType) (mapped : List (ℕ × Text)) (isBinary : ℕ → Bool)
    (row : List Value) : Except DbError (List Text) :=
  mapped.mapM fun (c, _) =>
    match row[c]? with
    | none => .error (.queryFailed "Transfer row is missing a mapped column")
    | some value => sqlValue db value (isBinary c)

/-- A batch of rows, with the positions of its binary cells. -/
abbrev TransferBatch :=
  List (List Value) × List (ℕ × ℕ)

def batchLiterals (db : DatabaseType) (mapped : List (ℕ × Text)) (batch : TransferBatch) :
    Except DbError (List (List Text)) :=
  batch.1.zipIdx.mapM fun (row, r) => transferLiterals db mapped (fun c => (r, c) ∈ batch.2) row

section

variable {db : DatabaseType} {hasSchemas : Bool} {schema : Option Text} {table : Text}
  {mapped : List (ℕ × Text)} {upsertKeys : List Text}

theorem render_upsertStatement (hdb : supportsNativeUpsert db = true) (rows : List (List Text)) :
  (upsertStatement db (qualifiedTable db hasSchemas schema table) (mapped.map Prod.snd) upsertKeys
      rows).render db
    = buildTransferSqlValues .upsert db hasSchemas schema table mapped upsertKeys
        (join ", " (rows.map fun row => "(" ++ join ", " row ++ ")"))
  := by
  unfold buildTransferSqlValues UpsertStatement.render
  rw [if_neg (not_not.mpr rfl)]
  simp only [upsertStatement, nonKeys]
  by_cases hset : (mapped.map Prod.snd).filter (· ∉ upsertKeys) = []
  · simp only [hset, if_true]
    cases db with
    | postgres | sqlite | duckdb | mysql | sqlserver => rfl
    | _ => exact absurd hdb (by decide)
  · simp only [hset, if_false]
    cases db with
    | postgres | sqlite | duckdb | mysql | sqlserver => rfl
    | _ => exact absurd hdb (by decide)

theorem transferRow_ok {isBinary : ℕ → Bool} {row : List Value} {text : Text} :
  transferRow db mapped isBinary row = .ok text
    ↔ ∃ literals, transferLiterals db mapped isBinary row = .ok literals
      ∧ "(" ++ join ", " literals ++ ")" = text
  := by
  unfold transferRow
  rw [Result.bind_ok]
  simp only [pure, Except.pure, Except.ok.injEq]
  rfl

theorem buildTransferWriteSqlTyped_upsert (hdb : supportsNativeUpsert db = true)
    {batch : TransferBatch} {sql : Text} (hmapped : mapped ≠ []) (hrows : batch.1 ≠ [])
    (h : buildTransferWriteSqlTyped .upsert db hasSchemas schema table mapped batch.1 upsertKeys
      batch.2 = .ok sql) :
  ∃ literals, batchLiterals db mapped batch = .ok literals
    ∧ sql = (upsertStatement db (qualifiedTable db hasSchemas schema table)
      (mapped.map Prod.snd) upsertKeys literals).render db
  := by
  unfold buildTransferWriteSqlTyped at h
  rw [if_neg (by simp [hmapped, hrows])] at h
  obtain ⟨texts, htexts, h⟩ := Result.bind_ok.mp h
  have hliterals : ∃ literals, batchLiterals db mapped batch = .ok literals
      ∧ texts = literals.map fun row => "(" ++ join ", " row ++ ")" := by
    have hrows := Result.mapM_ok.mp htexts
    simp only [batchLiterals, Result.mapM_ok]
    clear htexts h
    generalize batch.1.zipIdx = rows at hrows ⊢
    induction hrows with
    | nil => exact ⟨[], .nil, rfl⟩
    | cons hrow _ ih =>
      obtain ⟨literals, hliterals, rfl⟩ := transferRow_ok.mp hrow
      obtain ⟨rest, hrest, rfl⟩ := ih
      exact ⟨literals :: rest, .cons hliterals hrest, rfl⟩
  obtain ⟨literals, hliterals, rfl⟩ := hliterals
  refine ⟨literals, hliterals, ?_⟩
  rw [render_upsertStatement hdb]
  exact (Except.ok.inj h).symm

end

/-! ### What statements do -/

/-- A row of a table: the values of its columns. -/
abbrev Row (V : Type) :=
  Text → V

section

variable {V C : Type} [DecidableEq C]
  -- the value of a literal, what two keys that are not null are compared by, and the value of a
  -- column that is not mapped
  (denote : Text → V) (canon : V → C) (default : Text → V)

def insertedRow (columns literals : List Text) : Row V :=
  fun c => (((columns.zip literals).lookup c).map denote).getD (default c)

/-- How rows of literals are written to a table where they set the columns `set`. -/
def upsertWriter (columns keys set : List Text) (hset : ∀ k ∈ keys, k ∉ set) :
    Writer (Row V) (List Text) (List C) where
  key r := keys.map fun k => canon (r k)
  insert := insertedRow denote default columns
  overwrite r literals := fun c =>
    if c ∈ set then insertedRow denote default columns literals c else r c
  key_overwrite r literals := by
    apply List.map_congr_left
    intro k hk
    simp only [if_neg (hset k hk)]

def rowWriter (columns upsertKeys : List Text) : Writer (Row V) (List Text) (List C) :=
  upsertWriter denote canon default columns upsertKeys (nonKeys columns upsertKeys)
    (notMem_nonKeys columns upsertKeys)

/-- The engine refuses to update a row twice in a statement with `ON CONFLICT`.  Releases of
DuckDB differ in this. -/
def refusesTwice (duckdbRefuses : Bool) : DatabaseType → Bool
  | .postgres => true
  | .duckdb => duckdbRefuses
  | _ => false

/-- What a statement leaves of a table whose only unique key are the keys of the statement. -/
def UpsertStatement.exec (duckdbRefuses : Bool) (db : DatabaseType) (st : UpsertStatement)
    (table : List (Row V)) : Option (List (Row V)) :=
  let w := upsertWriter denote canon default st.columns st.keys st.set st.keys_notMem_set
  match st.form with
  | .onConflict =>
      if st.set ≠ [] ∧ refusesTwice duckdbRefuses db then upsertOnce w [] table st.rows
      else some (st.rows.foldl (upsertRow w) table)
  | .onDuplicateKey => some (st.rows.foldl (upsertRow w) table)
  | .merge => mergeInto w (!st.set.isEmpty) table st.rows

/-- A key is twice in a batch where the engine does not write the rows one by one. -/
def Clashes (duckdbRefuses : Bool) (db : DatabaseType) (columns upsertKeys : List Text)
    (known batch : List (List C)) : Prop :=
  ∃ k ∈ batch, List.Duplicate k batch
    ∧ (db.upsertForm = .onConflict ∧ nonKeys columns upsertKeys ≠ []
        ∧ refusesTwice duckdbRefuses db = true
      ∨ db.upsertForm = .merge ∧ (nonKeys columns upsertKeys ≠ [] ∨ k ∉ known))

instance (duckdbRefuses : Bool) (db : DatabaseType) (columns upsertKeys : List Text)
    (known batch : List (List C)) :
    Decidable (Clashes duckdbRefuses db columns upsertKeys known batch) :=
  inferInstanceAs (Decidable (∃ _ ∈ _, _))

omit [DecidableEq C] in
theorem clashes_congr {duckdbRefuses : Bool} {db : DatabaseType} {columns upsertKeys : List Text}
    {known known' : List (List C)} (h : ∀ k, k ∈ known ↔ k ∈ known') (batch : List (List C)) :
  Clashes duckdbRefuses db columns upsertKeys known batch
    ↔ Clashes duckdbRefuses db columns upsertKeys known' batch
  := by
  simp only [Clashes, h]

theorem exec_upsertStatement (duckdbRefuses : Bool) (db : DatabaseType) (target : Text)
    (columns upsertKeys : List Text) (rows : List (List Text)) (table : List (Row V)) :
  let w := rowWriter denote canon default columns upsertKeys
  (upsertStatement db target columns upsertKeys rows).exec denote canon default duckdbRefuses db
      table
    = if Clashes duckdbRefuses db columns upsertKeys (table.map w.key) (rows.map w.keyOf) then none
      else some (rows.foldl (upsertRow w) table)
  := by
  intro w
  have hw : upsertWriter denote canon default columns upsertKeys (nonKeys columns upsertKeys)
      (notMem_nonKeys columns upsertKeys) = w := rfl
  have hclash : Clashes duckdbRefuses db columns upsertKeys (table.map w.key) (rows.map w.keyOf)
      ↔ ∃ k ∈ rows.map w.keyOf, List.Duplicate k (rows.map w.keyOf)
        ∧ (db.upsertForm = .onConflict ∧ nonKeys columns upsertKeys ≠ []
            ∧ refusesTwice duckdbRefuses db = true
          ∨ db.upsertForm = .merge ∧ (nonKeys columns upsertKeys ≠ [] ∨ k ∉ table.map w.key)) :=
    Iff.rfl
  simp only [UpsertStatement.exec, upsertStatement, hw]
  cases hform : db.upsertForm with
  | onDuplicateKey =>
    have hnone : ¬ Clashes duckdbRefuses db columns upsertKeys (table.map w.key)
        (rows.map w.keyOf) := by
      simp [hclash, hform]
    rw [if_neg hnone]
  | onConflict =>
    by_cases hrefuses : nonKeys columns upsertKeys ≠ [] ∧ refusesTwice duckdbRefuses db = true
    · simp only [if_pos hrefuses, upsertOnce_eq]
      by_cases hdup : (rows.map w.keyOf).Nodup
      · have hnot := List.nodup_iff_forall_not_duplicate.mp hdup
        rw [if_pos ⟨hdup, by simp⟩, if_neg]
        rintro ⟨k, -, hk, -⟩
        exact hnot k hk
      · obtain ⟨k, hk⟩ := List.exists_duplicate_iff_not_nodup.mpr hdup
        rw [if_neg (fun h => hdup h.1), if_pos ⟨k, hk.mem, hk, .inl ⟨hform, hrefuses⟩⟩]
    · simp only [if_neg hrefuses]
      rw [if_neg]
      rintro ⟨k, -, -, ⟨-, h⟩ | ⟨h, -⟩⟩
      · exact hrefuses h
      · rw [hform] at h
        cases h
  | merge =>
    have hsame : (!(nonKeys columns upsertKeys).isEmpty) = false →
        ∀ r s, w.overwrite r s = r := by
      intro hset r s
      have hnil : nonKeys columns upsertKeys = [] := by simpa using hset
      funext c
      simp [w, rowWriter, upsertWriter, hnil]
    simp only [mergeInto_eq hsame]
    rw [hform] at hclash
    simp only [reduceCtorEq, false_and, false_or, true_and] at hclash
    simp only [hclash, Bool.not_eq_true', List.isEmpty_eq_false_iff]

end

/-- The statements of batches are the upserts of their rows, and leave what the rows leave one by
one exactly if no key is twice in a batch of an engine that does not go through the rows: PostgreSQL
refuses to update a row twice, and SQL Server also to insert one twice. -/
theorem upsertBatches_iff {V C : Type} [DecidableEq C] (db : DatabaseType)
    (hdb : supportsNativeUpsert db = true) (hasSchemas : Bool) (schema : Option Text) (table : Text)
    (mapped : List (ℕ × Text)) (upsertKeys : List Text)
    (hkeys : validateUpsertKeys (mapped.map Prod.snd) upsertKeys = .ok ())
    (batches : List TransferBatch) {texts : List Text} (hrows : ∀ batch ∈ batches, batch.1 ≠ [])
    (hbuild : batches.mapM (fun batch => buildTransferWriteSqlTyped .upsert db hasSchemas schema
      table mapped batch.1 upsertKeys batch.2) = .ok texts)
    (denote : Text → V) (canon : V → C) (default : Text → V) (duckdbRefuses : Bool)
    (rows : List (Row V)) :
  let columns := mapped.map Prod.snd
  let statement :=
    upsertStatement db (qualifiedTable db hasSchemas schema table) columns upsertKeys
  let w := rowWriter denote canon default columns upsertKeys
  ∃ literals, batches.mapM (batchLiterals db mapped) = .ok literals
    ∧ texts = literals.map (fun batch => (statement batch).render db)
    ∧ (literals.foldlM (fun rows batch =>
          (statement batch).exec denote canon default duckdbRefuses db rows) rows
        = some (literals.flatten.foldl (upsertRow w) rows)
      ↔ ∀ earlier batch later, literals = earlier ++ batch :: later →
        ¬ Clashes duckdbRefuses db columns upsertKeys
          (rows.map w.key ++ earlier.flatten.map w.keyOf) (batch.map w.keyOf))
  := by
  intro columns statement w
  have hmapped : mapped ≠ [] := by
    rintro rfl
    cases upsertKeys with
    | nil => cases hkeys
    | cons key upsertKeys => simp [validateUpsertKeys] at hkeys
  have hliterals : ∃ literals, batches.mapM (batchLiterals db mapped) = .ok literals
      ∧ texts = literals.map (fun batch => (statement batch).render db) := by
    simp only [Result.mapM_ok] at hbuild ⊢
    induction hbuild with
    | nil => exact ⟨[], .nil, rfl⟩
    | cons hbatch _ ih =>
      obtain ⟨hne, hrest⟩ := List.forall_mem_cons.mp hrows
      obtain ⟨first, hfirst, rfl⟩ := buildTransferWriteSqlTyped_upsert hdb hmapped hne hbatch
      obtain ⟨rest, hrest, rfl⟩ := ih hrest
      exact ⟨first :: rest, .cons hfirst hrest, rfl⟩
  obtain ⟨literals, hliterals, htexts⟩ := hliterals
  refine ⟨literals, hliterals, htexts, ?_⟩
  have hexec := exec_upsertStatement denote canon default duckdbRefuses db
    (qualifiedTable db hasSchemas schema table) columns upsertKeys
  have hiff := foldlM_eq_some_iff
    (fun rows batch => (statement batch).exec denote canon default duckdbRefuses db rows) id
    (Clashes duckdbRefuses db columns upsertKeys)
    (fun rows batch h => (hexec batch rows).trans (if_neg h))
    (fun rows batch h => (hexec batch rows).trans (if_pos h)) literals rows
  simp only [List.flatMap_id, id] at hiff
  rw [hiff]
  apply forall_congr'
  intro earlier
  apply forall_congr'
  intro batch
  apply forall_congr'
  intro later
  apply imp_congr_right
  intro _
  apply not_congr
  apply clashes_congr
  intro k
  rw [mem_map_key_foldl, List.mem_append]

/-- PostgreSQL refuses two rows with one key in one batch. -/
theorem upsertBatches_repeated :
  let mapped : List (ℕ × Text) := [(0, "id"), (1, "name")]
  let statement := upsertStatement .postgres (qualifiedTable .postgres true none "t")
    (mapped.map Prod.snd) ["id"] [["'1'", "'a'"], ["'1'", "'b'"]]
  buildTransferWriteSqlTyped .upsert .postgres true none "t" mapped
      [[.string "1", .string "a"], [.string "1", .string "b"]] ["id"] []
    = .ok (statement.render .postgres)
    ∧ statement.exec id id (fun _ => "NULL") false .postgres [] = none
  := by
  constructor
  · decide +kernel
  · decide +kernel

/-- In two batches they are written. -/
theorem upsertBatches_twoBatches :
  let first : List Text := ["'1'", "'a'"]
  let second : List Text := ["'1'", "'b'"]
  let statement := upsertStatement .postgres (qualifiedTable .postgres true none "t")
    ["id", "name"] ["id"]
  [[first], [second]].foldlM (fun rows batch =>
      (statement batch).exec id id (fun _ => "NULL") false .postgres rows) []
    = some ([first, second].foldl
      (upsertRow (rowWriter id id (fun _ => "NULL") ["id", "name"] ["id"])) [])
  := by
  intro first second statement
  obtain ⟨literals, hliterals, -, hiff⟩ := upsertBatches_iff .postgres (by decide) true none
    "t" [(0, "id"), (1, "name")] ["id"] rfl
    [([[.string "1", .string "a"]], []), ([[.string "1", .string "b"]], [])] (by decide) rfl
    id id (fun _ => "NULL") false []
  have heq : literals = [[first], [second]] := (Except.ok.inj hliterals).symm
  subst heq
  apply hiff.mpr
  rintro earlier batch later heq ⟨k, -, hdup, -⟩
  have hmem : batch ∈ [[first], [second]] := by simp [heq]
  rcases List.mem_pair.mp hmem with rfl | rfl
  · exact List.not_duplicate_singleton _ _ hdup
  · exact List.not_duplicate_singleton _ _ hdup

end Db
