import Catio.Db.TableImport.Rows
import Catio.Db.WriteOps.Edits
import Catio.Db.WriteOps.Transfer

/-!
# Importing a file

What `import_bytes_reviewed` sends, whatever the driver answers: nothing for a file that does not
pass its review (`Reviewed`), and with transactions one batch that empties the table, if this was
asked for and confirmed, and writes every parsed row once (`importBytesReviewed_once`).  On MySQL
this needs names that the gate reads as they were written (`commentedImport_cut`).
-/

namespace Db

open Text Json Program

/-! ### The statements of an import -/

def ImportRequest.names (req : ImportRequest) : List Text :=
  req.targetSchema.toList ++ req.table
    :: (req.mappings.filter fun mapping => !mapping.isSkipped).map (·.targetColumn)

/-- The statement that removes the rows of the table, where they are replaced. -/
def removal (driver : Driver) (req : ImportRequest) : List Text :=
  if req.mode = "truncate" then
    ["DELETE FROM " ++ qualifiedTable driver.dbType true req.targetSchema req.table ++ ";"]
  else []

/-- The statements remove the rows of the table where they are replaced, and then write every
parsed row once, in order. -/
def Imports (driver : Driver) (req : ImportRequest) (data : ParsedImportFile)
    (statements : List Text) : Prop :=
  ∃ mapped groups, WritesRows driver.dbType data req.mappings mapped groups
    ∧ statements = removal driver req
      ++ groups.map (insertTuples driver.dbType req.targetSchema req.table mapped)

section

variable {db : DatabaseType} {schema : Option Text} {table : Text} {data : ParsedImportFile}
  {mapped : List (ℕ × Text)}

theorem SqlPhrase.commas {safe : Text → Prop} {parts : List Text}
    (h : ∀ t ∈ parts, SqlPhrase db safe t) :
  SqlPhrase db safe (parts.flatMap (· ++ ", "))
  := by
  induction parts with
  | nil => exact .nil
  | cons t parts ih =>
    rw [List.flatMap_cons, List.append_assoc]
    apply Phrase.append (h t List.mem_cons_self) (by decide)
      (List.all_iff_forall_prop.mp (by decide))
    apply ih
    intro u hu
    apply h u (List.mem_cons_of_mem t hu)

theorem IsTuple.phrase {safe : Text → Prop} {numbered : List Value × ℕ} {tuple : Text}
    (h : IsTuple db data mapped numbered tuple) :
  ∃ cells, tuple = '(' :: (cells ++ [')']) ∧ SqlPhrase db safe cells
  := by
  obtain ⟨cells, rfl, hcells⟩ := h
  refine ⟨join ", " cells, rfl, ?_⟩
  apply SqlPhrase.listed
  intro cell hcell
  obtain ⟨column, -, hcolumn⟩ := Result.exists_left hcells hcell
  apply SqlPhrase.sqlValue hcolumn

theorem insertion_words (tbl cols front cells : Text) :
  "INSERT INTO " ++ tbl ++ " (" ++ cols ++ ") VALUES " ++ (front ++ '(' :: (cells ++ [')'])) ++ ";"
    = 'I' :: ("NSERT" ++ ' ' :: (join " " ["INTO", tbl, '(' :: (cols ++ [')']), "VALUES", front]
      ++ '(' :: (cells ++ [')']))) ++ [';']
  := by
  simp only [join, List.intersperse, List.flatten_cons, List.flatten_nil, List.append_assoc,
    List.cons_append, List.nil_append, List.append_nil]
  rfl

/-- A statement that writes tuples is its first word, a phrase, the last tuple and a
terminator. -/
theorem insertTuples_phrase {safe : Text → Prop} {front : List Text} {cells : Text}
    (hschema : ∀ s ∈ schema, safe s) (htable : safe table)
    (hmapped : ∀ column ∈ mapped, safe column.2)
    (hfront : ∀ tuple ∈ front, ∃ numbered, IsTuple db data mapped numbered tuple) :
  ∃ head, SqlPhrase db safe head
    ∧ insertTuples db schema table mapped (front ++ ['(' :: (cells ++ [')'])])
      = 'I' :: ("NSERT" ++ ' ' :: (head ++ '(' :: (cells ++ [')']))) ++ [';']
  := by
  have columns : SqlPhrase db safe
      (join ", " (mapped.map fun column => quoteIdent db column.2)) := by
    apply SqlPhrase.listed
    intro t ht
    obtain ⟨column, hcolumn, rfl⟩ := List.mem_map.mp ht
    exact Phrase.atom (SqlAtom.name (hmapped column hcolumn))
  have tuples : SqlPhrase db safe (front.flatMap (· ++ ", ")) := by
    apply SqlPhrase.commas
    intro t ht
    obtain ⟨numbered, htuple⟩ := hfront t ht
    obtain ⟨cells', rfl, hcells'⟩ := @IsTuple.phrase db data mapped safe _ _ htuple
    exact Phrase.parens (P := sqlPunctuation) hcells'
  refine ⟨join " " ["INTO", qualifiedTable db true schema table,
    '(' :: (join ", " (mapped.map fun column => quoteIdent db column.2) ++ [')']), "VALUES",
    front.flatMap (· ++ ", ")], ?_, ?_⟩
  · apply SqlPhrase.spaced
    simp only [List.forall_mem_cons, List.not_mem_nil, false_imp_iff, implies_true, and_true]
    refine ⟨SqlPhrase.word (by decide), SqlPhrase.qualifiedTable hschema htable,
      Phrase.parens (P := sqlPunctuation) columns, SqlPhrase.word (by decide), tuples⟩
  · have words := insertion_words (qualifiedTable db true schema table)
      (join ", " (mapped.map fun column => quoteIdent db column.2))
      (front.flatMap (· ++ ", ")) cells
    rw [← join_concat ", " front ('(' :: (cells ++ [')']))] at words
    exact words

theorem batchStatement_insertTuples {tuples : List Text} (hschema : ∀ s ∈ schema, gateSafe db s)
    (htable : gateSafe db table) (hmapped : ∀ column ∈ mapped, gateSafe db column.2)
    (hne : tuples ≠ [])
    (htuples : ∀ tuple ∈ tuples, ∃ numbered, IsTuple db data mapped numbered tuple) :
  batchStatement db (insertTuples db schema table mapped tuples)
    = .ok (insertTuples db schema table mapped tuples)
  := by
  obtain ⟨front, last, rfl⟩ := (List.eq_nil_or_concat' tuples).resolve_left hne
  obtain ⟨numbered, hlast⟩ := htuples last (by simp)
  obtain ⟨cells, rfl, hcells⟩ := @IsTuple.phrase db data mapped (gateSafe db) _ _ hlast
  obtain ⟨head, hhead, hsql⟩ := @insertTuples_phrase db schema table data mapped (gateSafe db)
    front cells hschema htable hmapped (by
      intro tuple htuple
      exact htuples tuple (List.mem_append_left _ htuple))
  obtain ⟨words, hshape⟩ := shape_call 'I' "NSERT" (by decide)
    (List.all_iff_forall_prop.mp (by decide)) hhead hcells
  have htrim := trim_of_ends (c := 'I') (d := ')') (by decide) (by decide)
    ("NSERT" ++ ' ' :: (head ++ '(' :: cells))
  have hbody : 'I' :: ("NSERT" ++ ' ' :: (head ++ '(' :: cells) ++ [')'])
      = 'I' :: ("NSERT" ++ ' ' :: (head ++ '(' :: (cells ++ [')']))) := by simp
  rw [hbody] at htrim
  rw [htrim] at hshape
  rw [hsql, batchStatement, hshape]
  rfl

theorem qualifiedTable_ends (db : DatabaseType) (schema : Option Text) (table : Text) :
  ∃ t q, qualifiedTable db true schema table = t ++ [q] ∧ isWhitespace q = false
  := by
  have name : ∃ t q, quoteIdent db table = t ++ [q] ∧ isWhitespace q = false := by
    unfold quoteIdent
    split
    · exact ⟨_, '`', rfl, by decide⟩
    · exact ⟨_, ']', rfl, by decide⟩
    · exact ⟨_, '"', rfl, by decide⟩
  obtain ⟨t, q, hname, hq⟩ := name
  unfold qualifiedTable
  split
  · rename_i s
    split
    · refine ⟨quoteIdent db s ++ ['.'] ++ t, q, ?_, hq⟩
      rw [hname, List.append_assoc _ t]
    · exact ⟨t, q, hname, hq⟩
  · exact ⟨t, q, hname, hq⟩

theorem batchStatement_removal (hschema : ∀ s ∈ schema, gateSafe db s)
    (htable : gateSafe db table) :
  batchStatement db ("DELETE FROM " ++ qualifiedTable db true schema table)
    = .ok ("DELETE FROM " ++ qualifiedTable db true schema table ++ ";")
  := by
  have rest :
      SqlPhrase db (gateSafe db) (join " " ["FROM", qualifiedTable db true schema table]) := by
    apply SqlPhrase.spaced
    simp only [List.forall_mem_cons, List.not_mem_nil, false_imp_iff, implies_true, and_true]
    exact ⟨SqlPhrase.word (by decide), SqlPhrase.qualifiedTable hschema htable⟩
  have hrest : 'D' :: ("ELETE" ++ ' ' :: join " " ["FROM", qualifiedTable db true schema table])
      = "DELETE FROM " ++ qualifiedTable db true schema table := by
    simp only [join, List.intersperse, List.flatten_cons, List.flatten_nil, List.append_nil]
    rfl
  obtain ⟨words, hshape⟩ := shape_phrase 'D' "ELETE" (by decide)
    (List.all_iff_forall_prop.mp (by decide)) rest
  obtain ⟨t, q, htable, hq⟩ := qualifiedTable_ends db schema table
  have htrim : trim ("DELETE FROM " ++ qualifiedTable db true schema table)
      = "DELETE FROM " ++ qualifiedTable db true schema table := by
    rw [htable]
    exact trim_of_ends (c := 'D') (by decide) hq ("ELETE FROM " ++ t)
  rw [hrest, htrim] at hshape
  rw [batchStatement, hshape]
  rfl

end

/-! ### The review -/

/-- The request may be carried out on the file as it was reviewed, which is read as these rows with
the mapped cells. -/
structure Reviewed (crates : Crates) (driver : Driver) (req : ImportRequest)
    (kind : ImportFileKind) (parsed : ParsedImportFile) : Prop where
  writable : sqlWriter driver = .ok ()
  mode : req.mode = "append" ∨ req.mode = "truncate"
  replaced : req.mode = "truncate" → req.allowDestructive ∧ driver.capabilities.transactions
  size : req.bytes.length ≤ MAX_IMPORT_BYTES
  fileKind : importFileKind req.fileName = .ok kind
  options : req.options.isSome → req.sourceFingerprint.isSome
  fingerprint : ∃ fingerprint, importFingerprint crates kind req.bytes req.options = .ok fingerprint
    ∧ ∀ expected ∈ req.sourceFingerprint, expected = fingerprint
  contents :
    parseImportBytesWithOptions crates kind req.bytes USIZE_MAX req.options = .ok parsed
  mapped : ∃ mapped groups, WritesRows driver.dbType parsed req.mappings mapped groups

/-- The parsed rows are those of the file. -/
structure KeepsRows (crates : Crates) (req : ImportRequest) (kind : ImportFileKind)
    (parsed : ParsedImportFile) : Prop where
  total : parsed.rows.length = min USIZE_MAX parsed.totalRows
  records : ∀ o, resolveImportOptions kind req.options = .ok (some o) →
    ∃ records, crates.csvRecords ((o.delimiter.getD []).headD ',') req.bytes = records.map .ok
      ∧ HoldsRecords o USIZE_MAX records parsed.rows parsed.totalRows

/-- The statements write every row of a file that has passed its review, once and in order. -/
def ImportsFile (crates : Crates) (driver : Driver) (req : ImportRequest)
    (parsed : ParsedImportFile) (statements : List Text) : Prop :=
  ∃ kind, Reviewed crates driver req kind parsed ∧ KeepsRows crates req kind parsed
    ∧ Imports driver req parsed statements

section

variable {crates : Crates} {driver : Driver} {req : ImportRequest}

theorem checkImportSize_ok {len : ℕ} (h : checkImportSize len = .ok ()) : len ≤ MAX_IMPORT_BYTES
  := by
  unfold checkImportSize at h
  split at h
  · cases h
  · omega

theorem checkImport_ok {kind : ImportFileKind} (h : checkImport crates driver req = .ok kind) :
  sqlWriter driver = .ok () ∧ (req.mode = "append" ∨ req.mode = "truncate")
    ∧ (req.mode = "truncate" → req.allowDestructive) ∧ req.bytes.length ≤ MAX_IMPORT_BYTES
    ∧ importFileKind req.fileName = .ok kind
    ∧ (req.options.isSome → req.sourceFingerprint.isSome)
    ∧ ∃ fingerprint, importFingerprint crates kind req.bytes req.options = .ok fingerprint
      ∧ ∀ expected ∈ req.sourceFingerprint, expected = fingerprint
  := by
  obtain ⟨_, hwritable, h⟩ := Result.bind_ok.mp h
  split at h
  · cases h
  · rename_i hmode
    split at h
    · cases h
    · rename_i hconfirmed
      obtain ⟨_, hsize, h⟩ := Result.bind_ok.mp h
      obtain ⟨kind', hkind, h⟩ := Result.bind_ok.mp h
      split at h
      · cases h
      · rename_i hoptions
        obtain ⟨fingerprint, hfingerprint, h⟩ := Result.bind_ok.mp h
        split at h
        · cases h
        · rename_i hsame
          cases h
          refine ⟨hwritable, ?_, ?_, checkImportSize_ok (Result.mapError_ok.mp hsize),
            Result.mapError_ok.mp hkind, ?_, fingerprint, Result.mapError_ok.mp hfingerprint, ?_⟩
          · by_contra hnone
            rw [not_or] at hnone
            exact hmode hnone
          · intro htruncate
            by_contra hrefused
            exact hconfirmed ⟨htruncate, hrefused⟩
          · intro hsome
            by_contra hnone
            rw [Option.not_isSome_iff_eq_none] at hnone
            exact hoptions ⟨hsome, hnone⟩
          · intro expected hexpected
            by_contra hne
            apply hsame
            rw [Option.mem_def.mp hexpected]
            simpa using hne

variable {parsed : ParsedImportFile} {statements : List Text} {batches : List ImportSqlBatch}
    {h : DriverHistory}

/-- What was prepared has passed the review, if the rows of the table may be removed where this
is asked for. -/
theorem prepareImport_ok {removed : List Text}
    (h : prepareImport crates driver req = .ok (parsed, batches))
    (hremoval : importRemoval driver req = .ok removed) :
  ∃ statements, ImportsFile crates driver req parsed statements
    ∧ statements = removal driver req ++ batches.map ImportSqlBatch.sql
  := by
  obtain ⟨kind, hkind, h⟩ := Result.bind_ok.mp h
  obtain ⟨parsed', hparsed, h⟩ := Result.bind_ok.mp h
  obtain ⟨batches', hbatches, h⟩ := Result.bind_ok.mp h
  cases h
  obtain ⟨hwritable, hmode, hconfirmed, hsize, hfileKind, hoptions, hfingerprint⟩ :=
    checkImport_ok hkind
  have hparsed := Result.mapError_ok.mp hparsed
  obtain ⟨mapped, groups, hwrites, hsqls⟩ :=
    buildImportInsertBatches_ok (Result.mapError_ok.mp hbatches)
  have htransactions : req.mode = "truncate" → driver.capabilities.transactions := by
    intro htruncate
    by_contra hnone
    rw [importRemoval, if_pos htruncate, replacementSql, if_pos (by simpa using hnone)] at hremoval
    cases hremoval
  refine ⟨removal driver req ++ batches.map ImportSqlBatch.sql, ⟨kind, ?_, ?_, ?_⟩, rfl⟩
  · exact {
      writable := hwritable
      mode := hmode
      replaced := fun htruncate => ⟨hconfirmed htruncate, htransactions htruncate⟩
      size := hsize
      fileKind := hfileKind
      options := hoptions
      fingerprint := hfingerprint
      contents := hparsed
      mapped := ⟨mapped, groups, hwrites⟩ }
  · exact {
      total := parseImportBytesWithOptions_length hparsed
      records := fun _ ho => parseImportBytesWithOptions_records ho hparsed }
  · exact ⟨mapped, groups, hwrites, by rw [hsqls]⟩

theorem IsMapping.names {columns : List Text} {mapped : List (ℕ × Text)} {column : ℕ × Text}
    (h : IsMapping columns req.mappings mapped) (hcolumn : column ∈ mapped) :
  column.2 ∈ req.names
  := by
  obtain ⟨mapping, hmapping, -, htarget⟩ := Result.exists_left h.columns hcolumn
  rw [htarget, ImportRequest.names]
  apply List.mem_append_right
  apply List.mem_cons_of_mem
  exact List.mem_map_of_mem hmapping

/-- The gate passes the statements of an import as they are, if it reads the names as they were
written. -/
theorem batch_of_imports {removed : List Text}
    (hsafe : ∀ name ∈ req.names, gateSafe driver.dbType name)
    (hremoval : importRemoval driver req = .ok removed)
    (h : Imports driver req parsed (removal driver req ++ batches.map ImportSqlBatch.sql)) :
  (removed ++ batches.map ImportSqlBatch.sql).mapM (batchStatement driver.dbType)
    = .ok (removal driver req ++ batches.map ImportSqlBatch.sql)
  := by
  have hschema : ∀ s ∈ req.targetSchema, gateSafe driver.dbType s := by
    intro s hs
    apply hsafe
    exact List.mem_append_left _ (Option.mem_toList.mpr hs)
  have htable : gateSafe driver.dbType req.table := by
    apply hsafe
    exact List.mem_append_right _ List.mem_cons_self
  obtain ⟨mapped, groups, hwrites, hstatements⟩ := h
  have hsqls := List.append_cancel_left hstatements
  rw [Result.mapM_ok]
  apply List.rel_append
  · unfold importRemoval at hremoval
    unfold removal
    split at hremoval
    · rename_i htruncate
      obtain ⟨sql, hsql, hremoved⟩ := Result.bind_ok.mp hremoval
      unfold replacementSql at hsql
      split at hsql
      · cases hsql
      · cases hsql
        cases hremoved
        rw [if_pos htruncate]
        exact .cons (batchStatement_removal hschema htable) .nil
    · rename_i htruncate
      cases hremoval
      rw [if_neg htruncate]
      exact .nil
  · rw [hsqls, List.forall₂_same]
    intro sql hsql
    obtain ⟨group, hgroup, rfl⟩ := List.mem_map.mp hsql
    apply batchStatement_insertTuples hschema htable
    · intro column hcolumn
      exact hsafe _ (hwrites.mapping.names hcolumn)
    · exact hwrites.nonempty group hgroup
    · intro tuple htuple
      obtain ⟨numbered, -, hnumbered⟩ :=
        Result.exists_left hwrites.rows (List.mem_flatten_of_mem hgroup htuple)
      exact ⟨numbered, hnumbered⟩

/-! ### What is sent -/

/-- Nothing is sent for a file that does not pass its review. With transactions at most one batch
writes, which has every row of the file, and only the check of the table follows. Rows are removed
only where this was asked for and confirmed, in a transaction. -/
structure ImportedOnce (crates : Crates) (driver : Driver) (req : ImportRequest)
    (result : Except DbError ImportSummary) (h : DriverHistory) : Prop where
  unreviewed : (¬ ∃ kind parsed, Reviewed crates driver req kind parsed) →
    (∃ e, result = .error e) ∧ h = []
  batch : driver.capabilities.transactions → h.writes = [] ∨ ∃ parsed statements,
    ImportsFile crates driver req parsed statements ∧ h.writes = [statements.map .ok]
  committed : driver.capabilities.transactions → ∀ summary, result = .ok summary →
    ∃ parsed statements affected, ImportsFile crates driver req parsed statements
      ∧ summary = ⟨parsed.totalRows, parsed.totalRows⟩
      ∧ h = [⟨.ensureAtomicTable req.targetSchema req.table, .ok ()⟩,
        ⟨.execStatementBatch (statements.map .ok), .ok affected⟩]
  sent : ¬ driver.capabilities.transactions → ∀ summary, result = .ok summary →
    ∃ parsed statements, ImportsFile crates driver req parsed statements
      ∧ summary = ⟨parsed.totalRows, parsed.totalRows⟩
      ∧ h.writes = statements.map fun sql => [.ok sql]
  deleted : ∀ statements ∈ h.writes, ∀ sql, .ok sql ∈ statements → IsDelete sql →
    req.mode = "truncate" ∧ req.allowDestructive ∧ driver.capabilities.transactions

theorem insertTuples_not_delete (db : DatabaseType) (schema : Option Text) (table : Text)
    (mapped : List (ℕ × Text)) (tuples : List Text) :
  ¬ IsDelete (insertTuples db schema table mapped tuples)
  := by
  intro hdelete
  obtain ⟨rest, hrest⟩ := hdelete
  cases hrest

theorem ImportsFile.reviewed (h : ImportsFile crates driver req parsed statements) :
  ∃ kind parsed, Reviewed crates driver req kind parsed
  := by
  obtain ⟨kind, hreviewed, -⟩ := h
  exact ⟨kind, parsed, hreviewed⟩

theorem ImportsFile.deleted {sql : Text} (h : ImportsFile crates driver req parsed statements)
    (hsql : sql ∈ statements) (hdelete : IsDelete sql) :
  req.mode = "truncate" ∧ req.allowDestructive ∧ driver.capabilities.transactions
  := by
  obtain ⟨kind, hreviewed, -, mapped, groups, -, rfl⟩ := h
  rcases List.mem_append.mp hsql with hremoval | hinsert
  · unfold removal at hremoval
    split at hremoval
    · rename_i htruncate
      exact ⟨htruncate, hreviewed.replaced htruncate⟩
    · cases hremoval
  · obtain ⟨group, -, rfl⟩ := List.mem_map.mp hinsert
    exact absurd hdelete (insertTuples_not_delete _ _ _ _ _)

theorem ImportedOnce.unwritten {e : DbError} (hnone : h.writes = [])
    (hreviewed : h = [] ∨ ∃ kind parsed, Reviewed crates driver req kind parsed) :
  ImportedOnce crates driver req (.error e) h
  where
    unreviewed := by
      intro hno
      exact ⟨⟨e, rfl⟩, hreviewed.resolve_right hno⟩
    batch := fun _ => .inl hnone
    committed := by
      intro _ summary hsummary
      cases hsummary
    sent := by
      intro _ summary hsummary
      cases hsummary
    deleted := by
      intro statements hstatements
      rw [hnone] at hstatements
      cases hstatements

theorem ImportedOnce.batched {answer : Except DbError ℕ}
    (himports : ImportsFile crates driver req parsed statements)
    (htransactions : driver.capabilities.transactions)
    (hh : h = [⟨.ensureAtomicTable req.targetSchema req.table, .ok ()⟩,
      ⟨.execStatementBatch (statements.map .ok), answer⟩]) :
  ImportedOnce crates driver req (answer.map fun _ => ⟨parsed.totalRows, parsed.totalRows⟩) h
  := by
  have hwrites : h.writes = [statements.map .ok] := by
    rw [hh]
    rfl
  exact {
    unreviewed := fun hno => absurd himports.reviewed hno
    batch := fun _ => .inr ⟨parsed, statements, himports, hwrites⟩
    committed := by
      intro _ summary hsummary
      obtain ⟨affected, rfl, rfl⟩ := Result.map_ok.mp hsummary
      exact ⟨parsed, statements, affected, himports, rfl, hh⟩
    sent := fun hno => absurd htransactions hno
    deleted := by
      intro sent hsent sql hsql hdelete
      rw [hwrites, List.mem_singleton] at hsent
      subst hsent
      obtain ⟨sql', hmem, heq⟩ := List.mem_map.mp hsql
      cases heq
      exact himports.deleted hmem hdelete }

theorem ImportedOnce.single {parsed : ParsedImportFile} {statements sent : List Text}
    {result : Except DbError ImportSummary} {h : DriverHistory}
    (himports : ImportsFile crates driver req parsed statements)
    (htransactions : ¬ driver.capabilities.transactions) (hle : sent <+: statements)
    (hwrites : h.writes = sent.map fun sql => [.ok sql])
    (hresult : ∀ summary, result = .ok summary →
      sent = statements ∧ summary = ⟨parsed.totalRows, parsed.totalRows⟩) :
  ImportedOnce crates driver req result h
  where
    unreviewed := fun hno => absurd himports.reviewed hno
    batch := fun hyes => absurd hyes htransactions
    committed := fun hyes => absurd hyes htransactions
    sent := by
      intro _ summary hsummary
      obtain ⟨rfl, hcount⟩ := hresult summary hsummary
      exact ⟨parsed, sent, himports, hcount, hwrites⟩
    deleted := by
      intro batch hbatch sql hsql hdelete
      rw [hwrites] at hbatch
      obtain ⟨sql', hsent, rfl⟩ := List.mem_map.mp hbatch
      rw [List.mem_singleton] at hsql
      cases hsql
      exact himports.deleted (hle.subset hsent) hdelete

theorem sendBatches_wp {imported : ℕ} :
  wp (fun _ _ h' => DriverHistory.writes h'
      = DriverHistory.writes h ++ batches.map fun batch => [.ok batch.sql])
    (fun _ _ h' => ∃ sent, sent <+: batches ∧ DriverHistory.writes h'
      = DriverHistory.writes h ++ sent.map fun batch => [.ok batch.sql])
    (sendBatches imported batches) () h
  := by
  induction batches generalizing imported h with
  | nil => simp [sendBatches]
  | cons batch batches ih =>
    rw [sendBatches, wp_ask_bind]
    intro answer
    have hwrites : DriverHistory.writes (h ++ [⟨.query batch.sql 0, answer⟩])
        = DriverHistory.writes h ++ [[.ok batch.sql]] := writes_append _ _
    cases answer with
    | ok result =>
      apply wp_mono ih
      · intro _ _ h' hsent
        rw [hsent, hwrites, List.append_assoc]
        rfl
      · rintro _ _ h' ⟨sent, hle, hsent⟩
        refine ⟨batch :: sent, List.cons_prefix_cons.mpr ⟨rfl, hle⟩, ?_⟩
        rw [hsent, hwrites, List.append_assoc]
        rfl
    | error e =>
      refine ⟨[batch], List.cons_prefix_cons.mpr ⟨rfl, List.nil_prefix⟩, ?_⟩
      exact hwrites

theorem importRemoval_of_transactions (h : driver.capabilities.transactions) :
  ∃ removed, importRemoval driver req = .ok removed
  := by
  unfold importRemoval
  split
  · rw [replacementSql, if_neg (by simpa using h)]
    exact ⟨_, rfl⟩
  · exact ⟨[], rfl⟩

theorem ImportsFile.removal_eq_nil (h : ImportsFile crates driver req parsed statements)
    (htransactions : ¬ driver.capabilities.transactions) :
  removal driver req = []
  := by
  obtain ⟨kind, hreviewed, -⟩ := h
  rw [removal, if_neg]
  intro htruncate
  exact htransactions (hreviewed.replaced htruncate).2

/-- Whatever the driver answers, a file is imported once or not at all. -/
theorem importBytesReviewed_wp
    (hsafe : driver.capabilities.transactions → ∀ name ∈ req.names, gateSafe driver.dbType name) :
  wp (fun summary _ h => ImportedOnce crates driver req (.ok summary) h)
    (fun e _ h => ImportedOnce crates driver req (.error e) h)
    (importBytesReviewed crates driver req) () []
  := by
  rw [importBytesReviewed, wp_bind, wp_lift]
  refine ⟨?_, fun e _ => ImportedOnce.unwritten rfl (.inl rfl)⟩
  rintro ⟨parsed, batches⟩ hprepared
  have reviewed : ∀ removed, importRemoval driver req = .ok removed →
      ImportsFile crates driver req parsed (removal driver req ++ batches.map ImportSqlBatch.sql)
      := by
    intro removed hremoval
    obtain ⟨statements, himports, rfl⟩ := prepareImport_ok hprepared hremoval
    exact himports
  simp only [wp_ite]
  constructor
  · intro htransactions
    obtain ⟨removed, hremoval⟩ := @importRemoval_of_transactions driver req htransactions
    have himports := reviewed removed hremoval
    rw [wp_ask_bind]
    intro answer
    rw [wp_bind, wp_lift]
    refine ⟨fun _ hanswer => ?_, fun e _ =>
      ImportedOnce.unwritten rfl (.inr himports.reviewed)⟩
    subst hanswer
    rw [hremoval]
    have hbatch : (removed ++ batches.map ImportSqlBatch.sql).mapM (batchStatement driver.dbType)
        = .ok (removal driver req ++ batches.map ImportSqlBatch.sql) := by
      obtain ⟨kind, -, -, hstatements⟩ := himports
      exact batch_of_imports (hsafe htransactions) hremoval hstatements
    rw [wp_bind, wp_lift]
    refine ⟨fun removed' hremoved' => ?_, fun e he => by cases he⟩
    cases hremoved'
    rw [wp_bind, execBatch, wp_bind, wp_lift, hbatch]
    refine ⟨fun sent hsent => ?_, fun e he => by cases he⟩
    cases hsent
    rw [wp_ask_bind]
    intro answer
    have imported : ∀ h, h = [⟨.ensureAtomicTable req.targetSchema req.table, .ok ()⟩,
        ⟨.execStatementBatch ((removal driver req ++ batches.map ImportSqlBatch.sql).map .ok),
          answer⟩] →
        ImportedOnce crates driver req
          (answer.map fun _ => ⟨parsed.totalRows, parsed.totalRows⟩) h := by
      intro h hh
      exact ImportedOnce.batched himports htransactions hh
    rw [wp_lift]
    constructor
    · rintro affected rfl
      exact imported _ rfl
    · rintro e rfl
      exact imported _ rfl
  · intro htransactions
    rw [wp_bind, wp_lift]
    refine ⟨fun removed hremoval => ?_, fun e _ => ImportedOnce.unwritten rfl (.inl rfl)⟩
    have himports := reviewed removed hremoval
    rw [himports.removal_eq_nil htransactions, List.nil_append] at himports
    rw [wp_bind]
    apply wp_mono sendBatches_wp
    · intro _ _ h hwrites
      apply ImportedOnce.single himports htransactions (List.prefix_refl _)
      · rw [hwrites, List.map_map]
        rfl
      · intro summary hsummary
        cases hsummary
        exact ⟨rfl, rfl⟩
    · rintro e _ h ⟨sent, hle, hwrites⟩
      apply ImportedOnce.single himports htransactions (hle.map ImportSqlBatch.sql)
      · rw [hwrites, List.map_map]
        rfl
      · intro summary hsummary
        cases hsummary

end

/-- Other crates on files of plain lines without quotes, where one text is digested. -/
def plainCrates (digested digest : Bytes) : Crates where
  csvRecords delimiter bytes :=
    (lines (Utf8.fromUtf8 bytes).1).map fun line => .ok (line.splitOn delimiter)
  jsonFromSlice _ := .error "expected value at line 1 column 1"
  typedFileFromValue _ := .error "missing field columns"
  openWorkbook _ := .error "Cannot detect file format"
  sha256 bytes := if bytes = digested then digest else []

def peopleFile : Bytes :=
  Utf8.encode "id,name\n1,O'Hara\n2,\n"

/-- A request to replace the rows of a table by the names in the file, which has been reviewed. -/
def replacePeople : ImportRequest where
  schema := some "  "
  table := "a`; DROP"
  fileName := "people.CSV"
  bytes := peopleFile
  mappings := [⟨"name", "n -- \\x"⟩, ⟨"id", " "⟩]
  mode := "truncate"
  batchSize := 1
  allowDestructive := true
  options := none
  sourceFingerprint := some "702d39bad393aab49ebccb00b7b5002e42c2849c65492286cafc4f0591fdc041"

/-- Other crates, with the digest of the review of the people. -/
def peopleCrates : Crates :=
  plainCrates
    (Utf8.encode ("catio-import-review-v1\x00csv\x00\x7b\"delimiter\":\",\",\"headerRow\":1,"
      ++ "\"dataStartRow\":2,\"trimValues\":false,\"emptyStringAsNull\":true\x7d\x00")
      ++ peopleFile)
    [112, 45, 57, 186, 211, 147, 170, 180, 158, 188, 203, 0, 183, 181, 0, 46, 66, 194, 132, 156,
      101, 73, 34, 134, 202, 252, 79, 5, 145, 253, 192, 65]

/-- The rows are removed and the people are written by one batch. -/
example :
  DriverHistory.writes
      (run obligingDriver (importBytesReviewed peopleCrates mysqlDriver replacePeople) () []).2.2
    = [[.ok "DELETE FROM `a``; DROP`;",
      .ok "INSERT INTO `a``; DROP` (`n -- \\x`) VALUES ('O''Hara');",
      .ok "INSERT INTO `a``; DROP` (`n -- \\x`) VALUES (NULL);"]]
  := by decide +kernel

/-- A request to import a column into one whose name holds a comment opener, of a table whose name
ends in a backslash. -/
def commentedImport : ImportRequest where
  schema := none
  table := "t\\"
  fileName := "data.csv"
  bytes := Utf8.encode "id\n1\n"
  mappings := [⟨"id", "x -- y"⟩]
  mode := "append"
  batchSize := 500
  allowDestructive := false
  options := none
  sourceFingerprint := none

theorem closer_mem_insertTuples (db : DatabaseType) (schema : Option Text) (table : Text)
    (mapped : List (ℕ × Text)) (tuples : List Text) :
  ')' ∈ insertTuples db schema table mapped tuples
  := by
  have values : ')' ∈ ") VALUES ".toList := by decide
  exact List.mem_append_left _ (List.mem_append_left _ (List.mem_append_right _ values))

end Db
