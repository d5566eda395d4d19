import Catio.Db.Pagination.Reading
import Catio.Db.WriteOps

/-!
# Saving row edits

What `apply_edits` sends: nothing that writes, or exactly one query or batch with the
statements of all edits in order.  An invalid edit keeps everything from being sent, and
every update and delete is restricted to its complete key.  A batch passes the gate, so
this holds of the edits whose names the gate reads as they were written.
-/

namespace Db

open Text Json Program

/-! ### Valid edits -/

/-- A binary value is written as `0x` and pairs of hexadecimal digits. -/
def IsBinaryText (value : Value) : Prop :=
  ∃ hex : Text, (value = .string ("0x" ++ hex) ∨ value = .string ("0X" ++ hex))
    ∧ hex.length % 2 = 0 ∧ ∀ c ∈ hex, isHexDigit c

/-- The binary columns name cells, each once, and binary cells hold binary values. -/
structure TypedCells (binary : List Text) (cells : List (Text × Value)) : Prop where
  nodup : binary.Nodup
  named : ∀ name ∈ binary, name ∈ cells.map Prod.fst
  typed : ∀ cell ∈ cells, cell.1 ∈ binary → cell.2.isNull = false → IsBinaryText cell.2

/-- An edit of a known kind on a table, with typed cells, and with a complete key unless it
inserts. -/
structure ValidEdit (req : EditRequest) : Prop where
  table : req.table ≠ []
  kind : req.kind = "insert" ∨ req.kind = "update" ∨ req.kind = "delete"
  key : req.kind ≠ "insert" → req.pk ≠ [] ∧ ∀ key ∈ req.pk, key.2.isNull = false
  cells : TypedCells req.binaryColumns req.cells
  keys : TypedCells (req.binaryPkColumns.getD []) req.pk

/-- A comparison with a value that is not null, for each column of the key. -/
def Keyed (db : DatabaseType) (key : List (Text × Value)) (sql : Text) : Prop :=
  ∃ front predicates, sql = front ++ " WHERE " ++ join " AND " predicates ∧ predicates ≠ []
    ∧ List.Forall₂ (fun key predicate => key.2.isNull = false ∧ ∃ binary value,
      sqlValue db key.2 binary = .ok value ∧ predicate = quoteIdent db key.1 ++ " = " ++ value)
      key predicates

/-- The statement of an edit, as it was built or, in a batch, with a terminator. -/
def Carries (db : DatabaseType) (req : EditRequest) (statement : Except DbError Text) : Prop :=
  ∃ sql, editSql db req = .ok sql
    ∧ (statement = .ok sql ∨ statement = .ok (trim sql ++ [';']))
    ∧ (req.kind ≠ "insert" → Keyed db req.pk sql)

theorem binaryHex_ok {value : Value} {hex : Text} (h : binaryHex value = .ok hex) :
  IsBinaryText value
  := by
  unfold binaryHex at h
  split at h
  · cases h
  · rename_i text htext
    have hstring := Value.eq_string_of_asStr htext
    split at h
    · cases h
    · rename_i hex' hprefix
      split at h
      · cases h
      · rename_i hdigits
        cases h
        simp only [not_or, not_not, List.all_eq_true] at hdigits
        refine ⟨hex, ?_, hdigits⟩
        rcases Option.or_eq_some_iff.mp hprefix with hlower | ⟨-, hupper⟩
        · left
          rw [hstring, stripPrefix_eq_some hlower]
        · right
          rw [hstring, stripPrefix_eq_some hupper]

variable {db : DatabaseType} {req : EditRequest} {edits : List EditRequest} {sql : Text}

theorem buildSql_ok (h : buildSql db req = .ok sql) :
  editSql db req = .ok sql ∧ req.table ≠ []
    ∧ (req.kind ≠ "insert" → req.pk ≠ [] ∧ ∀ key ∈ req.pk, key.2.isNull = false)
  := by
  unfold buildSql at h
  split at h
  · cases h
  · rename_i htable
    split at h
    · cases h
    · split at h
      · cases h
      · rename_i hnull
        split at h
        · cases h
        · have complete : req.kind ≠ "insert" → ∀ key ∈ req.pk, key.2.isNull = false := by
            intro hkind key hkey
            by_contra hisNull
            apply hnull
            refine ⟨hkind, List.any_eq_true.mpr ⟨key, hkey, ?_⟩⟩
            simpa using hisNull
          split at h
          · split at h
            · cases h
            · rename_i hempty
              simp only [List.isEmpty_iff, not_or] at hempty
              exact ⟨h, htable, fun hkind => ⟨hempty.2, complete hkind⟩⟩
          · split at h
            · rename_i hinsert
              split at h
              · cases h
              · exact ⟨h, htable, fun hkind => absurd hinsert hkind⟩
            · split at h
              · split at h
                · cases h
                · rename_i hempty
                  simp only [List.isEmpty_iff] at hempty
                  exact ⟨h, htable, fun hkind => ⟨hempty, complete hkind⟩⟩
              · cases h

theorem typedCells_of_sqlValue (db : DatabaseType) {names : List Text} {cells : List (Text × Value)}
    (hnames : names.Nodup ∧ ∀ name ∈ names, name ∈ cells.map Prod.fst)
    (hvalues : ∀ cell ∈ cells, ∃ value, sqlValue db cell.2 (cell.1 ∈ names) = .ok value) :
  TypedCells names cells
  where
    nodup := hnames.1
    named := hnames.2
    typed := by
      intro cell hcell hbinary hnull
      obtain ⟨value, hvalue⟩ := hvalues cell hcell
      unfold sqlValue at hvalue
      split at hvalue
      · rename_i hplain
        simp [hbinary, hnull] at hplain
      · obtain ⟨hex, hhex, -⟩ := Result.bind_ok.mp hvalue
        apply binaryHex_ok hhex

theorem valid_of_buildSql (h : buildSql db req = .ok sql) :
  ValidEdit req
  := by
  obtain ⟨hedit, htable, hkey⟩ := buildSql_ok h
  obtain ⟨hcells, hkeys, values, predicates, hvalues, hpredicates, hsql⟩ := editSql_ok hedit
  exact {
    table := htable
    kind := by
      rcases hsql with hsql | hsql | hsql
      · exact .inl hsql.1
      · exact .inr (.inl hsql.1)
      · exact .inr (.inr hsql.1)
    key := hkey
    cells := by
      apply typedCells_of_sqlValue db hcells
      intro cell hcell
      obtain ⟨value, -, hvalue⟩ := Result.exists_right hvalues hcell
      exact ⟨value, hvalue⟩
    keys := by
      apply typedCells_of_sqlValue db hkeys
      intro key hkey
      obtain ⟨predicate, -, hpredicate⟩ := Result.exists_right hpredicates hkey
      obtain ⟨value, hvalue, -⟩ := Result.bind_ok.mp hpredicate
      exact ⟨value, hvalue⟩ }

theorem keyed_of_buildSql (h : buildSql db req = .ok sql) (hkind : req.kind ≠ "insert") :
  Keyed db req.pk sql
  := by
  obtain ⟨hedit, -, hkey⟩ := buildSql_ok h
  obtain ⟨hne, hnull⟩ := hkey hkind
  obtain ⟨-, -, values, predicates, -, hpredicates, hsql⟩ := editSql_ok hedit
  have front : ∃ front, sql = front ++ " WHERE " ++ join " AND " predicates := by
    rcases hsql with ⟨hinsert, -⟩ | ⟨-, rfl⟩ | ⟨-, rfl⟩
    · exact absurd hinsert hkind
    · exact ⟨_, rfl⟩
    · exact ⟨_, rfl⟩
  obtain ⟨front, rfl⟩ := front
  refine ⟨front, predicates, rfl, ?_, ?_⟩
  · rintro rfl
    rw [List.forall₂_nil_right_iff] at hpredicates
    exact hne hpredicates
  · apply (List.forall₂_and_left _ _).mpr ⟨hnull, _⟩
    apply hpredicates.imp
    intro key predicate hpredicate
    obtain ⟨value, hvalue, hpredicate⟩ := Result.bind_ok.mp hpredicate
    exact ⟨_, value, hvalue, (Except.ok.inj hpredicate).symm⟩

theorem carries_of_buildSql (h : buildSql db req = .ok sql) :
  Carries db req (.ok sql)
  := ⟨sql, (buildSql_ok h).1, .inl rfl, keyed_of_buildSql h⟩

theorem carries_of_batchStatement {sql sent : Text} (hsafe : ∀ name ∈ req.names, gateSafe db name)
    (h : buildSql db req = .ok sql) (hsent : batchStatement db sql = .ok sent) :
  Carries db req (.ok sent)
  := by
  have hedit := (buildSql_ok h).1
  rw [batchStatement_of_editSql hsafe hedit] at hsent
  cases hsent
  exact ⟨sql, hedit, .inr rfl, keyed_of_buildSql h⟩

theorem carries_batch {statements sent : List Text}
    (hsafe : ∀ edit ∈ edits, ∀ name ∈ edit.names, gateSafe db name)
    (hbuilt : List.Forall₂ (fun edit sql => buildSql db edit = .ok sql) edits statements)
    (hbatch : List.Forall₂ (fun sql sent => batchStatement db sql = .ok sent) statements sent) :
  List.Forall₂ (Carries db) edits (sent.map .ok)
  := by
  induction hbuilt generalizing sent with
  | nil =>
    rw [List.forall₂_nil_left_iff] at hbatch
    subst hbatch
    exact .nil
  | @cons edit sql edits statements hsql _ ih =>
    obtain ⟨text, rest, htext, hrest, rfl⟩ := List.forall₂_cons_left_iff.mp hbatch
    apply List.Forall₂.cons
    · apply carries_of_batchStatement (hsafe edit List.mem_cons_self) hsql htext
    · apply ih _ hrest
      intro other hother
      apply hsafe other (List.mem_cons_of_mem edit hother)

/-! ### What is sent -/

/-- Nothing is sent that writes, or one query or batch with the edits in order; nothing at all for
an invalid edit. -/
structure SavedAtomically (db : DatabaseType) (edits : List EditRequest) (h : DriverHistory) :
    Prop where
  valid : (∃ edit ∈ edits, ¬ ValidEdit edit) → h = []
  writes : h.writes = [] ∨ ∃ statements, h.writes = [statements]
    ∧ List.Forall₂ (Carries db) edits statements

theorem SavedAtomically.nil (db : DatabaseType) (edits : List EditRequest) :
  SavedAtomically db edits []
  where
    valid := fun _ => rfl
    writes := .inl rfl

theorem ensureAtomicTables_wp {checked : List (Option Text × Text)} {h : DriverHistory}
    (hnone : h.writes = []) :
  wp (fun _ _ h' => DriverHistory.writes h' = []) (fun _ _ h' => DriverHistory.writes h' = [])
    (ensureAtomicTables checked edits) () h
  := by
  induction edits generalizing checked h with
  | nil => exact hnone
  | cons edit edits ih =>
    rw [ensureAtomicTables, wp_ite]
    constructor
    · intro _
      apply ih hnone
    · intro _
      rw [wp_ask_bind]
      intro answer
      have hnone' : DriverHistory.writes
          (h ++ [⟨.ensureAtomicTable edit.schema edit.table, answer⟩]) = [] := by
        rw [writes_append, hnone]
        rfl
      rw [wp_bind, wp_lift]
      constructor
      · intro _ _
        apply ih hnone'
      · intro _ _
        exact hnone'

/-- Whatever the driver answers, row edits are saved atomically. -/
theorem applyEdits_wp {driver : Driver}
    (hsafe : 2 ≤ edits.length → ∀ edit ∈ edits, ∀ name ∈ edit.names,
      gateSafe driver.dbType name) :
  wp (fun _ _ h => SavedAtomically driver.dbType edits h)
    (fun _ _ h => SavedAtomically driver.dbType edits h) (applyEdits driver edits) () []
  := by
  have unsent := SavedAtomically.nil driver.dbType edits
  rw [applyEdits, wp_bind, wp_lift]
  refine ⟨fun _ _ => ?_, fun _ _ => unsent⟩
  rw [wp_bind, wp_lift]
  refine ⟨fun statements hstatements => ?_, fun _ _ => unsent⟩
  have hbuilt := Result.mapM_ok.mp hstatements
  have hvalid : ¬ ∃ edit ∈ edits, ¬ ValidEdit edit := by
    rintro ⟨edit, hedit, hinvalid⟩
    obtain ⟨sql, -, hsql⟩ := Result.exists_right hbuilt hedit
    exact hinvalid (valid_of_buildSql hsql)
  have silent : ∀ h : DriverHistory, h.writes = [] →
      SavedAtomically driver.dbType edits h := by
    intro h hnone
    exact ⟨fun hinvalid => absurd hinvalid hvalid, .inl hnone⟩
  have written : ∀ (h : DriverHistory) statements, h.writes = [statements] →
      List.Forall₂ (Carries driver.dbType) edits statements →
      SavedAtomically driver.dbType edits h := by
    intro h statements hwrites hcarries
    exact ⟨fun hinvalid => absurd hinvalid hvalid, .inr ⟨statements, hwrites, hcarries⟩⟩
  match statements, hbuilt with
  | [], _ => exact unsent
  | [sql], hbuilt =>
    obtain ⟨edit, edits', hsql, hrest, rfl⟩ := List.forall₂_cons_right_iff.mp hbuilt
    rw [List.forall₂_nil_right_iff] at hrest
    subst hrest
    rw [wp_ask_bind]
    intro answer
    have sent := written ([] ++ [⟨.query sql 0, answer⟩]) [.ok sql] rfl
      (.cons (carries_of_buildSql hsql) .nil)
    rw [wp_bind, wp_lift]
    exact ⟨fun _ _ => sent, fun _ _ => sent⟩
  | first :: second :: rest, hbuilt =>
    have hlength : 2 ≤ edits.length := by
      rw [hbuilt.length_eq]
      simp
    simp only [wp_ite]
    constructor
    · intro _
      rw [wp_bind]
      apply wp_mono (ensureAtomicTables_wp rfl)
      · intro _ _ h hnone
        rw [execBatch, wp_bind, wp_lift]
        refine ⟨fun sent hsent => ?_, fun _ _ => silent h hnone⟩
        rw [wp_ask_bind]
        intro answer
        have hwrites : DriverHistory.writes
            (h ++ [⟨.execStatementBatch (sent.map .ok), answer⟩]) = [sent.map .ok] := by
          rw [writes_append, hnone]
          rfl
        have sent' := written _ _ hwrites
          (carries_batch (hsafe hlength) hbuilt (Result.mapM_ok.mp hsent))
        rw [wp_lift]
        exact ⟨fun _ _ => sent', fun _ _ => sent'⟩
      · intro _ _ h hnone
        exact silent h hnone
    · intro _
      exact silent [] rfl

def mysqlDriver : Driver :=
  ⟨.mysql, capabilitiesFor .mysql⟩

/-- A delete whose key column holds a comment opener, from a table whose name ends in a
backslash. -/
def commentedDelete : EditRequest where
  schema := none
  table := "t\\"
  kind := "delete"
  pk := [("x -- y", .number ⟨false, [1], Json.one_ne_nil, [], none⟩)]
  cells := []
  binaryColumns := []
  binaryPkColumns := none

end Db
