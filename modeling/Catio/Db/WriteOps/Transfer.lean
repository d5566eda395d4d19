import Mathlib.Data.List.InsertIdx
import Catio.Db.WriteOps

/-!
# Transferring a table

What `transfer_table` sends to the target, whatever the drivers and the spool do.
A source table whose pages are stable is copied row by row, in order, through the spool
(`transferTable_copiesOnce`); nothing is sent before everything is staged; and the rows of the
target are deleted only first, only in a transaction and only if that was allowed.
-/

namespace Db

open Text Json Program

/-! ### Source tables and what is copied of them -/

/-- A cell of a source table: its value, and whether it is binary. -/
abbrev Cell :=
  Value × Bool

/-- What the query of a source table yields, with the row locator where there is one. -/
structure SourceTable where
  columns : List ColumnInfo
  rows : List (List Cell)

/-- A result is a page of at most `limit` rows of the table from `offset` on. -/
def SourceTable.IsPage (table : SourceTable) (offset limit : ℕ) (result : QueryResult) : Prop :=
  ∃ n ≤ limit,
    let page := (table.rows.drop offset).take n
    result.columns = table.columns
      ∧ result.rows = page.map (List.map Prod.fst)
      ∧ (∀ r c, (r, c) ∈ result.binaryCells
        ↔ ∃ row cell, page[r]? = some row ∧ row[c]? = some cell ∧ cell.2 = true)
      ∧ (result.truncated = true ↔ offset + page.length < table.rows.length)

/-- The entries of a row that are copied. -/
def SourceTable.visible {α : Type} (table : SourceTable) (hasLocator : Bool) (row : List α) :
    List α :=
  withoutLocator (locatorOf hasLocator table.columns) row

/-- The names of the columns that are copied. -/
def SourceTable.names (table : SourceTable) (hasLocator : Bool) : List Text :=
  table.visible hasLocator (table.columns.map ColumnInfo.name)

def copiedRow (db : DatabaseType) (mapped : List (ℕ × Text)) (row : List Cell) :
    Except DbError Text :=
  transferRow db mapped (fun c => row[c]?.any Prod.snd) (row.map Prod.fst)

section

variable (target : Driver) (req : TransferRequest)

/-- The statement that removes the rows of the target, where they are replaced. -/
def replacement : List Text :=
  if req.mode = .overwrite then
    ["DELETE FROM " ++ qualifiedTable target.dbType true req.targetSchema req.targetTable]
  else []

/-- The statement that writes rows to the target. -/
def insertion (mapped : List (ℕ × Text)) (rows : List Text) : Text :=
  buildTransferSqlValues req.mode target.dbType true req.targetSchema req.targetTable mapped
    req.upsertKeys (join ", " rows)

/-- The statements write exactly these rows to the target, in order and each once. -/
structure Writes (hasLocator : Bool) (mapped : List (ℕ × Text)) (rows : List (List Cell))
    (table : SourceTable) (groups : List (List Text)) : Prop where
  rows : List.Forall₂ (fun row text =>
    copiedRow target.dbType mapped (table.visible hasLocator row) = .ok text) rows groups.flatten
  nonempty : ∀ group ∈ groups, group ≠ []

/-- The statements write exactly the rows of the table, in order and each once, behind what empties
the target where this was asked for. -/
def Copies (hasLocator : Bool) (table : SourceTable) (statements : List Text) : Prop :=
  ∃ mapped groups, resolveTransferMapping (table.names hasLocator) req.mappings = .ok mapped
    ∧ Writes target hasLocator mapped table.rows table groups
    ∧ statements = replacement target req ++ groups.map (insertion target req mapped)

end

/-! ### Rows without the locator -/

section

variable {α β : Type}

theorem withoutLocator_none (row : List α) :
  withoutLocator none row = row
  := by
  simp [withoutLocator]

theorem withoutLocator_some (i : ℕ) (row : List α) :
  withoutLocator (some i) row = row.eraseIdx i
  := by
  have shifted : ∀ (row : List α) (i k : ℕ),
      ((row.zipIdx k).filter fun p => some p.2 ≠ some (i + k)).map Prod.fst = row.eraseIdx i := by
    intro row
    induction row with
    | nil => simp
    | cons x row ih =>
      intro i k
      cases i with
      | zero =>
        have hrest : (row.zipIdx (k + 1)).filter (fun p => some p.2 ≠ some (0 + k))
            = row.zipIdx (k + 1) := by
          rw [List.filter_eq_self]
          intro p hp
          have hle := List.le_snd_of_mem_zipIdx hp
          simp only [ne_eq, Option.some.injEq, decide_eq_true_eq]
          omega
        rw [List.zipIdx_cons, List.filter_cons_of_neg (by simp), hrest, List.zipIdx_map_fst,
          List.eraseIdx_cons_zero]
      | succ j =>
        have hrest := ih j (k + 1)
        rw [List.zipIdx_cons, List.filter_cons_of_pos (by simp), List.map_cons,
          List.eraseIdx_cons_succ, ← hrest]
        have hsum : j + (k + 1) = j + 1 + k := by omega
        rw [hsum]
  exact shifted row i 0

theorem withoutLocator_map (f : α → β) (locator : Option ℕ) (row : List α) :
  withoutLocator locator (row.map f) = (withoutLocator locator row).map f
  := by
  cases locator with
  | none => rw [withoutLocator_none, withoutLocator_none]
  | some i => rw [withoutLocator_some, withoutLocator_some, List.eraseIdx_map]

/-- The position of an entry before the locator was removed. -/
def beforeRemoval : Option ℕ → ℕ → ℕ
  | none, c => c
  | some i, c => if c < i then c else c + 1

theorem getElem?_withoutLocator (locator : Option ℕ) (row : List α) (c : ℕ) :
  (withoutLocator locator row)[c]? = row[beforeRemoval locator c]?
  := by
  cases locator with
  | none => rw [withoutLocator_none, beforeRemoval]
  | some i =>
    rw [withoutLocator_some, List.getElem?_eraseIdx, beforeRemoval]
    split
    · rfl
    · rfl

theorem mem_shiftBinaryCells (locator : Option ℕ) (cells : List (ℕ × ℕ)) (r c : ℕ) :
  (r, c) ∈ shiftBinaryCells locator cells ↔ (r, beforeRemoval locator c) ∈ cells
  := by
  rw [shiftBinaryCells, List.mem_filterMap]
  cases locator with
  | none => simp [beforeRemoval]
  | some i =>
    constructor
    · rintro ⟨⟨r', c'⟩, hmem, hshift⟩
      by_cases heq : i = c'
      · simp [heq] at hshift
      · simp only [Option.some.injEq, heq, if_false, Option.any_some, decide_eq_true_eq,
          Prod.mk.injEq] at hshift
        obtain ⟨rfl, rfl⟩ := hshift
        have hback : beforeRemoval (some i) (c' - if i < c' then 1 else 0) = c' := by
          simp only [beforeRemoval]
          split_ifs
          all_goals omega
        rw [hback]
        exact hmem
    · intro hmem
      refine ⟨(r, beforeRemoval (some i) c), hmem, ?_⟩
      by_cases hlt : c < i
      · have hne : i ≠ c := by omega
        have hle : ¬ i < c := by omega
        simp [beforeRemoval, hlt, hne, hle]
      · have hne : i ≠ c + 1 := by omega
        have hle : i < c + 1 := by omega
        simp only [beforeRemoval, if_neg hlt, Option.some.injEq, if_neg hne, Option.any_some,
          decide_eq_true_eq, if_pos hle, Nat.add_sub_cancel]

end

/-! ### One page -/

theorem isBinary_withoutLocator {result : QueryResult} {page : List (List Cell)} {row : List Cell}
    {r : ℕ} {locator : Option ℕ}
    (hcells : ∀ r c, (r, c) ∈ result.binaryCells
      ↔ ∃ row cell, page[r]? = some row ∧ row[c]? = some cell ∧ cell.2 = true)
    (hrow : page[r]? = some row) (c : ℕ) :
  decide ((r, c) ∈ shiftBinaryCells locator result.binaryCells)
    = (withoutLocator locator row)[c]?.any Prod.snd
  := by
  rw [getElem?_withoutLocator, Bool.eq_iff_iff, decide_eq_true_eq, mem_shiftBinaryCells, hcells]
  constructor
  · rintro ⟨row', cell, hrow', hcell, hbinary⟩
    rw [hrow] at hrow'
    cases hrow'
    rw [hcell]
    simpa using hbinary
  · intro hany
    cases hcell : row[beforeRemoval locator c]? with
    | none =>
      rw [hcell] at hany
      cases hany
    | some cell =>
      rw [hcell] at hany
      exact ⟨row, cell, hrow, hcell, by simpa using hany⟩

theorem buildTransferWriteSqlTyped_ok {target : Driver} {req : TransferRequest}
    {table : SourceTable} {hasLocator : Bool} {mapped : List (ℕ × Text)} {page : List (List Cell)}
    {result : QueryResult} {sql : Text}
    (hcells : ∀ r c, (r, c) ∈ result.binaryCells
      ↔ ∃ row cell, page[r]? = some row ∧ row[c]? = some cell ∧ cell.2 = true)
    (hmapped : mapped ≠ []) (hpage : page ≠ [])
    (h : buildTransferWriteSqlTyped req.mode target.dbType true req.targetSchema req.targetTable
      mapped (page.map fun row => table.visible hasLocator (row.map Prod.fst)) req.upsertKeys
      (shiftBinaryCells (locatorOf hasLocator table.columns) result.binaryCells) = .ok sql) :
  ∃ group, sql = insertion target req mapped group ∧ List.Forall₂ (fun row text =>
    copiedRow target.dbType mapped (table.visible hasLocator row) = .ok text) page group
  := by
  unfold buildTransferWriteSqlTyped at h
  rw [if_neg (by simp [hmapped, hpage])] at h
  obtain ⟨group, hgroup, h⟩ := Result.bind_ok.mp h
  refine ⟨group, (Except.ok.inj h).symm, ?_⟩
  have hrows := Result.mapM_ok.mp hgroup
  rw [List.zipIdx_map, List.forall₂_map_left_iff] at hrows
  have hall := (List.forall₂_and_left (p := (· ∈ page.zipIdx)) _ _).mpr ⟨fun _ hp => hp, hrows⟩
  have hcopied : List.Forall₂ (fun (p : List Cell × ℕ) text =>
      copiedRow target.dbType mapped (table.visible hasLocator p.1) = .ok text)
      page.zipIdx group := by
    apply hall.imp
    rintro ⟨row, r⟩ text ⟨hmem, htext⟩
    have hrow := List.mk_mem_zipIdx_iff_getElem?.mp hmem
    have hbinary : (fun c => decide ((r, c) ∈ shiftBinaryCells
          (locatorOf hasLocator table.columns) result.binaryCells))
        = fun c => (table.visible hasLocator row)[c]?.any Prod.snd := by
      funext c
      apply isBinary_withoutLocator hcells hrow
    have hvalues : table.visible hasLocator (row.map Prod.fst)
        = (table.visible hasLocator row).map Prod.fst := withoutLocator_map _ _ _
    simp only [Prod.map, id, hbinary, hvalues] at htext
    exact htext
  have hpages : page = page.zipIdx.map Prod.fst := (List.zipIdx_map_fst 0 page).symm
  rw [hpages, List.forall₂_map_left_iff]
  exact hcopied

/-! ### Histories of a transfer -/

/-- The calls of a transfer with their answers, in order. -/
abbrev TransferHistory :=
  List (Event TransferCall.Answer)

/-- The statements that a call gives to the target to execute them as one. -/
def targetWriteOf : Event TransferCall.Answer → Option StatementBatch
  | ⟨.target c, answer⟩ => writeOf ⟨c, answer⟩
  | _ => none

/-- What has been given to the target to execute. -/
def TransferHistory.writes (h : TransferHistory) : List StatementBatch :=
  h.filterMap targetWriteOf

theorem targetWrites_append (h : TransferHistory) (e : Event TransferCall.Answer) :
  TransferHistory.writes (h ++ [e]) = TransferHistory.writes h ++ (targetWriteOf e).toList
  := by
  rw [TransferHistory.writes, List.filterMap_append]
  cases he : targetWriteOf e with
  | none => simp [TransferHistory.writes, he]
  | some statements => simp [TransferHistory.writes, he]

theorem targetWrites_silent {h : TransferHistory} {e : Event TransferCall.Answer}
    (he : targetWriteOf e = none) :
  TransferHistory.writes (h ++ [e]) = TransferHistory.writes h
  := by
  rw [targetWrites_append, he]
  apply List.append_nil

def Stable (req : TransferRequest) (table : SourceTable) (h : TransferHistory) : Prop :=
  ∀ order limit offset result,
    ⟨.source (.tableQuery req.sourceSchema req.sourceTable none order limit offset),
      .ok result⟩ ∈ h → table.IsPage offset limit result

theorem Stable.kept {req : TransferRequest} {table : SourceTable} :
  ∀ h h' : TransferHistory, h <+: h' → Stable req table h' → Stable req table h
  := by
  intro h h' hle hstable order limit offset result hmem
  exact hstable order limit offset result (hle.subset hmem)

/-! ### Staging -/

/-- A statement on a line of the spool. -/
def record (sql : Text) : Text :=
  quote sql ++ ['\n']

section

variable {target : Driver} {req : TransferRequest} {table : SourceTable} {hasLocator : Bool}
  {s : Staging} {h : TransferHistory}

theorem stageIo_wp :
  wp (fun _ _ h' => TransferHistory.writes h' = TransferHistory.writes h)
    (fun _ _ h' => TransferHistory.writes h' = TransferHistory.writes h) stageIo () h
  := by
  rw [stageIo, wp_ask_bind]
  intro answer
  cases answer with
  | none => exact targetWrites_silent rfl
  | some error => exact targetWrites_silent rfl

theorem writeRecord_wp (sql : Text) :
  wp (fun s' _ h' => TransferHistory.writes h' = TransferHistory.writes h
      ∧ ∃ written, s' = { s with spool := s.spool ++ record sql, written := written })
    (fun _ _ h' => TransferHistory.writes h' = TransferHistory.writes h)
    (writeRecord s sql) () h
  := by
  simp only [writeRecord]
  split
  · rfl
  · apply wp_seq stageIo_wp
    intro _ _ h₁ hwrites₁
    rw [wp_bind]
    apply wp_mono stageIo_wp
    · intro _ _ h₂ hwrites₂
      exact ⟨hwrites₂.trans hwrites₁, _, rfl⟩
    · intro _ _ h₂ hwrites₂
      exact hwrites₂.trans hwrites₁

/-! ### Staging any source -/

/-- A statement that removes rows. -/
def IsDelete (sql : Text) : Prop :=
  "DELETE".toList <+: sql

instance : DecidablePred IsDelete := fun sql => inferInstanceAs (Decidable (_ <+: sql))

/-- From any source, behind the statement that removes the rows of the target there are only
insertions. -/
def Spooled (target : Driver) (req : TransferRequest) (spool : Text) : Prop :=
  ∃ inserted, spool = (replacement target req ++ inserted).flatMap record
    ∧ ∀ sql ∈ inserted, ¬ IsDelete sql

theorem insertion_not_delete (mapped : List (ℕ × Text)) (rows : List Text) :
  ¬ IsDelete (insertion target req mapped rows)
  := by
  have starts : ∀ {t rest : Text} {c : Char}, c ≠ 'D' → t = c :: rest → ¬ IsDelete t := by
    rintro t rest c hc rfl hprefix
    obtain ⟨hd, -⟩ := List.cons_prefix_cons.mp hprefix
    exact hc hd.symm
  unfold insertion buildTransferSqlValues
  split
  · exact starts (c := 'I') (by decide) rfl
  · cases target.dbType with
    | postgres | sqlite | duckdb | mysql =>
      simp only
      split
      · exact starts (c := 'I') (by decide) rfl
      · exact starts (c := 'I') (by decide) rfl
    | sqlserver => exact starts (c := 'M') (by decide) rfl
    | _ => exact starts (c := 'I') (by decide) rfl

theorem buildTransferWriteSqlTyped_not_delete {mapped : List (ℕ × Text)} {rows : List (List Value)}
    {binaryCells : List (ℕ × ℕ)} {sql : Text}
    (h : buildTransferWriteSqlTyped req.mode target.dbType true req.targetSchema req.targetTable
      mapped rows req.upsertKeys binaryCells = .ok sql) :
  ¬ IsDelete sql
  := by
  unfold buildTransferWriteSqlTyped at h
  split at h
  · cases h
    decide
  · obtain ⟨values, -, h⟩ := Result.bind_ok.mp h
    cases h
    exact insertion_not_delete mapped values

theorem stageColumns_spool {s' : Staging} {columns : List Text}
    (h : stageColumns req s columns = .ok s') :
  s'.spool = s.spool
  := by
  unfold stageColumns at h
  split at h
  · split at h
    · cases h
    · cases h
      rfl
  · obtain ⟨mapped, -, h⟩ := Result.bind_ok.mp h
    cases h
    rfl

theorem Spooled.snoc {spool : Text} {sql : Text} (hs : Spooled target req spool)
    (hsql : ¬ IsDelete sql) :
  Spooled target req (spool ++ record sql)
  := by
  obtain ⟨inserted, rfl, hinserted⟩ := hs
  refine ⟨inserted ++ [sql], by simp, ?_⟩
  intro sql' hsql'
  rcases List.mem_append.mp hsql' with hmem | hmem
  · exact hinserted sql' hmem
  · rw [List.mem_singleton] at hmem
    subst hmem
    exact hsql

theorem stagePage_spooled (result : QueryResult) (hs : Spooled target req s.spool) :
  wp (fun s' _ h' => TransferHistory.writes h' = TransferHistory.writes h
      ∧ Spooled target req s'.spool)
    (fun _ _ h' => TransferHistory.writes h' = TransferHistory.writes h)
    (stagePage target req hasLocator s result) () h
  := by
  simp only [stagePage]
  rw [wp_bind, wp_lift]
  refine ⟨?_, fun _ _ => rfl⟩
  intro s₁ hs₁
  rw [← stageColumns_spool hs₁] at hs
  split
  · rfl
  · split
    · rw [wp_bind, wp_lift]
      refine ⟨?_, fun _ _ => rfl⟩
      intro sql hsql
      apply wp_seq (writeRecord_wp sql)
      rintro _ _ h' ⟨hwrites, written, rfl⟩
      exact ⟨hwrites, hs.snoc (buildTransferWriteSqlTyped_not_delete hsql)⟩
    · exact ⟨rfl, hs⟩

theorem stagePages_spooled (order : Option Text) :
  ∀ (fuel : ℕ) (s : Staging) (h : TransferHistory), Spooled target req s.spool →
    wp (fun s' _ h' => TransferHistory.writes h' = TransferHistory.writes h
        ∧ Spooled target req s'.spool)
      (fun _ _ h' => TransferHistory.writes h' = TransferHistory.writes h)
      (stagePages target req order hasLocator fuel s) () h
  := by
  intro fuel
  induction fuel with
  | zero =>
    intro s h hs
    exact ⟨rfl, hs⟩
  | succ fuel ih =>
    intro s h hs
    rw [stagePages, wp_ask_bind]
    intro answer
    have hwrites := targetWrites_silent (h := h) (e := ⟨.source (.tableQuery req.sourceSchema
      req.sourceTable none order (max 1 (min req.batchSize 1000)) s.offset), answer⟩) rfl
    rw [← hwrites, wp_bind, wp_lift]
    refine ⟨?_, fun _ _ => rfl⟩
    intro result _
    apply wp_seq (stagePage_spooled result hs)
    rintro s₁ _ h₁ ⟨hwrites₁, hs₁⟩
    rw [← hwrites₁]
    dsimp only
    split
    · exact ⟨rfl, hs₁⟩
    · split
      · rfl
      · rw [wp_ite]
        refine ⟨fun _ => ?_, fun _ => rfl⟩
        apply ih
        exact hs₁

/-! ### Staging a stable source -/

/-- What has been staged: the rows of the source so far, behind the statement that empties the
target. -/
structure Staged (target : Driver) (req : TransferRequest) (table : SourceTable)
    (hasLocator : Bool) (s : Staging) (groups : List (List Text)) : Prop where
  spool : s.spool
    = (replacement target req ++ groups.map (insertion target req s.mapped)).flatMap record
  writes : Writes target hasLocator s.mapped (table.rows.take s.transferred) table groups
  transferred : s.transferred ≤ table.rows.length
  unmapped : s.expectedColumns = none → groups = []
  mapped : ∀ names, s.expectedColumns = some names → names = table.names hasLocator
    ∧ resolveTransferMapping (table.names hasLocator) req.mappings = .ok s.mapped

theorem resolveTransferMapping_ne_nil {columns : List Text} {mappings : List TransferColumnMapping}
    {mapped : List (ℕ × Text)} (h : resolveTransferMapping columns mappings = .ok mapped) :
  mapped ≠ []
  := by
  obtain ⟨found, -, h⟩ := Result.bind_ok.mp h
  split at h
  · cases h
  · rename_i hne
    cases h
    exact hne

theorem stageColumns_ok {s' : Staging} {groups : List (List Text)}
    (hs : Staged target req table hasLocator s groups)
    (h : stageColumns req s (table.names hasLocator) = .ok s') :
  Staged target req table hasLocator s' groups ∧ s'.expectedColumns = some (table.names hasLocator)
    ∧ s'.offset = s.offset ∧ s'.transferred = s.transferred
  := by
  unfold stageColumns at h
  split at h
  · rename_i expected hexpected
    split at h
    · cases h
    · rename_i hsame
      cases h
      rw [not_not] at hsame
      rw [hsame] at hexpected
      exact ⟨hs, hexpected, rfl, rfl⟩
  · rename_i hexpected
    obtain ⟨mapped, hmapped, h⟩ := Result.bind_ok.mp h
    rw [Result.mapError_ok] at hmapped
    cases h
    have hnone := hs.unmapped hexpected
    subst hnone
    refine ⟨?_, rfl, rfl, rfl⟩
    exact {
      spool := hs.spool
      writes := ⟨by
        have hrows := hs.writes.rows
        rw [List.flatten_nil, List.forall₂_nil_right_iff] at hrows ⊢
        exact hrows, by simp⟩
      transferred := hs.transferred
      unmapped := fun _ => rfl
      mapped := by
        rintro names hnames
        cases hnames
        exact ⟨rfl, hmapped⟩ }

theorem Staged.snoc {groups : List (List Text)} {group : List Text} {page : List (List Cell)}
    (hs : Staged target req table hasLocator s groups)
    (hcolumns : s.expectedColumns = some (table.names hasLocator)) (hpage : page ≠ [])
    (hrest : page <+: table.rows.drop s.transferred)
    (hgroup : List.Forall₂ (fun row text =>
      copiedRow target.dbType s.mapped (table.visible hasLocator row) = .ok text) page group)
    (written : ℕ) :
  Staged target req table hasLocator
    { s with
      spool := s.spool ++ record (insertion target req s.mapped group)
      written := written
      transferred := s.transferred + page.length }
    (groups ++ [group])
  := by
  have hlength := hrest.length_le
  rw [List.length_drop] at hlength
  have htake : table.rows.take (s.transferred + page.length)
      = table.rows.take s.transferred ++ page := by
    rw [List.take_add, ← List.prefix_iff_eq_take.mp hrest]
  exact {
    spool := by simp [hs.spool]
    writes := {
      rows := by
        simp only [htake, List.flatten_append, List.flatten_singleton]
        exact List.rel_append hs.writes.rows hgroup
      nonempty := by
        intro g hg
        rcases List.mem_append.mp hg with hg | hg
        · exact hs.writes.nonempty g hg
        · rw [List.mem_singleton] at hg
          subst hg
          rintro rfl
          rw [List.forall₂_nil_right_iff] at hgroup
          exact hpage hgroup }
    transferred := by
      have hpos := List.length_pos_iff.mpr hpage
      simp only
      omega
    unmapped := by
      intro hnone
      rw [hcolumns] at hnone
      cases hnone
    mapped := hs.mapped }

theorem stagePage_wp {groups : List (List Text)} {limit : ℕ} {result : QueryResult}
    (hs : Staged target req table hasLocator s groups)
    (hpage : table.IsPage s.transferred limit result) :
  wp (fun s' _ _ => (∃ groups', Staged target req table hasLocator s' groups')
      ∧ s'.expectedColumns ≠ none
      ∧ s'.offset = s.offset ∧ s'.transferred = s.transferred + result.rows.length)
    (fun _ _ _ => True) (stagePage target req hasLocator s result) () h
  := by
  obtain ⟨n, -, hcolumns, hrows, hcells, -⟩ := hpage
  have hnames : withoutLocator (locatorOf hasLocator result.columns)
      (result.columns.map ColumnInfo.name) = table.names hasLocator := by rw [hcolumns]; rfl
  simp only [stagePage, hnames]
  rw [wp_bind, wp_lift]
  refine ⟨?_, fun _ _ => trivial⟩
  intro s₁ hs₁
  obtain ⟨hstaged, hexpected, hoffset, htransferred⟩ := stageColumns_ok hs hs₁
  split
  · trivial
  · split
    · rename_i hne
      rw [wp_bind, wp_lift]
      refine ⟨?_, fun _ _ => trivial⟩
      intro sql hsql
      have hnonempty : (table.rows.drop s.transferred).take n ≠ [] := by
        intro hnil
        rw [hnil] at hrows
        exact hne hrows
      have hmapped := (hstaged.mapped _ hexpected).2
      have hvisible : result.rows.map (withoutLocator (locatorOf hasLocator result.columns))
          = ((table.rows.drop s.transferred).take n).map
            fun row => table.visible hasLocator (row.map Prod.fst) := by
        rw [hrows, hcolumns, List.map_map]
        rfl
      rw [hvisible, hcolumns] at hsql
      obtain ⟨group, rfl, hgroup⟩ := buildTransferWriteSqlTyped_ok hcells
        (resolveTransferMapping_ne_nil hmapped) hnonempty hsql
      apply wp_seq (wp_mono (writeRecord_wp _) (fun _ _ _ hR => hR) (fun _ _ _ _ => trivial))
      rintro s₂ _ h' ⟨-, written, rfl⟩
      rw [← htransferred] at hnonempty hgroup
      have hnext := hstaged.snoc hexpected hnonempty (List.take_prefix n _) hgroup written
      have hcount : result.rows.length
          = ((table.rows.drop s₁.transferred).take n).length := by
        rw [hrows, htransferred, List.length_map]
      refine ⟨⟨groups ++ [group], ?_⟩, ?_, hoffset, ?_⟩
      · rw [hcount]
        exact hnext
      · simp [hexpected]
      · simp [htransferred]
    · rename_i hnil
      rw [not_not] at hnil
      refine ⟨⟨groups, hstaged⟩, ?_, hoffset, ?_⟩
      · simp [hexpected]
      · simp [htransferred, hnil]

theorem stagePages_wp (order : Option Text) :
  ∀ (fuel : ℕ) (s : Staging) (h : TransferHistory) (groups : List (List Text)),
    Staged target req table hasLocator s groups → s.offset = s.transferred →
    s.offset < 2 ^ 32 → 2 ^ 32 ≤ s.offset + fuel →
    wp (fun s' _ h' => Stable req table h' →
        (∃ groups', Staged target req table hasLocator s' groups')
          ∧ s'.expectedColumns ≠ none ∧ s'.transferred = table.rows.length)
      (fun _ _ _ => True) (stagePages target req order hasLocator fuel s) () h
  := by
  intro fuel
  induction fuel with
  | zero =>
    intro s h groups hs hoffset hlt hfuel
    omega
  | succ fuel ih =>
    intro s h groups hs hoffset hlt hfuel
    rw [stagePages, wp_ask_bind]
    intro answer
    apply wp_assume Stable.kept
    intro hstable
    rw [wp_bind, wp_lift]
    refine ⟨?_, fun _ _ => trivial⟩
    rintro result rfl
    have hpage := hstable _ _ _ _ (List.mem_append_right h (List.mem_singleton_self _))
    rw [hoffset] at hpage
    apply wp_seq (stagePage_wp hs hpage)
    rintro s₁ _ h₁ ⟨⟨groups₁, hs₁⟩, hexpected, hoffset₁, htransferred₁⟩
    obtain ⟨n, hn, -, hrows, -, htruncated⟩ := hpage
    have hcount : result.rows.length = ((table.rows.drop s.transferred).take n).length := by
      rw [hrows, List.length_map]
    dsimp only
    split
    · rename_i hlast
      rw [htruncated] at hlast
      have hall := hs₁.transferred
      exact fun _ => ⟨⟨groups₁, hs₁⟩, hexpected, by omega⟩
    · split
      · trivial
      · have hsmall : result.rows.length < 2 ^ 32 := by
          rw [hcount, List.length_take]
          omega
        rw [Nat.mod_eq_of_lt hsmall, wp_ite]
        refine ⟨?_, fun _ => trivial⟩
        intro hnext
        have hstaged₁ : Staged target req table hasLocator
            { s₁ with offset := s₁.offset + result.rows.length } groups₁ := {
          spool := hs₁.spool
          writes := hs₁.writes
          transferred := hs₁.transferred
          unmapped := hs₁.unmapped
          mapped := hs₁.mapped }
        apply ih _ _ _ hstaged₁
        · simp only
          omega
        · exact hnext
        · simp only
          omega

end

/-! ### The preparation -/

section

variable {target : Driver} {req : TransferRequest} {table : SourceTable} {h : TransferHistory}

/-- What holds when everything is prepared. -/
structure Prepared (target : Driver) (req : TransferRequest) (table : SourceTable) (s : Staging)
    (h : TransferHistory) : Prop where
  untouched : TransferHistory.writes h = []
  allowed : req.mode = .overwrite → req.allowDestructive ∧ target.capabilities.transactions
  spooled : Spooled target req s.spool
  copies : Stable req table h → ∃ hasLocator statements,
    ⟨.source (.tableHasRowIdentity req.sourceSchema req.sourceTable), .ok hasLocator⟩ ∈ h
      ∧ Copies target req hasLocator table statements
      ∧ s.spool = statements.flatMap record ∧ s.transferred = table.rows.length

theorem checkRequest_ok {sql : Option Text} (h : checkRequest target req = .ok sql) :
  sql.toList = replacement target req
    ∧ (req.mode = .overwrite → req.allowDestructive ∧ target.capabilities.transactions)
  := by
  obtain ⟨_, hchecked, h⟩ := Result.bind_ok.mp h
  rw [Result.mapError_ok] at hchecked
  split at h
  · rename_i hmode
    obtain ⟨removal, hremoval, h⟩ := Result.bind_ok.mp h
    cases h
    unfold replacementSql at hremoval
    split at hremoval
    · cases hremoval
    · rename_i htransactions
      cases hremoval
      rw [hmode] at hchecked
      simp only [checkTransferPreconditions] at hchecked
      split at hchecked
      · rename_i hallowed
        rw [not_not] at htransactions
        exact ⟨by simp [replacement, hmode], fun _ => ⟨hallowed, htransactions⟩⟩
      · cases hchecked
  · rename_i hmode
    cases h
    exact ⟨by simp [replacement, hmode], fun hoverwrite => absurd hoverwrite hmode⟩

theorem checkTarget_wp (hwrites : TransferHistory.writes h = []) :
  wp (fun sql _ h' => TransferHistory.writes h' = [] ∧ checkRequest target req = .ok sql)
    (fun _ _ h' => TransferHistory.writes h' = []) (checkTarget target req) () h
  := by
  simp only [checkTarget]
  rw [wp_bind, wp_lift]
  refine ⟨fun _ _ => ?_, fun _ _ => hwrites⟩
  split
  · rw [wp_ask_bind]
    intro answer
    have hwrites' : TransferHistory.writes (h ++ [⟨.target (.ensureAtomicTable
        req.targetSchema req.targetTable), answer⟩]) = [] := by
      rw [targetWrites_silent rfl, hwrites]
    rw [wp_bind, wp_lift]
    refine ⟨fun _ _ => ?_, fun _ _ => hwrites'⟩
    rw [wp_lift]
    exact ⟨fun _ hsql => ⟨hwrites', hsql⟩, fun _ _ => hwrites'⟩
  · rw [wp_lift]
    exact ⟨fun _ hsql => ⟨hwrites, hsql⟩, fun _ _ => hwrites⟩

theorem stageAll_wp {hasLocator : Bool} {order : Option Text} {s : Staging}
    (hwrites : TransferHistory.writes h = [])
    (hallowed : req.mode = .overwrite → req.allowDestructive ∧ target.capabilities.transactions)
    (hlocator : ⟨.source (.tableHasRowIdentity req.sourceSchema req.sourceTable),
      .ok hasLocator⟩ ∈ h)
    (hs : ∃ written, s = { spool := (replacement target req).flatMap record, written := written }) :
  wp (fun s' _ h' => Prepared target req table s' h')
    (fun _ _ h' => TransferHistory.writes h' = []) (do
      let s ← stagePages target req order hasLocator (2 ^ 32) s
      stageIo
      stageIo
      return s) () h
  := by
  obtain ⟨written, rfl⟩ := hs
  have hspooled : Spooled target req ((replacement target req).flatMap record) :=
    ⟨[], by simp, by simp⟩
  have hstaged : Staged target req table hasLocator
      { spool := (replacement target req).flatMap record, written := written } [] := {
    spool := by simp
    writes := ⟨by simp, by simp⟩
    transferred := Nat.zero_le _
    unmapped := fun _ => rfl
    mapped := by
      rintro names hnames
      cases hnames }
  apply wp_seq (wp_mono (wp_kept (wp_and (stagePages_spooled order (2 ^ 32) _ h hspooled)
    (stagePages_wp order (2 ^ 32) _ h [] hstaged rfl (by simp) (by simp)))) (fun _ _ _ hR => hR)
    (fun _ _ _ hboth => hboth.1.trans hwrites))
  rintro s₁ _ h₁ ⟨⟨⟨hwrites₁, hspooled₁⟩, hstaged₁⟩, hle₁⟩
  apply wp_seq (wp_mono (wp_kept stageIo_wp) (fun _ _ _ hR => hR)
    (fun _ _ _ hwrites₂ => hwrites₂.trans (hwrites₁.trans hwrites)))
  rintro _ _ h₂ ⟨hwrites₂, hle₂⟩
  apply wp_seq (wp_mono (wp_kept stageIo_wp) (fun _ _ _ hR => hR)
    (fun _ _ _ hwrites₃ => hwrites₃.trans (hwrites₂.trans (hwrites₁.trans hwrites))))
  rintro _ _ h₃ ⟨hwrites₃, hle₃⟩
  exact {
    untouched := hwrites₃.trans (hwrites₂.trans (hwrites₁.trans hwrites))
    allowed := hallowed
    spooled := hspooled₁
    copies := by
      intro hstable
      have hstable₁ := Stable.kept h₁ h₃ (hle₂.trans hle₃) hstable
      obtain ⟨⟨groups, hs₁⟩, hexpected, htransferred⟩ := hstaged₁ hstable₁
      obtain ⟨names, hnames⟩ := Option.ne_none_iff_exists'.mp hexpected
      obtain ⟨-, hmapped⟩ := hs₁.mapped names hnames
      have hwritten := hs₁.writes
      rw [htransferred, List.take_length] at hwritten
      refine ⟨hasLocator, _, ?_, ⟨s₁.mapped, groups, hmapped, hwritten, rfl⟩, hs₁.spool,
        htransferred⟩
      exact (hle₁.trans (hle₂.trans hle₃)).subset hlocator }

theorem prepareTransfer_wp (source : Driver) (hwrites : TransferHistory.writes h = []) :
  wp (fun s _ h' => Prepared target req table s h')
    (fun _ _ h' => TransferHistory.writes h' = []) (prepareTransfer source target req) () h
  := by
  simp only [prepareTransfer]
  split
  · exact hwrites
  · apply wp_seq (checkTarget_wp hwrites)
    rintro sql _ h₁ ⟨hwrites₁, hchecked⟩
    obtain ⟨hsql, hallowed⟩ := checkRequest_ok hchecked
    apply wp_seq (wp_mono stageIo_wp (fun _ _ _ hR => hR)
      (fun _ _ _ hwrites₂ => hwrites₂.trans hwrites₁))
    intro _ _ h₂ hwrites₂
    rw [wp_ask_bind]
    intro answer
    have hwrites₃ := (targetWrites_silent (h := h₂) (e := ⟨.source (.tableStructure
      (req.sourceSchema.getD []) req.sourceTable), answer⟩) rfl).trans (hwrites₂.trans hwrites₁)
    rw [wp_bind, wp_lift]
    refine ⟨fun tableStructure _ => ?_, fun _ _ => hwrites₃⟩
    rw [wp_ask_bind]
    intro answer
    have hwrites₄ := (targetWrites_silent (e := ⟨.source (.tableHasRowIdentity
      req.sourceSchema req.sourceTable), answer⟩) rfl).trans hwrites₃
    rw [wp_bind, wp_lift]
    refine ⟨?_, fun _ _ => hwrites₄⟩
    rintro hasLocator rfl
    have hlocator := List.mem_append_right (h₂ ++ [⟨.source (.tableStructure
      (req.sourceSchema.getD []) req.sourceTable), ‹_›⟩]) (List.mem_singleton_self
        (⟨.source (.tableHasRowIdentity req.sourceSchema req.sourceTable), .ok hasLocator⟩ :
          Event TransferCall.Answer))
    cases sql with
    | some sql =>
      apply wp_seq (wp_mono (wp_kept (writeRecord_wp sql)) (fun _ _ _ hR => hR)
        (fun _ _ _ hwrites₅ => hwrites₅.trans hwrites₄))
      rintro _ _ h₅ ⟨⟨hwrites₅, written, rfl⟩, hle⟩
      apply stageAll_wp (hwrites₅.trans hwrites₄) hallowed (hle.subset hlocator)
      use written
      simp [← hsql]
    | none =>
      rw [wp_bind, wp_pure]
      apply stageAll_wp hwrites₄ hallowed hlocator
      use 0
      simp [← hsql]

end

/-! ### Reading back -/

/-- The statements that are handed out when reading the spool fails or not. -/
def handedOut (statements : List Text) : Option (ℕ × Text) → StatementBatch
  | some (n, error) => (statements.take n).map .ok ++ [.error (.io error)]
  | none => statements.map .ok

theorem getLast?_quote (t : Text) :
  (quote t).getLast? = some '"'
  := by
  rw [quote, List.getLast?_concat]

theorem lines_record (statements : List Text) :
  lines (statements.flatMap record) = statements.map quote
  := by
  have hquoted : statements.flatMap record = (statements.map quote).flatMap (· ++ ['\n']) := by
    rw [List.flatMap_map]
    rfl
  rw [hquoted]
  apply lines_flatMap
  intro line hline
  obtain ⟨sql, -, rfl⟩ := List.mem_map.mp hline
  refine ⟨newline_not_mem_quote sql, ?_⟩
  rw [getLast?_quote]
  decide

theorem spooledStatements_record (jsonError : Text → Text) (statements : List Text)
    (failure : Option (ℕ × Text)) :
  spooledStatements jsonError (statements.flatMap record) failure = handedOut statements failure
  := by
  have hread : (statements.map quote).map (spooledStatement jsonError)
      = statements.map .ok := by
    rw [List.map_map]
    apply List.map_congr_left
    intro sql _
    simp only [Function.comp, spooledStatement, parseString_quote]
  unfold spooledStatements
  rw [lines_record, hread]
  cases failure with
  | none => rfl
  | some failure => simp only [handedOut, List.map_take]

/-! ### Sending -/

section

variable {target : Driver} {req : TransferRequest} {h : TransferHistory}

/-- One by one, a target is given the first of the readable statements, and all of them if
this succeeds. -/
theorem sendStatements_wp :
  ∀ (statements : StatementBatch) (batches : ℕ) (h : TransferHistory),
    wp (fun _ _ h' => ∃ sent : List Text, statements = sent.map .ok
        ∧ TransferHistory.writes h' = TransferHistory.writes h ++ sent.map fun sql => [.ok sql])
      (fun _ _ h' => ∃ sent : List Text, sent.map .ok <+: statements
        ∧ TransferHistory.writes h' = TransferHistory.writes h ++ sent.map fun sql => [.ok sql])
      (sendStatements batches statements) () h
  := by
  intro statements
  induction statements with
  | nil =>
    intro batches h
    exact ⟨[], rfl, by simp⟩
  | cons statement statements ih =>
    intro batches h
    rw [sendStatements, wp_bind, wp_lift]
    constructor
    · rintro sql rfl
      rw [wp_ask_bind]
      intro answer
      have hwrites : TransferHistory.writes (h ++ [⟨.target (.query sql 0), answer⟩])
          = TransferHistory.writes h ++ [[.ok sql]] := by
        rw [targetWrites_append]
        rfl
      rw [wp_bind, wp_lift]
      constructor
      · intro _ _
        apply wp_mono (ih (batches + 1) _)
        · rintro _ _ h' ⟨sent, rfl, hwrites'⟩
          exact ⟨sql :: sent, rfl, by simp [hwrites', hwrites]⟩
        · rintro _ _ h' ⟨sent, hprefix, hwrites'⟩
          refine ⟨sql :: sent, ?_, by simp [hwrites', hwrites]⟩
          rw [List.map_cons]
          exact List.cons_prefix_cons.mpr ⟨rfl, hprefix⟩
      · intro _ _
        refine ⟨[sql], ?_, by simp [hwrites]⟩
        simp
    · rintro e rfl
      exact ⟨[], by simp, by simp⟩

/-- The statements were given to the target: as one batch where it has transactions, and
otherwise one by one up to an error. -/
structure Delivered (target : Driver) (statements : StatementBatch) (h : TransferHistory) :
    Prop where
  batch : target.capabilities.transactions → TransferHistory.writes h = [statements]
    ∧ ∃ answer, ⟨.target (.execStatementBatch statements), answer⟩ ∈ h
  single : ¬ target.capabilities.transactions → ∃ sent : List Text,
    sent.map .ok <+: statements ∧ TransferHistory.writes h = sent.map fun sql => [.ok sql]

/-- The statements were executed: as one batch where the target has transactions, and
otherwise one by one. -/
structure Executed (target : Driver) (statements : StatementBatch) (h : TransferHistory) :
    Prop where
  batch : target.capabilities.transactions → TransferHistory.writes h = [statements]
    ∧ ∃ affected, ⟨.target (.execStatementBatch statements), .ok affected⟩ ∈ h
  single : ¬ target.capabilities.transactions → ∃ sent : List Text,
    sent.map .ok = statements ∧ TransferHistory.writes h = sent.map fun sql => [.ok sql]

theorem Executed.delivered {statements : StatementBatch} (hs : Executed target statements h) :
  Delivered target statements h
  where
  batch := by
    intro htransactions
    obtain ⟨hwrites, affected, hmem⟩ := hs.batch htransactions
    exact ⟨hwrites, _, hmem⟩
  single := by
    intro htransactions
    obtain ⟨sent, rfl, hwrites⟩ := hs.single htransactions
    exact ⟨sent, List.prefix_refl _, hwrites⟩

theorem sendStaged_wp {statements : StatementBatch} (hnone : TransferHistory.writes h = []) :
  wp (fun _ _ h' => Executed target statements h') (fun _ _ h' => Delivered target statements h')
    (sendStaged target statements) () h
  := by
  rw [sendStaged]
  split
  · rename_i htransactions
    rw [wp_ask_bind]
    intro answer
    have hwrites : TransferHistory.writes
        (h ++ [⟨.target (.execStatementBatch statements), answer⟩]) = [statements] := by
      rw [targetWrites_append, hnone]
      rfl
    rw [wp_bind, wp_lift]
    constructor
    · rintro affected rfl
      exact ⟨fun _ => ⟨hwrites, affected, by simp⟩, fun hne => absurd htransactions hne⟩
    · rintro e rfl
      exact ⟨fun _ => ⟨hwrites, .error e, by simp⟩, fun hne => absurd htransactions hne⟩
  · rename_i htransactions
    apply wp_mono (sendStatements_wp statements 0 h)
    · rintro _ _ h' ⟨sent, hsent, hwrites⟩
      rw [hnone] at hwrites
      exact ⟨fun hyes => absurd hyes htransactions, fun _ => ⟨sent, hsent.symm, hwrites⟩⟩
    · rintro _ _ h' ⟨sent, hprefix, hwrites⟩
      rw [hnone] at hwrites
      exact ⟨fun hyes => absurd hyes htransactions, fun _ => ⟨sent, hprefix, hwrites⟩⟩

end

/-! ### Whole transfers -/

section

variable {target : Driver} {req : TransferRequest} {table : SourceTable} {h : TransferHistory}

theorem Executed.silent {statements : StatementBatch} {e : Event TransferCall.Answer}
    (hs : Executed target statements h) (he : targetWriteOf e = none) :
  Executed target statements (h ++ [e])
  where
  batch := by
    intro htransactions
    obtain ⟨hwrites, affected, hmem⟩ := hs.batch htransactions
    exact ⟨(targetWrites_silent he).trans hwrites, affected, List.mem_append_left _ hmem⟩
  single := by
    intro htransactions
    obtain ⟨sent, rfl, hwrites⟩ := hs.single htransactions
    exact ⟨sent, rfl, (targetWrites_silent he).trans hwrites⟩

theorem transferTable_wp (jsonError : Text → Text) (source : Driver) :
  wp
    (fun n _ h => ∃ s failure, n = s.transferred
      ∧ (∃ h₀, h₀ <+: h ∧ Prepared target req table s h₀)
      ∧ Executed target (spooledStatements jsonError s.spool failure) h)
    (fun _ _ h => TransferHistory.writes h = [] ∨ ∃ s failure,
      (∃ h₀, h₀ <+: h ∧ Prepared target req table s h₀)
      ∧ Delivered target (spooledStatements jsonError s.spool failure) h)
    (transferTable jsonError source target req) () []
  := by
  rw [transferTable]
  apply wp_seq (wp_mono (@prepareTransfer_wp target req table [] source rfl) (fun _ _ _ hR => hR)
    (fun _ _ _ hwrites => .inl hwrites))
  intro s _ h₀ hprepared
  rw [wp_ask_bind]
  intro failure
  rw [wp_ask_bind]
  intro answer
  have hwrites : TransferHistory.writes
      (h₀ ++ [⟨.readBack, failure⟩] ++ [⟨.progress 0 false, answer⟩]) = [] := by
    rw [targetWrites_silent rfl, targetWrites_silent rfl, hprepared.untouched]
  have hle : h₀ <+: h₀ ++ [⟨.readBack, failure⟩] ++ [⟨.progress 0 false, answer⟩] := by
    rw [List.append_assoc]
    exact List.prefix_append _ _
  rw [wp_bind]
  apply wp_mono (wp_and (sendStaged_wp hwrites) (wp_extends _))
  · rintro _ _ h₁ ⟨hexecuted, hle₁⟩
    rw [wp_ask_bind]
    intro answer₂
    exact ⟨s, failure, rfl, ⟨h₀, (hle.trans hle₁).trans (List.prefix_append _ _), hprepared⟩,
      hexecuted.silent rfl⟩
  · rintro _ _ h₁ ⟨hdelivered, hle₁⟩
    exact .inr ⟨s, failure, ⟨h₀, hle.trans hle₁, hprepared⟩, hdelivered⟩

variable {failure : Option (ℕ × Text)} {h₀ : TransferHistory} {s : Staging} {sql : Text} {i : ℕ}

theorem Prepared.copies_later (hs : Prepared target req table s h₀) (hle : h₀ <+: h)
    (hstable : Stable req table h) :
  ∃ hasLocator statements,
    ⟨.source (.tableHasRowIdentity req.sourceSchema req.sourceTable), .ok hasLocator⟩ ∈ h
      ∧ Copies target req hasLocator table statements
      ∧ s.spool = statements.flatMap record ∧ s.transferred = table.rows.length
  := by
  obtain ⟨hasLocator, statements, hmem, hrest⟩ := hs.copies (Stable.kept h₀ h hle hstable)
  exact ⟨hasLocator, statements, hle.subset hmem, hrest⟩

theorem handedOut_getElem? {statements : List Text}
    (hi : (handedOut statements failure)[i]? = some (.ok sql)) :
  statements[i]? = some sql
  := by
  cases failure with
  | none =>
    simp only [handedOut, List.getElem?_map, Option.map_eq_some_iff] at hi
    obtain ⟨sql', hsql', heq⟩ := hi
    cases heq
    exact hsql'
  | some failure =>
    obtain ⟨n, error⟩ := failure
    simp only [handedOut, List.getElem?_append, List.getElem?_map] at hi
    split at hi
    · rw [Option.map_eq_some_iff] at hi
      obtain ⟨sql', hsql', heq⟩ := hi
      cases heq
      rw [List.getElem?_take] at hsql'
      split at hsql'
      · exact hsql'
      · cases hsql'
    · rw [List.getElem?_singleton] at hi
      split at hi
      · cases hi
      · cases hi

theorem Prepared.delete_first (hs : Prepared target req table s h₀) {jsonError : Text → Text}
    (hi : (spooledStatements jsonError s.spool failure)[i]? = some (.ok sql))
    (hsql : IsDelete sql) :
  i = 0 ∧ req.mode = .overwrite ∧ req.allowDestructive ∧ target.capabilities.transactions
  := by
  obtain ⟨inserted, hspool, hinserted⟩ := hs.spooled
  rw [hspool, spooledStatements_record] at hi
  have hget := handedOut_getElem? hi
  by_cases hmode : req.mode = .overwrite
  · obtain ⟨hallowed, htransactions⟩ := hs.allowed hmode
    rw [replacement, if_pos hmode] at hget
    cases i with
    | zero => exact ⟨rfl, hmode, hallowed, htransactions⟩
    | succ i =>
      rw [List.singleton_append, List.getElem?_cons_succ] at hget
      exact absurd hsql (hinserted sql (List.mem_of_getElem? hget))
  · rw [replacement, if_neg hmode, List.nil_append] at hget
    exact absurd hsql (hinserted sql (List.mem_of_getElem? hget))

/-- A target reports no success on a batch with a statement that could not be read. -/
def Strict (h : TransferHistory) : Prop :=
  ∀ statements affected, ⟨.target (.execStatementBatch statements), .ok affected⟩ ∈ h →
    ∀ statement ∈ statements, ∃ sql, statement = .ok sql

theorem writes_of_executed {statements : List Text} (hstrict : Strict h)
    (hexecuted : Executed target (handedOut statements failure) h) :
  TransferHistory.writes h = if target.capabilities.transactions
    then [statements.map .ok] else statements.map fun sql => [.ok sql]
  := by
  have read : (∀ statement ∈ handedOut statements failure, ∃ sql, statement = .ok sql) →
      handedOut statements failure = statements.map .ok := by
    intro hall
    cases failure with
    | none => rfl
    | some failure =>
      obtain ⟨sql, hsql⟩ := hall (.error (.io failure.2)) (by simp [handedOut])
      cases hsql
  split
  · rename_i htransactions
    obtain ⟨hwrites, affected, hmem⟩ := hexecuted.batch htransactions
    rw [hwrites, read (hstrict _ _ hmem)]
  · rename_i htransactions
    obtain ⟨sent, hsent, hwrites⟩ := hexecuted.single htransactions
    have hread := read (by
      intro statement hstatement
      rw [← hsent, List.mem_map] at hstatement
      obtain ⟨sql, -, rfl⟩ := hstatement
      exact ⟨sql, rfl⟩)
    rw [hread] at hsent
    have hinj : Function.Injective (Except.ok : Text → Except DbError Text) := by
      intro a b hab
      exact Except.ok.inj hab
    rw [hwrites, List.map_injective_iff.mpr hinj hsent]

/-- Nothing is given to the target unless everything was staged; from a source with stable pages it
is given the statements that copy the table, after a success all of them; and rows of the target are
removed only by the first statement of a transaction, if this was allowed. -/
structure CopiesOnce (target : Driver) (req : TransferRequest) (table : SourceTable)
    (prepared : Except DbError Staging) (result : Except DbError ℕ) (h : TransferHistory) :
    Prop where
  untouched : ∀ e, prepared = .error e → result = .error e ∧ TransferHistory.writes h = []
  copied : Stable req table h → TransferHistory.writes h = [] ∨ ∃ hasLocator statements failure,
    ⟨.source (.tableHasRowIdentity req.sourceSchema req.sourceTable), .ok hasLocator⟩ ∈ h
      ∧ Copies target req hasLocator table statements
      ∧ Delivered target (handedOut statements failure) h
  complete : Stable req table h → Strict h → ∀ n, result = .ok n →
    n = table.rows.length ∧ ∃ hasLocator statements,
      ⟨.source (.tableHasRowIdentity req.sourceSchema req.sourceTable), .ok hasLocator⟩ ∈ h
        ∧ Copies target req hasLocator table statements
        ∧ TransferHistory.writes h = if target.capabilities.transactions
          then [statements.map .ok] else statements.map fun sql => [.ok sql]
  deleted : ∀ batch ∈ TransferHistory.writes h, ∀ i sql, batch[i]? = some (.ok sql) →
    IsDelete sql → i = 0 ∧ TransferHistory.writes h = [batch]
      ∧ (∃ answer, ⟨.target (.execStatementBatch batch), answer⟩ ∈ h)
      ∧ req.mode = .overwrite ∧ req.allowDestructive ∧ target.capabilities.transactions

theorem Prepared.deleted (hs : Prepared target req table s h₀) {jsonError : Text → Text}
    (hdelivered : Delivered target (spooledStatements jsonError s.spool failure) h)
    {batch : StatementBatch} (hbatch : batch ∈ TransferHistory.writes h)
    (hi : batch[i]? = some (.ok sql)) (hsql : IsDelete sql) :
  i = 0 ∧ TransferHistory.writes h = [batch]
    ∧ (∃ answer, ⟨.target (.execStatementBatch batch), answer⟩ ∈ h)
    ∧ req.mode = .overwrite ∧ req.allowDestructive ∧ target.capabilities.transactions
  := by
  by_cases htransactions : target.capabilities.transactions
  · obtain ⟨hwrites, hanswer⟩ := hdelivered.batch htransactions
    rw [hwrites, List.mem_singleton] at hbatch
    subst hbatch
    obtain ⟨hzero, hallowed⟩ := hs.delete_first hi hsql
    exact ⟨hzero, hwrites, hanswer, hallowed⟩
  · obtain ⟨sent, hprefix, hwrites⟩ := hdelivered.single htransactions
    rw [hwrites, List.mem_map] at hbatch
    obtain ⟨sql', hsent, rfl⟩ := hbatch
    rw [List.getElem?_singleton] at hi
    split at hi
    · cases hi
      have hmem := hprefix.subset (List.mem_map_of_mem hsent)
      obtain ⟨j, hj⟩ := List.getElem?_of_mem hmem
      exact absurd (hs.delete_first hj hsql).2.2.2 htransactions
    · cases hi

end

/-- A source that hands out the pages of a table, and a target that does what it is told.
Reading the spool back may fail. -/
def pagedSource (table : SourceTable) (failure : Option (ℕ × Text)) :
    Outside TransferCall.Answer
  | _, .source (.tableQuery _ _ _ _ limit offset) =>
      let page := (table.rows.drop offset).take limit
      .ok {
        columns := table.columns
        rows := page.map (List.map Prod.fst)
        binaryCells := page.zipIdx.flatMap fun (row, r) =>
          row.zipIdx.filterMap fun (cell, c) => if cell.2 then some (r, c) else none
        rowsAffected := none
        truncated := offset + page.length < table.rows.length }
  | _, .source (.tableHasRowIdentity ..) => .ok true
  | _, .source c => obligingDriver [] c
  | _, .target c => obligingDriver [] c
  | _, .stageIo => none
  | _, .readBack => failure
  | _, .progress .. => ()

/-- Two files, the data of the first of which is binary, with a locator between the columns. -/
def filesTable : SourceTable where
  columns := [⟨"id", "int4"⟩, ⟨"__ctid", "tid"⟩, ⟨"data", "bytea"⟩]
  rows := [
    [(.string "a", false), (.string "(0,1)", false), (.string "0x00ff", true)],
    [(.string "b'\n", false), (.string "(0,2)", false), (.string "0x00ff", false)]]

def copyFiles : TransferRequest where
  sourceSchema := none
  sourceTable := "files"
  targetSchema := none
  targetTable := "copies"
  mappings := [⟨"data", "data"⟩, ⟨"id", "id"⟩]
  mode := .append
  upsertKeys := []
  batchSize := 1
  allowDestructive := false

/-- The binary cell is still binary in the column in front of which the locator was. -/
example :
  TransferHistory.writes (run (pagedSource filesTable none) (transferTable id
      ⟨.postgres, capabilitiesFor .postgres⟩ ⟨.postgres, capabilitiesFor .postgres⟩
      copyFiles) () []).2.2
    = [[.ok "INSERT INTO \"copies\" (\"data\", \"id\") VALUES (decode('00ff', 'hex'), 'a')",
      .ok "INSERT INTO \"copies\" (\"data\", \"id\") VALUES ('0x00ff', 'b''\n')"]]
  := by decide +kernel

end Db
