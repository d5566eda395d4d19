import Catio.Lib.Program
import Catio.Db.Pagination

/-!
# Drivers

What the backend knows of a driver, the calls it makes to it, and the batches that every
driver accepts (`driver.rs`).  The answers of a driver are up to the outside.
-/

namespace Db

open Json

/-- A column of a query result. -/
structure ColumnInfo where
  name : Text
  typeName : Text
  deriving DecidableEq

/-- A query result.  Binary cells are pairs of row and column. -/
structure QueryResult where
  columns : List ColumnInfo
  rows : List (List Value)
  binaryCells : List (ℕ × ℕ)
  rowsAffected : Option ℕ
  truncated : Bool

/-- A column of a table, with its key. -/
structure ColumnDef where
  name : Text
  key : Text
  deriving DecidableEq

structure TableStructure where
  columns : List ColumnDef
  deriving DecidableEq

structure Driver where
  dbType : DatabaseType
  capabilities : Capabilities
  deriving DecidableEq

/-- A source of statements, each of which may fail to be read. -/
abbrev StatementBatch :=
  List (Except DbError Text)

inductive DriverCall where
  | query (sql : Text) (maxRows : ℕ)
  | ensureAtomicTable (schema : Option Text) (table : Text)
  | execStatementBatch (statements : StatementBatch)
  | tableStructure (schema table : Text)
  | tableHasRowIdentity (schema : Option Text) (table : Text)
  | tableQuery (schema : Option Text) (table : Text) (whereClause orderBy : Option Text)
      (limit offset : ℕ)

@[reducible]
def DriverCall.Answer : DriverCall → Type
  | .query .. => Except DbError QueryResult
  | .ensureAtomicTable .. => Except DbError Unit
  | .execStatementBatch .. => Except DbError ℕ
  | .tableStructure .. => Except DbError TableStructure
  | .tableHasRowIdentity .. => Except DbError Bool
  | .tableQuery .. => Except DbError QueryResult

abbrev DriverProgram :=
  Program DriverCall DriverCall.Answer Unit DbError

@[reducible]
def DriverCall.ask (c : DriverCall) : DriverProgram c.Answer :=
  Program.ask c

/-- Execute statements as one transaction, if the gate accepts each of them. -/
def execBatch (driver : Driver) (statements : List Text) : DriverProgram ℕ := do
  let statements ← (statements.mapM (batchStatement driver.dbType) : Except DbError (List Text))
  let answer ← (DriverCall.execStatementBatch (statements.map .ok)).ask
  liftM answer

/-! ### Histories -/

/-- The calls to a driver with their answers, in order. -/
abbrev DriverHistory :=
  List (Program.Event DriverCall.Answer)

/-- The statements that a call gives to the driver to execute them as one. -/
def writeOf : Program.Event DriverCall.Answer → Option StatementBatch
  | ⟨.query sql _, _⟩ => some [.ok sql]
  | ⟨.execStatementBatch statements, _⟩ => some statements
  | _ => none

/-- What has been given to the driver to execute. -/
def DriverHistory.writes (h : DriverHistory) : List StatementBatch :=
  h.filterMap writeOf

theorem writes_append (h : DriverHistory) (e : Program.Event DriverCall.Answer) :
  DriverHistory.writes (h ++ [e]) = DriverHistory.writes h ++ (writeOf e).toList
  := by
  rw [DriverHistory.writes, List.filterMap_append]
  cases he : writeOf e with
  | none => simp [DriverHistory.writes, he]
  | some statements => simp [DriverHistory.writes, he]

/-- A driver that does what it is told. -/
def obligingDriver : Program.Outside DriverCall.Answer
  | _, .query .. => .ok ⟨[], [], [], some 1, false⟩
  | _, .ensureAtomicTable .. => .ok ()
  | _, .execStatementBatch statements => .ok statements.length
  | _, .tableStructure .. => .ok ⟨[]⟩
  | _, .tableHasRowIdentity .. => .ok false
  | _, .tableQuery .. => .ok ⟨[], [], [], none, false⟩

end Db

/-!
## Pages of a result

The model of `finish_page` in `pagination.rs` and of the loop that drivers read rows with.  Whether
the server skips the rows before a page or the driver reads them all, what is left is the page.

An operation that would panic, a subtraction below zero or a drain behind the end, has no value.
-/

namespace Db

open Json

/-! ### Results with binary cells -/

/-- A row of a result, and its columns that hold binary values. -/
structure MarkedRow where
  values : List Value
  binary : List ℕ

def binaryCellsFrom (start : ℕ) : List MarkedRow → List (ℕ × ℕ)
  | [] => []
  | row :: rows => row.binary.map (fun c => (start, c)) ++ binaryCellsFrom (start + 1) rows

def binaryCells (rows : List MarkedRow) : List (ℕ × ℕ) :=
  binaryCellsFrom 0 rows

theorem binaryCellsFrom_append (start : ℕ) (xs ys : List MarkedRow) :
  binaryCellsFrom start (xs ++ ys)
    = binaryCellsFrom start xs ++ binaryCellsFrom (start + xs.length) ys
  := by
  induction xs generalizing start with
  | nil => rfl
  | cons row rows ih =>
    have hstart : start + (rows.length + 1) = start + 1 + rows.length := by omega
    rw [List.cons_append, binaryCellsFrom, binaryCellsFrom, ih, List.append_assoc,
      List.length_cons, hstart]

theorem mem_binaryCellsFrom {start r c : ℕ} {rows : List MarkedRow}
    (h : (r, c) ∈ binaryCellsFrom start rows) :
  start ≤ r ∧ r < start + rows.length
  := by
  induction rows generalizing start with
  | nil => cases h
  | cons row rows ih =>
    rw [binaryCellsFrom, List.mem_append, List.mem_map] at h
    rw [List.length_cons]
    obtain ⟨_, _, hcell⟩ | h := h
    · obtain ⟨rfl, _⟩ := Prod.mk.inj hcell
      omega
    · have := ih h
      omega

theorem binaryCellsFrom_shift (start k : ℕ) (rows : List MarkedRow) :
  (binaryCellsFrom (start + k) rows).map (fun cell => (cell.1 - k, cell.2))
    = binaryCellsFrom start rows
  := by
  induction rows generalizing start with
  | nil => rfl
  | cons row rows ih =>
    have hnext : start + k + 1 = start + 1 + k := by omega
    rw [binaryCellsFrom, binaryCellsFrom, List.map_append, hnext, ih, List.map_map]
    congr 1
    apply List.map_congr_left
    intro c _
    simp

/-! ### Reading rows -/

/-- What a driver does with a row that the server sends. -/
def collectRow (maxRows : ℕ) (result : QueryResult) (row : MarkedRow) : QueryResult :=
  if result.rows.length ≥ maxRows then { result with truncated := true }
  else
    { result with
      rows := result.rows ++ [row.values]
      binaryCells := result.binaryCells ++ row.binary.map fun c => (result.rows.length, c) }

/-- The result of a query whose answer is read row by row. -/
def collectRows (columns : List ColumnInfo) (maxRows : ℕ) (answer : List MarkedRow) :
    QueryResult :=
  answer.foldl (collectRow maxRows) ⟨columns, [], [], none, false⟩

/-- A result has the first rows of an answer, and is not called truncated unless it has all the
rows that may be read. -/
structure QueryResult.HasFirst (result : QueryResult) (maxRows : ℕ) (answer : List MarkedRow) :
    Prop where
  rows : result.rows = (answer.take maxRows).map MarkedRow.values
  binaryCells : result.binaryCells = Db.binaryCells (answer.take maxRows)
  truncated : result.truncated = true → maxRows ≤ answer.length

theorem QueryResult.HasFirst.collectRow {result : QueryResult} {maxRows : ℕ}
    {answer : List MarkedRow} (h : result.HasFirst maxRows answer) (row : MarkedRow) :
  (Db.collectRow maxRows result row).HasFirst maxRows (answer ++ [row])
  := by
  unfold Db.collectRow
  have hlength : result.rows.length = min maxRows answer.length := by
    rw [h.rows, List.length_map, List.length_take]
  split
  · rename_i hfull
    have htake : (answer ++ [row]).take maxRows = answer.take maxRows :=
      List.take_append_of_le_length (by omega)
    constructor
    · rw [htake]
      exact h.rows
    · rw [htake]
      exact h.binaryCells
    · intro _
      rw [List.length_append]
      omega
  · rename_i hroom
    have hall : answer.take maxRows = answer := List.take_of_length_le (by omega)
    have htake : (answer ++ [row]).take maxRows = answer ++ [row] := by
      apply List.take_of_length_le
      rw [List.length_append, List.length_singleton]
      omega
    have hanswer : result.rows.length = answer.length := by omega
    constructor
    · rw [htake, List.map_append, h.rows, hall]
      rfl
    · rw [htake, Db.binaryCells, binaryCellsFrom_append, h.binaryCells, hall, hanswer,
        Nat.zero_add, binaryCellsFrom, binaryCellsFrom, List.append_nil]
      rfl
    · intro htruncated
      have := h.truncated htruncated
      omega

theorem collectRows_hasFirst (columns : List ColumnInfo) (maxRows : ℕ) (answer : List MarkedRow) :
  (collectRows columns maxRows answer).HasFirst maxRows answer
  := by
  induction answer using List.reverseRecOn with
  | nil =>
    constructor
    · simp [collectRows]
    · simp [collectRows, binaryCells, binaryCellsFrom]
    · intro h
      cases h
  | append_singleton answer row ih =>
    unfold collectRows at ih ⊢
    rw [List.foldl_append]
    exact ih.collectRow row

/-! ### Finishing a page -/

/-- A subtraction that panics below zero. -/
def checkedSub (a b : ℕ) : Option ℕ :=
  if b ≤ a then some (a - b) else none

/-- Remove the first elements, of which there must be so many. -/
def drainFront {α : Type} (n : ℕ) (xs : List α) : Option (List α) :=
  if n ≤ xs.length then some (xs.drop n) else none

/-- The place on the page of a binary cell, if it is on the page. -/
def rebaseCell (skipped length : ℕ) (cell : ℕ × ℕ) : Option (Option (ℕ × ℕ)) := do
  if cell.1 ≥ skipped then
    let r ← checkedSub cell.1 skipped
    return if r < length then some (r, cell.2) else none
  else return none

/-- The page in a result that has been fetched for it. -/
def finishPage (result : QueryResult) (plan : PagePlan) (limit : ℕ) : Option QueryResult := do
  let skipped := min plan.skipRows result.rows.length
  let rows ← drainFront skipped result.rows
  let truncated := result.truncated || decide (rows.length > limit)
  let rows := rows.take limit
  let binaryCells ← result.binaryCells.filterMapM (rebaseCell skipped rows.length)
  return { result with rows, truncated, binaryCells }

theorem filterMapM_rebaseCell (skipped length : ℕ) (cells : List (ℕ × ℕ)) :
  cells.filterMapM (rebaseCell skipped length)
    = some ((cells.filter fun cell => skipped ≤ cell.1 ∧ cell.1 < skipped + length).map
        fun cell => (cell.1 - skipped, cell.2))
  := by
  induction cells with
  | nil => rfl
  | cons cell cells ih =>
    rw [List.filterMapM_cons, ih]
    by_cases hskip : skipped ≤ cell.1
    · by_cases hroom : cell.1 - skipped < length
      · have hend : cell.1 < skipped + length := by omega
        simp [rebaseCell, checkedSub, hskip, hroom, hend]
      · have hend : ¬cell.1 < skipped + length := by omega
        simp [rebaseCell, checkedSub, hskip, hroom, hend]
    · simp [rebaseCell, hskip]

theorem map_filter_binaryCells (before page behind : List MarkedRow) :
  ((binaryCells (before ++ (page ++ behind))).filter fun cell =>
      before.length ≤ cell.1 ∧ cell.1 < before.length + page.length).map
        (fun cell => (cell.1 - before.length, cell.2))
    = binaryCells page
  := by
  have hbefore : (binaryCellsFrom 0 before).filter (fun cell =>
      before.length ≤ cell.1 ∧ cell.1 < before.length + page.length) = [] := by
    rw [List.filter_eq_nil_iff]
    rintro ⟨r, c⟩ hcell
    have := mem_binaryCellsFrom hcell
    rw [decide_eq_true_iff]
    omega
  have hpage : (binaryCellsFrom (0 + before.length) page).filter (fun cell =>
      before.length ≤ cell.1 ∧ cell.1 < before.length + page.length)
        = binaryCellsFrom (0 + before.length) page := by
    rw [List.filter_eq_self]
    rintro ⟨r, c⟩ hcell
    have := mem_binaryCellsFrom hcell
    rw [decide_eq_true_iff]
    omega
  have hbehind : (binaryCellsFrom (0 + before.length + page.length) behind).filter (fun cell =>
      before.length ≤ cell.1 ∧ cell.1 < before.length + page.length) = [] := by
    rw [List.filter_eq_nil_iff]
    rintro ⟨r, c⟩ hcell
    have := mem_binaryCellsFrom hcell
    rw [decide_eq_true_iff]
    omega
  rw [binaryCells, binaryCellsFrom_append, binaryCellsFrom_append, List.filter_append,
    List.filter_append, hbefore, hpage, hbehind, List.nil_append, List.append_nil,
    binaryCellsFrom_shift]
  rfl

theorem finishPage_eq {result : QueryResult} {rows : List MarkedRow}
    (hrows : result.rows = rows.map MarkedRow.values)
    (hcells : result.binaryCells = binaryCells rows) (plan : PagePlan) (limit : ℕ) :
  finishPage result plan limit = some { result with
    rows := ((rows.drop plan.skipRows).take limit).map MarkedRow.values
    binaryCells := binaryCells ((rows.drop plan.skipRows).take limit)
    truncated := result.truncated || decide ((rows.drop plan.skipRows).length > limit) }
  := by
  have hlength : result.rows.length = rows.length := by
    rw [hrows, List.length_map]
  have hskip : min plan.skipRows rows.length ≤ rows.length := Nat.min_le_right ..
  have hdrop : rows.drop (min plan.skipRows rows.length) = rows.drop plan.skipRows :=
    List.drop_eq_drop_min.symm
  have hdrain : drainFront (min plan.skipRows result.rows.length) result.rows
      = some ((rows.drop plan.skipRows).map MarkedRow.values) := by
    rw [drainFront, hlength, if_pos hskip, hrows, ← List.map_drop, hdrop]
  -- the rows in three parts: those to skip, the page, and those behind it
  have hparts : rows = rows.take (min plan.skipRows rows.length)
      ++ ((rows.drop plan.skipRows).take limit ++ (rows.drop plan.skipRows).drop limit) := by
    rw [List.take_append_drop, ← hdrop, List.take_append_drop]
  have hbefore : (rows.take (min plan.skipRows rows.length)).length
      = min plan.skipRows result.rows.length := by
    rw [List.length_take, hlength]
    omega
  have hmarks := map_filter_binaryCells (rows.take (min plan.skipRows rows.length))
    ((rows.drop plan.skipRows).take limit) ((rows.drop plan.skipRows).drop limit)
  rw [← hparts, hbefore] at hmarks
  unfold finishPage
  simp only [hdrain, Option.bind_eq_bind, Option.bind_some, ← List.map_take, List.length_map,
    hcells, filterMapM_rebaseCell, hmarks]
  rfl

/-! ### The two paths -/

/-- What a server answers to the query of a plan, where `rows` is the result of the statement. -/
def PagePlan.answer (plan : PagePlan) (source : Text) (offset : ℕ) (rows : List MarkedRow) :
    List MarkedRow :=
  if plan.sql = source then rows else (rows.drop offset).take plan.fetchRows

variable {limit offset : ℕ} {db : DatabaseType} {plan : PagePlan}

theorem buildPagePlan_ok {sql : Text} (h : buildPagePlan db sql limit offset = .ok plan) :
  limit ≤ MAX_PAGE_SIZE ∧ ∃ source, readQuery db sql = .ok source
    ∧ (plan = ⟨source, offset + limit + 1, offset⟩ ∧ offset + limit + 1 < 2 ^ 32
      ∨ ∃ paged, paged ≠ source ∧ plan = ⟨paged, limit + 1, 0⟩)
  := by
  unfold buildPagePlan validateLimit at h
  simp only [bind, Except.bind] at h
  split at h
  · cases h
  rename_i hlimit
  split at hlimit
  · cases hlimit
  rename_i hrange
  rw [not_or, not_lt] at hrange
  refine ⟨hrange.2, ?_⟩
  split at h
  · cases h
  split at h
  · cases h
  rename_i source hsource
  refine ⟨source, hsource, ?_⟩
  split at h
  · cases h
  split at h
  · split at h
    · rename_i hwindow
      exact .inl ⟨(Except.ok.inj h).symm, hwindow.1⟩
    · cases h
  · refine .inr ⟨_, ?_, (Except.ok.inj h).symm⟩
    -- the paging clause makes the query longer than the statement
    intro hsame
    have hlength := congrArg List.length hsame
    split at hlength
    · simp only [List.length_append] at hlength
      have : (List.length "\n".toList) = 1 := rfl
      omega
    split at hlength
    · simp only [List.length_append] at hlength
      have : (List.length "\n) AS __catio_page LIMIT ".toList) = 25 := rfl
      omega
    · simp only [List.length_append] at hlength
      have : (List.length "\nLIMIT ".toList) = 7 := rfl
      omega

theorem fetched_page {sql source : Text} (hplan : buildPagePlan db sql limit offset = .ok plan)
    (hsource : readQuery db sql = .ok source) (rows : List MarkedRow) :
  ((plan.answer source offset rows).take plan.fetchRows).drop plan.skipRows
    = (rows.drop offset).take (limit + 1)
  := by
  obtain ⟨_, source', hsource', hpath⟩ := buildPagePlan_ok hplan
  obtain rfl : source' = source := Except.ok.inj (hsource'.symm.trans hsource)
  obtain ⟨rfl, _⟩ | ⟨paged, hpaged, rfl⟩ := hpath
  · have hfetch : offset + limit + 1 - offset = limit + 1 := by omega
    rw [PagePlan.answer, if_pos rfl, List.drop_take, hfetch]
  · rw [PagePlan.answer, if_neg hpaged, List.drop_zero, List.take_take, Nat.min_self]

theorem truncated_fetched {sql source : Text} (hplan : buildPagePlan db sql limit offset = .ok plan)
    (hsource : readQuery db sql = .ok source) (rows : List MarkedRow)
    (hbound : plan.fetchRows ≤ (plan.answer source offset rows).length) :
  offset + limit < rows.length
  := by
  obtain ⟨_, source', hsource', hpath⟩ := buildPagePlan_ok hplan
  obtain rfl : source' = source := Except.ok.inj (hsource'.symm.trans hsource)
  obtain ⟨rfl, _⟩ | ⟨paged, hpaged, rfl⟩ := hpath
  · rw [PagePlan.answer, if_pos rfl] at hbound
    dsimp only at hbound
    omega
  · rw [PagePlan.answer, if_neg hpaged, List.length_take, List.length_drop] at hbound
    dsimp only at hbound
    omega

/-- Finishing a page gives exactly its rows with their binary cells, and says whether there are
more; no sum for it leaves 32 bits. -/
theorem finishPage_exact {db : DatabaseType} {sql source : Text} {limit offset : UInt32}
    {plan : PagePlan} (hplan : buildPagePlan db sql limit.toNat offset.toNat = .ok plan)
    (hsource : readQuery db sql = .ok source) (rows : List MarkedRow) {result : QueryResult}
    (hresult : result.HasFirst plan.fetchRows (plan.answer source offset.toNat rows)) :
  finishPage result plan limit.toNat = some { result with
      rows := ((rows.drop offset.toNat).take limit.toNat).map MarkedRow.values
      binaryCells := binaryCells ((rows.drop offset.toNat).take limit.toNat)
      truncated := decide (rows.length > offset.toNat + limit.toNat) }
    ∧ (limit + 1).toNat = limit.toNat + 1 ∧ plan.fetchRows < 2 ^ 32 ∧ plan.skipRows < 2 ^ 32
  := by
  obtain ⟨hlimit, _, _, hpath⟩ := buildPagePlan_ok hplan
  have hsmall : limit.toNat + 1 < 2 ^ 32 := by
    unfold MAX_PAGE_SIZE at hlimit
    omega
  have hpage : ((rows.drop offset.toNat).take (limit.toNat + 1)).take limit.toNat
      = (rows.drop offset.toNat).take limit.toNat := by
    rw [List.take_take, Nat.min_eq_left (Nat.le_succ _)]
  have htruncated : (result.truncated
      || decide (((rows.drop offset.toNat).take (limit.toNat + 1)).length > limit.toNat))
        = decide (rows.length > offset.toNat + limit.toNat) := by
    have hmore : ((rows.drop offset.toNat).take (limit.toNat + 1)).length > limit.toNat
        ↔ rows.length > offset.toNat + limit.toNat := by
      rw [List.length_take, List.length_drop]
      omega
    rw [decide_eq_decide.mpr hmore, Bool.or_eq_right_iff_imp]
    intro hflag
    rw [decide_eq_true_iff]
    exact truncated_fetched hplan hsource rows (hresult.truncated hflag)
  refine ⟨?_, ?_, ?_⟩
  · rw [finishPage_eq hresult.rows hresult.binaryCells, fetched_page hplan hsource, hpage,
      htruncated]
  · rw [UInt32.toNat_add]
    exact Nat.mod_eq_of_lt hsmall
  · obtain ⟨rfl, hwindow⟩ | ⟨_, _, rfl⟩ := hpath
    · exact ⟨hwindow, by dsimp only; omega⟩
    · exact ⟨hsmall, Nat.two_pow_pos 32⟩

/-- Three rows, with the last column binary. -/
def threeRows : List MarkedRow :=
  [⟨[.string "1", .string "0xaa"], [1]⟩, ⟨[.string "2", .string "0xbb"], [1]⟩,
    ⟨[.string "3", .string "0xcc"], [1]⟩]

theorem finishPage_exact_threeRows :
  finishPage (collectRows [] 3 threeRows) ⟨"SELECT * FROM t", 3, 1⟩ 1
    = some ⟨[], [[.string "2", .string "0xbb"]], [(0, 1)], none, true⟩
  := by
  have hplan : buildPagePlan .jdbc "SELECT * FROM t;" (1 : UInt32).toNat (1 : UInt32).toNat
      = .ok ⟨"SELECT * FROM t", 3, 1⟩ := rfl
  exact (finishPage_exact hplan rfl threeRows (collectRows_hasFirst [] 3 threeRows)).1

end Db
