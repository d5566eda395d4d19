import Catio.Db.Export

/-!
# Reading a table page by page

When the loop over the pages of a table that does not change ends with the rows it should
(`exportDatabaseCore_exact`).  It does not end if the pages are empty, it takes a table with exactly
as many rows as it may read for a longer one, and its offset wraps around.
-/

namespace Db

open Text Json

/-- A table that does not change: its columns, its rows, and whether one of its columns locates
them. -/
structure StableTable where
  columns : List ColumnInfo
  rows : List MarkedRow
  hasLocator : Bool

namespace StableTable

variable (t : StableTable)

/-- The position of the column that locates rows. -/
def locator : Option ℕ :=
  if t.hasLocator then t.columns.findIdx? fun column => column.name = LOCATOR else none

/-- The names of the columns that are exported. -/
def names : List Text :=
  (t.columns.map (·.name)).filter fun name => !t.hasLocator ∨ name ≠ LOCATOR

def page (limit offset : ℕ) : List MarkedRow :=
  (t.rows.drop offset).take limit

end StableTable

/-- A row without the column that locates it, and its columns that hold binary values. -/
def exportedMarked (locator : Option ℕ) (row : MarkedRow) : MarkedRow where
  values := exportedRow locator row.values
  binary := row.binary.filterMap fun c => (exportedCell 0 locator (0, c)).map Prod.snd

/-- How many rows of a table are to be exported. -/
def exportCount (cap : Option ℕ) (n : ℕ) : ℕ :=
  match cap with
  | some c => min n c
  | none => n

/-- The limits of the pages that the loop asks for. -/
def Asked (cap : Option ℕ) (batch page : ℕ) : Prop :=
  match cap with
  | some c => ∃ remaining, 0 < remaining ∧ remaining ≤ c ∧ page = min remaining (batch % U32)
  | none => page = batch % U32

structure IsPage (t : StableTable) (limit offset : ℕ) (res : QueryResult) : Prop where
  columns : res.columns = t.columns
  rows : res.rows = (t.page limit offset).map (·.values)
  binaryCells : res.binaryCells = binaryCells (t.page limit offset)

/-- The driver answers the pages of a table that the loop asks for. -/
def Serves (tableData : ℕ → ℕ → Except DbError QueryResult) (t : StableTable) (cap : Option ℕ)
    (batch : ℕ) : Prop :=
  ∀ limit, Asked cap batch limit → ∀ offset ≤ t.rows.length,
    ∃ res, tableData limit offset = .ok res ∧ IsPage t limit offset res

/-- The first rows of a table in order, as many as there may be; it is reported as truncated if
there are more. -/
structure ReadOut (t : StableTable) (cap : Option ℕ) (s : ExportRows) : Prop where
  rows : s.rows = (t.rows.take (exportCount cap t.rows.length)).map
    fun row => exportedRow t.locator row.values
  binaryCells : s.binaryCells = binaryCells ((t.rows.take (exportCount cap t.rows.length)).map
    (exportedMarked t.locator))
  columns : s.rows ≠ [] → s.columns = t.names
  truncated : s.truncated = true ↔ ∃ c, cap = some c ∧ c < t.rows.length

/-- The rows are not exactly as many as may be read, pages are not empty, and the offset does not
wrap around. -/
def PagesOut (cap : Option ℕ) (batch n : ℕ) : Prop :=
  match cap with
  | some c => n ≠ c ∧ (c = 0 ∨ batch % U32 ≠ 0)
  | none => batch % U32 ≠ 0 ∧ n / (batch % U32) * (batch % U32) < U32

/-! ### One page -/

/-- The first so many rows of the table have been read. -/
structure HasRead (t : StableTable) (m : ℕ) (s : ExportRows) : Prop where
  within : m ≤ t.rows.length
  rows : s.rows = (t.rows.take m).map fun row => exportedRow t.locator row.values
  binaryCells : s.binaryCells = binaryCells ((t.rows.take m).map (exportedMarked t.locator))
  columns : s.columns = t.names ∨ (s.columns = [] ∧ m = 0)
  offset : s.offset = m % U32
  truncated : s.truncated = false

theorem HasRead.start (t : StableTable) :
  HasRead t 0 {}
  := by
  constructor
  · omega
  · rfl
  · rfl
  · right
    exact ⟨rfl, rfl⟩
  · rfl
  · rfl

variable {tableData : ℕ → ℕ → Except DbError QueryResult} {s : ExportRows} {t : StableTable}
    {cap : Option ℕ}

theorem HasRead.length {m : ℕ} (h : HasRead t m s) :
  s.rows.length = m
  := by
  rw [h.rows, List.length_map, List.length_take]
  exact Nat.min_eq_left h.within

theorem filterMap_exportedCell (base start : ℕ) (locator : Option ℕ) (rows : List MarkedRow) :
  (binaryCellsFrom start rows).filterMap (exportedCell base locator)
    = binaryCellsFrom (base + start) (rows.map (exportedMarked locator))
  := by
  induction rows generalizing start with
  | nil => rfl
  | cons row rows ih =>
    rw [binaryCellsFrom, List.filterMap_append, ih, List.map_cons, binaryCellsFrom,
      ← Nat.add_assoc]
    congr 1
    rw [List.filterMap_map, exportedMarked, List.map_filterMap]
    congr 1
    funext c
    simp only [Function.comp, exportedCell]
    split
    · rfl
    · rfl

theorem HasRead.takePage {m limit : ℕ} {res : QueryResult} (h : HasRead t m s)
    (hres : IsPage t limit m res) :
  HasRead t (m + res.rows.length) (takePage t.hasLocator s res)
  := by
  have hlength : res.rows.length = (t.page limit m).length := by
    rw [hres.rows, List.length_map]
  have hpage : (t.rows.drop m).take res.rows.length = t.page limit m := by
    rw [hlength, StableTable.page, List.length_take, ← List.take_eq_take_min]
  have htake : t.rows.take (m + res.rows.length) = t.rows.take m ++ t.page limit m := by
    rw [List.take_add, hpage]
  have hlocator : (if t.hasLocator then
      res.columns.findIdx? fun column => column.name = LOCATOR else none) = t.locator := by
    rw [hres.columns]
    rfl
  constructor
  · rw [hlength, StableTable.page, List.length_take, List.length_drop]
    have := h.within
    omega
  · simp only [Db.takePage]
    rw [hlocator, htake, List.map_append, h.rows, hres.rows, List.map_map]
    rfl
  · simp only [Db.takePage]
    rw [hlocator, htake, List.map_append, h.length, hres.binaryCells, h.binaryCells]
    simp only [Db.binaryCells]
    rw [filterMap_exportedCell, binaryCellsFrom_append, List.length_map, List.length_take,
      Nat.min_eq_left h.within, Nat.add_comm m 0]
  · left
    simp only [Db.takePage, hres.columns]
    split
    · rfl
    · rename_i hcolumns
      obtain hnames | ⟨hempty, -⟩ := h.columns
      · exact hnames
      · exact absurd hempty hcolumns
  · simp only [Db.takePage]
    rw [h.offset, Nat.mod_add_mod]
  · exact h.truncated

theorem exportTurn_page {batch m limit : ℕ} (hserves : Serves tableData t cap batch)
    (h : HasRead t m s) (hm : m < U32) (hlimit : nextPage cap batch m = some limit) :
  ∃ s', exportTurn tableData t.hasLocator cap batch s
      = .ok (s', min limit (t.rows.length - m) % U32 < limit)
    ∧ HasRead t (m + min limit (t.rows.length - m)) s'
  := by
  have hasked : Asked cap batch limit := by
    cases cap with
    | none => exact (Option.some.inj hlimit).symm
    | some c =>
      rw [nextPage] at hlimit
      split at hlimit
      · cases hlimit
      · rename_i hremaining
        cases hlimit
        exact ⟨c - m % U32, by omega, by omega, rfl⟩
  obtain ⟨res, hres, hpage⟩ := hserves limit hasked m h.within
  have hlength : res.rows.length = min limit (t.rows.length - m) := by
    rw [hpage.rows, List.length_map, StableTable.page, List.length_take, List.length_drop]
  have hnext := h.takePage hpage
  have hoffset : s.offset = m := by
    rw [h.offset, Nat.mod_eq_of_lt hm]
  rw [hlength] at hnext
  refine ⟨takePage t.hasLocator s res, ?_, hnext⟩
  rw [exportTurn, h.length, hlimit]
  simp only
  rw [hoffset, hres, ← hlength]
  rfl

theorem exportTurn_full {batch m : ℕ} (h : HasRead t m s) (hfull : nextPage cap batch m = none) :
  exportTurn tableData t.hasLocator cap batch s = .ok ({ s with truncated := true }, true)
  := by
  rw [exportTurn, h.length, hfull]

theorem exportLoop_mono {hasLocator : Bool} {batch fuel : ℕ} {r : Except DbError ExportRows}
    (h : exportLoop tableData hasLocator cap batch fuel s = some r) (more : ℕ) :
  exportLoop tableData hasLocator cap batch (fuel + more) s = some r
  := by
  induction fuel generalizing s with
  | zero => cases h
  | succ fuel ih =>
    rw [Nat.succ_add_eq_add_succ, Nat.add_succ]
    unfold exportLoop at h ⊢
    split at h
    · exact h
    · exact h
    · exact ih h

/-! ### When the table is read -/

section

variable {tableData : ℕ → ℕ → Except DbError QueryResult} {t : StableTable} {cap : Option ℕ}
  {batch m : ℕ} {s : ExportRows}

theorem HasRead.reads_all (h : HasRead t t.rows.length s)
    (hcap : ∀ c, cap = some c → t.rows.length < c) :
  ReadOut t cap s
  := by
  have hcount : exportCount cap t.rows.length = t.rows.length := by
    cases cap with
    | none => rfl
    | some c => exact Nat.min_eq_left (hcap c rfl).le
  constructor
  · rw [hcount]
    exact h.rows
  · rw [hcount]
    exact h.binaryCells
  · intro hrows
    obtain hnames | ⟨-, hzero⟩ := h.columns
    · exact hnames
    · rw [h.rows, hzero] at hrows
      exact absurd rfl hrows
  · rw [h.truncated]
    simp only [Bool.false_eq_true, false_iff, not_exists, not_and, not_lt]
    intro c hc
    exact (hcap c hc).le

theorem HasRead.reads_cap {c : ℕ} (h : HasRead t c s) (hc : c < t.rows.length) :
  ReadOut t (some c) { s with truncated := true }
  := by
  have hcount : exportCount (some c) t.rows.length = c := Nat.min_eq_right hc.le
  constructor
  · rw [hcount]
    exact h.rows
  · rw [hcount]
    exact h.binaryCells
  · intro hrows
    obtain hnames | ⟨-, hzero⟩ := h.columns
    · exact hnames
    · apply absurd _ hrows
      rw [h.rows, hzero]
      rfl
  · simp only [true_iff]
    exact ⟨c, rfl, hc⟩

/-- The loop reads a table without a limit, if its pages are not empty and no offset wraps
around. -/
theorem exportLoop_all (hserves : Serves tableData t none batch) (hbatch : batch % U32 ≠ 0)
    (hlast : t.rows.length / (batch % U32) * (batch % U32) < U32) (h : HasRead t m s)
    (hm : batch % U32 ∣ m) :
  ∃ fuel s', exportLoop tableData t.hasLocator none batch fuel s = some (.ok s')
    ∧ ReadOut t none s'
  := by
  induction hleft : t.rows.length - m using Nat.strong_induction_on generalizing m s with
  | _ left ih =>
    have hpos : 0 < batch % U32 := by omega
    have hsmall : m < U32 := by
      obtain ⟨k, rfl⟩ := hm
      have hk : k ≤ t.rows.length / (batch % U32) := by
        rw [Nat.le_div_iff_mul_le hpos, Nat.mul_comm]
        exact h.within
      have hle := Nat.mul_le_mul_right (batch % U32) hk
      rw [Nat.mul_comm] at hle
      omega
    obtain ⟨s', hturn, hnext⟩ := exportTurn_page hserves h hsmall rfl
    have hpage : batch % U32 < U32 := Nat.mod_lt _ (by decide)
    have hwithin := h.within
    rw [Nat.mod_eq_of_lt (by omega)] at hturn
    by_cases hshort : t.rows.length - m < batch % U32
    · -- the last page
      have hmin : min (batch % U32) (t.rows.length - m) = t.rows.length - m := by omega
      rw [hmin] at hturn hnext
      refine ⟨1, s', ?_, ?_⟩
      · unfold exportLoop
        rw [hturn, decide_eq_true hshort]
      · have hend : m + (t.rows.length - m) = t.rows.length := by omega
        rw [hend] at hnext
        apply hnext.reads_all
        intro c hc
        cases hc
    · have hmin : min (batch % U32) (t.rows.length - m) = batch % U32 := by omega
      rw [hmin] at hturn hnext
      obtain ⟨fuel, s'', hloop, hreads⟩ := ih (t.rows.length - (m + batch % U32)) (by omega) hnext
        (Nat.dvd_add hm (Nat.dvd_refl _)) rfl
      refine ⟨fuel + 1, s'', ?_, hreads⟩
      unfold exportLoop
      rw [hturn, decide_eq_false (lt_irrefl _)]
      exact hloop

/-- The loop reads the beginning of a table, if its pages are not empty and the table does not end
where no more may be read. -/
theorem exportLoop_cap {c : ℕ} (hserves : Serves tableData t (some c) batch) (hc : c < U32)
    (hne : t.rows.length ≠ c) (hbatch : c = 0 ∨ batch % U32 ≠ 0) (h : HasRead t m s) (hm : m ≤ c) :
  ∃ fuel s', exportLoop tableData t.hasLocator (some c) batch fuel s = some (.ok s')
    ∧ ReadOut t (some c) s'
  := by
  induction hleft : c - m using Nat.strong_induction_on generalizing m s with
  | _ left ih =>
    have hwithin := h.within
    have hmod : m % U32 = m := Nat.mod_eq_of_lt (by omega)
    by_cases hfull : m = c
    · -- no more may be read
      have hnone : nextPage (some c) batch m = none := by
        rw [nextPage, hmod, hfull, Nat.sub_self]
        rfl
      refine ⟨1, { s with truncated := true }, ?_, ?_⟩
      · unfold exportLoop
        rw [exportTurn_full h hnone]
      · rw [hfull] at h
        apply h.reads_cap
        omega
    · have hlimit : nextPage (some c) batch m = some (min (c - m) (batch % U32)) := by
        rw [nextPage, hmod]
        exact if_neg (by omega)
      obtain ⟨s', hturn, hnext⟩ := exportTurn_page hserves h (by omega) hlimit
      rw [Nat.mod_eq_of_lt (by omega)] at hturn
      by_cases hshort : t.rows.length - m < min (c - m) (batch % U32)
      · -- the last page
        have hmin : min (min (c - m) (batch % U32)) (t.rows.length - m) = t.rows.length - m := by
          omega
        rw [hmin] at hturn hnext
        refine ⟨1, s', ?_, ?_⟩
        · unfold exportLoop
          rw [hturn, decide_eq_true hshort]
        · have hend : m + (t.rows.length - m) = t.rows.length := by omega
          rw [hend] at hnext
          apply hnext.reads_all
          intro c' hc'
          cases hc'
          omega
      · have hmin : min (min (c - m) (batch % U32)) (t.rows.length - m)
            = min (c - m) (batch % U32) := by omega
        rw [hmin] at hturn hnext
        obtain ⟨fuel, s'', hloop, hreads⟩ := ih (c - (m + min (c - m) (batch % U32))) (by omega)
          hnext (by omega) rfl
        refine ⟨fuel + 1, s'', ?_, hreads⟩
        unfold exportLoop
        rw [hturn, decide_eq_false (lt_irrefl _)]
        exact hloop

/-! ### When it is not -/

theorem exportLoop_stuck (hserves : Serves tableData t cap batch) (hbatch : batch % U32 = 0)
    (hcap : cap ≠ some 0) (h : HasRead t 0 s) (fuel : ℕ) :
  exportLoop tableData t.hasLocator cap batch fuel s = none
  := by
  induction fuel generalizing s with
  | zero => rfl
  | succ fuel ih =>
    have hlimit : nextPage cap batch 0 = some 0 := by
      cases cap with
      | none => rw [nextPage, hbatch]
      | some c =>
        have hc : c ≠ 0 := fun hzero => hcap (congrArg some hzero)
        rw [nextPage, hbatch, Nat.zero_mod, Nat.sub_zero, Nat.min_zero]
        exact if_neg hc
    obtain ⟨s', hturn, hnext⟩ := exportTurn_page hserves h (by decide) hlimit
    rw [Nat.zero_min] at hturn hnext
    unfold exportLoop
    rw [hturn]
    exact ih hnext

theorem exportLoop_reported (hserves : Serves tableData t (some t.rows.length) batch)
    (hn : t.rows.length < U32) (h : HasRead t m s) {fuel : ℕ} {s' : ExportRows}
    (hloop : exportLoop tableData t.hasLocator (some t.rows.length) batch fuel s = some (.ok s')) :
  s'.truncated = true
  := by
  induction fuel generalizing m s with
  | zero => cases hloop
  | succ fuel ih =>
    have hwithin := h.within
    have hmod : m % U32 = m := Nat.mod_eq_of_lt (by omega)
    unfold exportLoop at hloop
    by_cases hfull : m = t.rows.length
    · have hnone : nextPage (some t.rows.length) batch m = none := by
        rw [nextPage, hmod, hfull, Nat.sub_self]
        rfl
      rw [exportTurn_full h hnone] at hloop
      cases hloop
      rfl
    · have hlimit : nextPage (some t.rows.length) batch m
          = some (min (t.rows.length - m) (batch % U32)) := by
        rw [nextPage, hmod]
        exact if_neg (by omega)
      obtain ⟨s'', hturn, hnext⟩ := exportTurn_page hserves h (by omega) hlimit
      have hmin : min (min (t.rows.length - m) (batch % U32)) (t.rows.length - m)
          = min (t.rows.length - m) (batch % U32) := by omega
      rw [hmin, Nat.mod_eq_of_lt (by omega)] at hturn
      rw [hturn, decide_eq_false (lt_irrefl _)] at hloop
      exact ih hnext hloop

/-- The offset is the number of the rows that have been read, and wraps around with it. -/
structure Wraps (t : StableTable) (batch : ℕ) (s : ExportRows) : Prop where
  offset : s.offset = s.rows.length % U32
  pages : batch % U32 ∣ s.rows.length ∨ U32 ≤ s.rows.length

theorem exportLoop_again (hserves : Serves tableData t none batch)
    (hlast : U32 ≤ t.rows.length / (batch % U32) * (batch % U32)) (h : Wraps t batch s) {fuel : ℕ}
    {s' : ExportRows}
    (hloop : exportLoop tableData t.hasLocator none batch fuel s = some (.ok s')) :
  t.rows.length < s'.rows.length
  := by
  induction fuel generalizing s with
  | zero => cases hloop
  | succ fuel ih =>
    have hle := Nat.div_mul_le_self t.rows.length (batch % U32)
    have hoffset : s.offset < U32 := by
      rw [h.offset]
      exact Nat.mod_lt _ (by decide)
    have hpage : batch % U32 < U32 := Nat.mod_lt _ (by decide)
    obtain ⟨res, hres, hrows⟩ := hserves (batch % U32) rfl s.offset (by omega)
    have hlength : res.rows.length = min (batch % U32) (t.rows.length - s.offset) := by
      rw [hrows.rows, List.length_map, StableTable.page, List.length_take, List.length_drop]
    have hnext : (takePage t.hasLocator s res).rows.length = s.rows.length + res.rows.length := by
      rw [takePage, List.length_append, List.length_map]
    have hturn : exportTurn tableData t.hasLocator none batch s
        = .ok (takePage t.hasLocator s res, res.rows.length < batch % U32) := by
      have hgot : res.rows.length % U32 = res.rows.length := Nat.mod_eq_of_lt (by omega)
      simp only [exportTurn, nextPage, hres]
      change Except.ok (takePage t.hasLocator s res, decide (res.rows.length % U32 < _)) = _
      rw [hgot]
    unfold exportLoop at hloop
    rw [hturn] at hloop
    by_cases hshort : res.rows.length < batch % U32
    · -- the page is short, so that the offset has wrapped around
      rw [decide_eq_true hshort] at hloop
      cases hloop
      rw [hnext]
      have hwrapped : U32 ≤ s.rows.length := by
        by_contra hsmall
        obtain ⟨k, hk⟩ := h.pages.resolve_right hsmall
        have hsame : s.offset = s.rows.length := by
          rw [h.offset]
          apply Nat.mod_eq_of_lt
          omega
        have hbelow : k < t.rows.length / (batch % U32) := by
          apply Nat.lt_of_mul_lt_mul_right (a := batch % U32)
          rw [Nat.mul_comm k]
          omega
        have hfull := Nat.mul_le_mul_right (batch % U32) hbelow
        rw [Nat.succ_mul, Nat.mul_comm k] at hfull
        omega
      omega
    · rw [decide_eq_false hshort] at hloop
      apply ih _ hloop
      have hfull : res.rows.length = batch % U32 := by omega
      constructor
      · simp only [takePage, List.length_append, List.length_map]
        rw [h.offset, Nat.mod_add_mod]
      · rw [hnext, hfull]
        obtain hdvd | hwrapped := h.pages
        · exact .inl (Nat.dvd_add hdvd (Nat.dvd_refl _))
        · exact .inr (by omega)

theorem exportLoop_reads_iff (hserves : Serves tableData t cap batch)
    (hcap : ∀ c, cap = some c → c < U32) :
  (∃ fuel s', exportLoop tableData t.hasLocator cap batch fuel {} = some (.ok s') ∧ ReadOut t cap s')
    ↔ PagesOut cap batch t.rows.length
  := by
  constructor
  · rintro ⟨fuel, s', hloop, hreads⟩
    cases cap with
    | none =>
      have hbatch : batch % U32 ≠ 0 := by
        intro hzero
        rw [exportLoop_stuck hserves hzero (by simp) (HasRead.start t)] at hloop
        cases hloop
      refine ⟨hbatch, ?_⟩
      by_contra hlast
      have hagain := exportLoop_again hserves (by omega) ⟨rfl, .inl ⟨0, rfl⟩⟩ hloop
      rw [hreads.rows, List.length_map, List.length_take] at hagain
      omega
    | some c =>
      constructor
      · rintro rfl
        have htruncated := exportLoop_reported hserves (hcap _ rfl) (HasRead.start t) hloop
        obtain ⟨c, hc, hlt⟩ := hreads.truncated.mp htruncated
        cases hc
        exact lt_irrefl _ hlt
      · by_contra hstuck
        rw [not_or, not_not] at hstuck
        have hne : some c ≠ some 0 := fun hzero => hstuck.1 (Option.some.inj hzero)
        rw [exportLoop_stuck hserves hstuck.2 hne (HasRead.start t)] at hloop
        cases hloop
  · intro hout
    cases cap with
    | none => exact exportLoop_all hserves hout.1 hout.2 (HasRead.start t) (Nat.dvd_zero _)
    | some c => exact exportLoop_cap hserves (hcap c rfl) hout.1 hout.2 (HasRead.start t) (by omega)

end

/-! ### All tables -/

/-- Each table is what has been read of a table of the database. -/
def ReadsTables (tables : Text → StableTable) (cap : Option ℕ) (schema : Option Text)
    (tableDdls : Text → Option Text) (wanted : List TableInfo) (exported : List ExportTable) :
    Prop :=
  List.Forall₂
    (fun info table =>
      ∃ s, table = exportedTable schema tableDdls info s ∧ ReadOut (tables info.name) cap s)
    wanted exported

/-- The driver knows what locates the rows of the tables, and answers their pages. -/
def ServesTables (database : StableDatabase) (tables : Text → StableTable) (schema : Option Text)
    (cap : Option ℕ) (batch : ℕ) (wanted : List TableInfo) : Prop :=
  ∀ info ∈ wanted,
    database.tableHasRowIdentity schema info.name = .ok (tables info.name).hasLocator
      ∧ Serves (database.tableData schema info.name) (tables info.name) cap batch

section

variable {database : StableDatabase} {tables : Text → StableTable} {schema : Option Text}
  {tableDdls : Text → Option Text} {cap : Option ℕ} {batch : ℕ} {wanted : List TableInfo}
  {info : TableInfo}

theorem exportTable_eq {fuel : ℕ}
    (hlocator : database.tableHasRowIdentity schema info.name = .ok (tables info.name).hasLocator) :
  exportTable database fuel schema tableDdls true batch cap info
    = (exportLoop (database.tableData schema info.name) (tables info.name).hasLocator cap batch fuel
      {}).map fun result => result.map (exportedTable schema tableDdls info)
  := by
  rw [exportTable, hlocator]
  rfl

theorem exportTable_mono {fuel : ℕ} {table : ExportTable}
    (hlocator : database.tableHasRowIdentity schema info.name = .ok (tables info.name).hasLocator)
    (h : exportTable database fuel schema tableDdls true batch cap info = some (.ok table))
    (more : ℕ) :
  exportTable database (fuel + more) schema tableDdls true batch cap info = some (.ok table)
  := by
  rw [exportTable_eq hlocator] at h ⊢
  obtain ⟨result, hloop, hresult⟩ := Option.map_eq_some_iff.mp h
  rw [exportLoop_mono hloop more, Option.map_some, hresult]

theorem ReadOut.of_exported {t : StableTable} {s s' : ExportRows} (h : ReadOut t cap s)
    (hsame : exportedTable schema tableDdls info s = exportedTable schema tableDdls info s') :
  ReadOut t cap s'
  := by
  simp only [exportedTable, ExportTable.mk.injEq, true_and] at hsame
  obtain ⟨hcolumns, hrows, hcells, htruncated⟩ := hsame
  constructor
  · rw [← hrows]
    exact h.rows
  · rw [← hcells]
    exact h.binaryCells
  · rw [← hrows, ← hcolumns]
    exact h.columns
  · rw [← htruncated]
    exact h.truncated

theorem exportTables_cons {exportOne : TableInfo → Option (Except DbError ExportTable)}
    {infos : List TableInfo} {exported : List ExportTable} :
  exportTables exportOne (info :: infos) = some (.ok exported)
    ↔ ∃ table rest, exportOne info = some (.ok table)
      ∧ exportTables exportOne infos = some (.ok rest) ∧ exported = table :: rest
  := by
  constructor
  · intro h
    rw [exportTables] at h
    split at h
    · cases h
    · cases h
    · rename_i table htable
      obtain ⟨result, hrest, hresult⟩ := Option.map_eq_some_iff.mp h
      obtain ⟨rest, rfl, hcons⟩ := Result.map_ok.mp hresult
      exact ⟨table, rest, htable, hrest, hcons.symm⟩
  · rintro ⟨table, rest, htable, hrest, rfl⟩
    rw [exportTables, htable]
    simp only
    rw [hrest]
    rfl

theorem exportTables_mono {fuel : ℕ} {exported : List ExportTable}
    (hserves : ServesTables database tables schema cap batch wanted)
    (h : exportTables (exportTable database fuel schema tableDdls true batch cap) wanted
      = some (.ok exported))
    (more : ℕ) :
  exportTables (exportTable database (fuel + more) schema tableDdls true batch cap) wanted
    = some (.ok exported)
  := by
  induction wanted generalizing exported with
  | nil => exact h
  | cons info infos ih =>
    obtain ⟨hlocator, -⟩ := hserves info List.mem_cons_self
    obtain ⟨table, rest, htable, hrest, rfl⟩ := exportTables_cons.mp h
    apply exportTables_cons.mpr
    refine ⟨table, rest, exportTable_mono hlocator htable more, ?_, rfl⟩
    apply ih _ hrest
    intro other hother
    apply hserves other (List.mem_cons_of_mem info hother)

theorem exportTables_iff (hserves : ServesTables database tables schema cap batch wanted)
    (hcap : ∀ c, cap = some c → c < U32) :
  (∃ fuel exported,
    exportTables (exportTable database fuel schema tableDdls true batch cap) wanted
        = some (.ok exported)
      ∧ ReadsTables tables cap schema tableDdls wanted exported)
    ↔ ∀ info ∈ wanted, PagesOut cap batch (tables info.name).rows.length
  := by
  induction wanted with
  | nil =>
    constructor
    · intro _ info hinfo
      cases hinfo
    · intro _
      exact ⟨0, [], rfl, .nil⟩
  | cons info infos ih =>
    obtain ⟨hlocator, hpages⟩ := hserves info List.mem_cons_self
    have hothers : ServesTables database tables schema cap batch infos := by
      intro other hother
      apply hserves other (List.mem_cons_of_mem info hother)
    have hone := exportLoop_reads_iff hpages hcap
    rw [List.forall_mem_cons, ← ih hothers, ← hone]
    constructor
    · rintro ⟨fuel, exported, hexported, hall⟩
      obtain ⟨table, rest, htable, hrest, rfl⟩ := exportTables_cons.mp hexported
      obtain ⟨⟨s, hs, hreads⟩, hall⟩ := List.forall₂_cons.mp hall
      constructor
      · rw [exportTable_eq hlocator] at htable
        obtain ⟨result, hloop, hresult⟩ := Option.map_eq_some_iff.mp htable
        obtain ⟨s', rfl, hs'⟩ := Result.map_ok.mp hresult
        exact ⟨fuel, s', hloop, hreads.of_exported (hs'.trans hs).symm⟩
      · exact ⟨fuel, rest, hrest, hall⟩
    · rintro ⟨⟨fuel, s, hloop, hreads⟩, fuel', rest, hrest, hall⟩
      have htable : exportTable database fuel schema tableDdls true batch cap info
          = some (.ok (exportedTable schema tableDdls info s)) := by
        rw [exportTable_eq hlocator, hloop]
        rfl
      refine ⟨fuel + fuel', exportedTable schema tableDdls info s :: rest, ?_, ?_⟩
      · apply exportTables_cons.mpr
        refine ⟨_, rest, exportTable_mono hlocator htable fuel', ?_, rfl⟩
        rw [Nat.add_comm]
        exact exportTables_mono hothers hrest fuel
      · exact .cons ⟨s, rfl, hreads⟩ hall

/-- An export of tables that do not change has the first rows of each, and reports those that have
more, if and only if each table meets the condition. -/
theorem exportDatabaseCore_exact {schemaName : Text} {all : List TableInfo}
    {selectedTables : List Text} {rowLimit batchSize : Option ℕ} (dbType : DatabaseType)
    (databaseName : Text) (includeStructure : Bool) (exportedAt : Text)
    (hlist : database.listTables schemaName = .ok all)
    (hserves : ServesTables database tables (resolveSchemaQualifier schemaName) rowLimit
      (batchSize.getD DEFAULT_INSERT_BATCH_SIZE) (wantedTables all selectedTables))
    (hlimit : ∀ c, rowLimit = some c → c < U32) :
  (∃ fuel exported,
    exportDatabaseCore database fuel dbType databaseName schemaName selectedTables tableDdls
        includeStructure true batchSize rowLimit exportedAt
        = some (buildDatabaseSqlExport dbType (trim schemaName ≠ []) databaseName exportedAt
          exported includeStructure true (batchSize.getD DEFAULT_INSERT_BATCH_SIZE))
      ∧ readTables database fuel schemaName selectedTables tableDdls true
        (batchSize.getD DEFAULT_INSERT_BATCH_SIZE) rowLimit = some (.ok exported)
      ∧ ReadsTables tables rowLimit (resolveSchemaQualifier schemaName) tableDdls
        (wantedTables all selectedTables) exported)
    ↔ ∀ info ∈ wantedTables all selectedTables,
      PagesOut rowLimit (batchSize.getD DEFAULT_INSERT_BATCH_SIZE) (tables info.name).rows.length
  := by
  have hiff := @exportTables_iff database tables _ tableDdls _ _ _ hserves hlimit
  rw [← hiff]
  have hread (fuel : ℕ) : readTables database fuel schemaName selectedTables tableDdls true
      (batchSize.getD DEFAULT_INSERT_BATCH_SIZE) rowLimit
        = exportTables (exportTable database fuel (resolveSchemaQualifier schemaName) tableDdls true
          (batchSize.getD DEFAULT_INSERT_BATCH_SIZE) rowLimit)
          (wantedTables all selectedTables) := by
    rw [readTables, hlist]
    rfl
  constructor
  · rintro ⟨fuel, exported, -, hexported, hall⟩
    rw [hread] at hexported
    exact ⟨fuel, exported, hexported, hall⟩
  · rintro ⟨fuel, exported, hexported, hall⟩
    rw [← hread] at hexported
    refine ⟨fuel, exported, ?_, hexported, hall⟩
    unfold exportDatabaseCore
    dsimp only
    rw [hexported]
    rfl

end

/-- A database of one table, the driver of which answers every page. -/
def oneTable (t : StableTable) : StableDatabase where
  listTables _ := .ok [⟨"t", "table"⟩]
  tableHasRowIdentity _ _ := .ok t.hasLocator
  tableData _ _ limit offset :=
    .ok ⟨t.columns, (t.page limit offset).map (·.values), binaryCells (t.page limit offset), none,
      false⟩

theorem servesTables_oneTable (t : StableTable) (schema : Option Text) (cap : Option ℕ) (batch : ℕ)
    (wanted : List TableInfo) :
  ServesTables (oneTable t) (fun _ => t) schema cap batch wanted
  := by
  intro info _
  refine ⟨rfl, ?_⟩
  intro limit _ offset _
  exact ⟨_, rfl, rfl, rfl, rfl⟩

def flags (n : ℕ) : StableTable where
  columns := [⟨"f", "bool"⟩]
  rows := List.replicate n ⟨[.bool true], []⟩
  hasLocator := false

theorem exportDatabaseCore_exact_flags :
  ∃ fuel exported,
    exportDatabaseCore (oneTable (flags 3)) fuel .sqlite "app" [] [] (fun _ => none) false true
        (some 1) (some 2) "0"
        = some (buildDatabaseSqlExport .sqlite (trim [] ≠ []) "app" "0" exported false true 1)
      ∧ readTables (oneTable (flags 3)) fuel [] [] (fun _ => none) true 1 (some 2)
        = some (.ok exported)
      ∧ ReadsTables (fun _ => flags 3) (some 2) (resolveSchemaQualifier []) (fun _ => none)
        (wantedTables [⟨"t", "table"⟩] []) exported
  := by
  have hserves := servesTables_oneTable (flags 3) (resolveSchemaQualifier []) (some 2) 1
    (wantedTables [⟨"t", "table"⟩] [])
  have hlimit : ∀ c, some 2 = some c → c < U32 := by
    rintro c ⟨⟩
    decide
  have hiff := @exportDatabaseCore_exact (oneTable (flags 3)) (fun _ => flags 3) (fun _ => none) []
    [⟨"t", "table"⟩] [] (some 2) (some 1) .sqlite "app" false "0" rfl hserves hlimit
  apply hiff.mpr
  intro info _
  exact ⟨by decide, .inr (by decide)⟩

/-- A table with as many rows as may be read is exported as a whole, and reported as truncated. -/
theorem fullTable_reported :
  exportDatabaseCore (oneTable (flags 1)) 2 .sqlite "app" "" [] (fun _ => none) false true none
      (some 1) "0"
    = some (.ok ("-- Catio database export: app\n-- Exported at: 0\n\n-- Data for t\n"
      ++ "-- Exported rows: 1 (truncated)\nINSERT INTO \"t\" (\"f\") VALUES (TRUE);\n"))
    ∧ ¬1 < (flags 1).rows.length
  := ⟨rfl, by decide⟩

end Db
