import Mathlib.Data.Bool.AllAny
import Catio.Db.Export
import Catio.Db.Dialect.BinaryValues
import Catio.Db.TableImport.Rows

/-!
# Batches of rows

Imports and exports write the same tuples whatever the size of a batch is
(`insertBatches_sizeIndependent`): a statement finds the binary cells of its rows by their places
among all rows.
-/

namespace Db

open Text Json Chunks

/-! ### Binary literals -/

/-- What a binary literal begins with. -/
def binaryOpener (db : DatabaseType) : Text :=
  match db with
  | .postgres => "decode('"
  | .sqlserver => "0x"
  | .duckdb => "from_hex('"
  | .clickhouse => "unhex('"
  | _ => "X'"

/-- What a binary literal ends with. -/
def binaryCloser (db : DatabaseType) : Text :=
  match db with
  | .postgres => "', 'hex')"
  | .sqlserver => ""
  | .duckdb => "')"
  | .clickhouse => "')"
  | _ => "'"

/-- The digits of whole bytes. -/
def IsHex (hex : Text) : Prop :=
  hex.length % 2 = 0 ∧ hex.all isHexDigit

def IsBinaryLiteral (db : DatabaseType) (cell : Text) : Prop :=
  ∃ hex, IsHex hex ∧ cell = binaryOpener db ++ hex ++ binaryCloser db

/-- The text that a value is written as, if it is written as a string. -/
def literalText : Value → Option Text
  | .string s => some s
  | .array items => some (Value.array items).toText
  | .object fields => some (Value.object fields).toText
  | _ => none

variable {value : Value} {db : DatabaseType}

theorem binaryHex_isHex {hex : Text} (h : binaryHex value = .ok hex) :
  IsHex hex
  := by
  unfold binaryHex at h
  split at h
  · cases h
  · split at h
    · cases h
    · split at h
      · cases h
      · rename_i hchecked
        cases h
        rwa [not_or, not_not, not_not] at hchecked

/-- The literal of a cell: a marked one that is not null is the binary literal of its digits, any
other the literal of its value, which is a binary one for texts of ClickHouse only that cannot be
quoted. -/
structure CellLiteral (db : DatabaseType) (value : Value) (isMarked : Bool) (cell : Text) :
    Prop where
  marked : isMarked = true → value.isNull = false →
    ∃ hex, binaryHex value = .ok hex ∧ cell = binaryOpener db ++ hex ++ binaryCloser db
  plain : isMarked = false ∨ value.isNull = true → cell = valueToSqlFor db value
  binary : IsBinaryLiteral db cell ↔ (isMarked = true ∧ value.isNull = false)
    ∨ (db = .clickhouse ∧ ∃ text, literalText value = some text ∧ ('\\' ∈ text ∨ '\x00' ∈ text))

theorem mem_numberText {n : Number} {c : Char} (h : c ∈ n.toText) :
  c ∈ "-.e0123456789".toList
  := by
  have hdigit (d : Fin 10) : digit d ∈ "-.e0123456789".toList := by
    revert d
    decide
  have hdigits (ds : List (Fin 10)) (hc : c ∈ ds.map digit) : c ∈ "-.e0123456789".toList := by
    obtain ⟨d, -, rfl⟩ := List.mem_map.mp hc
    exact hdigit d
  obtain ⟨negative, digits, nonempty, fraction, exponent⟩ := n
  simp only [Number.toText, List.mem_append] at h
  obtain ((h | h) | h) | h := h
  · split at h
    · rw [List.mem_singleton] at h
      rw [h]
      decide
    · cases h
  · exact hdigits digits h
  · split at h
    · cases h
    · rcases List.mem_cons.mp h with rfl | h
      · decide
      · exact hdigits fraction h
  · split at h
    · cases h
    · rename_i exponentNegative ds
      rcases List.mem_cons.mp h with rfl | h
      · decide
      · rcases List.mem_append.mp h with h | h
        · split at h
          · rw [List.mem_singleton] at h
            rw [h]
            decide
          · cases h
        · exact hdigits ds h

theorem number_not_opened (db : DatabaseType) (n : Number) :
  ¬binaryOpener db <+: n.toText
  := by
  rintro ⟨rest, hrest⟩
  have hall (c : Char) (hc : c ∈ binaryOpener db) : c ∈ "-.e0123456789".toList := by
    apply mem_numberText (n := n)
    rw [← hrest]
    exact List.mem_append_left rest hc
  cases db with
  | postgres => exact absurd (hall 'd' List.mem_cons_self) (by decide)
  | sqlserver => exact absurd (hall 'x' (by decide)) (by decide)
  | duckdb => exact absurd (hall 'f' List.mem_cons_self) (by decide)
  | clickhouse => exact absurd (hall 'u' List.mem_cons_self) (by decide)
  | _ => exact absurd (hall 'X' List.mem_cons_self) (by decide)

theorem string_opened {s : Text} (h : (stringLiteral db s).head? = (binaryOpener db).head?) :
  db = .clickhouse ∧ ('\\' ∈ s ∨ '\x00' ∈ s)
  := by
  have hother : ∀ c ∈ "'NEC".toList, some c ≠ (binaryOpener db).head? :=
    List.all_iff_forall_prop.mp (by cases db <;> decide)
  unfold stringLiteral at h
  split at h
  · split at h
    · exact absurd h (hother 'C' (by decide))
    · exact absurd h (hother '\'' (by decide))
  · split at h
    · exact absurd h (hother 'E' (by decide))
    · exact absurd h (hother '\'' (by decide))
  · split at h
    · rename_i hs
      exact ⟨rfl, hs⟩
    · exact absurd h (hother '\'' (by decide))
  · exact absurd h (hother 'N' (by decide))
  · exact absurd h (hother '\'' (by decide))

theorem value_opened (h : binaryOpener db <+: valueToSqlFor db value) :
  db = .clickhouse ∧ ∃ text, literalText value = some text ∧ ('\\' ∈ text ∨ '\x00' ∈ text)
  := by
  have hhead : (valueToSqlFor db value).head? = (binaryOpener db).head? := by
    obtain ⟨rest, hrest⟩ := h
    rw [← hrest, List.head?_append_of_ne_nil]
    cases db <;> decide
  cases value with
  | null => exact absurd h (by cases db <;> decide)
  | bool b => exact absurd h (by cases b <;> cases db <;> decide)
  | number n => exact absurd h (number_not_opened db n)
  | string s =>
    obtain ⟨hdb, hs⟩ := string_opened hhead
    exact ⟨hdb, s, rfl, hs⟩
  | array items =>
    obtain ⟨hdb, hs⟩ := string_opened hhead
    exact ⟨hdb, _, rfl, hs⟩
  | object fields =>
    obtain ⟨hdb, hs⟩ := string_opened hhead
    exact ⟨hdb, _, rfl, hs⟩

theorem clickhouse_text {text : Text} (h : literalText value = some text)
    (hs : '\\' ∈ text ∨ '\x00' ∈ text) :
  IsBinaryLiteral .clickhouse (valueToSqlFor .clickhouse value)
  := by
  have hvalue : valueToSqlFor .clickhouse value = stringLiteral .clickhouse text := by
    cases value with
    | string s =>
      cases h
      rfl
    | array items =>
      cases h
      rfl
    | object fields =>
      cases h
      rfl
    | _ => cases h
  obtain ⟨hchecked, -⟩ := hexBytes_checked (Utf8.encode text)
  rw [not_or, not_not, not_not] at hchecked
  use hexBytes text, hchecked
  rw [hvalue, stringLiteral, if_pos hs]
  rfl

theorem sqlValue_literal {marked : Bool} {cell : Text} (h : sqlValue db value marked = .ok cell) :
  CellLiteral db value marked cell
  := by
  unfold sqlValue at h
  split at h
  · rename_i hplain
    cases h
    rw [Bool.not_eq_true'] at hplain
    have hnot : ¬(marked = true ∧ value.isNull = false) := by
      rintro ⟨hmarked, hvalue⟩
      rw [hmarked, hvalue] at hplain
      simp at hplain
    constructor
    · intro hmarked hvalue
      exact absurd ⟨hmarked, hvalue⟩ hnot
    · intro _
      rfl
    · constructor
      · rintro ⟨hex, -, hcell⟩
        right
        apply value_opened
        rw [hcell, List.append_assoc]
        apply List.prefix_append
      · rintro (hmarked | ⟨rfl, text, htext, hs⟩)
        · exact absurd hmarked hnot
        · exact clickhouse_text htext hs
  · rename_i hbinary
    rw [not_or, Bool.not_eq_true', Bool.not_eq_false, Bool.not_eq_true] at hbinary
    obtain ⟨hex, hhex, h⟩ := Result.bind_ok.mp h
    have hcell : cell = binaryOpener db ++ hex ++ binaryCloser db := by
      cases db with
      | sqlserver =>
        have hliteral : cell = "0x" ++ hex := (Except.ok.inj h).symm
        rw [hliteral]
        exact (List.append_nil _).symm
      | elasticsearch => cases h
      | mongodb => cases h
      | redis => cases h
      | _ => exact (Except.ok.inj h).symm
    constructor
    · intro _ _
      exact ⟨hex, hhex, hcell⟩
    · rintro (hmarked | hvalue)
      · simp [hmarked] at hbinary
      · simp [hvalue] at hbinary
    · constructor
      · intro _
        exact .inl hbinary
      · intro _
        exact ⟨hex, binaryHex_isHex hhex, hcell⟩

/-! ### Tuples -/

/-- A tuple holds the literals of cells, each of which is marked as binary or not. -/
def IsTupleOf (db : DatabaseType) (cells : List (Value × Bool)) (tuple : Text) : Prop :=
  ∃ literals, tuple = "(" ++ join ", " literals ++ ")"
    ∧ List.Forall₂ (fun cell literal => CellLiteral db cell.1 cell.2 literal) cells literals

/-- The cells of a row of a file that are mapped to columns of the table. -/
def importCells (data : ParsedImportFile) (mapped : List (ℕ × Text)) :
    List Value × ℕ → List (Value × Bool)
  | (row, r) => mapped.map fun (sourceIndex, _) =>
      (row[sourceIndex]?.getD .null, (r, sourceIndex) ∈ data.binaryCells.getD [])

/-- The cells of a row of a table. -/
def exportCells (binary : List (ℕ × ℕ)) : List Value × ℕ → List (Value × Bool)
  | (row, r) => row.zipIdx.map fun (value, c) => (value, (r, c) ∈ binary)

def insertStatement (target names : Text) (tuples : List Text) : Text :=
  "INSERT INTO " ++ target ++ " (" ++ names ++ ") VALUES " ++ join ", " tuples ++ ";"

/-- The statement of an import that writes tuples, and their number. -/
def importStatement (db : DatabaseType) (hasSchemas : Bool) (schema : Option Text) (table : Text)
    (mapped : List (ℕ × Text)) (tuples : List Text) : ImportSqlBatch where
  sql := insertStatement (qualifiedTable db hasSchemas schema table)
    (join ", " (mapped.map fun (_, target) => quoteIdent db target)) tuples
  rowCount := tuples.length

/-- The batches of rows hold one tuple for each row, and the tuples are the same whatever the size
of a batch is. -/
def WritesCells {ε γ : Type} (db : DatabaseType) (rows : List (List (Value × Bool)))
    (build : ℕ → Except ε (List γ)) (batch : List Text → γ) : Prop :=
  ∃ whole, Batched build batch whole
    ∧ ∀ tuples, whole = .ok tuples → List.Forall₂ (IsTupleOf db) rows tuples

section

variable {db : DatabaseType} {hasSchemas : Bool} {schema : Option Text} {table : Text}

theorem importRow_isTupleOf {data : ParsedImportFile} {mapped : List (ℕ × Text)}
    {numbered : List Value × ℕ} {tuple : Text} (h : importRow db data mapped numbered = .ok tuple) :
  IsTupleOf db (importCells data mapped numbered) tuple
  := by
  obtain ⟨literals, rfl, hliterals⟩ := importRow_ok h
  refine ⟨literals, rfl, ?_⟩
  rw [importCells, List.forall₂_map_left_iff]
  apply hliterals.imp
  intro column literal hliteral
  exact sqlValue_literal hliteral

theorem exportRow_isTupleOf {binary : List (ℕ × ℕ)} {numbered : List Value × ℕ} {tuple : Text}
    (h : exportRow db binary numbered = .ok tuple) :
  IsTupleOf db (exportCells binary numbered) tuple
  := by
  obtain ⟨literals, hliterals, h⟩ := Result.bind_ok.mp h
  cases h
  refine ⟨literals, rfl, ?_⟩
  rw [exportCells, List.forall₂_map_left_iff]
  apply (Result.mapM_ok.mp hliterals).imp
  intro cell literal hliteral
  exact sqlValue_literal hliteral

theorem importBatch_eq {data : ParsedImportFile} {mapped : List (ℕ × Text)}
    (chunk : List (List Value × ℕ)) :
  importBatch db hasSchemas schema table data mapped chunk
    = (chunk.mapM (importRow db data mapped)).map
      (importStatement db hasSchemas schema table mapped)
  := by
  unfold importBatch
  cases h : chunk.mapM (importRow db data mapped) with
  | error e => rfl
  | ok tuples =>
    have hlength := Result.length_of_mapM h
    simp only [Except.map, importStatement, ← hlength]
    rfl

theorem exportBatch_eq {target names : Text} {binary : List (ℕ × ℕ)}
    (chunk : List (List Value × ℕ)) :
  exportBatch db target names binary chunk
    = (chunk.mapM (exportRow db binary)).map (insertStatement target names)
  := by
  unfold exportBatch
  cases chunk.mapM (exportRow db binary) with
  | error e => rfl
  | ok tuples => rfl

theorem writesCells_chunks {ε γ : Type} {rows : List (List Value)}
    {f : List Value × ℕ → Except ε Text} {cells : List Value × ℕ → List (Value × Bool)}
    (batch : List Text → γ) (hf : ∀ row tuple, f row = .ok tuple → IsTupleOf db (cells row) tuple) :
  WritesCells db (rows.zipIdx.map cells)
    (fun size => (chunksOf (max size 1) rows).zipIdx.mapM fun (chunk, i) =>
      ((chunk.zipIdx (i * max size 1)).mapM f).map batch)
    batch
  := by
  refine ⟨rows.zipIdx.mapM f, batched_chunksOf f batch rows, ?_⟩
  intro tuples htuples
  rw [List.forall₂_map_left_iff]
  exact (Result.mapM_ok.mp htuples).imp hf

end

/-! ### The statements of any batch size -/

/-- An import fails for the same reason or writes the same tuples, whatever the size of a batch is;
the batches count all rows. -/
structure ImportsAlike (db : DatabaseType) (data : ParsedImportFile)
    (mappings : List ImportColumnMapping)
    (batch : List (ℕ × Text) → List Text → ImportSqlBatch)
    (build : ℕ → Except Text (List ImportSqlBatch)) : Prop where
  unmapped : ∀ e, mappingIndexes data mappings = .error e → ∀ size, build size = .error e
  mapped : ∀ mapped, mappingIndexes data mappings = .ok mapped →
    WritesCells db (data.rows.zipIdx.map (importCells data mapped)) build (batch mapped)
  counted : ∀ size batches, build size = .ok batches →
    (batches.map (·.rowCount)).sum = data.rows.length

def ExportFits (columns : List Text) (rows : List (List Value)) (binaryCells : List (ℕ × ℕ)) :
    Prop :=
  (∀ row ∈ rows, row.length = columns.length)
    ∧ ∀ cell ∈ binaryCells, cell.1 < rows.length ∧ cell.2 < columns.length

/-- An export has no statements without columns and rows, fails if rows and marks do not fit, and
otherwise fails for one reason or writes the same tuples, whatever the size of a batch. -/
structure ExportsAlike (db : DatabaseType) (columns : List Text) (rows : List (List Value))
    (binaryCells : List (ℕ × ℕ)) (batch : List Text → Text)
    (build : ℕ → Except DbError (List Text)) : Prop where
  empty : columns = [] ∨ rows = [] → ∀ size, build size = .ok []
  unfit : columns ≠ [] → rows ≠ [] → ¬ExportFits columns rows binaryCells →
    ∀ size, build size = .error (.queryFailed "Invalid export row/column metadata")
  fit : columns ≠ [] → rows ≠ [] → ExportFits columns rows binaryCells →
    WritesCells db (rows.zipIdx.map (exportCells binaryCells)) build batch

section

variable (db : DatabaseType) (hasSchemas : Bool) (schema : Option Text) (table : Text)

theorem importsAlike (data : ParsedImportFile) (mappings : List ImportColumnMapping) :
  ImportsAlike db data mappings (importStatement db hasSchemas schema table)
    (buildImportInsertBatches db hasSchemas schema table data mappings)
  := by
  have hmapped (mapped : List (ℕ × Text)) (h : mappingIndexes data mappings = .ok mapped) :
      WritesCells db (data.rows.zipIdx.map (importCells data mapped))
        (buildImportInsertBatches db hasSchemas schema table data mappings)
        (importStatement db hasSchemas schema table mapped) := by
    have hall := @writesCells_chunks db _ _ data.rows (importRow db data mapped)
      (importCells data mapped) (importStatement db hasSchemas schema table mapped)
      (fun row tuple => importRow_isTupleOf)
    unfold buildImportInsertBatches
    simp only [h, importBatch_eq]
    exact hall
  constructor
  · intro e he size
    unfold buildImportInsertBatches
    rw [he]
    rfl
  · exact hmapped
  · intro size batches hbatches
    cases h : mappingIndexes data mappings with
    | error e =>
      unfold buildImportInsertBatches at hbatches
      rw [h] at hbatches
      cases hbatches
    | ok mapped =>
      obtain ⟨whole, hbatched, htuples⟩ := hmapped mapped h
      cases whole with
      | error e =>
        rw [hbatched.error e rfl size] at hbatches
        cases hbatches
      | ok tuples =>
        obtain ⟨groups, rfl, hbuild, -⟩ := hbatched.ok tuples rfl size
        rw [hbuild] at hbatches
        cases hbatches
        have hlength := (htuples _ rfl).length_eq
        rw [List.length_map, List.length_zipIdx] at hlength
        rw [hlength, List.length_flatten, List.map_map]
        rfl

theorem exportsAlike (columns : List Text) (rows : List (List Value)) (binaryCells : List (ℕ × ℕ)) :
  ExportsAlike db columns rows binaryCells
    (insertStatement (qualifiedTable db hasSchemas schema table)
      (join ", " (columns.map (quoteIdent db))))
    (fun size =>
      buildInsertStatementsTyped db hasSchemas schema table columns rows size binaryCells)
  := by
  have hfits : ((rows.any fun row => row.length ≠ columns.length)
      ∨ (binaryCells.any fun place => place.1 ≥ rows.length ∨ place.2 ≥ columns.length))
        ↔ ¬ExportFits columns rows binaryCells := by
    simp only [ExportFits, List.any_eq_true, decide_eq_true_eq, not_and_or, not_forall, exists_prop,
      Nat.not_lt, ge_iff_le]
  constructor
  · intro hempty size
    rw [buildInsertStatementsTyped, if_pos hempty]
  · intro hcolumns hrows hunfit size
    rw [buildInsertStatementsTyped, if_neg (not_or.mpr ⟨hcolumns, hrows⟩),
      if_pos (hfits.mpr hunfit)]
  · intro hcolumns hrows hfit
    have hall := @writesCells_chunks db _ _ rows (exportRow db binaryCells)
      (exportCells binaryCells) (insertStatement (qualifiedTable db hasSchemas schema table)
      (join ", " (columns.map (quoteIdent db)))) (fun row tuple => exportRow_isTupleOf)
    have hno := fun h => hfits.mp h hfit
    simp only [buildInsertStatementsTyped, if_neg (not_or.mpr ⟨hcolumns, hrows⟩), if_neg hno,
      exportBatch_eq]
    exact hall

end

/-- A row with a cell that is marked, but null. -/
def nullCell : ParsedImportFile where
  columns := ["c"]
  rows := [[.null]]
  totalRows := 1
  binaryCells := some [(0, 0)]

end Db
