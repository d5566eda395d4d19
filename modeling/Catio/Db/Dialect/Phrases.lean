import Catio.Lib.Phrase
import Catio.Db.Dialect

/-!
# The statements the program writes

Every row edit is a phrase of words, numbers, quoted names and string literals
(`editSql_phrase`), whatever the names and values are.
-/

namespace Db

open Text Json

/-- Separators and brackets of the statements the program writes. -/
def sqlPunctuation : Punctuation Char where
  separator c := c = ' ' ∨ c = ',' ∨ c = '.' ∨ c = '='
  opener := '('
  closer := ')'

instance : DecidablePred sqlPunctuation.separator :=
  fun c => inferInstanceAs (Decidable (c = ' ' ∨ c = ',' ∨ c = '.' ∨ c = '='))

/-- The smallest parts of the statements the program writes.  The names are subject to a
condition. -/
inductive SqlAtom (db : DatabaseType) (safe : Text → Prop) : Text → Prop
  | word {c : Char} {t : Text} (hc : isWordStart c) (ht : ∀ x ∈ t, isWordChar x) :
      SqlAtom db safe (c :: t)
  | number (n : Number) : SqlAtom db safe n.toText
  | bytes {hex : Text} (h : ∀ c ∈ hex, isHexDigit c) : SqlAtom db safe ("0x" ++ hex)
  | name {n : Text} (h : safe n) : SqlAtom db safe (quoteIdent db n)
  | string {p s : Text} (hp : p = [] ∨ p = ['N'] ∨ p = ['X'])
      (hs : db = .mysql → '\\' ∉ s) : SqlAtom db safe (p ++ quoteLiteral s)
  | escaped (s : Text) (hdb : db = .postgres) :
      SqlAtom db safe ('E' :: quoteLiteral (replaceChar '\\' ['\\', '\\'] s))

/-- The phrases the program writes. -/
abbrev SqlPhrase (db : DatabaseType) (safe : Text → Prop) : Text → Prop :=
  Phrase sqlPunctuation (SqlAtom db safe)

/-! ### Hexadecimal text -/

theorem isHexDigit_hexByte (b : UInt8) : ∀ c ∈ hexByte b, isHexDigit c
  := by
  have digits : ∀ n < 16, isHexDigit (Nat.digitChar n) := by decide
  intro c hc
  have hb := b.toNat_lt
  simp only [hexByte, List.mem_cons, List.not_mem_nil, or_false] at hc
  rcases hc with rfl | rfl
  · apply digits
    omega
  · apply digits
    omega

theorem isHexDigit_hexBytes (s : Text) : ∀ c ∈ hexBytes s, isHexDigit c
  := by
  intro c hc
  obtain ⟨b, -, hc⟩ := List.mem_flatMap.mp hc
  apply isHexDigit_hexByte b c hc

theorem quoteLiteral_hex {hex : Text} (h : ∀ c ∈ hex, isHexDigit c) :
  quoteLiteral hex = '\'' :: (hex ++ ['\''])
  := by
  have hquote : '\'' ∉ hex := by
    intro hmem
    have hfalse := h _ hmem
    revert hfalse
    decide
  simp [quoteLiteral, replaceChar_of_not_mem hquote]

theorem backslash_not_mem_hex {hex : Text} (h : ∀ c ∈ hex, isHexDigit c) : '\\' ∉ hex
  := by
  intro hmem
  have hfalse := h _ hmem
  revert hfalse
  decide

section

variable {db : DatabaseType} {safe : Text → Prop}

/-! ### Parts -/

theorem SqlPhrase.word {t : Text} (h : t.head?.any isWordStart ∧ t.all isWordChar) :
  SqlPhrase db safe t
  := by
  match t, h with
  | c :: t, ⟨hc, ht⟩ =>
    apply Phrase.atom
    apply SqlAtom.word hc
    simp only [List.all_cons, Bool.and_eq_true, List.all_eq_true] at ht
    apply ht.2

theorem SqlPhrase.spaced {parts : List Text} (h : ∀ t ∈ parts, SqlPhrase db safe t) :
  SqlPhrase db safe (join " " parts)
  := by
  apply Phrase.join _ h
  intro t u ht hu
  apply Phrase.append ht (by decide) (List.all_iff_forall_prop.mp (by decide)) hu

theorem SqlPhrase.listed {parts : List Text} (h : ∀ t ∈ parts, SqlPhrase db safe t) :
  SqlPhrase db safe (join ", " parts)
  := by
  apply Phrase.join _ h
  intro t u ht hu
  apply Phrase.append ht (by decide) (List.all_iff_forall_prop.mp (by decide)) hu

theorem SqlPhrase.conjunction {parts : List Text} (h : ∀ t ∈ parts, SqlPhrase db safe t) :
  SqlPhrase db safe (join " AND " parts)
  := by
  apply Phrase.join _ h
  intro t u ht hu
  have hand : SqlPhrase db safe "AND" := SqlPhrase.word (by decide)
  have rest : SqlPhrase db safe ("AND" ++ (" " ++ u)) :=
    Phrase.append hand (by decide) (List.all_iff_forall_prop.mp (by decide)) hu
  have whole : SqlPhrase db safe (t ++ (" " ++ ("AND" ++ (" " ++ u)))) :=
    Phrase.append ht (by decide) (List.all_iff_forall_prop.mp (by decide)) rest
  exact whole

theorem SqlPhrase.hex {p hex : Text} (hp : p = [] ∨ p = ['N'] ∨ p = ['X'])
    (h : ∀ c ∈ hex, isHexDigit c) :
  SqlPhrase db safe (p ++ ('\'' :: (hex ++ ['\''])))
  := by
  rw [← quoteLiteral_hex h]
  apply Phrase.atom
  apply SqlAtom.string hp
  intro _
  apply backslash_not_mem_hex h

theorem SqlPhrase.function {name args : Text} (h : name.head?.any isWordStart ∧ name.all isWordChar)
    (hargs : SqlPhrase db safe args) :
  SqlPhrase db safe (name ++ '(' :: (args ++ [')']))
  := Phrase.call (P := sqlPunctuation) (SqlPhrase.word h) hargs

theorem SqlPhrase.functionHex (name : Text) {hex : Text}
    (h : name.head?.any isWordStart ∧ name.all isWordChar) (hhex : ∀ c ∈ hex, isHexDigit c) :
  SqlPhrase db safe (name ++ "('" ++ hex ++ "')")
  := by
  have heq : name ++ "('" ++ hex ++ "')"
      = name ++ '(' :: ([] ++ ('\'' :: (hex ++ ['\''])) ++ [')']) := by
    simp
  rw [heq]
  apply SqlPhrase.function h
  apply SqlPhrase.hex (by simp) hhex

theorem SqlPhrase.stringLiteral (s : Text) :
  SqlPhrase db safe (stringLiteral db s)
  := by
  have plain : ∀ p : Text, p = [] ∨ p = ['N'] ∨ p = ['X'] → (db = .mysql → '\\' ∉ s) →
      SqlPhrase db safe (p ++ quoteLiteral s) := by
    intro p hp hs
    apply Phrase.atom
    apply SqlAtom.string hp hs
  have hhex := isHexDigit_hexBytes s
  unfold Db.stringLiteral
  split
  · split
    · have heq : "CONVERT(X'" ++ hexBytes s ++ "' USING utf8mb4)"
          = "CONVERT" ++ '(' :: (join " "
            [['X'] ++ ('\'' :: (hexBytes s ++ ['\''])), "USING", "utf8mb4"] ++ [')']) := by
        simp only [join, List.intersperse, List.flatten_cons, List.flatten_nil,
          List.append_assoc, List.cons_append, List.nil_append]
        rfl
      rw [heq]
      apply SqlPhrase.function (by decide)
      apply SqlPhrase.spaced
      intro t ht
      simp only [List.mem_cons, List.not_mem_nil, or_false] at ht
      rcases ht with rfl | rfl | rfl
      · apply SqlPhrase.hex (by simp) hhex
      · apply SqlPhrase.word (by decide)
      · apply SqlPhrase.word (by decide)
    · apply plain [] (by simp)
      tauto
  · split
    · apply Phrase.atom
      apply SqlAtom.escaped s rfl
    · apply plain [] (by simp) (by simp)
  · split
    · apply SqlPhrase.functionHex "unhex" (by decide) hhex
    · apply plain [] (by simp) (by simp)
  · apply plain ['N'] (by simp) (by simp)
  · rename_i hmysql _ _ _
    apply plain [] (by simp)
    intro h
    exact absurd h hmysql

theorem SqlPhrase.digit (d : Fin 10) :
  SqlPhrase db safe [Json.digit d]
  := by
  have number := @SqlAtom.number db safe
    { negative := false, digits := [d], nonempty := by simp, fraction := [], exponent := none }
  apply Phrase.atom
  simpa [Number.toText] using number

theorem SqlPhrase.valueToSqlFor (value : Value) :
  SqlPhrase db safe (valueToSqlFor db value)
  := by
  cases value with
  | null => exact SqlPhrase.word (t := "NULL") (by decide)
  | bool b =>
    by_cases hdb : db = .sqlserver
    · simp only [Db.valueToSqlFor, if_pos hdb]
      cases b with
      | true => exact SqlPhrase.digit 1
      | false => exact SqlPhrase.digit 0
    · simp only [Db.valueToSqlFor, if_neg hdb]
      cases b with
      | true => exact SqlPhrase.word (t := "TRUE") (by decide)
      | false => exact SqlPhrase.word (t := "FALSE") (by decide)
  | number n =>
    apply Phrase.atom
    apply SqlAtom.number
  | string s => apply SqlPhrase.stringLiteral
  | array items => apply SqlPhrase.stringLiteral
  | object fields => apply SqlPhrase.stringLiteral

theorem binaryHex_isHexDigit {value : Value} {hex : Text} (h : binaryHex value = .ok hex) :
  ∀ c ∈ hex, isHexDigit c
  := by
  unfold binaryHex at h
  split at h
  · cases h
  · split at h
    · cases h
    · split at h
      · cases h
      · rename_i hdigits
        cases h
        simp only [not_or, not_not, List.all_eq_true] at hdigits
        apply hdigits.2

theorem SqlPhrase.sqlValue {value : Value} {binary : Bool} {sql : Text}
    (h : sqlValue db value binary = .ok sql) :
  SqlPhrase db safe sql
  := by
  unfold Db.sqlValue at h
  split at h
  · cases h
    apply SqlPhrase.valueToSqlFor
  · obtain ⟨hex, hhex, h⟩ := Result.bind_ok.mp h
    have hdigits := binaryHex_isHexDigit hhex
    have literal : SqlPhrase db safe ("X'" ++ hex ++ "'") := by
      have hphrase := @SqlPhrase.hex db safe ['X'] _ (by simp) hdigits
      simpa using hphrase
    split at h
    · cases h
      have heq : "decode('" ++ hex ++ "', 'hex')"
          = "decode" ++ '(' :: (join ", " [[] ++ ('\'' :: (hex ++ ['\''])), "'hex'"] ++ [')'])
          := by
        simp only [join, List.intersperse, List.flatten_cons, List.flatten_nil,
          List.append_assoc, List.cons_append, List.nil_append]
        rfl
      rw [heq]
      apply SqlPhrase.function (by decide)
      apply SqlPhrase.listed
      intro t ht
      simp only [List.mem_cons, List.not_mem_nil, or_false] at ht
      rcases ht with rfl | rfl
      · apply SqlPhrase.hex (by simp) hdigits
      · apply Phrase.atom
        apply SqlAtom.string (p := []) (s := "hex") (by simp) (by simp)
    · cases h
      apply Phrase.atom
      apply SqlAtom.bytes hdigits
    · cases h
      apply SqlPhrase.functionHex "from_hex" (by decide) hdigits
    · cases h
      apply SqlPhrase.functionHex "unhex" (by decide) hdigits
    · cases h
      exact literal
    · cases h
      exact literal
    · cases h
      exact literal
    · cases h
      exact literal
    · cases h

/-! ### Statements -/

theorem SqlPhrase.qualifiedTable {hasSchemas : Bool} {schema : Option Text} {table : Text}
    (hschema : ∀ s ∈ schema, safe s) (htable : safe table) :
  SqlPhrase db safe (qualifiedTable db hasSchemas schema table)
  := by
  have name : SqlPhrase db safe (quoteIdent db table) := Phrase.atom (SqlAtom.name htable)
  unfold Db.qualifiedTable
  split
  · rename_i s
    split
    · rw [List.append_assoc]
      apply Phrase.sep (P := sqlPunctuation) (x := '.') (by decide) _ name
      apply Phrase.atom
      apply SqlAtom.name
      apply hschema s rfl
    · exact name
  · exact name

theorem SqlPhrase.equation {name value : Text} (hname : safe name)
    (hvalue : SqlPhrase db safe value) :
  SqlPhrase db safe (quoteIdent db name ++ " = " ++ value)
  := by
  rw [List.append_assoc]
  apply Phrase.append (P := sqlPunctuation) (Phrase.atom (SqlAtom.name hname)) (by decide) _ hvalue
  exact List.all_iff_forall_prop.mp (by decide)

theorem SqlPhrase.keyPredicate {binary : List Text} {key : Text × Value} {sql : Text}
    (hsafe : safe key.1) (h : keyPredicate db binary key = .ok sql) :
  SqlPhrase db safe sql
  := by
  obtain ⟨value, hvalue, h⟩ := Result.bind_ok.mp h
  cases h
  apply SqlPhrase.equation hsafe
  apply SqlPhrase.sqlValue hvalue

end

def EditRequest.names (req : EditRequest) : List Text :=
  req.schema.toList ++ req.table :: ((if req.kind = "delete" then [] else req.cells.map Prod.fst)
    ++ (if req.kind = "insert" then [] else req.pk.map Prod.fst))

theorem validateColumns_ok {names binary : List Text} {values : List (Text × Value)}
    (h : validateColumns names values = .ok binary) :
  binary = names ∧ names.Nodup ∧ ∀ name ∈ names, name ∈ values.map Prod.fst
  := by
  unfold validateColumns at h
  split at h
  · rename_i hnames
    cases h
    exact ⟨rfl, hnames⟩
  · cases h

/-- A row edit is built from the literals of its cells and the comparisons of its key
columns. -/
theorem editSql_ok {db : DatabaseType} {req : EditRequest} {sql : Text}
    (h : editSql db req = .ok sql) :
  (req.binaryColumns.Nodup ∧ ∀ name ∈ req.binaryColumns, name ∈ req.cells.map Prod.fst)
    ∧ ((req.binaryPkColumns.getD []).Nodup
      ∧ ∀ name ∈ req.binaryPkColumns.getD [], name ∈ req.pk.map Prod.fst)
    ∧ ∃ values predicates,
      List.Forall₂
          (fun cell value => sqlValue db cell.2 (cell.1 ∈ req.binaryColumns) = .ok value)
          req.cells values
        ∧ List.Forall₂
          (fun key predicate => keyPredicate db (req.binaryPkColumns.getD []) key = .ok predicate)
          req.pk predicates
        ∧ (let target := qualifiedTable db true req.schema req.table
          let columns := req.cells.map fun cell => quoteIdent db cell.1
          (req.kind = "insert" ∧ sql = "INSERT INTO " ++ target ++ " (" ++ join ", " columns
              ++ ") VALUES (" ++ join ", " values ++ ")")
            ∨ (req.kind = "update" ∧ sql = "UPDATE " ++ target ++ " SET "
              ++ join ", " (List.zipWith (fun column value => column ++ " = " ++ value)
                columns values)
              ++ " WHERE " ++ join " AND " predicates)
            ∨ (req.kind = "delete" ∧ sql = "DELETE FROM " ++ target ++ " WHERE "
              ++ join " AND " predicates))
  := by
  obtain ⟨binary, hbinary, h⟩ := Result.bind_ok.mp h
  obtain ⟨rfl, hcells⟩ := validateColumns_ok hbinary
  clear hbinary
  obtain ⟨binaryPk, hbinaryPk, h⟩ := Result.bind_ok.mp h
  obtain ⟨rfl, hkeys⟩ := validateColumns_ok hbinaryPk
  clear hbinaryPk
  obtain ⟨values, hvalues, h⟩ := Result.bind_ok.mp h
  obtain ⟨predicates, hpredicates, h⟩ := Result.bind_ok.mp h
  refine ⟨hcells, hkeys, values, predicates, Result.mapM_ok.mp hvalues,
    Result.mapM_ok.mp hpredicates, ?_⟩
  split at h
  · rename_i hkind
    exact .inl ⟨hkind, (Except.ok.inj h).symm⟩
  · split at h
    · rename_i hkind
      exact .inr (.inl ⟨hkind, (Except.ok.inj h).symm⟩)
    · split at h
      · rename_i hkind
        exact .inr (.inr ⟨hkind, (Except.ok.inj h).symm⟩)
      · cases h

/-- A row edit is its first word, in upper case, and a phrase behind it. -/
theorem editSql_phrase {db : DatabaseType} {safe : Text → Prop} {req : EditRequest} {sql : Text}
    (hsafe : ∀ name ∈ req.names, safe name) (h : editSql db req = .ok sql) :
  toAsciiUppercase req.kind ∈ (["INSERT".toList, "UPDATE".toList, "DELETE".toList] : List Text)
    ∧ ∃ rest, sql = toAsciiUppercase req.kind ++ ' ' :: rest ∧ SqlPhrase db safe rest
  := by
  obtain ⟨-, -, values, predicates, hvalues, hpredicates, h⟩ := editSql_ok h
  have target : SqlPhrase db safe (qualifiedTable db true req.schema req.table) := by
    apply SqlPhrase.qualifiedTable
    · intro s hs
      apply hsafe
      simp only [EditRequest.names, List.mem_append, Option.mem_toList]
      exact .inl hs
    · apply hsafe
      apply List.mem_append_right _ List.mem_cons_self
  have cellSafe (hkind : req.kind ≠ "delete") : ∀ cell ∈ req.cells, safe cell.1 := by
    intro cell hcell
    apply hsafe
    simp only [EditRequest.names, if_neg hkind, List.mem_append, List.mem_cons, List.mem_map]
    exact .inr (.inr (.inl ⟨cell, hcell, rfl⟩))
  have columns (hkind : req.kind ≠ "delete") :
      SqlPhrase db safe (join ", " (req.cells.map fun cell => quoteIdent db cell.1)) := by
    apply SqlPhrase.listed
    intro t ht
    obtain ⟨cell, hcell, rfl⟩ := List.mem_map.mp ht
    apply Phrase.atom (SqlAtom.name (cellSafe hkind cell hcell))
  have literal : ∀ t ∈ values, SqlPhrase db safe t := by
    intro t ht
    obtain ⟨cell, -, hvalue⟩ := Result.exists_left hvalues ht
    apply SqlPhrase.sqlValue hvalue
  have literals : SqlPhrase db safe (join ", " values) := SqlPhrase.listed literal
  have assignments (hkind : req.kind ≠ "delete") : SqlPhrase db safe (join ", " (List.zipWith
      (fun column value => column ++ " = " ++ value)
      (req.cells.map fun cell => quoteIdent db cell.1) values)) := by
    apply SqlPhrase.listed
    intro t ht
    rw [← List.map_uncurry_zip_eq_zipWith] at ht
    obtain ⟨⟨column, value⟩, hmem, rfl⟩ := List.mem_map.mp ht
    obtain ⟨hcolumn, hvalue⟩ := List.of_mem_zip hmem
    obtain ⟨cell, hcell, rfl⟩ := List.mem_map.mp hcolumn
    apply SqlPhrase.equation (cellSafe hkind cell hcell) (literal value hvalue)
  have condition (hkind : req.kind ≠ "insert") : SqlPhrase db safe (join " AND " predicates) := by
    apply SqlPhrase.conjunction
    intro t ht
    obtain ⟨key, hkey, hpredicate⟩ := Result.exists_left hpredicates ht
    apply SqlPhrase.keyPredicate _ hpredicate
    apply hsafe
    simp only [EditRequest.names, if_neg hkind, List.mem_append, List.mem_cons, List.mem_map]
    exact .inr (.inr (.inr ⟨key, hkey, rfl⟩))
  have keyword : ∀ t : Text, t.head?.any isWordStart ∧ t.all isWordChar → SqlPhrase db safe t := by
    intro t ht
    apply SqlPhrase.word ht
  rcases h with ⟨hkind, rfl⟩ | ⟨hkind, rfl⟩ | ⟨hkind, rfl⟩
  · have hdelete : req.kind ≠ "delete" := by
      rw [hkind]
      decide
    rw [hkind]
    refine ⟨by decide, join " " ["INTO", qualifiedTable db true req.schema req.table,
      '(' :: (join ", " (req.cells.map fun cell => quoteIdent db cell.1) ++ [')']), "VALUES",
      '(' :: (join ", " values ++ [')'])], ?_, ?_⟩
    · simp only [join, List.intersperse, List.flatten_cons, List.flatten_nil,
        List.append_assoc, List.cons_append, List.nil_append, List.append_nil]
      rfl
    · apply SqlPhrase.spaced
      simp only [List.forall_mem_cons, List.not_mem_nil, false_imp_iff, implies_true, and_true]
      refine ⟨keyword _ (by decide), target,
        Phrase.parens (P := sqlPunctuation) (columns hdelete), keyword _ (by decide),
        Phrase.parens (P := sqlPunctuation) literals⟩
  · have hdelete : req.kind ≠ "delete" := by
      rw [hkind]
      decide
    have hinsert : req.kind ≠ "insert" := by
      rw [hkind]
      decide
    rw [hkind]
    refine ⟨by decide, join " " [qualifiedTable db true req.schema req.table, "SET",
      join ", " (List.zipWith (fun column value => column ++ " = " ++ value)
        (req.cells.map fun cell => quoteIdent db cell.1) values), "WHERE",
      join " AND " predicates], ?_, ?_⟩
    · simp only [join, List.intersperse, List.flatten_cons, List.flatten_nil,
        List.append_assoc, List.append_nil]
      rfl
    · apply SqlPhrase.spaced
      simp only [List.forall_mem_cons, List.not_mem_nil, false_imp_iff, implies_true, and_true]
      refine ⟨target, keyword _ (by decide), assignments hdelete, keyword _ (by decide),
        condition hinsert⟩
  · have hinsert : req.kind ≠ "insert" := by
      rw [hkind]
      decide
    rw [hkind]
    refine ⟨by decide, join " " ["FROM", qualifiedTable db true req.schema req.table, "WHERE",
      join " AND " predicates], ?_, ?_⟩
    · simp only [join, List.intersperse, List.flatten_cons, List.flatten_nil,
        List.append_assoc, List.append_nil]
      rfl
    · apply SqlPhrase.spaced
      simp only [List.forall_mem_cons, List.not_mem_nil, false_imp_iff, implies_true, and_true]
      refine ⟨keyword _ (by decide), target, keyword _ (by decide), condition hinsert⟩

end Db
