import Catio.Lib.Quoting
import Catio.Db.Dialect.BinaryValues

/-!
# Quoted names and strings as engines read them

The lexical rules of the engines for string literals and quoted identifiers, in each mode that an
engine has, and what they make of the literals and identifiers that the program writes.
-/

namespace Db

open Text

/-! ### MySQL -/

/-- What a character behind a backslash stands for in MySQL. -/
def mysqlEscape : Text → Option (Bytes × ℕ)
  | [] => none
  | '0' :: _ => some ([0], 1)
  | 'b' :: _ => some ([8], 1)
  | 'n' :: _ => some ([10], 1)
  | 'r' :: _ => some ([13], 1)
  | 't' :: _ => some ([9], 1)
  | 'Z' :: _ => some ([26], 1)
  | '%' :: _ => some (Utf8.encode ['\\', '%'], 1)
  | '_' :: _ => some (Utf8.encode ['\\', '_'], 1)
  | c :: _ => some (Utf8.encode [c], 1)

/-- The strings of MySQL, in which backslashes escape unless `NO_BACKSLASH_ESCAPES` is set. -/
def mysqlString (noBackslashEscapes : Bool) : Quoting UInt8 where
  close := '\''
  emit c := Utf8.encode [c]
  escape := if noBackslashEscapes then none else some mysqlEscape

def mysqlLiteral (noBackslashEscapes : Bool) : Text → Option Bytes
  | '\'' :: body => (mysqlString noBackslashEscapes).whole body
  | literal => readQuoted "CONVERT(X'" " USING utf8mb4)" literal

/-! ### PostgreSQL -/

def hexNumber (digits : Text) : ℕ :=
  digits.foldl (fun n c => 16 * n + nibble c) 0

def octalNumber (digits : Text) : ℕ :=
  digits.foldl (fun n c => 8 * n + nibble c) 0

/-- The character of an escape with so many hexadecimal digits. Pairs of escapes for the halves of a
character are left out. -/
def unicodeEscape (count : ℕ) (rest : Text) : Option (Bytes × ℕ) :=
  let digits := (rest.take count).takeWhile isHexDigit
  if digits.length = count then
    (charFromU32 (hexNumber digits)).map fun c => (Utf8.encode [c], 1 + count)
  else none

/-- What follows a backslash in PostgreSQL. -/
def postgresEscape : Text → Option (Bytes × ℕ)
  | [] => none
  | 'b' :: _ => some ([8], 1)
  | 'f' :: _ => some ([12], 1)
  | 'n' :: _ => some ([10], 1)
  | 'r' :: _ => some ([13], 1)
  | 't' :: _ => some ([9], 1)
  | 'u' :: rest => unicodeEscape 4 rest
  | 'U' :: rest => unicodeEscape 8 rest
  | 'x' :: rest =>
      let digits := (rest.take 2).takeWhile isHexDigit
      if digits = [] then some (Utf8.encode ['x'], 1)
      else some ([.ofNat (hexNumber digits)], 1 + digits.length)
  | c :: rest =>
      let digits := ((c :: rest).take 3).takeWhile fun d => '0' ≤ d && d ≤ '7'
      if digits = [] then some (Utf8.encode [c], 1)
      else some ([.ofNat (octalNumber digits)], digits.length)

/-- The strings of PostgreSQL, with or without escapes. -/
def postgresString (escapes : Bool) : Quoting UInt8 where
  close := '\''
  emit c := Utf8.encode [c]
  escape := if escapes then some postgresEscape else none

/-- The text that PostgreSQL reads a literal as. Plain strings have escapes when
`standard_conforming_strings` is off, and a statement ends at a NUL. -/
def postgresLiteral (standardConforming : Bool) (literal : Text) : Option Bytes :=
  if '\x00' ∈ literal then none
  else
    match literal with
    | 'E' :: '\'' :: body => (postgresString true).whole body
    | '\'' :: body => (postgresString (!standardConforming)).whole body
    | _ => none

/-! ### Identifiers -/

/-- What follows a backslash in ClickHouse. -/
def clickhouseEscape : Text → Option (Text × ℕ)
  | [] => none
  | 'x' :: a :: b :: _ =>
      if isHexDigit a ∧ isHexDigit b then some ([.ofNat (hexNumber [a, b])], 3) else none
  | 'b' :: _ => some (['\x08'], 1)
  | 'f' :: _ => some (['\x0c'], 1)
  | 'r' :: _ => some (['\r'], 1)
  | 'n' :: _ => some (['\n'], 1)
  | 't' :: _ => some (['\t'], 1)
  | '0' :: _ => some (['\x00'], 1)
  | 'a' :: _ => some (['\x07'], 1)
  | 'v' :: _ => some (['\x0b'], 1)
  | c :: _ => some ([c], 1)

/-- The identifiers in quotes without escapes. -/
def plainIdentifier (close : Char) : Quoting Char where
  close := close
  emit c := [c]
  escape := none

/-- The identifiers of ClickHouse, with the escapes of its strings. -/
def clickhouseIdentifier : Quoting Char where
  close := '"'
  emit c := [c]
  escape := some clickhouseEscape

/-- The engines that read a statement up to a NUL. -/
def StopsAtNul (db : DatabaseType) : Prop :=
  db ∈ [DatabaseType.postgres, .mysql, .sqlite, .duckdb, .rqlite]

instance (db : DatabaseType) : Decidable (StopsAtNul db) :=
  inferInstanceAs (Decidable (db ∈ _))

/-- The quotes around an identifier.  Engines without rules of their own are read as the standard
has it. -/
def identifierQuoting (db : DatabaseType) : Char × Quoting Char :=
  match db with
  | .mysql => ('`', plainIdentifier '`')
  | .sqlserver => ('[', plainIdentifier ']')
  | .clickhouse => ('"', clickhouseIdentifier)
  | _ => ('"', plainIdentifier '"')

/-- The name that an engine reads a text as, if this is one quoted identifier. -/
def readIdentifier (db : DatabaseType) (text : Text) : Option Text :=
  if StopsAtNul db ∧ '\x00' ∈ text then none
  else
    match text with
    | [] => none
    | c :: body =>
        if c = (identifierQuoting db).1 then (identifierQuoting db).2.whole body else none

/-! ### Literals that are written -/

theorem flatMap_utf8 (s : Text) :
  s.flatMap (fun c => Utf8.encode [c]) = Utf8.encode s
  := by
  unfold Utf8.encode
  apply List.flatMap_congr
  intro c _
  exact List.flatMap_singleton _ _

theorem mysqlLiteral_quoteLiteral {s : Text} (h : '\\' ∉ s) (noBackslashEscapes : Bool) :
  mysqlLiteral noBackslashEscapes (quoteLiteral s) = some (Utf8.encode s)
  := by
  have hwhole := Quoting.whole_double (q := mysqlString noBackslashEscapes) (.inl h)
  rw [← flatMap_utf8]
  exact hwhole

theorem mysqlLiteral_stringLiteral (noBackslashEscapes : Bool) (s : Text) :
  mysqlLiteral noBackslashEscapes (stringLiteral .mysql s) = some (Utf8.encode s)
  := by
  unfold stringLiteral
  dsimp only
  split
  · rw [List.append_assoc]
    exact readQuoted_hexBytes "CONVERT(X'" (by decide) (Utf8.encode s)
  · rename_i hplain
    rw [not_or] at hplain
    exact mysqlLiteral_quoteLiteral hplain.1 noBackslashEscapes

theorem nul_mem_quoteLiteral (s : Text) :
  '\x00' ∈ quoteLiteral s ↔ '\x00' ∈ s
  := by
  rw [quoteLiteral, List.cons_append, List.mem_cons, List.mem_append, List.mem_singleton,
    mem_replaceChar_double (by decide)]
  simp

theorem nul_mem_postgres (s : Text) :
  '\x00' ∈ stringLiteral .postgres s ↔ '\x00' ∈ s
  := by
  unfold stringLiteral
  dsimp only
  split
  · rw [List.mem_cons, nul_mem_quoteLiteral, mem_replaceChar_double (by decide)]
    simp
  · exact nul_mem_quoteLiteral s

theorem postgresEscape_backslash (rest : Text) :
  postgresEscape ('\\' :: rest) = some (Utf8.encode ['\\'], 1)
  := rfl

theorem postgresLiteral_stringLiteral (standardConforming : Bool) (s : Text) :
  postgresLiteral standardConforming (stringLiteral .postgres s) = some (Utf8.encode s)
    ↔ '\x00' ∉ s
  := by
  unfold postgresLiteral
  by_cases hnul : '\x00' ∈ s
  · rw [if_pos ((nul_mem_postgres s).mpr hnul)]
    exact iff_of_false (by simp) (not_not.mpr hnul)
  · rw [if_neg fun h => hnul ((nul_mem_postgres s).mp h)]
    apply iff_of_true _ hnul
    unfold stringLiteral
    dsimp only
    by_cases hbackslash : '\\' ∈ s
    · rw [if_pos hbackslash, ← flatMap_utf8]
      exact Quoting.whole_escape (q := postgresString true) rfl postgresEscape_backslash
        (by decide) s
    · rw [if_neg hbackslash, ← flatMap_utf8]
      exact Quoting.whole_double (q := postgresString (!standardConforming)) (.inl hbackslash)

/-! ### Identifiers that are written -/

theorem quoteIdent_eq (db : DatabaseType) (name : Text) :
  quoteIdent db name = (identifierQuoting db).1
    :: ((identifierQuoting db).2.double name ++ [(identifierQuoting db).2.close])
  := by
  cases db <;> rfl

theorem readIdentifier_quoteIdent (db : DatabaseType) (name : Text) :
  readIdentifier db (quoteIdent db name)
    = if StopsAtNul db ∧ '\x00' ∈ quoteIdent db name then none
      else (identifierQuoting db).2.whole
        ((identifierQuoting db).2.double name ++ [(identifierQuoting db).2.close])
  := by
  unfold readIdentifier
  rw [quoteIdent_eq]
  dsimp only
  rw [if_pos rfl]

theorem clickhouseIdentifier_shortens :
  clickhouseIdentifier.Shortens clickhouseEscape
  := by
  constructor
  · intro c
    rfl
  · rfl
  · intro rest out n h
    unfold clickhouseEscape at h
    split at h
    · cases h
    · split at h
      · obtain ⟨rfl, rfl⟩ := Prod.mk.inj (Option.some.inj h)
        simp
      · cases h
    all_goals
      obtain ⟨rfl, rfl⟩ := Prod.mk.inj (Option.some.inj h)
      simp

theorem nul_mem_quoteIdent (db : DatabaseType) (name : Text) :
  '\x00' ∈ quoteIdent db name ↔ '\x00' ∈ name
  := by
  have hopen : '\x00' ≠ (identifierQuoting db).1 := by
    cases db <;> decide
  have hclose : '\x00' ≠ (identifierQuoting db).2.close := by
    cases db <;> decide
  rw [quoteIdent_eq, List.mem_cons, List.mem_append, List.mem_singleton, Quoting.double,
    mem_replaceChar_double hclose]
  simp [hopen, hclose]

theorem whole_identifier {db : DatabaseType} {name : Text}
    (h : '\\' ∉ name ∨ (identifierQuoting db).2.escape = none) :
  (identifierQuoting db).2.whole
      ((identifierQuoting db).2.double name ++ [(identifierQuoting db).2.close]) = some name
  := by
  have hemit : name.flatMap (identifierQuoting db).2.emit = name := by
    have hself : (identifierQuoting db).2.emit = fun c => [c] := by
      cases db <;> rfl
    rw [hself, List.flatMap_singleton']
  rw [Quoting.whole_double h, hemit]

theorem readIdentifier_iff (db : DatabaseType) (name : Text) :
  readIdentifier db (quoteIdent db name) = some name
    ↔ (StopsAtNul db → '\x00' ∉ name) ∧ (db = .clickhouse → '\\' ∉ name)
  := by
  rw [readIdentifier_quoteIdent]
  by_cases hstops : StopsAtNul db ∧ '\x00' ∈ name
  · rw [if_pos ⟨hstops.1, (nul_mem_quoteIdent db name).mpr hstops.2⟩]
    exact iff_of_false (by simp) fun h => h.1 hstops.1 hstops.2
  · have hnul : StopsAtNul db → '\x00' ∉ name := fun h hmem => hstops ⟨h, hmem⟩
    rw [if_neg fun h => hstops ⟨h.1, (nul_mem_quoteIdent db name).mp h.2⟩, and_iff_right hnul]
    constructor
    · rintro hwhole rfl
      exact Quoting.backslash_not_mem clickhouseIdentifier_shortens (by decide) hwhole rfl
    · intro hbackslash
      apply whole_identifier
      by_cases hclickhouse : db = .clickhouse
      · exact .inl (hbackslash hclickhouse)
      · apply Or.inr
        cases db with
        | clickhouse => exact absurd rfl hclickhouse
        | _ => rfl

/-! ### Safety -/

/-- The literals of a text for MySQL and for PostgreSQL are read as it in every mode, and so is a
quoted name in its dialect. -/
structure SafelyQuoted (db : DatabaseType) (name s : Text) : Prop where
  mysql : ∀ noBackslashEscapes,
    mysqlLiteral noBackslashEscapes (stringLiteral .mysql s) = some (Utf8.encode s)
  postgres : ∀ standardConforming,
    postgresLiteral standardConforming (stringLiteral .postgres s) = some (Utf8.encode s)
  identifier : readIdentifier db (quoteIdent db name) = some name

/-- Literals and identifiers are read as what they are written for exactly if no name for ClickHouse
has a backslash, and there is no NUL where an engine stops at it. -/
theorem safelyQuoted_iff (db : DatabaseType) (name s : Text) :
  SafelyQuoted db name s
    ↔ (db = .clickhouse → '\\' ∉ name) ∧ (StopsAtNul db → '\x00' ∉ name) ∧ '\x00' ∉ s
  := by
  constructor
  · intro h
    obtain ⟨hnul, hbackslash⟩ := (readIdentifier_iff db name).mp h.identifier
    exact ⟨hbackslash, hnul, (postgresLiteral_stringLiteral true s).mp (h.postgres true)⟩
  · rintro ⟨hbackslash, hname, hs⟩
    constructor
    · intro noBackslashEscapes
      exact mysqlLiteral_stringLiteral noBackslashEscapes s
    · intro standardConforming
      exact (postgresLiteral_stringLiteral standardConforming s).mpr hs
    · exact (readIdentifier_iff db name).mpr ⟨hname, hbackslash⟩

/-- A backslash before the last quote of a name hides it from ClickHouse. -/
theorem clickhouse_not_safelyQuoted :
  ¬ ∀ (db : DatabaseType) (name s : Text), SafelyQuoted db name s
  := by
  intro h
  have hread := (h .clickhouse ['\\'] []).identifier
  cases hread

end Db

/-!
## Plain literals

What engines read a literal as whose quotes are doubled and whose backslashes are not.  For
PostgreSQL it is the text (`postgresLiteral_quoteLiteral_iff`).  For MySQL, in which a backslash
escapes, it is the text just when each backslash has a percent sign or an underscore behind it,
which MySQL leaves as they are (`mysqlLiteral_quoteLiteral_iff`).
-/

namespace Db

open Text Scan Quoting

theorem postgresLiteral_quoteLiteral_iff (s : Text) :
  postgresLiteral true (quoteLiteral s) = some (Utf8.encode s) ↔ '\x00' ∉ s
  := by
  unfold postgresLiteral
  by_cases hnul : '\x00' ∈ s
  · rw [if_pos ((nul_mem_quoteLiteral s).mpr hnul)]
    exact iff_of_false (by simp) (not_not.mpr hnul)
  · rw [if_neg fun h => hnul ((nul_mem_quoteLiteral s).mp h), ← flatMap_utf8]
    apply iff_of_true _ hnul
    exact Quoting.whole_double (q := postgresString false) (.inr rfl)

/-- Each backslash has a percent sign or an underscore behind it. -/
def HarmlessBackslashes : Text → Prop
  | [] => True
  | '\\' :: rest =>
      (rest.head? = some '%' ∨ rest.head? = some '_') ∧ HarmlessBackslashes rest
  | _ :: rest => HarmlessBackslashes rest

theorem harmless_cons {c : Char} (hc : c ≠ '\\') (t : Text) :
  HarmlessBackslashes (c :: t) ↔ HarmlessBackslashes t
  := by
  rw [HarmlessBackslashes]
  exact hc

theorem harmless_backslash (d : Char) (t : Text) :
  HarmlessBackslashes ('\\' :: d :: t) ↔ (d = '%' ∨ d = '_') ∧ HarmlessBackslashes t
  := by
  rw [HarmlessBackslashes, List.head?_cons, Option.some_inj, Option.some_inj]
  apply and_congr_right
  rintro (rfl | rfl)
  · exact harmless_cons (by decide) t
  · exact harmless_cons (by decide) t

/-- The strings in which a backslash escapes. -/
abbrev escapedString : Quoting UInt8 :=
  mysqlString false

theorem mysqlEscape_cons (c : Char) (rest : Text) :
  ∃ out, mysqlEscape (c :: rest) = some (out, 1)
    ∧ if c = '%' ∨ c = '_' then out = Utf8.encode ['\\', c]
      else out.length < (Utf8.encode ['\\', c]).length
  := by
  have hlength : (Utf8.encode ['\\', c]).length = 1 + c.utf8Size := by
    rw [Utf8.length_encode]
    simp [utf8Len]
    rfl
  have hsize := c.utf8Size_pos
  have hone : ∀ b : UInt8, [b].length < (Utf8.encode ['\\', c]).length := by
    intro b
    rw [hlength, List.length_singleton]
    omega
  unfold mysqlEscape
  split
  · rename_i heq
    cases heq
  iterate 8 exact ⟨_, rfl, by simp_all⟩
  · rename_i heq
    obtain ⟨rfl, rfl⟩ := List.cons.inj heq
    refine ⟨Utf8.encode [c], rfl, ?_⟩
    rw [if_neg (by simp_all), hlength, Utf8.length_encode]
    simp [utf8Len]

theorem whole_quote_double (t : Text) :
  escapedString.whole ('\'' :: (escapedString.double t ++ ['\''])) = none
  := by
  induction t with
  | nil => exact whole_next (turn_close [])
  | cons c t ih =>
    by_cases hc : c = '\''
    · subst hc
      exact (whole_next (turn_close _)).trans (by rw [Option.map_eq_none_iff]; exact ih)
    · have hdouble : escapedString.double (c :: t) = c :: escapedString.double t := by
        simp [double, replaceChar, hc, mysqlString]
      have hstop : escapedString.turn () '\'' (c :: (escapedString.double t ++ ['\'']))
          = .stop (some (c :: (escapedString.double t ++ ['\'']))) := by
        simp [turn, closeTurn, hc, mysqlString]
      rw [hdouble, List.cons_append, whole_stop hstop]
      simp

theorem whole_double_cons {c : Char} (hc : c ≠ '\\') (t : Text) :
  escapedString.whole (escapedString.double (c :: t) ++ ['\''])
    = (escapedString.whole (escapedString.double t ++ ['\''])).map fun later =>
      Utf8.encode [c] ++ later
  := by
  by_cases hquote : c = '\''
  · subst hquote
    exact whole_next (turn_close _)
  · have hdouble : escapedString.double (c :: t) = c :: escapedString.double t := by
      simp [double, replaceChar, hquote, mysqlString]
    rw [hdouble]
    exact whole_next (turn_plain hquote (.inl hc) _)

theorem whole_double_backslash {d : Char} (hd : d ≠ '\'') {out : Bytes} {t : Text}
    (hout : mysqlEscape (d :: (escapedString.double t ++ ['\''])) = some (out, 1)) :
  escapedString.whole (escapedString.double ('\\' :: d :: t) ++ ['\''])
    = (escapedString.whole (escapedString.double t ++ ['\''])).map fun later => out ++ later
  := by
  have hdouble : escapedString.double ('\\' :: d :: t) = '\\' :: d :: escapedString.double t := by
    simp [double, replaceChar, hd, mysqlString]
  have hturn : escapedString.turn () '\\' (d :: (escapedString.double t ++ ['\'']))
      = .next () out 1 := by
    have hne : '\\' ≠ escapedString.close := by decide
    have hescape : escapedString.escape = some mysqlEscape := rfl
    rw [turn, if_neg hne, if_pos rfl, backslashTurn, hescape]
    dsimp only
    rw [hout]
  rw [hdouble]
  exact whole_next hturn

/-- A literal is read as its text or as something that is shorter. -/
theorem whole_double_cases (t : Text) :
  (HarmlessBackslashes t
      ∧ escapedString.whole (escapedString.double t ++ ['\'']) = some (Utf8.encode t))
    ∨ (¬HarmlessBackslashes t
      ∧ ∀ out, escapedString.whole (escapedString.double t ++ ['\'']) = some out →
        out.length < (Utf8.encode t).length)
  := by
  induction hn : t.length using Nat.strong_induction_on generalizing t with
  | _ n ih =>
    match t with
    | [] => exact .inl ⟨trivial, rfl⟩
    | c :: t' =>
      by_cases hc : c = '\\'
      · subst hc
        match t' with
        | [] =>
          refine .inr ⟨by simp [HarmlessBackslashes], fun out hout => ?_⟩
          cases hout
        | d :: t' =>
          by_cases hd : d = '\''
          · subst hd
            refine .inr ⟨by simp [harmless_backslash], fun out hout => ?_⟩
            have hturn : escapedString.turn () '\\'
                ('\'' :: ('\'' :: (escapedString.double t' ++ ['\'']))) = .next () [39] 1 := rfl
            have hnone := whole_next hturn
            rw [List.drop_one, List.tail_cons, whole_quote_double] at hnone
            exact absurd (hnone.symm.trans hout) (by simp)
          · obtain ⟨first, hfirst, hlength⟩ :=
              mysqlEscape_cons d (escapedString.double t' ++ ['\''])
            have hshorter : t'.length < n := by
              rw [← hn, List.length_cons, List.length_cons]
              omega
            have hencode : Utf8.encode ('\\' :: d :: t')
                = Utf8.encode ['\\', d] ++ Utf8.encode t' := Utf8.encode_append ['\\', d] t'
            rw [whole_double_backslash hd hfirst, harmless_backslash, hencode]
            by_cases hleft : d = '%' ∨ d = '_'
            · rw [if_pos hleft] at hlength
              subst hlength
              rcases ih _ hshorter t' rfl with ⟨hharmless, hwhole⟩ | ⟨hharmless, hless⟩
              · exact .inl ⟨⟨hleft, hharmless⟩, by rw [hwhole]; rfl⟩
              · refine .inr ⟨fun h => hharmless h.2, fun out hout => ?_⟩
                obtain ⟨later, hlater, rfl⟩ := Option.map_eq_some_iff.mp hout
                have hlt := hless later hlater
                rw [List.length_append, List.length_append]
                omega
            · rw [if_neg hleft] at hlength
              refine .inr ⟨fun h => hleft h.1, fun out hout => ?_⟩
              obtain ⟨later, hlater, rfl⟩ := Option.map_eq_some_iff.mp hout
              have hle : later.length ≤ (Utf8.encode t').length := by
                rcases ih _ hshorter t' rfl with ⟨-, hwhole⟩ | ⟨-, hless⟩
                · rw [hwhole] at hlater
                  rw [Option.some.inj hlater]
                · exact (hless later hlater).le
              rw [List.length_append, List.length_append]
              omega
      · have hshorter : t'.length < n := by
          rw [← hn, List.length_cons]
          omega
        have hencode : Utf8.encode (c :: t') = Utf8.encode [c] ++ Utf8.encode t' :=
          Utf8.encode_append [c] t'
        rw [whole_double_cons hc, harmless_cons hc, hencode]
        rcases ih _ hshorter t' rfl with ⟨hharmless, hwhole⟩ | ⟨hharmless, hless⟩
        · exact .inl ⟨hharmless, by rw [hwhole]; rfl⟩
        · refine .inr ⟨hharmless, fun out hout => ?_⟩
          obtain ⟨later, hlater, rfl⟩ := Option.map_eq_some_iff.mp hout
          have hlt := hless later hlater
          rw [List.length_append, List.length_append]
          omega

theorem mysqlLiteral_quoteLiteral_iff (s : Text) :
  mysqlLiteral false (quoteLiteral s) = some (Utf8.encode s) ↔ HarmlessBackslashes s
  := by
  have hread : mysqlLiteral false (quoteLiteral s)
      = escapedString.whole (escapedString.double s ++ ['\'']) := rfl
  rw [hread]
  rcases whole_double_cases s with ⟨hharmless, hwhole⟩ | ⟨hharmless, hless⟩
  · exact iff_of_true hwhole hharmless
  · apply iff_of_false _ hharmless
    intro hwhole
    exact absurd (hless _ hwhole) (lt_irrefl _)

end Db
