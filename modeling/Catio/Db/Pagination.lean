import Catio.Db.Dialect

/-!
# The single-statement gate

The model of `pagination.rs`: `shape` reads a text as one statement and collects its words,
`readQuery` and `batchStatement` accept statements for paging and for atomic batches, and
`buildPagePlan` builds the query of a page.  The source compares bytes with ASCII characters only,
so other characters are read as a whole here.
-/

namespace Db

open Scan Text

def MAX_PAGE_SIZE : ℕ := 10000

/-- The largest window that is paged on the client. -/
def MAX_CLIENT_WINDOW : ℕ := 1000000

/-- A word of a statement, in upper case, and the parentheses around it. -/
structure Word where
  text : Text
  depth : ℕ
  deriving DecidableEq

/-- The error on a text that is not one complete statement. -/
def invalidShape : DbError :=
  .queryFailed "Pagination requires one complete read query"

/-! ### Lexical units -/

/-- The length of a block comment behind its opener, with so many comments open. -/
def commentLength : ℕ → Text → Option ℕ
  | _, [] => none
  | nesting, '/' :: '*' :: rest => (commentLength (nesting + 1) rest).map (· + 2)
  | nesting, '*' :: '/' :: rest =>
      if nesting = 1 then some 2 else (commentLength (nesting - 1) rest).map (· + 2)
  | nesting, _ :: rest => (commentLength nesting rest).map (· + 1)

/-- The length of a quoted text behind its opener, with its closing quote.  A doubled quote
stands for itself. -/
def quotedLength (escapes : Bool) (close : Char) : Text → Option ℕ
  | [] => none
  | [c] => if ¬ (escapes ∧ c = '\\') ∧ c = close then some 1 else none
  | c :: d :: rest =>
      if escapes ∧ c = '\\' then (quotedLength escapes close rest).map (· + 2)
      else if c = close then
        if d = close then (quotedLength escapes close rest).map (· + 2) else some 1
      else (quotedLength escapes close (d :: rest)).map (· + 1)

/-- The position of a text in another one. -/
def findText (part : Text) : Text → Option ℕ
  | [] => if part = [] then some 0 else none
  | c :: rest =>
      if part.isPrefixOf (c :: rest) then some 0 else (findText part rest).map (· + 1)

/-- The length of a dollar-quoted text: `none` without a tag, `some none` if it is not closed. -/
def dollarLength (rest : Text) : Option (Option ℕ) :=
  let name := rest.takeWhile isWordChar
  match rest.drop name.length with
  | '$' :: body =>
      let tag := '$' :: name ++ ['$']
      some ((findText tag body).map fun close => name.length + 1 + close + tag.length)
  | _ => none

/-- The characters of a word behind its first one. -/
def isWordTail (c : Char) : Bool :=
  isWordChar c || c == '$'

/-! ### The loop of `shape` -/

/-- The position, the one behind the last significant character, the open parentheses, the
terminator, and the character before. -/
structure ShapeState where
  pos : ℕ := 0
  last : ℕ := 0
  depth : ℕ := 0
  ended : Bool := false
  previous : Option Char := none
  deriving DecidableEq

/-- Behind insignificant characters. -/
def ShapeState.pass (s : ShapeState) (chars : Text) : ShapeState :=
  { s with pos := s.pos + chars.length, previous := chars.getLast?.or s.previous }

/-- Behind significant characters. -/
def ShapeState.take (s : ShapeState) (chars : Text) : ShapeState :=
  { s.pass chars with last := s.pos + chars.length }

/-- The turns of `shape`. -/
abbrev ShapeTurn :=
  Turn ShapeState Word (Except DbError ShapeState)

/-- Go on behind `n` insignificant characters besides this one. -/
def passTurn (s : ShapeState) (ch : Char) (rest : Text) (n : ℕ) : ShapeTurn :=
  .next (s.pass (ch :: rest.take n)) [] n

/-- Go on behind `n` significant characters besides this one. -/
def takeTurn (s : ShapeState) (ch : Char) (rest : Text) (n : ℕ) : ShapeTurn :=
  .next (s.take (ch :: rest.take n)) [] n

def opensLineComment (db : DatabaseType) (ch : Char) (rest : Text) : Bool :=
  (ch = '-' ∧ rest.head? = some '-') ∨ (db = .mysql ∧ ch = '#')

/-- The comment is executed by the server. -/
def isExecutableComment (db : DatabaseType) (rest : Text) : Bool :=
  db = .mysql ∧ (['*', '!'].isPrefixOf rest ∨ ['*', 'M', '!'].isPrefixOf rest)

def blockTurn (db : DatabaseType) (s : ShapeState) (ch : Char) (rest : Text) : ShapeTurn :=
  if isExecutableComment db rest then
    .stop (.error (.unsupported
      "Executable SQL comments cannot be paginated or used in an atomic batch"))
  else
    match commentLength 1 (rest.drop 1) with
    | some n => passTurn s ch rest (n + 1)
    | none => .stop (.error invalidShape)

/-- The opening characters of strings and quoted identifiers. -/
def isQuote (c : Char) : Bool :=
  c == '\'' || c == '"' || c == '`' || c == '['

/-- The closing character of a quoted text. -/
def closingQuote (quote : Char) : Char :=
  if quote = '[' then ']' else quote

/-- Whether a backslash escapes inside of a quoted text. -/
def quoteEscapes (db : DatabaseType) (previous : Option Char) (quote : Char) : Bool :=
  db = .mysql ∨ ((db = .postgres ∨ db = .duckdb) ∧ quote = '\''
    ∧ (previous = some 'e' ∨ previous = some 'E'))

def quotedTurn (db : DatabaseType) (s : ShapeState) (ch : Char) (rest : Text) : ShapeTurn :=
  match quotedLength (quoteEscapes db s.previous ch) (closingQuote ch) rest with
  | some n => takeTurn s ch rest n
  | none => .stop (.error invalidShape)

/-- The turn at any other significant character. -/
def plainTurn (s : ShapeState) (ch : Char) (rest : Text) : ShapeTurn :=
  if ch = '(' then .next { s.take [ch] with depth := s.depth + 1 } [] 0
  else if ch = ')' then
    if s.depth = 0 then .stop (.error invalidShape)
    else .next { s.take [ch] with depth := s.depth - 1 } [] 0
  else if isWordStart ch then
    let tail := rest.takeWhile isWordTail
    .next (s.take (ch :: tail)) [⟨toAsciiUppercase (ch :: tail), s.depth⟩] tail.length
  else takeTurn s ch rest 0

/-- Dollar quotes of the dialect. -/
def dollarUnit (db : DatabaseType) (ch : Char) (rest : Text) : Option (Option ℕ) :=
  if ch = '$' ∧ (db = .postgres ∨ db = .duckdb) then dollarLength rest else none

/-- One turn of the loop of `shape`. -/
def shapeTurn (db : DatabaseType) (s : ShapeState) (ch : Char) (rest : Text) : ShapeTurn :=
  if isAsciiWhitespace ch then passTurn s ch rest 0
  else if opensLineComment db ch rest then
    passTurn s ch rest (rest.takeWhile (· ≠ '\n')).length
  else if ch = '/' ∧ rest.head? = some '*' then blockTurn db s ch rest
  else if ch = ';' then
    if s.depth ≠ 0 then .stop (.error invalidShape)
    else .next { s.pass [ch] with ended := true } [] 0
  else if s.ended then .stop (.error invalidShape)
  else if isQuote ch then quotedTurn db s ch rest
  else
    match dollarUnit db ch rest with
    | some (some n) => takeTurn s ch rest n
    | some none => .stop (.error invalidShape)
    | none => plainTurn s ch rest

/-- The significant part of a text that is one statement, and its words. -/
def shape (db : DatabaseType) (sql : Text) : Except DbError (Text × List Word) :=
  match loop (shapeTurn db) Except.ok 0 {} sql with
  | (_, .error e) => .error e
  | (words, .ok s) =>
      if s.depth ≠ 0 ∨ words = [] then .error invalidShape
      else .ok (trim (sql.take s.last), words)

/-! ### The gates -/

def statementWords (db : DatabaseType) (sql : Text) : Except DbError (List Text) :=
  (shape db sql).map fun (_, words) => words.map Word.text

def readWords : List Text :=
  ["SELECT", "WITH", "TABLE", "VALUES"]

/-- The words that no read query may hold. -/
def forbiddenWords : List Text :=
  ["INSERT", "UPDATE", "DELETE", "MERGE", "REPLACE", "CREATE", "ALTER", "DROP", "TRUNCATE",
    "CALL", "EXEC", "EXECUTE", "INTO", "LOCK", "COPY"]

/-- The first words of a statement of an atomic batch. -/
def batchWords : List Text :=
  ["INSERT", "UPDATE", "DELETE", "MERGE", "REPLACE"]

def startsWith (words : List Word) (first : List Text) : Bool :=
  words.head?.any fun word => word.text ∈ first

/-- A read query, without trailing comments and terminators. -/
def readQuery (db : DatabaseType) (sql : Text) : Except DbError Text := do
  let (source, words) ← shape db sql
  if ¬ startsWith words readWords then
    .error (.unsupported "Pagination is only available for read queries")
  else if words.any fun word => word.text ∈ forbiddenWords then
    .error (.unsupported "A mutating or locking statement cannot be paginated")
  else .ok source

/-- A statement of an atomic batch, with its terminator. -/
def batchStatement (db : DatabaseType) (sql : Text) : Except DbError Text := do
  let (source, words) ← shape db sql
  if ¬ startsWith words batchWords then
    .error (.unsupported ("Atomic batches accept only INSERT/UPDATE/DELETE/MERGE/REPLACE, "
      ++ "not DDL or transaction control"))
  else .ok (source ++ [';'])

/-! ### Paging -/

/-- The query of a page: what to fetch of it and what to skip. -/
structure PagePlan where
  sql : Text
  fetchRows : ℕ
  skipRows : ℕ
  deriving DecidableEq

/-- Reject an empty and a too large page. -/
def validateLimit (limit : ℕ) : Except DbError Unit :=
  if limit = 0 ∨ limit > MAX_PAGE_SIZE then
    .error (.queryFailed ("Page size must be between 1 and " ++ ofNat MAX_PAGE_SIZE))
  else .ok ()

/-- The words outside of parentheses. -/
def topWords (words : List Word) : List Text :=
  (words.filter (·.depth = 0)).map Word.text

/-- `ORDER BY` stands outside of parentheses. -/
def isOrdered (top : List Text) : Bool :=
  (top.zip top.tail).contains ("ORDER".toList, "BY".toList)

/-- The query of a page, limited by itself, by the dialect's paging clause or by the window that is
fetched. -/
def buildPagePlan (db : DatabaseType) (sql : Text) (limit offset : ℕ) :
    Except DbError PagePlan := do
  validateLimit limit
  if db ∈ [DatabaseType.mongodb, .redis, .elasticsearch] then
    .error (.unsupported "Use the engine's native document/key pagination")
  else do
    let source ← readQuery db sql
    let (_, words) ← shape db source
    let top := topWords words
    let existingLimit := top.any fun w =>
      w ∈ (["LIMIT".toList, "OFFSET".toList, "FETCH".toList, "TOP".toList] : List Text)
    if db = .jdbc ∨ (db = .sqlserver ∧ (existingLimit ∨ top.head? = some "WITH".toList)) then
      let window := offset + limit + 1
      if window < 2 ^ 32 ∧ window ≤ MAX_CLIENT_WINDOW then
        .ok { sql := source, fetchRows := window, skipRows := offset }
      else
        .error (.unsupported ("This query needs cursor pagination; narrow the query before "
          ++ "paging beyond one million rows"))
    else
      let fetch := limit + 1
      let paged :=
        if db = .sqlserver then
          let order : Text := if isOrdered top then [] else " ORDER BY (SELECT NULL)"
          source ++ "\n" ++ order ++ " OFFSET " ++ ofNat offset ++ " ROWS FETCH NEXT "
            ++ ofNat fetch ++ " ROWS ONLY"
        else if existingLimit then
          "SELECT * FROM (\n" ++ source ++ "\n) AS __catio_page LIMIT " ++ ofNat fetch
            ++ " OFFSET " ++ ofNat offset
        else source ++ "\nLIMIT " ++ ofNat fetch ++ " OFFSET " ++ ofNat offset
      .ok { sql := paged, fetchRows := fetch, skipRows := 0 }

end Db
