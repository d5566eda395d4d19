import Catio.Db.Dialect

/-!
# The SQL file splitter

The streaming splitter of `sql_file.rs`.  `processChar` is one turn of the loop of `process_chunk`,
at a character with the rest of the chunk; `pushChunk` and `finish` are the entry points, and
`splitSqlStatementsForDatabase` is the one-shot split.  Positions by bytes are prefixes and suffixes
of the buffer here.
-/

namespace Db

open Scan Text

/-- The lexical options of a dialect. -/
structure SqlParsingOptions where
  supportsHashLineComments : Bool := false
  supportsBackslashEscapes : Bool := false
  deriving DecidableEq

def SqlParsingOptions.forDatabaseType (dbType : DatabaseType) : SqlParsingOptions where
  supportsHashLineComments := dbType = .mysql
  supportsBackslashEscapes := dbType = .mysql

structure SqlStatementSplitter where
  buffer : Text := []
  pendingInput : Text := []
  inSingleQuote : Bool := false
  inDoubleQuote : Bool := false
  inBacktick : Bool := false
  inLineComment : Bool := false
  inBlockComment : Bool := false
  dollarQuoteTag : Option Text := none
  previous : Option Char := none
  customDelimiter : Option Text := none
  options : SqlParsingOptions := {}
  deriving DecidableEq

/-! ### Helpers -/

/-- The turn of `has_executable_sql` at a character. -/
def hasExecutableSqlTurn (options : SqlParsingOptions) :
    Bool × Bool × Option Char → Char → Text → Turn (Bool × Bool × Option Char) Unit Bool
  | (inLineComment, inBlockComment, previous), ch, rest =>
      if inLineComment then
        .next (ch ≠ '\n', inBlockComment, some ch) [] 0
      else if inBlockComment then
        .next (false, ¬ (previous = some '*' ∧ ch = '/'), some ch) [] 0
      else if ch = '-' ∧ rest.head? = some '-' then
        .next (true, false, some ch) [] 0
      else if options.supportsHashLineComments ∧ ch = '#' then
        .next (true, false, some ch) [] 0
      else if ch = '/' ∧ rest.head? = some '*' then
        .next (false, true, some ch) [] 0
      else if ¬ isWhitespace ch then
        .stop true
      else
        .next (false, false, some ch) [] 0

/-- Whether a fragment holds anything besides comments and white space. -/
def hasExecutableSql (statement : Text) (options : SqlParsingOptions) : Bool :=
  (loop (hasExecutableSqlTurn options) (fun _ => false) 0 (false, false, none) statement).2

/-- The rest of a dollar-quote tag after its first name character, up to the closing
dollar sign. -/
def dollarTagTail : Text → Option Text
  | [] => none
  | c :: cs =>
      if c = '$' then some ['$']
      else if isWordChar c then (dollarTagTail cs).map (c :: ·)
      else none

def dollarQuoteTagAt : Text → Option Text
  | '$' :: '$' :: _ => some ['$', '$']
  | '$' :: c :: cs => if isWordStart c then (dollarTagTail cs).map ('$' :: c :: ·) else none
  | _ => none

/-- The new delimiter of a `DELIMITER` command line. -/
def parseDelimiterCommand (line : Text) : Option Text :=
  let rest :=
    if line.length > 10
        ∧ (eqIgnoreAsciiCase (line.take 10) "delimiter "
          ∨ eqIgnoreAsciiCase (line.take 10) "delimiter\t") then
      some (line.drop 10)
    else none
  (rest.map trim).filter (· ≠ [])

namespace SqlStatementSplitter

def withOptions (options : SqlParsingOptions) : SqlStatementSplitter :=
  { options := options }

/-- Characters pushed onto the buffer one by one. -/
def push (s : SqlStatementSplitter) (cs : Text) : SqlStatementSplitter :=
  { s with buffer := s.buffer ++ cs, previous := cs.getLast?.or s.previous }

/-- Whether an odd number of backslashes ends the buffer, where backslashes escape. -/
def quoteIsEscaped (s : SqlStatementSplitter) : Bool :=
  s.options.supportsBackslashEscapes
    && (s.buffer.rtakeWhile (· = '\\')).length % 2 == 1

/-- Whether the last line of the buffer starts like a `DELIMITER` command. -/
def onDelimiterLine (s : SqlStatementSplitter) : Bool :=
  let line := trimStart (lastLine s.buffer)
  line.length ≥ 9 && eqIgnoreAsciiCase (line.take 9) "delimiter"

/-- The buffer as a statement, if it is executable, and the splitter with an empty
buffer. -/
def pushCurrentStatement (s : SqlStatementSplitter) : SqlStatementSplitter × List Text :=
  let statement := trim s.buffer
  ({ s with buffer := [], previous := none },
    if hasExecutableSql statement s.options then [statement] else [])

/-- Neither in a string nor in a quoted identifier. -/
def unquoted (s : SqlStatementSplitter) : Bool :=
  !s.inSingleQuote && !s.inDoubleQuote && !s.inBacktick

/-! ### One turn of `process_chunk` -/

/-- The turns of the splitter: the result is the state and the input held back. -/
abbrev SplitTurn :=
  Turn SqlStatementSplitter Text (SqlStatementSplitter × Text)

/-- The turn inside a dollar-quoted body with tag `tag`. -/
def dollarBodyTurn (finalChunk : Bool) (s : SqlStatementSplitter) (tag : Text) (ch : Char)
    (rest : Text) : SplitTurn :=
  if !finalChunk ∧ (ch :: rest).length < tag.length ∧ (ch :: rest).isPrefixOf tag then
    .stop (s, ch :: rest)
  else if tag.isPrefixOf (ch :: rest) then
    .next { s.push tag with dollarQuoteTag := none } [] (tag.length - 1)
  else
    .next (s.push [ch]) [] 0

def lineCommentTurn (s : SqlStatementSplitter) (ch : Char) : SplitTurn :=
  .next { s.push [ch] with inLineComment := ch ≠ '\n' } [] 0

def blockCommentTurn (s : SqlStatementSplitter) (ch : Char) : SplitTurn :=
  .next { s.push [ch] with inBlockComment := ¬ (s.previous = some '*' ∧ ch = '/') } [] 0

/-- The input may be the start of an opener of a comment or dollar quote whose rest is in the next
chunk. -/
def holdsBack (s : SqlStatementSplitter) (ch : Char) (rest : Text) : Bool :=
  (rest = [] ∧ (ch = '-' ∨ ch = '/'))
    ∨ (ch = '$' ∧ s.customDelimiter = none ∧ !s.onDelimiterLine
      ∧ rest.head?.all isWordStart ∧ rest.all isWordChar)

/-- The dollar-quote tag that starts here, unless a custom delimiter is set or the line is a
`DELIMITER` command. -/
def dollarOpener (s : SqlStatementSplitter) (ch : Char) (rest : Text) : Option Text :=
  if s.customDelimiter = none ∧ !s.onDelimiterLine then dollarQuoteTagAt (ch :: rest)
  else none

/-- The openers of comments and of dollar quotes; other characters are left to `quoteTurn`. -/
def openerTurn (s : SqlStatementSplitter) (ch : Char) (rest : Text) : Option SplitTurn :=
  if ch = '-' ∧ rest.head? = some '-' then
    some (.next { s.push [ch] with inLineComment := true } [] 0)
  else if s.options.supportsHashLineComments ∧ ch = '#' then
    some (.next { s.push [ch] with inLineComment := true } [] 0)
  else if ch = '/' ∧ rest.head? = some '*' then
    some (.next { s.push [ch] with inBlockComment := true } [] 0)
  else
    (s.dollarOpener ch rest).map fun tag =>
      .next { s.push tag with dollarQuoteTag := some tag } [] (tag.length - 1)

/-- The character pushed onto the buffer, with the quotes it opens or closes, or the
statement it terminates. -/
def matchChar (s : SqlStatementSplitter) (ch : Char) : SqlStatementSplitter × List Text :=
  let kept := { s with buffer := s.buffer ++ [ch] }
  if ch = '\'' ∧ !s.inDoubleQuote ∧ !s.inBacktick ∧ !s.quoteIsEscaped then
    ({ kept with inSingleQuote := !s.inSingleQuote }, [])
  else if ch = '"' ∧ !s.inSingleQuote ∧ !s.inBacktick ∧ !s.quoteIsEscaped then
    ({ kept with inDoubleQuote := !s.inDoubleQuote }, [])
  else if ch = '`' ∧ !s.inSingleQuote ∧ !s.inDoubleQuote then
    ({ kept with inBacktick := !s.inBacktick }, [])
  else if ch = ';' ∧ s.unquoted then
    if s.customDelimiter.isSome then (kept, []) else s.pushCurrentStatement
  else
    (kept, [])

/-- The custom delimiter at the end of the buffer terminates the statement. -/
def customDelimiterTurn (s : SqlStatementSplitter) : SqlStatementSplitter × List Text :=
  match s.customDelimiter with
  | some delim =>
      if delim.isSuffixOf s.buffer then
        { s with buffer := dropEnd s.buffer delim.length }.pushCurrentStatement
      else (s, [])
  | none => (s, [])

/-- A line that has ended as a `DELIMITER` command: the text before it is a statement. -/
def delimiterLine (s : SqlStatementSplitter) : Option (SqlStatementSplitter × List Text) :=
  let complete := s.buffer.dropLast
  match parseDelimiterCommand (trim (lastLine complete)) with
  | some newDelim =>
      let before := trim (beforeLastLine complete)
      some ({ s with
          customDelimiter := if newDelim = [';'] then none else some newDelim
          buffer := []
          previous := none },
        if beforeLastLine complete ≠ [] ∧ hasExecutableSql before s.options then [before]
        else [])
  | none => none

/-- The turn on a character that opens no comment and no dollar quote. -/
def quoteTurn (s : SqlStatementSplitter) (ch : Char) : SplitTurn :=
  let (s₁, out₁) := s.matchChar ch
  if s₁.unquoted ∧ s₁.dollarQuoteTag = none then
    match (if ch = '\n' then s₁.delimiterLine else none) with
    | some (s₂, out₂) => .next s₂ (out₁ ++ out₂) 0
    | none =>
        let (s₂, out₂) := s₁.customDelimiterTurn
        .next { s₂ with previous := some ch } (out₁ ++ out₂) 0
  else
    .next { s₁ with previous := some ch } out₁ 0

/-- One turn of the loop of `process_chunk`. -/
def processChar (finalChunk : Bool) (s : SqlStatementSplitter) (ch : Char) (rest : Text) :
    SplitTurn :=
  match s.dollarQuoteTag with
  | some tag => s.dollarBodyTurn finalChunk tag ch rest
  | none =>
      if s.inLineComment then s.lineCommentTurn ch
      else if s.inBlockComment then s.blockCommentTurn ch
      else if s.unquoted then
        if !finalChunk ∧ s.holdsBack ch rest then .stop (s, ch :: rest)
        else (s.openerTurn ch rest).getD (s.quoteTurn ch)
      else s.quoteTurn ch

/-- Outside of quotes, comments and dollar quotes. -/
structure InCode (s : SqlStatementSplitter) : Prop where
  dollar : s.dollarQuoteTag = none
  line : s.inLineComment = false
  block : s.inBlockComment = false
  single : s.inSingleQuote = false
  double : s.inDoubleQuote = false
  backtick : s.inBacktick = false

theorem InCode.unquoted {s : SqlStatementSplitter} (h : s.InCode) :
  s.unquoted = true
  := by
  simp [SqlStatementSplitter.unquoted, h.single, h.double, h.backtick]

section

variable {finalChunk : Bool} {s : SqlStatementSplitter} {ch : Char} {rest : Text}

theorem processChar_dollar {tag : Text} (h : s.dollarQuoteTag = some tag) :
  s.processChar finalChunk ch rest = s.dollarBodyTurn finalChunk tag ch rest
  := by
  simp [processChar, h]

theorem processChar_line (hd : s.dollarQuoteTag = none) (h : s.inLineComment = true) :
  s.processChar finalChunk ch rest = s.lineCommentTurn ch
  := by
  simp [processChar, hd, h]

theorem processChar_block (hd : s.dollarQuoteTag = none) (hl : s.inLineComment = false)
    (h : s.inBlockComment = true) :
  s.processChar finalChunk ch rest = s.blockCommentTurn ch
  := by
  simp [processChar, hd, hl, h]

theorem processChar_quoted (hd : s.dollarQuoteTag = none) (hl : s.inLineComment = false)
    (hb : s.inBlockComment = false) (h : s.unquoted = false) :
  s.processChar finalChunk ch rest = s.quoteTurn ch
  := by
  simp [processChar, hd, hl, hb, h]

theorem processChar_code (h : s.InCode) :
  s.processChar finalChunk ch rest
    = if !finalChunk ∧ s.holdsBack ch rest then .stop (s, ch :: rest)
      else (s.openerTurn ch rest).getD (s.quoteTurn ch)
  := by
  simp [processChar, h.dollar, h.line, h.block, h.unquoted]

theorem modes (s : SqlStatementSplitter) :
  (∃ tag, s.dollarQuoteTag = some tag)
    ∨ (s.dollarQuoteTag = none ∧ s.inLineComment = true)
    ∨ (s.dollarQuoteTag = none ∧ s.inLineComment = false ∧ s.inBlockComment = true)
    ∨ (s.dollarQuoteTag = none ∧ s.inLineComment = false ∧ s.inBlockComment = false
        ∧ s.unquoted = false)
    ∨ s.InCode
  := by
  cases hd : s.dollarQuoteTag with
  | some tag => exact .inl ⟨tag, rfl⟩
  | none =>
    right
    cases hl : s.inLineComment with
    | true => exact .inl ⟨rfl, rfl⟩
    | false =>
      right
      cases hb : s.inBlockComment with
      | true => exact .inl ⟨rfl, rfl, rfl⟩
      | false =>
        right
        cases hu : s.unquoted with
        | false => exact .inl ⟨rfl, rfl, rfl, rfl⟩
        | true =>
          right
          simp only [SqlStatementSplitter.unquoted, Bool.and_eq_true,
            Bool.not_eq_true'] at hu
          exact ⟨hd, hl, hb, hu.1.1, hu.1.2, hu.2⟩

end

/-! ### The splitter -/

/-- The loop of `process_chunk`: the statements, the state and the input held back. -/
def processChunk (s : SqlStatementSplitter) (chunk : Text) (finalChunk : Bool) :
    List Text × SqlStatementSplitter :=
  let (statements, s', pending) :=
    loop (processChar finalChunk) nothingHeld 0 s chunk
  (statements, { s' with pendingInput := s'.pendingInput ++ pending })

def pushChunk (s : SqlStatementSplitter) (chunk : Text) : List Text × SqlStatementSplitter :=
  if s.pendingInput = [] then s.processChunk chunk false
  else { s with pendingInput := [] }.processChunk (s.pendingInput ++ chunk) false

/-- The bytes kept in the buffer and in the input held back. -/
def bufferedBytes (s : SqlStatementSplitter) : ℕ :=
  utf8Len s.buffer + utf8Len s.pendingInput

/-- The buffer at the end of the input: a last `DELIMITER` line is dropped, and so is a
custom delimiter at the end. -/
def finishBuffer (s : SqlStatementSplitter) : SqlStatementSplitter × List Text :=
  let trimmed := trim s.buffer
  if (parseDelimiterCommand (trim (lastLine trimmed))).isSome then
    let before := trim (beforeLastLine trimmed).dropLast
    ({ s with buffer := [] }, if hasExecutableSql before s.options then [before] else [])
  else
    match s.customDelimiter with
    | some delim =>
        if delim.isSuffixOf s.buffer then
          ({ s with buffer := dropEnd s.buffer delim.length }, [])
        else (s, [])
    | none => (s, [])

/-- Read what was held back and emit what is left. -/
def finish (s : SqlStatementSplitter) : List Text :=
  let (statements, s₁) := { s with pendingInput := [] }.processChunk s.pendingInput true
  let (s₂, last) := s₁.finishBuffer
  statements ++ last ++ s₂.pushCurrentStatement.2

end SqlStatementSplitter

/-- Split a whole script. -/
def splitSqlStatementsForDatabase (sql : Text) (dbType : DatabaseType) : List Text :=
  let splitter := SqlStatementSplitter.withOptions (.forDatabaseType dbType)
  let (statements, splitter) := splitter.pushChunk sql
  statements ++ splitter.finish

end Db
