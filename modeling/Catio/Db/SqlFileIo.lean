import Catio.Db.Driver
import Catio.Db.SqlFile

/-!
# SQL files

The model of `sql_file_io.rs`.  A file is read in chunks, decoded and split, and its statements are
written to a private spool before any of them is executed; then they are read back and sent one by
one.  The file system, the clock, the cancellation token and the driver are outside; the digest is a
parameter.
-/

namespace Db

open Text

def READ_CHUNK_BYTES : ℕ := 64 * 1024

/-- The limit on the bytes of one statement. -/
def MAX_STATEMENT_BYTES : ℕ := 8 * 1024 * 1024

def MAX_SQL_FILE_BYTES : ℕ := 200 * 1024 * 1024

/-- Reject a file that is too large. -/
def checkSqlFileSize (len : ℕ) : Except Text Unit :=
  if len > MAX_SQL_FILE_BYTES then
    .error ("SQL 文件过大（" ++ ofNat (len / (1024 * 1024)) ++ " MB），超过上限 "
      ++ ofNat (MAX_SQL_FILE_BYTES / (1024 * 1024)) ++ " MB；请拆分文件后再执行")
  else .ok ()

/-- A statement on one line of at most 120 characters. -/
def statementSummary (statement : Text) : Text :=
  (join [' '] (splitWhitespace statement)).take 120

/-! ### Decoding -/

inductive Encoding where
  | utf8
  | utf16Le
  | utf16Be
  deriving DecidableEq

def Encoding.name : Encoding → Text
  | .utf8 => "UTF-8"
  | .utf16Le => "UTF-16LE"
  | .utf16Be => "UTF-16BE"

/-- The bytes not yet decoded, the encoding once it is known, and a high surrogate that waits for
its low one. -/
structure Decoder where
  pending : Bytes := []
  encoding : Option Encoding := none
  high : Option ℕ := none
  deriving DecidableEq

namespace Decoder

/-- The error on a byte order mark of UTF-32. -/
def unsupportedEncoding : DbError :=
  .io "UTF-32 SQL files are unsupported; save as UTF-8 or BOM-marked UTF-16"

/-- The error on bytes that are no text. -/
def invalidEncoding : DbError :=
  .io "Invalid or incomplete SQL file encoding; save as UTF-8 or BOM-marked UTF-16"

/-- The encoding of a file and the length of its byte order mark. -/
def detect (p : Bytes) : Except DbError (Encoding × ℕ) :=
  if [0, 0, 0xfe, 0xff].isPrefixOf p ∨ [0xff, 0xfe, 0, 0].isPrefixOf p then
    .error unsupportedEncoding
  else if [0xef, 0xbb, 0xbf].isPrefixOf p then .ok (.utf8, 3)
  else if [0xff, 0xfe].isPrefixOf p then .ok (.utf16Le, 2)
  else if [0xfe, 0xff].isPrefixOf p then .ok (.utf16Be, 2)
  else .ok (.utf8, 0)

/-- Decode the pending bytes as UTF-8.  Before the last bytes an incomplete character at
the end stays pending. -/
def pushUtf8 (d : Decoder) (last : Bool) : Except DbError (Text × Decoder) :=
  let (text, failure) := Utf8.fromUtf8 d.pending
  let checked (rest : Bytes) : Except DbError (Text × Decoder) :=
    if '\x00' ∈ text then .error invalidEncoding
    else .ok (text, { d with pending := rest })
  match failure with
  | none => checked []
  | some (.incomplete rest) => if last then .error invalidEncoding else checked rest
  | some (.invalid _ _) => .error invalidEncoding

/-- The pairs of bytes, and the byte that is left over. -/
def pairs : Bytes → List (UInt8 × UInt8) × Bytes
  | a :: b :: rest => ((a, b) :: (pairs rest).1, (pairs rest).2)
  | rest => ([], rest)

/-- The code unit of two bytes. -/
def unit (encoding : Encoding) (pair : UInt8 × UInt8) : ℕ :=
  if encoding = .utf16Le then pair.1.toNat + 256 * pair.2.toNat
  else 256 * pair.1.toNat + pair.2.toNat

/-- The scalar value as a text of one character. -/
def pushScalar (n : ℕ) : Except DbError Text :=
  match charFromU32 n with
  | some c => .ok [c]
  | none => .error invalidEncoding

/-- One code unit, with the high surrogate that waits in front of it. -/
def pushUnit (high : Option ℕ) (unit : ℕ) : Except DbError (Text × Option ℕ) :=
  match high with
  | some high =>
      if ¬ (0xdc00 ≤ unit ∧ unit ≤ 0xdfff) then .error invalidEncoding
      else
        (pushScalar (0x10000 + ((high - 0xd800) * 1024 + (unit - 0xdc00)))).map (·, none)
  | none =>
      if 0xd800 ≤ unit ∧ unit ≤ 0xdbff then .ok ([], some unit)
      else if unit = 0 then .error invalidEncoding
      else (pushScalar unit).map (·, none)

/-- The code units in order. -/
def pushUnits (high : Option ℕ) : List ℕ → Except DbError (Text × Option ℕ)
  | [] => .ok ([], high)
  | unit :: units => do
      let (text, high) ← pushUnit high unit
      let (texts, high) ← pushUnits high units
      return (text ++ texts, high)

/-- Decode the pending bytes as UTF-16. -/
def pushUtf16 (d : Decoder) (encoding : Encoding) (last : Bool) :
    Except DbError (Text × Decoder) := do
  let (units, rest) := pairs d.pending
  let (text, high) ← pushUnits d.high (units.map (unit encoding))
  if last ∧ (rest ≠ [] ∨ high.isSome) then .error invalidEncoding
  else .ok (text, { d with pending := rest, high := high })

def decodePending (d : Decoder) (encoding : Encoding) (last : Bool) :
    Except DbError (Text × Decoder) :=
  match encoding with
  | .utf8 => d.pushUtf8 last
  | encoding => d.pushUtf16 encoding last

/-- Decode further bytes, after the encoding has been detected on the first four bytes. -/
def push (d : Decoder) (bytes : Bytes) (last : Bool) : Except DbError (Text × Decoder) :=
  let d := { d with pending := d.pending ++ bytes }
  match d.encoding with
  | some encoding => d.decodePending encoding last
  | none =>
      if d.pending.length < 4 ∧ !last then .ok ([], d)
      else do
        let (encoding, bom) ← detect d.pending
        { d with encoding := some encoding, pending := d.pending.drop bom }.decodePending
          encoding last

end Decoder

/-- The text of a whole file. -/
def decode (bytes : Bytes) : Except DbError Text :=
  (({} : Decoder).push bytes true).map Prod.fst

/-! ### Prepared files -/

/-- What is known of a file once it is prepared. -/
structure SqlFilePreview where
  fileName : Text
  sizeBytes : ℕ
  statementCount : ℕ
  fingerprint : Text
  encoding : Text
  deriving DecidableEq

/-- A prepared file: the rest of the spool and the statements that are left in it. -/
structure PreparedSqlFile where
  preview : SqlFilePreview
  spool : Bytes
  remaining : ℕ
  deriving DecidableEq

/-- A number as four bytes, the low byte first. -/
def u32Le (n : ℕ) : Bytes :=
  [.ofNat n, .ofNat (n / 256), .ofNat (n / 65536), .ofNat (n / 16777216)]

def readU32Le : Bytes → Except DbError (ℕ × Bytes)
  | a :: b :: c :: d :: rest =>
      .ok (a.toNat + 256 * b.toNat + 65536 * c.toNat + 16777216 * d.toNat, rest)
  | _ => .error (.io "early eof")

def readExact (len : ℕ) (bytes : Bytes) : Except DbError (Bytes × Bytes) :=
  if bytes.length < len then .error (.io "early eof")
  else .ok (bytes.take len, bytes.drop len)

def PreparedSqlFile.nextStatement (p : PreparedSqlFile) :
    Except DbError (Option Text × PreparedSqlFile) :=
  if p.remaining = 0 then
    .ok (none, p)
  else do
    let (len, spool) ← readU32Le p.spool
    if len > MAX_STATEMENT_BYTES then
      .error (.io "Invalid SQL statement spool")
    else do
      let (bytes, spool) ← readExact len spool
      match Utf8.fromUtf8 bytes with
      | (statement, none) =>
          .ok (some statement, { p with spool := spool, remaining := p.remaining - 1 })
      | _ => .error (.io "Invalid SQL statement spool encoding")

/-- Reject a statement that is too long. -/
def checkStatementBudget (bytes : ℕ) : Except DbError Unit :=
  if bytes > MAX_STATEMENT_BYTES then
    .error (.io "SQL statement exceeds the 8 MiB limit; split extended INSERT statements")
  else .ok ()

/-! ### The outside -/

/-- A chunk that a read delivers before the end of the file: it is not empty and not longer
than what is read at once. -/
structure ReadChunk where
  bytes : Bytes
  nonempty : bytes ≠ []
  bounded : bytes.length ≤ READ_CHUNK_BYTES
  deriving DecidableEq

/-- What the reads of a file deliver, up to its end: chunks or errors. -/
abbrev FileReads :=
  List (Except Text ReadChunk)

inductive TransactionState where
  | idle
  | active
  | manual
  | failed
  | unknown
  deriving DecidableEq

/-- The status of a progress report. -/
inductive SqlFileStatus where
  | started
  | running
  | statementDone
  | statementFailed
  | done
  | error
  | cancelled
  deriving DecidableEq

structure SqlFileProgress where
  executionId : Text
  status : SqlFileStatus
  statementIndex : ℕ
  total : ℕ
  successCount : ℕ
  failureCount : ℕ
  affectedRows : ℕ
  elapsedMs : ℕ
  statementSummary : Text
  error : Option Text
  phase : Option Text
  bytesRead : Option ℕ
  deriving DecidableEq

inductive SqlFileCall where
  | isCancelled
  | now
  | spoolIo
  | openFile (path : Text)
  | metadata (path : Text)
  | emit (report : SqlFileProgress)
  | forkQuerySession
  | queryCancellable (statement : Text)
  | transactionState
  | closeQuerySession
  deriving DecidableEq

/-- What each call answers: the spool its error, a file what its reads deliver, its metadata whether
it is regular and how long, and a query the rows it affected. -/
@[reducible]
def SqlFileCall.Answer : SqlFileCall → Type
  | .isCancelled => Bool
  | .now => ℕ
  | .spoolIo => Option Text
  | .openFile _ => Except Text FileReads
  | .metadata _ => Except Text (Bool × ℕ)
  | .emit _ => Unit
  | .forkQuerySession => Except DbError Unit
  | .queryCancellable _ => Except DbError (Option ℕ)
  | .transactionState => Except DbError TransactionState
  | .closeQuerySession => Except DbError Unit

/-- Programs of this module, with the state `σ` that their closures share. -/
abbrev SqlFileProgram (σ : Type) :=
  Program SqlFileCall SqlFileCall.Answer σ DbError

section

variable {σ : Type}

@[reducible]
def SqlFileCall.ask (c : SqlFileCall) : SqlFileProgram σ c.Answer :=
  Program.ask c

def failIfCancelled : SqlFileProgram σ Unit := do
  let cancelled ← SqlFileCall.isCancelled.ask
  if cancelled then .fail .cancelled else pure ()

def spoolIo : SqlFileProgram σ Unit := do
  match ← SqlFileCall.spoolIo.ask with
  | some error => .fail (.io error)
  | none => pure ()

/-! ### Preparing a file -/

/-- The locals of `prepare_reader`. -/
structure Preparing where
  splitter : SqlStatementSplitter
  decoder : Decoder := {}
  spool : Bytes := []
  digest : Bytes := []
  size : ℕ := 0
  total : ℕ := 0
  deriving DecidableEq

def spoolStatement (s : Preparing) (statement : Text) : SqlFileProgram σ Preparing := do
  failIfCancelled
  checkStatementBudget (utf8Len statement)
  spoolIo
  spoolIo
  return { s with
    spool := s.spool ++ u32Le (utf8Len statement) ++ Utf8.encode statement
    total := s.total + 1 }

/-- One turn of the loop of `prepare_reader`.  An empty chunk is the end of the file. -/
def prepareChunk (progress : ℕ → SqlFileProgram σ Unit) (s : Preparing)
    (read : Except Text Bytes) : SqlFileProgram σ Preparing := do
  failIfCancelled
  let chunk ← read.mapError DbError.io
  let last := chunk.length = 0
  let size := s.size + chunk.length
  (checkSqlFileSize size).mapError DbError.io
  let (text, decoder) ← s.decoder.push chunk last
  let (statements, splitter) := s.splitter.pushChunk text
  checkStatementBudget splitter.bufferedBytes
  let statements := if last then statements ++ splitter.finish else statements
  let s ← statements.foldlM spoolStatement
    { s with
      splitter := splitter
      decoder := decoder
      digest := s.digest ++ chunk
      size := size }
  progress size
  return s

/-- The chunks of a file in order, and then its end. -/
def prepareChunks (progress : ℕ → SqlFileProgram σ Unit) :
    Preparing → FileReads → SqlFileProgram σ Preparing
  | s, [] => prepareChunk progress s (.ok [])
  | s, read :: reads => do
      let s ← prepareChunk progress s (read.map ReadChunk.bytes)
      prepareChunks progress s reads

/-- Read, decode and split a whole file into the spool. -/
def prepareReader (sha256 : Bytes → Bytes) (reads : FileReads) (name : Text) (db : DatabaseType)
    (progress : ℕ → SqlFileProgram σ Unit) : SqlFileProgram σ PreparedSqlFile := do
  spoolIo
  let s ← prepareChunks progress
    { splitter := .withOptions (.forDatabaseType db) } reads
  failIfCancelled
  spoolIo
  spoolIo
  return {
    preview := {
      fileName := name
      sizeBytes := s.size
      statementCount := s.total
      fingerprint := (sha256 s.digest).flatMap hexByte
      encoding := (s.decoder.encoding.getD .utf8).name }
    spool := s.spool
    remaining := s.total }

/-- The last part of a path, if it names a file. -/
def fileName (path : Text) : Option Text :=
  let parts := (path.splitOn '/').filter fun part => part ≠ [] ∧ part ≠ ['.']
  parts.getLast?.filter (· ≠ ['.', '.'])

/-- Open a regular file that is not too large and prepare it. -/
def prepareSqlFile (sha256 : Bytes → Bytes) (path : Text) (db : DatabaseType)
    (progress : ℕ → SqlFileProgram σ Unit) : SqlFileProgram σ PreparedSqlFile := do
  failIfCancelled
  let opened ← (SqlFileCall.openFile path).ask
  let reads ← opened.mapError DbError.io
  let answered ← (SqlFileCall.metadata path).ask
  let (isFile, len) ← answered.mapError DbError.io
  if ¬ isFile then .fail (.io "SQL input must be a regular file")
  else do
    (checkSqlFileSize len).mapError DbError.io
    prepareReader sha256 reads ((fileName path).getD "query.sql") db progress

end

/-! ### Executing a file -/

structure SqlFileRequest where
  executionId : Text
  connId : Text
  filePath : Text
  continueOnError : Bool
  expectedFingerprint : Option Text
  deriving DecidableEq

/-- The variables of `execute_sql_file` that its closures share. -/
structure Execution where
  receipt : SqlFileProgress
  lastEmit : ℕ
  deriving DecidableEq

def startedReceipt (req : SqlFileRequest) : SqlFileProgress where
  executionId := req.executionId
  status := .started
  statementIndex := 0
  total := 0
  successCount := 0
  failureCount := 0
  affectedRows := 0
  elapsedMs := 0
  statementSummary := []
  error := none
  phase := some "preparing"
  bytesRead := some 0

def updateReceipt (f : SqlFileProgress → SqlFileProgress) : SqlFileProgram Execution Unit :=
  Program.update fun s => { s with receipt := f s.receipt }

def emitReceipt : SqlFileProgram Execution Unit := do
  let s ← Program.load
  (SqlFileCall.emit s.receipt).ask

/-- Emit the receipt with the time elapsed. -/
def emitElapsed (started : ℕ) : SqlFileProgram Execution Unit := do
  let now ← SqlFileCall.now.ask
  updateReceipt fun receipt => { receipt with elapsedMs := now - started }
  emitReceipt

/-- The progress callback of the preparation: it reports at most ten times a second. -/
def reportRead (started : ℕ) (read : ℕ) : SqlFileProgram Execution Unit := do
  updateReceipt fun receipt => { receipt with bytesRead := some read }
  let now ← SqlFileCall.now.ask
  let s ← Program.load
  if now - s.lastEmit ≥ 100 then do
    emitElapsed started
    let now ← SqlFileCall.now.ask
    Program.update fun s => { s with lastEmit := now }
  else pure ()

/-- Addition of `u64` values that stops at the largest one. -/
def saturatingAdd (a b : ℕ) : ℕ :=
  min (a + b) (2 ^ 64 - 1)

/-- Send a statement to the driver and report what becomes of it. -/
def executeStatement (req : SqlFileRequest) (started : ℕ) (statement : Text) :
    SqlFileProgram Execution Unit := do
  updateReceipt fun receipt => { receipt with
    statementIndex := receipt.statementIndex + 1
    statementSummary := Db.statementSummary statement
    status := .running }
  emitElapsed started
  match ← (SqlFileCall.queryCancellable statement).ask with
  | .ok rowsAffected => do
      updateReceipt fun receipt => { receipt with
        successCount := receipt.successCount + 1
        affectedRows := saturatingAdd receipt.affectedRows (rowsAffected.getD 0)
        status := .statementDone
        error := none }
      emitElapsed started
  | .error error => do
      let cancelled ← SqlFileCall.isCancelled.ask
      if cancelled ∨ error = .cancelled then .fail error
      else do
        updateReceipt fun receipt => { receipt with
          failureCount := receipt.failureCount + 1
          status := .statementFailed
          error := some error.toText }
        emitElapsed started
        if ¬ req.continueOnError then .fail error else pure ()

/-- The loop over the statements of a prepared file; a turn more than there are statements is enough
fuel. -/
def executeStatements (req : SqlFileRequest) (started : ℕ) :
    ℕ → PreparedSqlFile → SqlFileProgram Execution Unit
  | 0, _ => pure ()
  | fuel + 1, prepared => do
      let next ← liftM prepared.nextStatement
      match next with
      | (none, _) => failIfCancelled
      | (some statement, prepared) => do
          failIfCancelled
          executeStatement req started statement
          executeStatements req started fuel prepared

/-- The session answers that no transaction is open. -/
def confirmedIdle : Except DbError TransactionState → Bool
  | .ok .idle => true
  | _ => false

/-- Fork a session, where the driver has sessions. -/
def openSession (isolated : Bool) : SqlFileProgram Execution Unit :=
  if isolated then do
    let forked ← SqlFileCall.forkQuerySession.ask
    liftM forked
  else pure ()

/-- Close the session after an execution, which counts only if no transaction is left
open. -/
def closeSession (isolated : Bool) (execution : Except DbError Unit) :
    SqlFileProgram Execution Unit :=
  if isolated then do
    let state ← SqlFileCall.transactionState.ask
    let closed ← SqlFileCall.closeQuerySession.ask
    match closed with
    | .error error => .fail (.queryFailed
        ("SQL file session cleanup failed; verify the database before retrying: "
          ++ error.toText))
    | .ok () =>
        if execution.isOk ∧ ¬ confirmedIdle state then
          .fail (.queryFailed ("SQL file did not finish with a confirmed idle transaction; "
            ++ "session closed, verify committed changes before retrying"))
        else liftM execution
  else liftM execution

/-- Execute a prepared file, in a session of its own where the driver has sessions. -/
def executePrepared (driver : Driver) (req : SqlFileRequest) (started : ℕ)
    (prepared : PreparedSqlFile) : SqlFileProgram Execution Unit := do
  openSession driver.capabilities.querySessions
  let execution ← Program.attempt do
    updateReceipt fun receipt => { receipt with phase := some "executing" }
    executeStatements req started (prepared.remaining + 1) prepared
  closeSession driver.capabilities.querySessions execution

def prepareAndExecute (sha256 : Bytes → Bytes) (driver : Driver) (req : SqlFileRequest)
    (started : ℕ) : SqlFileProgram Execution Unit := do
  if driver.dbType ∈ [DatabaseType.redis, .mongodb, .elasticsearch] then
    .fail (.unsupported "SQL files require a SQL database driver")
  else do
    let now ← SqlFileCall.now.ask
    Program.update fun s => { s with lastEmit := now }
    let prepared ← prepareSqlFile sha256 req.filePath driver.dbType (reportRead started)
    updateReceipt fun receipt => { receipt with
      total := prepared.preview.statementCount
      bytesRead := some prepared.preview.sizeBytes }
    if req.expectedFingerprint.any (· ≠ prepared.preview.fingerprint) then
      .fail (.io "SQL file changed after preview; preview it again before executing")
    else do
      failIfCancelled
      executePrepared driver req started prepared

/-- The status of a run with this result. -/
def finalStatus : Except DbError Unit → SqlFileStatus
  | .ok () => .done
  | .error .cancelled => .cancelled
  | .error _ => .error

/-- Execute a file, with a report of its start and of its end. -/
def executeSqlFile (sha256 : Bytes → Bytes) (driver : Driver) (req : SqlFileRequest) :
    SqlFileProgram Execution SqlFileProgress := do
  let started ← SqlFileCall.now.ask
  Program.update fun _ => { receipt := startedReceipt req, lastEmit := 0 }
  emitReceipt
  let result ← Program.attempt (prepareAndExecute sha256 driver req started)
  updateReceipt fun receipt => { receipt with
    status := finalStatus result
    error := match result with
      | .ok () => none
      | .error error => some error.toText
    phase := none }
  emitElapsed started
  let s ← Program.load
  return s.receipt

end Db
