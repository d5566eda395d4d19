import Catio.Db.SqlLexicon
import Catio.Lib.Words
import Catio.Mcp.Core

/-!
# The tools that write

What the tools for inserts, updates and deletes send to a driver is, by the lexical rules of its
engine, one statement of their kind just when there is nothing behind its first terminator and the
engine reads the white space around the first word as such (`write_isOne_iff`).
-/

namespace Mcp

open Text Json Db Lexing Program

/-! ### Tools -/

/-- A tool that executes statements of a kind. -/
inductive WriteTool where
  | insert
  | update
  | delete
  deriving DecidableEq

def WriteTool.name : WriteTool → Text
  | .insert => "insert_sql"
  | .update => "update_sql"
  | .delete => "delete_sql"

def WriteTool.keyword : WriteTool → Text
  | .insert => "INSERT"
  | .update => "UPDATE"
  | .delete => "DELETE"

theorem callTool_name (targets : McpTargets) (tool : WriteTool) (args : Value) :
  callTool targets tool.name args = toolWriteSql targets args tool.keyword
  := by
  cases tool <;> rfl

def Sent (history : List (Event TargetCall.Answer)) (driver : Driver) (sql : Text) : Prop :=
  ∃ connId maxRows answer, ⟨.connection connId, some driver⟩ ∈ history
    ∧ ⟨.query connId sql maxRows, answer⟩ ∈ history

/-! ### The first word -/

def firstWord (sql : Text) : Text :=
  (sql.dropWhile isWhitespace).takeWhile fun c => !isWhitespace c

def behindFirstWord (sql : Text) : Text :=
  (sql.dropWhile isWhitespace).dropWhile fun c => !isWhitespace c

theorem append_firstWord (sql : Text) :
  sql.takeWhile isWhitespace ++ (firstWord sql ++ behindFirstWord sql) = sql
  := by
  unfold firstWord behindFirstWord
  rw [List.takeWhile_append_dropWhile, List.takeWhile_append_dropWhile]

theorem headD_splitWhitespace (sql : Text) :
  (splitWhitespace sql).headD [] = firstWord sql
  := by
  have hblank : ∀ c ∈ sql.takeWhile isWhitespace, isWhitespace c := by
    intro c hc
    exact List.mem_takeWhile_imp hc
  have hvisible : ∀ c ∈ firstWord sql, isWhitespace c = false := by
    intro c hc
    have hnot := List.mem_takeWhile_imp hc
    simpa using hnot
  conv_lhs => rw [← append_firstWord sql, splitWhitespace_blanks_append hblank]
  cases hrest : behindFirstWord sql with
  | nil =>
    rw [List.append_nil]
    by_cases hnil : firstWord sql = []
    · rw [hnil, splitWhitespace_nil]
      rfl
    · rw [splitWhitespace_word ⟨hnil, hvisible⟩]
      rfl
  | cons c rest =>
    have hc : isWhitespace c := by
      have hhead := List.head?_dropWhile_not (fun c => !isWhitespace c)
        (sql.dropWhile isWhitespace)
      unfold behindFirstWord at hrest
      rw [hrest] at hhead
      simpa using hhead
    have hne : firstWord sql ≠ [] := by
      unfold firstWord behindFirstWord at *
      have hhead := List.head?_dropWhile_not isWhitespace sql
      cases hword : sql.dropWhile isWhitespace with
      | nil =>
        rw [hword] at hrest
        cases hrest
      | cons d word =>
        rw [hword] at hhead
        have hd : isWhitespace d = false := hhead
        simp [hd]
    rw [splitWhitespace_append_blank_cons hc, splitWhitespace_word ⟨hne, hvisible⟩]
    rfl

/-! ### What is sent -/

theorem onlyCalls_keyword (targets : McpTargets) (args : Value) (keyword : Text) :
  (toolWriteSql targets args keyword).OnlyCalls fun c =>
    ∀ connId sql maxRows, c = .query connId sql maxRows → toAsciiUppercase (firstWord sql) = keyword
  := by
  unfold toolWriteSql
  apply onlyCalls_bind (onlyCalls_lift _)
  intro sql
  dsimp only
  rw [headD_splitWhitespace]
  split
  · trivial
  · rename_i hkeyword
    apply onlyCalls_bind (onlyCalls_lift _)
    intro conn
    apply onlyCalls_bind
    · unfold driverFor
      apply onlyCalls_bind (onlyCalls_lift _)
      intro connId
      apply onlyCalls_bind
      · apply onlyCalls_ask
        rintro _ _ _ ⟨⟩
      · intro driver
        apply onlyCalls_bind (onlyCalls_lift _)
        intro driver
        trivial
    rintro ⟨connId, driver⟩
    dsimp only
    split
    · trivial
    split
    · trivial
    apply onlyCalls_bind
    · apply onlyCalls_ask
      rintro _ _ _ ⟨⟩
      exact not_not.mp hkeyword
    · intro res
      apply onlyCalls_bind (onlyCalls_lift _)
      intro res
      trivial

theorem Sent.keyword {targets : McpTargets} {args : Value} {outside : Outside TargetCall.Answer}
    {tool : WriteTool} {driver : Driver} {sql : Text}
    (h : Sent ((callTool targets tool.name args).run outside () []).2.2 driver sql) :
  toAsciiUppercase (firstWord sql) = tool.keyword
  := by
  obtain ⟨connId, maxRows, answer, -, hquery⟩ := h
  rw [callTool_name] at hquery
  have hwp := (onlyCalls_keyword targets args tool.keyword).wp (s := ()) (h := [])
  obtain ⟨events, hhistory, hevents⟩ := run_history outside hwp
  rw [hhistory, List.nil_append] at hquery
  exact hevents _ hquery connId sql maxRows rfl

/-- The white space around the first word is white space for an engine, and only blanks and
terminators follow the first terminator. -/
structure Unwidened (lex : Lexicon) (sql : Text) : Prop where
  leading : ∀ c ∈ sql.takeWhile isWhitespace, lex.isSpace c
  behind : ∀ c ∈ (behindFirstWord sql).head?, lex.isWord c = false
  ends : lex.EndsOnce sql

/-- What a tool sends is one statement of its kind just when it is not widened. -/
theorem write_isOne_iff (targets : McpTargets) (args : Value) (outside : Outside TargetCall.Answer)
    (tool : WriteTool) (driver : Driver) (sql : Text)
    (hsent : Sent ((callTool targets tool.name args).run outside () []).2.2 driver sql)
    (rules : DatabaseType → Lexicon) :
  (rules driver.dbType).IsOne tool.keyword sql ↔ Unwidened (rules driver.dbType) sql
  := by
  have hkeyword := hsent.keyword
  have hleading : ∀ c ∈ sql.takeWhile isWhitespace, isWhitespace c := by
    intro c hc
    exact List.mem_takeWhile_imp hc
  have hlength : 1 < (firstWord sql).length := by
    have hlengths := congrArg List.length hkeyword
    rw [toAsciiUppercase, List.length_map] at hlengths
    rw [hlengths]
    cases tool <;> decide
  have hword : ∀ c ∈ firstWord sql, c.isAlpha := by
    intro c hc
    have hmem : c.toUpper ∈ tool.keyword := by
      rw [← hkeyword]
      exact List.mem_map_of_mem hc
    rw [← isAlpha_toUpper]
    have hletters : tool.keyword.all Char.isAlpha := by cases tool <;> rfl
    exact List.all_eq_true.mp hletters _ hmem
  have hone := @isOne_iff (rules driver.dbType) _ _ (behindFirstWord sql) hleading hword hlength
  rw [append_firstWord, hkeyword] at hone
  rw [hone]
  constructor
  · rintro ⟨hspaces, hbehind, hends⟩
    exact ⟨hspaces, hbehind, hends⟩
  · rintro ⟨hspaces, hbehind, hends⟩
    exact ⟨hspaces, hbehind, hends⟩

/-! ### A run -/

/-- Targets with any connection and no host. -/
def anyTargets : McpTargets where
  listConnections := []
  resolveDb := some
  listHosts := []
  resolveHost _ := .error []

/-- A driver of SQLite, which does not answer. -/
def sqliteDriver : Driver where
  dbType := .sqlite
  capabilities := capabilitiesFor .sqlite

def sqliteOutside : Outside TargetCall.Answer
  | _, .connection _ => some sqliteDriver
  | _, .listSchemas _ => .error .timedOut
  | _, .listTables _ _ => .error .timedOut
  | _, .objectSource _ _ _ _ => .error .timedOut
  | _, .tableStructure _ _ _ => .error .timedOut
  | _, .query _ _ _ => .error .timedOut
  | _, .execBatch _ _ => .error .timedOut
  | _, .session _ => false
  | _, .runOnSession _ _ _ => .ok []
  | _, .uploadBlocking _ _ _ => .ok 0
  | _, .downloadBlocking _ _ _ => .ok 0

def writeArgs (sql : Text) : Value :=
  .object [("connection", .string "db"), ("sql", .string sql)]

def someModes : SqlModes where
  noBackslashEscapes := false
  ansiQuotes := false
  standardConforming := true
  version := 80000

theorem sent_single :
  Sent ((callTool anyTargets WriteTool.insert.name
    (writeArgs "insert into t values (';'); -- one")).run sqliteOutside () []).2.2 sqliteDriver
    "insert into t values (';'); -- one"
  := ⟨"db", 0, .error .timedOut, List.mem_cons_self, List.mem_cons_of_mem _ List.mem_cons_self⟩

theorem sent_two :
  Sent ((callTool anyTargets WriteTool.insert.name
    (writeArgs "INSERT INTO t VALUES (1); DROP TABLE x")).run sqliteOutside () []).2.2 sqliteDriver
    "INSERT INTO t VALUES (1); DROP TABLE x"
  := ⟨"db", 0, .error .timedOut, List.mem_cons_self, List.mem_cons_of_mem _ List.mem_cons_self⟩

theorem write_isOne_iff_single :
  (sqlRules someModes .sqlite).lexicon.IsOne "INSERT" "insert into t values (';'); -- one"
    ↔ Unwidened (sqlRules someModes .sqlite).lexicon "insert into t values (';'); -- one"
  := write_isOne_iff anyTargets (writeArgs "insert into t values (';'); -- one") sqliteOutside .insert
    sqliteDriver _ sent_single fun db => (sqlRules someModes db).lexicon

/-- A second statement is sent behind the first one. -/
theorem write_not_isOne :
  ¬ ∀ (modes : SqlModes) (targets : McpTargets) (args : Value)
    (outside : Outside TargetCall.Answer) (tool : WriteTool) (driver : Driver) (sql : Text),
    Sent ((callTool targets tool.name args).run outside () []).2.2 driver sql →
      (sqlRules modes driver.dbType).lexicon.IsOne tool.keyword sql
  := by
  intro h
  obtain ⟨word, more, hone, -⟩ := h someModes anyTargets
    (writeArgs "INSERT INTO t VALUES (1); DROP TABLE x") sqliteOutside .insert sqliteDriver _ sent_two
  have hcount : (statements ((sqlRules someModes sqliteDriver.dbType).lexicon.tokens
      "INSERT INTO t VALUES (1); DROP TABLE x")).length = 2 := by decide
  rw [hone] at hcount
  cases hcount

end Mcp
