import Catio.Lib.Scan
import Catio.Lib.Text

/-!
# Redis commands

How a line is cut into the arguments of a Redis command, and how it is put together from them:
`parse_command_argv` and `argv_to_command_string` of `redis_command.rs`.  `parseCommandArgvTurn` is
one turn of the loop; the white space that the source skips behind an argument is skipped there as
well, and `argvRun` is the loop without it.
-/

namespace Db

open Scan Text

/-- What is between the characters of a line. -/
structure ArgvState where
  current : Text := []
  quote : Option Char := none
  escaping : Bool := false
  deriving DecidableEq

/-- Why a line is no command. -/
inductive ArgvError where
  | unclosedQuote
  | empty
  deriving DecidableEq

def ArgvError.message : ArgvError → Text
  | .unclosedQuote => "Redis 命令存在未闭合的引号"
  | .empty => "Redis 命令为空"

/-- A character behind a backslash. -/
def unescapeChar (ch : Char) : Char :=
  if ch = 'n' then '\n'
  else if ch = 'r' then '\r'
  else if ch = 't' then '\t'
  else ch

/-- The turn of `parse_command_argv` at a character. -/
def parseCommandArgvTurn (s : ArgvState) (ch : Char) (rest : Text) :
    Turn ArgvState Text ArgvState :=
  if s.escaping then
    .next { s with current := s.current ++ [unescapeChar ch], escaping := false } [] 0
  else if ch = '\\' then
    .next { s with escaping := true } [] 0
  else match s.quote with
    | some q =>
        if ch = q then .next { s with quote := none } [] 0
        else .next { s with current := s.current ++ [ch] } [] 0
    | none =>
        if ch = '"' ∨ ch = '\'' then
          .next { s with quote := some ch } [] 0
        else if isWhitespace ch then
          .next { s with current := [] } (if s.current = [] then [] else [s.current])
            (rest.takeWhile isWhitespace).length
        else
          .next { s with current := s.current ++ [ch] } [] 0

/-- The part of a line that is read: no white space and no semicolons are at its end. -/
def commandText (line : Text) : Text :=
  (trimEnd line).rdropWhile (· = ';')

/-- Cut a line into the arguments of a command. -/
def parseCommandArgv (line : Text) : Except ArgvError (List Text) :=
  let (argv, s) := loop parseCommandArgvTurn id 0 {} (commandText line)
  let current := if s.escaping then s.current ++ ['\\'] else s.current
  if s.quote.isSome then
    .error .unclosedQuote
  else
    let argv := if current = [] then argv else argv ++ [current]
    if argv = [] then .error .empty else .ok argv

/-- An argument in quotes, with its backslashes and quotes escaped. -/
def quoteArgument (argument : Text) : Text :=
  '"' :: replaceChar '"' ['\\', '"'] (replaceChar '\\' ['\\', '\\'] argument) ++ ['"']

/-- The line of the arguments of a command. -/
def argvToCommandString (argv : List Text) : Text :=
  join " " (argv.map quoteArgument)

/-! ### Character by character -/

/-- What a turn does with its own character. -/
def argvStep (s : ArgvState) (ch : Char) : ArgvState × List Text :=
  match parseCommandArgvTurn s ch [] with
  | .next s' out _ => (s', out)
  | .stop s' => (s', [])

/-- The loop without the skipping of white space. -/
def argvRun : ArgvState → Text → List Text × ArgvState
  | s, [] => ([], s)
  | s, ch :: rest =>
      let step := argvStep s ch
      let run := argvRun step.1 rest
      (step.2 ++ run.1, run.2)

section

variable {s : ArgvState} {ch : Char} {t u : Text}

theorem argvRun_append :
  argvRun s (t ++ u)
    = ((argvRun s t).1 ++ (argvRun (argvRun s t).2 u).1, (argvRun (argvRun s t).2 u).2)
  := by
  induction t generalizing s with
  | nil => rfl
  | cons ch t ih =>
    rw [List.cons_append, argvRun, argvRun, ih]
    simp only [List.append_assoc]

theorem argvRun_blank (h : ∀ c ∈ t, isWhitespace c) :
  argvRun {} t = ([], {})
  := by
  induction t with
  | nil => rfl
  | cons c t ih =>
    have hc := h c List.mem_cons_self
    have hstep : argvStep {} c = ({}, []) := by
      have hquote : ¬ (c = '"' ∨ c = '\'') := by
        rintro (rfl | rfl) <;> exact absurd hc (by decide)
      have hback : c ≠ '\\' := by
        rintro rfl
        exact absurd hc (by decide)
      simp [argvStep, parseCommandArgvTurn, hquote, hback, hc]
    rw [argvRun, hstep, ih fun d hd => h d (List.mem_cons_of_mem c hd)]
    rfl

theorem parseCommandArgvTurn_eq (s : ArgvState) (ch : Char) (rest : Text) :
  parseCommandArgvTurn s ch rest = .next (argvStep s ch).1 (argvStep s ch).2 0
    ∨ (argvStep s ch).1 = {}
      ∧ parseCommandArgvTurn s ch rest
        = .next {} (argvStep s ch).2 (rest.takeWhile isWhitespace).length
  := by
  obtain ⟨current, quote, escaping⟩ := s
  unfold argvStep parseCommandArgvTurn
  cases escaping with
  | true => exact Or.inl rfl
  | false =>
    by_cases hback : ch = '\\'
    · simp [hback]
    · cases quote with
      | some q =>
        obtain rfl | hq := eq_or_ne ch q
        · simp [hback]
        · simp [hback, hq]
      | none =>
        by_cases hquote : ch = '"' ∨ ch = '\''
        · simp [hback, hquote]
        · by_cases hblank : isWhitespace ch
          · right
            simp [hback, hquote, hblank]
          · left
            simp [hback, hquote, hblank]

theorem loop_parseCommandArgvTurn :
  loop parseCommandArgvTurn id 0 s t = argvRun s t
  := by
  induction hn : t.length using Nat.strongRecOn generalizing s t with
  | _ n ih =>
    cases t with
    | nil => rfl
    | cons ch rest =>
      rw [List.length_cons] at hn
      obtain hturn | ⟨hempty, hturn⟩ := parseCommandArgvTurn_eq s ch rest
      · rw [loop_next hturn, List.drop_zero, ih rest.length (by omega) rfl]
        rfl
      · have hdrop : rest.drop (rest.takeWhile isWhitespace).length
            = rest.dropWhile isWhitespace := by
          have hparts := @List.drop_left _ (rest.takeWhile isWhitespace)
            (rest.dropWhile isWhitespace)
          rwa [List.takeWhile_append_dropWhile] at hparts
        have hskip : argvRun {} rest = argvRun {} (rest.dropWhile isWhitespace) := by
          conv_lhs => rw [← @List.takeWhile_append_dropWhile _ isWhitespace rest, argvRun_append,
            argvRun_blank fun c hc => List.mem_takeWhile_imp hc]
          rfl
        have hshort : (rest.dropWhile isWhitespace).length ≤ rest.length :=
          (List.dropWhile_suffix _).length_le
        rw [loop_next hturn, hdrop, ih _ (by omega) rfl, argvRun, hempty, hskip]

/-- Only a quote is open. -/
def ArgvState.OnlyQuotes (s : ArgvState) : Prop :=
  ∀ q, s.quote = some q → q = '"' ∨ q = '\''

theorem onlyQuotes_argvStep (h : s.OnlyQuotes) (ch : Char) :
  (argvStep s ch).1.OnlyQuotes
  := by
  obtain ⟨current, quote, escaping⟩ := s
  unfold argvStep parseCommandArgvTurn
  grind -linarith [ArgvState.OnlyQuotes]

theorem quote_argvStep (h : s.OnlyQuotes) (hch : ch ≠ '"' ∧ ch ≠ '\'') :
  (argvStep s ch).1.quote = s.quote
  := by
  obtain ⟨current, quote, escaping⟩ := s
  unfold argvStep parseCommandArgvTurn
  grind -linarith [ArgvState.OnlyQuotes]

theorem onlyQuotes_argvRun (h : s.OnlyQuotes) :
  (argvRun s t).2.OnlyQuotes
  := by
  induction t generalizing s with
  | nil => exact h
  | cons ch t ih => exact ih (onlyQuotes_argvStep h ch)

theorem quote_argvRun (h : s.OnlyQuotes) (ht : ∀ c ∈ t, c ≠ '"' ∧ c ≠ '\'') :
  (argvRun s t).2.quote = s.quote
  := by
  induction t generalizing s with
  | nil => rfl
  | cons ch t ih =>
    rw [argvRun, ih (onlyQuotes_argvStep h ch) fun c hc => ht c (List.mem_cons_of_mem ch hc)]
    apply quote_argvStep h (ht ch List.mem_cons_self)

end

end Db

/-!
## Lines of arguments

What is read of the line that is put together from the arguments of a command: all of them but the
empty ones (`parseCommandArgv_line`), so that a command is read back as it was if and only if it
has no empty argument (`parseCommandArgv_argvToCommandString`).
-/

namespace Db

open Text

/-- A character of an argument, escaped. -/
def escapeArgument (c : Char) : Text :=
  if c = '\\' then ['\\', '\\'] else if c = '"' then ['\\', '"'] else [c]

theorem quoteArgument_eq (argument : Text) :
  quoteArgument argument = '"' :: argument.flatMap escapeArgument ++ ['"']
  := by
  rw [quoteArgument, replaceChar, replaceChar, List.flatMap_assoc]
  congr 3
  funext c
  unfold escapeArgument
  split
  · rfl
  · rw [List.flatMap_singleton]

theorem argvRun_escapeArgument (current : Text) (c : Char) :
  argvRun ⟨current, some '"', false⟩ (escapeArgument c) = ([], ⟨current ++ [c], some '"', false⟩)
  := by
  unfold escapeArgument
  split
  · rename_i hc
    rw [hc]
    rfl
  · split
    · rename_i hc
      rw [hc]
      rfl
    · rename_i hback hquote
      simp [argvRun, argvStep, parseCommandArgvTurn, hback, hquote]

theorem argvRun_escaped (current argument : Text) :
  argvRun ⟨current, some '"', false⟩ (argument.flatMap escapeArgument)
    = ([], ⟨current ++ argument, some '"', false⟩)
  := by
  induction argument generalizing current with
  | nil => rw [List.append_nil]; rfl
  | cons c argument ih =>
    rw [List.flatMap_cons, argvRun_append, argvRun_escapeArgument, ih, List.append_assoc]
    rfl

theorem argvRun_quoteArgument (argument : Text) :
  argvRun {} (quoteArgument argument) = ([], ⟨argument, none, false⟩)
  := by
  have hopen : argvRun {} ['"'] = ([], ⟨[], some '"', false⟩) := rfl
  rw [quoteArgument_eq, ← List.singleton_append, List.append_assoc, argvRun_append, hopen,
    argvRun_append, argvRun_escaped, List.nil_append]
  rfl

theorem argvRun_spaced (argv : List Text) :
  argvRun {} ((argv.map quoteArgument).flatMap (· ++ " ")) = (argv.filter (· ≠ []), {})
  := by
  induction argv with
  | nil => rfl
  | cons argument argv ih =>
    have hblank : argvRun ⟨argument, none, false⟩ " "
        = (if argument = [] then [] else [argument], {}) := by
      simp [argvRun, argvStep, parseCommandArgvTurn, isWhitespace]
    rw [List.map_cons, List.flatMap_cons, argvRun_append, argvRun_append, argvRun_quoteArgument,
      hblank, ih]
    by_cases hempty : argument = []
    · simp [hempty]
    · simp [hempty]

theorem commandText_line (front : List Text) (last : Text) :
  commandText (argvToCommandString (front ++ [last])) = argvToCommandString (front ++ [last])
  := by
  rw [argvToCommandString, List.map_append, List.map_singleton, join_concat, quoteArgument,
    ← List.append_assoc, commandText, trimEnd, List.rdropWhile_concat_neg,
    List.rdropWhile_concat_neg]
  · decide
  · decide

theorem parseCommandArgv_line (argv : List Text) :
  parseCommandArgv (argvToCommandString argv)
    = if argv.filter (· ≠ []) = [] then .error .empty else .ok (argv.filter (· ≠ []))
  := by
  obtain rfl | ⟨front, last, rfl⟩ := List.eq_nil_or_concat' argv
  · rfl
  · have hrun : argvRun {} (argvToCommandString (front ++ [last]))
        = (front.filter (· ≠ []), ⟨last, none, false⟩) := by
      rw [argvToCommandString, List.map_append, List.map_singleton, join_concat, argvRun_append,
        argvRun_spaced, argvRun_quoteArgument, List.append_nil]
    rw [parseCommandArgv, commandText_line, loop_parseCommandArgvTurn, hrun, List.filter_append]
    by_cases hempty : last = []
    · simp [hempty]
    · simp [hempty]

/-- A command is read back from its line if and only if it has arguments, and none is empty. -/
theorem parseCommandArgv_argvToCommandString (argv : List Text) :
  parseCommandArgv (argvToCommandString argv) = .ok argv ↔ argv ≠ [] ∧ [] ∉ argv
  := by
  have hall : argv.filter (· ≠ []) = argv ↔ [] ∉ argv := by
    rw [List.filter_eq_self]
    constructor
    · intro h hempty
      exact absurd rfl (of_decide_eq_true (h [] hempty))
    · intro h argument hargument
      apply decide_eq_true
      rintro rfl
      exact h hargument
  rw [parseCommandArgv_line]
  split
  · rename_i hnone
    simp only [reduceCtorEq, false_iff, not_and]
    intro hne hempty
    rw [hall.mpr hempty] at hnone
    exact hne hnone
  · rename_i hsome
    rw [Except.ok.injEq, hall]
    constructor
    · intro hempty
      refine ⟨?_, hempty⟩
      rintro rfl
      exact hsome rfl
    · intro h
      exact h.2

/-- A value that is empty is lost. -/
theorem emptyArgument_lost :
  parseCommandArgv (argvToCommandString ["SET", "k", ""]) = .ok ["SET", "k"]
  := rfl

end Db

/-!
## Edits of keys

`build_edit_argv` and `build_confirmed_edit_argv` of `redis_command.rs`, and what `db_redis_edit`
sends: the arguments go through the line of a query, where they are cut and the command is
classified again.
-/

namespace Db

open Text

/-- The commands of administration, which a query may not send. -/
def blockedCommands : List Text :=
  ["FLUSHALL", "FLUSHDB", "SHUTDOWN", "CONFIG", "SAVE", "BGSAVE", "BGREWRITEAOF", "SLAVEOF",
    "REPLICAOF", "MIGRATE", "MODULE", "SCRIPT", "EVAL", "EVALSHA", "DEBUG", "MONITOR", "SWAPDB",
    "FAILOVER", "CLUSTER", "ACL"]

inductive CmdSafety where
  | allowed
  | blocked
  deriving DecidableEq

def classifyCommand (cmd : Text) : CmdSafety :=
  if toAsciiUppercase cmd ∈ blockedCommands then .blocked else .allowed

/-- An edit; the score of a member is given as it is formatted. -/
inductive RedisEdit where
  | setString (key value : Text)
  | hashSet (key field value : Text)
  | hashDel (key field : Text)
  | listPush (key value : Text)
  | listSet (key : Text) (index : ℤ) (value : Text)
  | setAdd (key member : Text)
  | setRem (key member : Text)
  | zadd (key member score : Text)
  | zrem (key member : Text)
  | delKey (key : Text)
  | setTtl (key : Text) (ttl : ℤ)
  deriving DecidableEq

namespace RedisEdit

def key : RedisEdit → Text
  | setString key _ | hashSet key _ _ | hashDel key _ | listPush key _ | listSet key _ _
  | setAdd key _ | setRem key _ | zadd key _ _ | zrem key _ | delKey key | setTtl key _ => key

def isDelKey : RedisEdit → Bool
  | delKey _ => true
  | _ => false

/-- A number in decimal. -/
def intText (n : ℤ) : Text :=
  if n < 0 then '-' :: ofNat n.natAbs else ofNat n.natAbs

/-- The arguments of the command of an edit with a key. -/
def argv : RedisEdit → List Text
  | setString key value => ["SET", key, value]
  | hashSet key field value => ["HSET", key, field, value]
  | hashDel key field => ["HDEL", key, field]
  | listPush key value => ["RPUSH", key, value]
  | listSet key index value => ["LSET", key, intText index, value]
  | setAdd key member => ["SADD", key, member]
  | setRem key member => ["SREM", key, member]
  | zadd key member score => ["ZADD", key, score, member]
  | zrem key member => ["ZREM", key, member]
  | delKey key => ["DEL", key]
  | setTtl key ttl => if ttl > 0 then ["EXPIRE", key, intText ttl] else ["PERSIST", key]

end RedisEdit

def buildEditArgv (edit : RedisEdit) : Except Text (List Text) :=
  if edit.key = [] then .error "Redis 编辑操作的 key 不能为空" else .ok edit.argv

def buildConfirmedEditArgv (edit : RedisEdit) (confirmed : Bool) : Except Text (List Text) :=
  if edit.isDelKey ∧ confirmed = false then .error "删除整个 key 不可恢复,需要确认后才能执行"
  else buildEditArgv edit

/-- The command that `query` sends for a line. -/
def redisQuery (sql : Text) : Except Text (List Text) := do
  let argv ← (parseCommandArgv sql).mapError ArgvError.message
  let cmdName := toAsciiUppercase (argv.headD [])
  if classifyCommand cmdName = .blocked then
    .error ("命令 " ++ cmdName ++ " 在查询控制台中被禁用(破坏性或管理类),请改用 redis-cli 执行")
  else .ok argv

/-- The command that `db_redis_edit` sends. -/
def dbRedisEdit (edit : RedisEdit) (confirmed : Bool) : Except Text (List Text) := do
  let argv ← buildConfirmedEditArgv edit confirmed
  redisQuery (argvToCommandString argv)

/-- The commands of edits, which delete a key or do not. -/
def editCommands (deletes : Bool) : List Text :=
  if deletes then ["DEL"]
  else ["SET", "HSET", "HDEL", "RPUSH", "LSET", "SADD", "SREM", "ZADD", "ZREM", "EXPIRE",
    "PERSIST"]

theorem RedisEdit.argv_eq (edit : RedisEdit) :
  ∃ command rest, edit.argv = command :: edit.key :: rest ∧ command ∈ editCommands edit.isDelKey
  := by
  cases edit with
  | delKey key => exact ⟨_, _, rfl, (by decide : _ ∈ editCommands true)⟩
  | setTtl key ttl =>
    by_cases hpos : ttl > 0
    · exact ⟨_, _, if_pos hpos, (by decide : _ ∈ editCommands false)⟩
    · exact ⟨_, _, if_neg hpos, (by decide : _ ∈ editCommands false)⟩
  | _ => exact ⟨_, _, rfl, (by decide : _ ∈ editCommands false)⟩

theorem allowed_of_mem_editCommands : ∀ deletes, ∀ command ∈ editCommands deletes,
  command ≠ [] ∧ classifyCommand (toAsciiUppercase command) = .allowed
  := by decide

/-- No text of an edit becomes another command or another key, whatever quotes, spaces and
semicolons it has: the command on the key is sent, with all of the arguments that are not empty. -/
theorem dbRedisEdit_sends (edit : RedisEdit) (confirmed : Bool) :
  if edit.key ≠ [] ∧ (edit.isDelKey → confirmed) then
    ∃ command rest, edit.argv = command :: edit.key :: rest
      ∧ command ∈ editCommands edit.isDelKey
      ∧ dbRedisEdit edit confirmed = .ok (command :: edit.key :: rest.filter (· ≠ []))
  else ∃ e, dbRedisEdit edit confirmed = .error e
  := by
  obtain ⟨command, rest, hargv, hcommand⟩ := edit.argv_eq
  obtain ⟨hne, hallowed⟩ := allowed_of_mem_editCommands _ _ hcommand
  unfold dbRedisEdit buildConfirmedEditArgv buildEditArgv
  by_cases hdel : edit.isDelKey ∧ confirmed = false
  · have hnot : ¬ (edit.key ≠ [] ∧ (edit.isDelKey → confirmed)) := by
      rintro ⟨-, himp⟩
      rw [himp hdel.1] at hdel
      cases hdel.2
    rw [if_neg hnot, if_pos hdel]
    exact ⟨_, rfl⟩
  · rw [if_neg hdel]
    by_cases hkey : edit.key = []
    · rw [if_neg fun hboth => hboth.1 hkey, if_pos hkey]
      exact ⟨_, rfl⟩
    · have hboth : edit.key ≠ [] ∧ (edit.isDelKey → confirmed) := by
        refine ⟨hkey, fun hkind => ?_⟩
        rw [← Bool.not_eq_false]
        exact fun hconfirmed => hdel ⟨hkind, hconfirmed⟩
      have hfilter : edit.argv.filter (· ≠ []) = command :: edit.key :: rest.filter (· ≠ []) := by
        rw [hargv]
        simp [hne, hkey]
      have hread : parseCommandArgv (argvToCommandString edit.argv)
          = .ok (command :: edit.key :: rest.filter (· ≠ [])) := by
        rw [parseCommandArgv_line, hfilter, if_neg (List.cons_ne_nil _ _)]
      rw [if_pos hboth, if_neg hkey]
      refine ⟨command, rest, hargv, hcommand, ?_⟩
      change redisQuery (argvToCommandString edit.argv) = _
      rw [redisQuery, hread]
      change (if classifyCommand (toAsciiUppercase command) = .blocked then _ else _) = _
      rw [hallowed, if_neg (by decide)]

end Db
