import Catio.Lib.Mutex
import Catio.Lib.Table
import Catio.Lib.Text

/-!
# User accounts

The model of `auth.rs`: accounts with hashed passwords, and the secrets, items and tokens of users,
in one SQLite database whose connection is behind a lock.  An operation prepares what needs no
connection, and does the rest with the lock.  Hashes, clocks and the failures of SQLite are outside.
-/

namespace Server

open Text

/-! ### The database -/

/-- A user as the frontend sees it. -/
structure User where
  id : ℤ
  username : Text
  isAdmin : Bool
  createdAt : ℤ
  deriving DecidableEq

/-- A row of `users`. -/
structure UserRow where
  id : ℤ
  username : Text
  passwordHash : Text
  isAdmin : ℤ
  createdAt : ℤ
  deriving DecidableEq

/-- A row of `mcp_tokens`, without its key. -/
structure TokenRow where
  token : Text
  enabled : ℤ
  createdAt : ℤ
  deriving DecidableEq

/-- The tables, and the last id of `users`, which is not used again (`AUTOINCREMENT`). -/
structure Db where
  users : List UserRow
  sequence : ℤ
  connSecrets : Table (ℤ × Text) (List UInt8 × List UInt8)
  userStore : Table (ℤ × Text × Text) (Text × ℤ)
  mcpTokens : Table ℤ TokenRow
  deriving DecidableEq

/-- A new database. -/
def Db.init : Db :=
  ⟨[], 0, ∅, ∅, ∅⟩

/-- What `COLLATE NOCASE` compares: the length, and the text up to a zero without the case of ASCII
letters. -/
def nocaseKey (t : Text) : ℕ × Text :=
  (utf8Len t, toAsciiLowercase (t.takeWhile (· ≠ '\x00')))

def Db.named (db : Db) (username : Text) : Option UserRow :=
  db.users.find? fun row => nocaseKey row.username = nocaseKey username

def Db.user (db : Db) (id : ℤ) : Option UserRow :=
  db.users.find? fun row => row.id = id

/-! ### What is outside -/

/-- What is asked of the outside: a hash of a password, whether it has a hash, the clock, and
whether a statement fails. -/
inductive AuthCall where
  | hashPassword (password : Text)
  | verifyPassword (password hash : Text)
  | nowSecs
  | statement
  deriving DecidableEq

/-- What the outside answers; a statement that fails has an error. -/
def AuthCall.Answer : AuthCall → Type
  | .hashPassword _ => Except Text Text
  | .verifyPassword _ _ => Except Text Unit
  | .nowSecs => ℤ
  | .statement => Option Text

/-- A program on the database. -/
abbrev Sql (α : Type) :=
  Program AuthCall AuthCall.Answer Db Text α

/-- What an operation does before it takes the lock of the connection. -/
abbrev Preparation (α : Type) :=
  Program AuthCall AuthCall.Answer Unit Text α

def hashPassword (password : Text) : Preparation Text := do
  let hash : Except Text Text ← Program.ask (AuthCall.hashPassword password)
  Program.ofExcept hash

def nowSecs : Preparation ℤ :=
  Program.ask AuthCall.nowSecs

def verifyPassword (password hash : Text) : Sql (Except Text Unit) :=
  Program.ask (AuthCall.verifyPassword password hash)

/-- A statement that reads: it fails, or answers from the tables. -/
def query {α : Type} (f : Db → α) : Sql α := do
  let failure : Option Text ← Program.ask AuthCall.statement
  match failure with
  | some e => .fail e
  | none => do
      let db ← .load
      pure (f db)

/-- A statement that writes: it fails and changes nothing, or changes the tables. -/
def execute {α : Type} (f : Db → Except Text (Db × α)) : Sql α := do
  let failure : Option Text ← Program.ask AuthCall.statement
  match failure with
  | some e => .fail e
  | none => do
      let db ← .load
      match f db with
      | .error e => .fail e
      | .ok (db, a) => do
          .update fun _ => db
          pure a

/-- Statements that write, in a transaction: the tables are changed when it is committed. -/
def transaction (statements : List (Db → Db)) : Sql Unit := do
  let start : Option Text ← Program.ask AuthCall.statement
  match start with
  | some e => .fail e
  | none => do
      let before ← .load
      let changed ← statements.foldlM (fun db f => do
        let failure : Option Text ← Program.ask AuthCall.statement
        match failure with
        | some e => .fail e
        | none => pure (f db)) before
      let commit : Option Text ← Program.ask AuthCall.statement
      match commit with
      | some e => .fail e
      | none => .update fun _ => changed

/-! ### Accounts -/

/-- The largest id of a row. -/
def MAX_ROWID : ℤ :=
  2 ^ 63 - 1

/-- A row of `users` is inserted; its id is the answer. -/
def insertUser (username hash : Text) (isAdmin createdAt : ℤ) (db : Db) : Except Text (Db × ℤ) :=
  if MAX_ROWID ≤ db.sequence then .error "database or disk is full"
  else if (db.named username).isSome then .error "UNIQUE constraint failed: users.username"
  else
    let id := db.sequence + 1
    .ok ({ db with
      users := db.users ++ [⟨id, username, hash, isAdmin, createdAt⟩]
      sequence := id }, id)

def checkedHash (username password : Text) : Preparation Text :=
  if username = [] then .fail "用户名不能为空"
  else if utf8Len password < 6 then .fail "口令至少 6 位"
  else hashPassword password

def userCount : Preparation (Sql ℕ) :=
  pure (query fun db => db.users.length)

def createUser (username password : Text) (isAdmin : Bool) : Preparation (Sql User) := do
  let username := trim username
  let hash ← checkedHash username password
  let now ← nowSecs
  pure do
    let inserted ← (execute (insertUser username hash (if isAdmin then 1 else 0) now)).attempt
    match inserted with
    | .ok id => pure ⟨id, username, isAdmin, now⟩
    | .error e =>
        .fail (if ("UNIQUE" : Text) <:+: e then ("用户名已存在: " : Text) ++ username else e)

def bootstrapAdmin (username password : Text) : Preparation (Sql User) := do
  let username := trim username
  let hash ← checkedHash username password
  let now ← nowSecs
  pure do
    let count ← query fun db => db.users.length
    if count ≠ 0 then .fail "已存在用户,无法重复初始化"
    else do
      let id ← execute (insertUser username hash 1 now)
      pure ⟨id, username, true, now⟩

def verifyLogin (username password : Text) : Preparation (Sql User) :=
  pure do
    let row ← query fun db => db.named (trim username)
    match row with
    | none => .fail "用户名或口令错误"
    | some row => do
        let verified ← verifyPassword password row.passwordHash
        match verified with
        | .error _ => .fail "用户名或口令错误"
        | .ok () => pure ⟨row.id, row.username, row.isAdmin ≠ 0, row.createdAt⟩

def UserRow.withHash (userId : ℤ) (newHash : Text) (row : UserRow) : UserRow :=
  if row.id = userId then { row with passwordHash := newHash } else row

def changePassword (userId : ℤ) (oldPassword newPassword : Text) : Preparation (Sql Unit) := do
  if utf8Len newPassword < 6 then .fail "口令至少 6 位"
  else do
    let newHash ← hashPassword newPassword
    pure do
      let row ← query fun db => db.user userId
      match row with
      | none => .fail "用户不存在"
      | some row => do
          let verified ← verifyPassword oldPassword row.passwordHash
          match verified with
          | .error _ => .fail "当前密码错误"
          | .ok () =>
              execute fun db =>
                .ok ({ db with users := db.users.map (UserRow.withHash userId newHash) }, ())

/-- The rows of a user are deleted, of the account and of all that belongs to it. -/
def deletions (id : ℤ) : List (Db → Db) :=
  [fun db => { db with users := db.users.filter fun row => row.id ≠ id },
    fun db => { db with connSecrets := db.connSecrets.retain fun key _ => key.1 ≠ id },
    fun db => { db with userStore := db.userStore.retain fun key _ => key.1 ≠ id },
    fun db => { db with mcpTokens := db.mcpTokens.retain fun key _ => key ≠ id }]

def deleteUser (id : ℤ) : Preparation (Sql Unit) :=
  pure do
    let targetAdmin ← query fun db => (db.user id).map fun row => decide (row.isAdmin ≠ 0)
    if targetAdmin = some true then do
      let admins ← query fun db => db.users.countP fun row => row.isAdmin = 1
      if admins ≤ 1 then .fail "不能删除最后一个管理员"
      else transaction (deletions id)
    else transaction (deletions id)

/-! ### What belongs to a user -/

def storeSecret (userId : ℤ) (profileId : Text) (nonce ciphertext : List UInt8) :
    Preparation (Sql Unit) :=
  pure (execute fun db =>
    .ok ({ db with connSecrets := db.connSecrets.insert (userId, profileId) (nonce, ciphertext) },
      ()))

def deleteSecret (userId : ℤ) (profileId : Text) : Preparation (Sql Unit) :=
  pure (execute fun db =>
    .ok ({ db with connSecrets := db.connSecrets.erase (userId, profileId) }, ()))

def storeSet (ownerUserId : ℤ) (store itemId payload : Text) : Preparation (Sql Unit) :=
  pure do
    -- the clock is read with the lock
    let now : ℤ ← Program.ask AuthCall.nowSecs
    execute fun db =>
      .ok ({ db with
        userStore := db.userStore.insert (ownerUserId, store, itemId) (payload, now) }, ())

def storeDelete (ownerUserId : ℤ) (store itemId : Text) : Preparation (Sql Unit) :=
  pure (execute fun db =>
    .ok ({ db with userStore := db.userStore.erase (ownerUserId, store, itemId) }, ()))

def storeClear (ownerUserId : ℤ) (store : Text) : Preparation (Sql Unit) :=
  pure (execute fun db => .ok ({ db with
    userStore := db.userStore.retain fun key _ => !(key.1 = ownerUserId && key.2.1 = store) }, ()))

def mcpTokenGet (userId : ℤ) : Preparation (Sql (Option (Text × Bool))) :=
  pure (query fun db =>
    (db.mcpTokens.lookup userId).map fun row => (row.token, decide (row.enabled ≠ 0)))

/-- A new token, enabled; or another token in the row that is there. -/
def upsertToken (token : Text) (now : ℤ) : Option TokenRow → TokenRow
  | none => ⟨token, 1, now⟩
  | some row => { row with token := token }

def mcpTokenUpsert (userId : ℤ) (token : Text) : Preparation (Sql Unit) :=
  pure do
    let now : ℤ ← Program.ask AuthCall.nowSecs
    execute fun db => .ok ({ db with
      mcpTokens := db.mcpTokens.insert userId
        (upsertToken token now (db.mcpTokens.lookup userId)) }, ())

def mcpTokenSetEnabled (userId : ℤ) (enabled : Bool) : Preparation (Sql Unit) :=
  pure (execute fun db => .ok ({ db with
    mcpTokens := db.mcpTokens.modify userId fun row =>
      { row with enabled := if enabled then 1 else 0 } }, ()))

end Server
