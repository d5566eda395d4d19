import Catio.Server.Auth

/-!
# Sessions

The model of the sessions in `server.rs`, beside the database of `auth.rs`: login, registration,
logout, the deletion of users, commands that write to the database, and WebSocket connections.  What
happens is a list of events in any order; a request goes on once for each time that it takes a lock.
A token is the number of tokens that were given out before, and a command that is not about the
database only acts.
-/

namespace Server

open Text

/-- An operation on the database: what it does before it takes the lock, and with the lock. -/
def perform {α : Type} (o : Program.Outside AuthCall.Answer) (operation : Preparation (Sql α))
    (db : Db) : Except Text α × Db :=
  match (Program.run o operation () []).1 with
  | .error e => (.error e, db)
  | .ok critical =>
      let done := Program.run o critical db []
      (done.1, done.2.1)

inductive UserCommand where
  | userCreate (username password : Text) (isAdmin : Bool)
  | userDelete (id : ℤ)
  | changePassword (old new : Text)
  | secretRemember (profileId : Text) (nonce ciphertext : List UInt8)
  | secretForget (profileId : Text)
  | storeSet (ownerId : Option ℤ) (store itemId payload : Text)
  | storeDelete (ownerId : Option ℤ) (store itemId : Text)
  | storeClear (ownerId : Option ℤ) (store : Text)
  | mcpTokenGet (token : Text)
  | mcpTokenUpsert (token : Text)
  | mcpTokenSetEnabled (enabled : Bool)
  | other

/-- Whose items are written: those of another user only by an administrator. -/
def storeOwner (user : User) (ownerId : Option ℤ) : ℤ :=
  if user.isAdmin then ownerId.getD user.id else user.id

/-- For whom a command may make a row. -/
def UserCommand.owner? (user : User) : UserCommand → Option ℤ
  | .secretRemember _ _ _ => some user.id
  | .storeSet ownerId _ _ _ => some (storeOwner user ownerId)
  | .mcpTokenUpsert _ => some user.id
  | _ => none

/-- A request that has still something to do: a login or a registration, a command that was let in,
a deletion with sessions to purge, and a connection to be opened. `existed` is not kept by the
source. -/
inductive AuthTask where
  | registering (username password : Text)
  | verified (user : User)
  | admitted (token : ℕ) (user : User) (command : UserCommand)
  | purging (token : ℕ) (id : ℤ) (existed : Bool)
  | upgrading (token : ℕ)

/-- The token under which a request goes on. -/
def AuthTask.token? : AuthTask → Option ℕ
  | .admitted token _ _ => some token
  | .purging token _ _ => some token
  | .upgrading token => some token
  | _ => none

/-- A WebSocket connection. -/
structure AuthSocket where
  token : ℕ
  isOpen : Bool := true
  deriving DecidableEq

/-- The database, the sessions, the requests and the connections; and, which the source does not
keep, the users that were deleted, the tokens logged out, and those under which something happened
then. -/
structure SessionState where
  auth : Db := Db.init
  sessions : List (ℕ × User) := []
  nextToken : ℕ := 0
  requests : List AuthTask := []
  sockets : List AuthSocket := []
  deleted : List ℤ := []
  loggedOut : List ℕ := []
  late : List ℕ := []

namespace SessionState

variable (m : SessionState)

/-- `resolve_session` -/
def resolve (token : ℕ) : Option User :=
  (m.sessions.find? (·.1 = token)).map (·.2)

def enqueue (task : AuthTask) : SessionState :=
  { m with requests := m.requests ++ [task] }

/-- A request is done. -/
def finish (k : ℕ) : SessionState :=
  { m with requests := m.requests.eraseIdx k }

/-- A request goes on as another one. -/
def proceed (k : ℕ) (task : AuthTask) : SessionState :=
  { m with requests := m.requests.set k task }

def under (token : ℕ) : SessionState :=
  { m with late := if token ∈ m.loggedOut then m.late ++ [token] else m.late }

/-- An operation that ends a request; the request goes on if there is a user. -/
def signIn (o : Program.Outside AuthCall.Answer) (operation : Preparation (Sql User)) :
    SessionState × Option User :=
  let done := perform o operation m.auth
  ({ m with auth := done.2 }, done.1.toOption)

/-- `create_session` -/
def createSession (user : User) : SessionState :=
  { m with sessions := m.sessions ++ [(m.nextToken, user)], nextToken := m.nextToken + 1 }

/-- `purge_user_sessions` -/
def purgeUserSessions (id : ℤ) : SessionState :=
  { m with sessions := m.sessions.filter (·.2.id ≠ id) }

/-- An operation whose result goes to the client only. -/
def write {α : Type} (o : Program.Outside AuthCall.Answer) (operation : Preparation (Sql α)) :
    SessionState :=
  { m with auth := (perform o operation m.auth).2 }

/-- A command that was let in acts. -/
def act (k : ℕ) (o : Program.Outside AuthCall.Answer) (token : ℕ) (user : User) :
    UserCommand → SessionState
  | .userCreate username password isAdmin =>
      if user.isAdmin then (m.write o (createUser username password isAdmin)).finish k
      else m.finish k
  | .userDelete id =>
      if user.isAdmin then
        match perform o (deleteUser id) m.auth with
        | (.ok (), db) =>
            { m with auth := db }.proceed k (.purging token id (m.auth.user id).isSome)
        | (.error _, db) => { m with auth := db }.finish k
      else m.finish k
  | .changePassword old new => (m.write o (Server.changePassword user.id old new)).finish k
  | .secretRemember profileId nonce ciphertext =>
      (m.write o (storeSecret user.id profileId nonce ciphertext)).finish k
  | .secretForget profileId => (m.write o (deleteSecret user.id profileId)).finish k
  | .storeSet ownerId store itemId payload =>
      (m.write o (Server.storeSet (storeOwner user ownerId) store itemId payload)).finish k
  | .storeDelete ownerId store itemId =>
      (m.write o (Server.storeDelete (storeOwner user ownerId) store itemId)).finish k
  | .storeClear ownerId store =>
      (m.write o (Server.storeClear (storeOwner user ownerId) store)).finish k
  | .mcpTokenGet new =>
      match perform o (Server.mcpTokenGet user.id) m.auth with
      | (.ok none, db) =>
          { m with auth := db }.proceed k (.admitted token user (.mcpTokenUpsert new))
      | (_, db) => { m with auth := db }.finish k
  | .mcpTokenUpsert new => (m.write o (Server.mcpTokenUpsert user.id new)).finish k
  | .mcpTokenSetEnabled enabled =>
      (m.write o (Server.mcpTokenSetEnabled user.id enabled)).finish k
  | .other => m.finish k

/-- A request goes on. -/
def step (k : ℕ) (o : Program.Outside AuthCall.Answer) : SessionState :=
  match m.requests[k]? with
  | none => m
  | some (.registering username password) =>
      match m.signIn o (createUser username password false) with
      | (m, some user) => m.proceed k (.verified user)
      | (m, none) => m.finish k
  | some (.verified user) => (m.createSession user).finish k
  | some (.admitted token user command) => (m.under token).act k o token user command
  | some (.purging token id existed) =>
      let m := ((m.under token).purgeUserSessions id).finish k
      { m with deleted := if existed then m.deleted ++ [id] else m.deleted }
  | some (.upgrading token) =>
      let m := (m.under token).finish k
      { m with sockets := m.sockets ++ [{ token }] }

end SessionState

/-- What may happen.  An event of a token that has no session is a request that is refused. -/
inductive SessionEvent where
  | login (username password : Text) (o : Program.Outside AuthCall.Answer)
  | register (username password : Text)
  | bootstrap (username password : Text) (o : Program.Outside AuthCall.Answer)
  | logout (token : ℕ)
  | expire (token : ℕ)
  | invoke (token : ℕ) (command : UserCommand)
  | upgrade (token : ℕ)
  | step (k : ℕ) (o : Program.Outside AuthCall.Answer)
  | socketCommand (i : ℕ) (command : UserCommand)
  | deliver (i : ℕ)
  | close (i : ℕ)

namespace SessionState

variable (m : SessionState)

def closeSocket (i : ℕ) : SessionState :=
  { m with sockets := m.sockets.modify i fun socket => { socket with isOpen := false } }

def after : SessionEvent → SessionState
  | .login username password o =>
      match m.signIn o (verifyLogin username password) with
      | (m, some user) => m.enqueue (.verified user)
      | (m, none) => m
  | .register username password =>
      -- the first account is not made here
      if m.auth.users.length = 0 then m else m.enqueue (.registering username password)
  | .bootstrap username password o =>
      match m.signIn o (bootstrapAdmin username password) with
      | (m, some user) => m.enqueue (.verified user)
      | (m, none) => m
  | .logout token =>
      { m with
        sessions := m.sessions.filter (·.1 ≠ token)
        loggedOut := if token < m.nextToken then m.loggedOut ++ [token] else m.loggedOut }
  | .expire token => { m with sessions := m.sessions.filter (·.1 ≠ token) }
  | .invoke token command =>
      match m.resolve token with
      | some user => (m.under token).enqueue (.admitted token user command)
      | none => m
  | .upgrade token =>
      match m.resolve token with
      | some _ => (m.under token).enqueue (.upgrading token)
      | none => m
  | .step k o => m.step k o
  | .socketCommand i command =>
      match m.sockets[i]? with
      | some ⟨token, true⟩ =>
          match m.resolve token with
          | some user => (m.under token).enqueue (.admitted token user command)
          | none => m.closeSocket i
      | _ => m
  | .deliver i =>
      match m.sockets[i]? with
      | some ⟨token, true⟩ => m.under token
      | _ => m
  | .close i => m.closeSocket i

end SessionState

end Server
