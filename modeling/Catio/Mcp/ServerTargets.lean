import Catio.Mcp.Core
import Catio.Mcp.Http
import Catio.Mcp.OwnerMaps
import Catio.Mcp.Server

/-!
# The server of tools for many users

The model of `server_mcp.rs`: a token stands for one user, who sees the connections and sessions
that the owner maps give to this user (`serverTargets`), and no others.
-/

namespace Mcp

open Json Text Db

/-! ### The state of the server -/

structure SshSession where
  host : Text
  user : Text
  deriving DecidableEq

/-- The managers of connections and of sessions, with the maps beside them. -/
structure AppState where
  db : Registry Driver
  ssh : Registry SshSession

/-- The operations of all users on connections and on sessions.  Calls of tools change neither. -/
inductive AppEvent where
  | db (e : RegistryEvent Driver)
  | ssh (e : RegistryEvent SshSession)

namespace AppState

def new : AppState :=
  ⟨.new "conn", .new "sess"⟩

def after (s : AppState) : AppEvent → AppState
  | .db e => { s with db := s.db.after e }
  | .ssh e => { s with ssh := s.ssh.after e }

end AppState

/-! ### What a user sees -/

/-- The host, if there is only one. -/
def soleHost : List Text → Except Text Text
  | [id] => .ok id
  | [] => .error "no active SSH host connections"
  | _ => .error "multiple hosts active; specify connectionName"

/-- What a user sees: the ids of this user, whoever it is. -/
def serverTargets (s : AppState) (user : ℤ) : McpTargets where
  listConnections := (s.db.owned user).map fun id =>
    let (name, dbType) := (s.db.metas id).getD (id, [])
    { connId := id, name := name, dbType := dbType }
  resolveDb key := s.db.find user key
  listHosts := (s.ssh.owned user).map fun id =>
    let (name, host) := (s.ssh.metas id).getD (id, [])
    { sessionId := id, name := name, host := host }
  resolveHost key :=
    match key with
    | some n =>
        if n ≠ [] ∧ n ≠ "default" then orError (s.ssh.find user n) ("host not found: " ++ n)
        else soleHost (s.ssh.owned user)
    | none => soleHost (s.ssh.owned user)

/-! ### Tokens -/

structure McpToken where
  userId : ℤ
  token : Text
  enabled : Bool
  deriving DecidableEq

/-- The tokens, and the names of the users. -/
structure AuthDb where
  mcpTokens : List McpToken
  users : List (ℤ × Text)

/-- The user of a token, whether it is enabled, and the name of the user. -/
def AuthDb.mcpTokenResolve (auth : AuthDb) (token : Text) : Option (ℤ × Bool × Text) :=
  auth.mcpTokens.findSome? fun t =>
    if t.token = token then (auth.users.lookup t.userId).map fun name => (t.userId, t.enabled, name)
    else none

/-! ### Requests -/

/-- A client can receive JSON. -/
def acceptsJson (accept : Option Text) : Bool :=
  match accept with
  | none => true
  | some a =>
      let a := toAsciiLowercase a
      ("application/json" : Text) <:+: a || ("*/*" : Text) <:+: a || trim a = []

/-- The code of a request that cannot be read. -/
def CODE_PARSE_ERROR : Number :=
  ⟨true, [3, 2, 7, 0, 0], List.cons_ne_nil _ _, [], none⟩

/-- An error without an id. -/
def errorBody (code : Number) (message : Text) : Value :=
  .object [("jsonrpc", .string "2.0"), ("id", .null),
    ("error", .object [("code", .number code), ("message", .string message)])]

/-- A request: the token, whether its address is allowed, its headers, and its body, or why this
cannot be read. -/
structure McpRequest where
  token : Text
  allowed : Bool
  origin : Option Text
  accept : Option Text
  body : Except Text Value

inductive ReplyBody where
  | text (t : Text)
  | json (v : Value)

/-- A reply: its status and its body. -/
structure Reply where
  status : ℕ
  body : ReplyBody

namespace AppState

/-- The response to a request of a user. -/
def dispatch (build : Build) (s : AppState) (user : ℤ) (req : Value) :
    ToolProgram (Option Value) :=
  if methodOf req = "tools/call" then
    match req.get "id" with
    | none => pure none
    | some id => do
        let name := (((paramsOf req).get "name").bind Value.asStr).getD []
        let args := ((paramsOf req).get "arguments").getD (.object [])
        let result ← (callTool (serverTargets s user) name args).attempt
        pure (some (callResponse id result))
  else pure (respond build req)

/-- The reply to a request with a token. -/
def mcpStreamableHandler (build : Build) (auth : AuthDb) (s : AppState) (request : McpRequest) :
    ToolProgram Reply :=
  match auth.mcpTokenResolve request.token with
  | some (user, true, _) =>
      if request.allowed = false then pure ⟨403, .text "forbidden"⟩
      else if originAllowed request.origin = false then
        pure ⟨403, .json (errorBody CODE_PARSE_ERROR "origin not allowed")⟩
      else if acceptsJson request.accept = false then
        pure ⟨406, .json (errorBody CODE_PARSE_ERROR "client must accept application/json")⟩
      else
        match request.body with
        | .error e => pure ⟨400, .json (errorBody CODE_PARSE_ERROR ("invalid json: " ++ e))⟩
        | .ok req => do
            match ← s.dispatch build user req with
            | some resp => pure ⟨200, .json resp⟩
            | none => pure ⟨202, .text []⟩
  | _ => pure ⟨401, .text "invalid token"⟩

/-! ### Owners -/

/-- A user owns a connection or a session. -/
def Owns (s : AppState) (user : ℤ) : Target → Prop
  | .db connId => s.db.Owns user connId
  | .ssh sessionId => s.ssh.Owns user sessionId

/-- The server as if it had only what a user owns. -/
def own (s : AppState) (user : ℤ) : AppState :=
  ⟨s.db.own user, s.ssh.own user⟩

/-- The server as if it had not this connection or session. -/
def without (s : AppState) : Target → AppState
  | .db connId => { s with db := s.db.without connId }
  | .ssh sessionId => { s with ssh := s.ssh.without sessionId }

def outside (s : AppState) (rest : Program.Outside TargetCall.Answer) :
    Program.Outside TargetCall.Answer
  | _, .connection connId => s.db.items connId
  | _, .session sessionId => (s.ssh.items sessionId).isSome
  | h, c => rest h c

end AppState

end Mcp
