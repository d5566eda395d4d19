import Catio.Lib.Program
import Catio.Ssh.KnownHosts
import Catio.Ssh.Exec

/-!
# Connections

The model of the connects of `ssh/conn.rs`: the connection to a host, directly or through a
jump host, the authentication on it, and the check of the host key.  What the peers answer, and
what the files hold, are calls to the outside.  The handler of a connection accepts each host
key and records its fingerprint.
-/

namespace Ssh

open Text

/-- How to authenticate. -/
inductive AuthMethod where
  | password
  | keyFile (path : Text)
  deriving DecidableEq

structure JumpSpec where
  host : Text
  port : ℕ
  user : Text
  auth : AuthMethod
  secret : Option Text
  deriving DecidableEq

structure ConnectArgs where
  host : Text
  port : ℕ
  user : Text
  auth : AuthMethod
  secret : Option Text
  jump : Option JumpSpec
  deriving DecidableEq

/-- The key of a target in the known hosts. -/
def ConnectArgs.hostPort (args : ConnectArgs) : Text :=
  args.host ++ ":" ++ ofNat args.port

/-- The two ends that a connect talks to. -/
inductive Hop where
  | jump
  | target
  deriving DecidableEq

/-- A method that a server offers to go on with. -/
inductive MethodKind where
  | password
  | keyboardInteractive
  | other (name : Text)
  deriving DecidableEq

/-- What a server answers to `none`: success, or the methods that are left. -/
inductive NoneAnswer where
  | success
  | failure (remainingMethods : List MethodKind)
  deriving DecidableEq

/-- What a server answers to `keyboard-interactive`. -/
inductive KeyboardAnswer where
  | success
  | failure
  | infoRequest (prompts : List Text)
  deriving DecidableEq

/-- The requests by which a client authenticates itself. -/
inductive AuthRequest where
  | none
  | password (password : Text)
  | keyboardStart
  | keyboardRespond (responses : List Text)
  | publickey (key : Bytes)
  deriving DecidableEq

/-- The calls to the outside.  `connect` and `connectStream` run the handshake with the target
or the jump host. -/
inductive ConnectCall where
  | connect (hop : Hop) (host : Text) (port : ℕ)
  | openDirectTcpip (host : Text) (port : ℕ)
  | connectStream
  | authenticate (hop : Hop) (user : Text) (request : AuthRequest)
  | loadSecretKey (path : Text) (secret : Option Text)
  | readKnownHosts (dir : Text)
  | disconnect (hop : Hop)
  deriving DecidableEq

@[reducible]
def AuthRequest.Answer : AuthRequest → Type
  | .none => NoneAnswer
  | .password _ => Bool
  | .keyboardStart => KeyboardAnswer
  | .keyboardRespond _ => KeyboardAnswer
  | .publickey _ => Bool

/-- What each call answers: a handshake the fingerprint of the key that the peer presents, a file
its content. -/
@[reducible]
def ConnectCall.Answer : ConnectCall → Type
  | .connect _ _ _ => Except Text Text
  | .openDirectTcpip _ _ => Except Text Unit
  | .connectStream => Except Text Text
  | .authenticate _ _ request => Except Text request.Answer
  | .loadSecretKey _ _ => Except Text Bytes
  | .readKnownHosts _ => Option Text
  | .disconnect _ => Unit

abbrev ConnectProgram :=
  Program ConnectCall ConnectCall.Answer Unit SshError

/-- The calls of a connect with their answers, in order. -/
abbrev ConnectHistory :=
  List (Program.Event ConnectCall.Answer)

@[reducible]
def ConnectCall.ask (c : ConnectCall) : ConnectProgram c.Answer :=
  Program.ask c

/-! ### Authentication -/

/-- A request of the client on a connection. -/
def request (hop : Hop) (user : Text) (r : AuthRequest) : ConnectProgram r.Answer := do
  let answer ← (ConnectCall.authenticate hop user r).ask
  liftM (answer.mapError SshError.io)

/-- Answer each prompt with the password, at most as often as there are rounds left. -/
def answerPrompts (hop : Hop) (user password : Text) : ℕ → KeyboardAnswer → ConnectProgram Bool
  | 0, _ => pure false
  | rounds + 1, res =>
      match res with
      | .success => pure true
      | .failure => pure false
      | .infoRequest prompts => do
          let res ← request hop user (.keyboardRespond (prompts.map fun _ => password))
          answerPrompts hop user password rounds res

def authenticateKeyboardInteractive (hop : Hop) (user password : Text) : ConnectProgram Bool := do
  let res ← request hop user .keyboardStart
  answerPrompts hop user password 16 res

/-- Both a condition and a program hold; the program is run only if the condition does. -/
def andAlso (c : Bool) (p : ConnectProgram Bool) : ConnectProgram Bool :=
  if c then p else pure false

def authenticateWithPassword (hop : Hop) (user password : Text) : ConnectProgram Bool := do
  match ← request hop user .none with
  | .success => return true
  | .failure methods =>
      let unknown := methods.isEmpty
      if ← andAlso (unknown || methods.contains .password)
          (request hop user (.password password)) then
        return true
      andAlso (unknown || methods.contains .keyboardInteractive)
        (authenticateKeyboardInteractive hop user password)

def authenticate (hop : Hop) (user : Text) (auth : AuthMethod) (secret : Option Text) :
    ConnectProgram Bool :=
  match auth with
  | .password => authenticateWithPassword hop user (secret.getD [])
  | .keyFile path => do
      let key ← (ConnectCall.loadSecretKey path secret).ask
      let key ← liftM (key.mapError SshError.io)
      request hop user (.publickey key)

/-! ### Connecting -/

structure ClientHandler where
  fingerprint : Option Text := none
  deriving DecidableEq

/-- The handler records the fingerprint of the host key and accepts it. -/
def ClientHandler.checkServerKey (fp : Text) (handler : ClientHandler) : Bool × ClientHandler :=
  (true, { handler with fingerprint := some fp })

/-- The fingerprint that was recorded. -/
def ClientHandler.recorded (handler : ClientHandler) : Text :=
  handler.fingerprint.getD []

/-- A handshake that has ended, with the handler of the connection. -/
def handshake (failure : Text → SshError) (answer : Except Text Text) :
    Except SshError ClientHandler :=
  (answer.mapError failure).map fun fp => (({} : ClientHandler).checkServerKey fp).2

def mustAuthenticate (hop : Hop) (user : Text) (auth : AuthMethod) (secret : Option Text) :
    ConnectProgram Unit := do
  if ← authenticate hop user auth secret then pure () else Program.fail .authFailed

/-- What follows the handshake with the target. -/
def authenticateTarget (args : ConnectArgs) (failure : Text → SshError)
    (answer : Except Text Text) : ConnectProgram Text := do
  let handler ← liftM (handshake failure answer)
  mustAuthenticate .target args.user args.auth args.secret
  return handler.recorded

/-- Connect and authenticate; the result is the recorded fingerprint. -/
def connectCore (args : ConnectArgs) : ConnectProgram Text := do
  match args.jump with
  | none =>
      let answer ← (ConnectCall.connect .target args.host args.port).ask
      authenticateTarget args .hostUnreachable answer
  | some j =>
      let answer ← (ConnectCall.connect .jump j.host j.port).ask
      let _ ← liftM (handshake (fun e => .hostUnreachable ("jump: " ++ e)) answer)
      mustAuthenticate .jump j.user j.auth j.secret
      let ch ← (ConnectCall.openDirectTcpip args.host args.port).ask
      liftM (ch.mapError fun e => SshError.tunnel ("jump->target: " ++ e))
      let answer ← (ConnectCall.connectStream).ask
      authenticateTarget args (fun e => .hostUnreachable ("target: " ++ e)) answer

/-- Check the fingerprint of a connection against the known hosts of a directory. -/
def checkHostKey (args : ConnectArgs) (dir fingerprint : Text) : ConnectProgram Bool := do
  let contents ← (ConnectCall.readKnownHosts dir).ask
  let map := (contents.map KnownHosts.parse).getD ∅
  match KnownHosts.verify map args.hostPort fingerprint with
  | .trusted => return true
  | .unknown => return false
  | .mismatch =>
      (ConnectCall.disconnect .target).ask
      Program.fail .hostKeyMismatch

/-- Connect, authenticate and check the host key; the result is the fingerprint and whether it
is trusted. -/
def connectChecked (args : ConnectArgs) (knownHostsDir : Option Text) :
    ConnectProgram (Text × Bool) := do
  let fingerprint ← connectCore args
  let trusted ← match knownHostsDir with
    | none => pure true
    | some dir => checkHostKey args dir fingerprint
  return (fingerprint, trusted)

/-! ### Sessions -/

/-- One attempt to connect, run by itself. -/
def attempt (args : ConnectArgs) (dir : Text) (outside : Program.Outside ConnectCall.Answer) :
    Except SshError (Text × Bool) × Unit × ConnectHistory :=
  Program.run outside (connectChecked args (some dir)) () []

/-- The fingerprints of the connections that `ssh_connect` and then `supervise_reconnect` install in
a session: one for each successful attempt. -/
inductive Install (args : ConnectArgs) (dir : Text) :
    List Text → Program.Outside ConnectCall.Answer → List Text → Prop where
  | installed {installed : List Text} {outside : Program.Outside ConnectCall.Answer}
      {result : Text × Bool} (ok : (attempt args dir outside).1 = .ok result) :
      Install args dir installed outside (installed ++ [result.1])
  | failed {installed : List Text} {outside : Program.Outside ConnectCall.Answer} {e : SshError}
      (error : (attempt args dir outside).1 = .error e) :
      Install args dir installed outside installed

end Ssh
