import Catio.Lib.Utf8

/-!
# Errors of the SSH backend
-/

namespace Ssh

inductive SshError where
  | authFailed
  | hostUnreachable (host : Text)
  | hostKeyMismatch
  | channelClosed
  | notFound (session : Text)
  | sftp (message : Text)
  | tunnel (message : Text)
  | io (message : Text)
  | conflict
  | timedOut (partialOutput : Text)
  | cancelled
  deriving DecidableEq

def SshError.toText : SshError → Text
  | .authFailed => "authentication failed"
  | .hostUnreachable m => "host unreachable: " ++ m
  | .hostKeyMismatch => "host key mismatch"
  | .channelClosed => "channel closed"
  | .notFound m => "session not found: " ++ m
  | .sftp m => "sftp error: " ++ m
  | .tunnel m => "tunnel error: " ++ m
  | .io m => "io error: " ++ m
  | .conflict => "file changed on server"
  | .timedOut _ => "operation timed out"
  | .cancelled => "operation cancelled"

end Ssh

/-!
## Commands on the remote host

The model of `ssh/exec.rs`: a command is run on a channel of its own, and what the channel
sends is collected (`drain`).  What becomes of a command is up to the remote host and to the
connection; its exit status is known here, but the caller sees only the messages.
-/

namespace Ssh

inductive ChannelMsg where
  | data (bytes : Bytes)
  | extendedData (bytes : Bytes)
  | eof
  | close
  | success
  | failure
  | exitStatus (status : ℕ)
  | exitSignal

/-- The output that the messages bring, up to their end.  The exit status ends nothing, and is
no error. -/
def drain : List ChannelMsg → Bytes
  | [] => []
  | .data bytes :: messages => bytes ++ drain messages
  | .eof :: _ => []
  | .close :: _ => []
  | _ :: messages => drain messages

/-- What becomes of a command. -/
inductive Execution where
  /-- There is no such session. -/
  | notFound
  /-- No channel is opened. -/
  | notOpened (message : Text)
  /-- The request is not sent. -/
  | notRequested (message : Text)
  /-- The request is sent: the command exits with a status, or is refused. -/
  | requested (status : Option ℕ) (messages : List ChannelMsg)

/-- What the caller is told of a command. -/
def Execution.output (session : Text) : Execution → Except SshError Text
  | .notFound => .error (.notFound session)
  | .notOpened message => .error (.io message)
  | .notRequested message => .error (.io message)
  | .requested _ messages => .ok (Utf8.fromUtf8Lossy (drain messages))

end Ssh
