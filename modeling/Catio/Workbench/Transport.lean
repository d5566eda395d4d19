import Catio.Lib.Steps
import Catio.Lib.Text
import Mathlib.Data.List.Dedup

/-!
# The shared socket

The model of the streaming part of `services/transport.ts` in server mode: topics and their
handlers, the socket that is opened when it is needed and again when it is lost, and commands that
wait for a reply.  What happens is a list of events in any order, also where a promise settles.  The
heartbeat only closes the socket, and events that are kept for their handler have no effect.
-/

namespace Workbench

/-! ### Sockets -/

/-- What is sent to the server: a subscription, its end, or a command. -/
inductive Frame where
  | sub (topic : Text)
  | unsub (topic : Text)
  | cmd
  deriving DecidableEq

/-- `readyState`. -/
inductive ReadyState where
  | connecting
  | open_
  | closing
  | closed
  deriving DecidableEq

/-- A socket, with the frames that are on their way, and the topics that the server has a
subscription of. -/
structure Socket where
  readyState : ReadyState
  inFlight : List Frame
  subscribed : List Text
  deriving DecidableEq

/-- The subscriptions of the server after a frame. -/
def receive (topics : List Text) : Frame → List Text
  | .sub topic => topics.insert topic
  | .unsub topic => topics.filter (· ≠ topic)
  | .cmd => topics

/-- What is done with a socket once it is open. -/
inductive Continuation where
  | sub (topic : Text)
  | confirm (topic : Text)
  | command
  | notify
  deriving DecidableEq

/-- How a request is settled. -/
inductive Settlement where
  | reply (socket : ℕ)
  | closed (socket : ℕ)
  | timeout
  | unsent
  deriving DecidableEq

/-- The transport: the handlers of each topic, what waits for a socket to open, and what is to be
done with one that is open. Sockets have numbers. The last two fields record the requests with their
sockets, and how they were settled. -/
structure Transport where
  topicHandlers : List (Text × ℕ) := []
  sockets : List Socket := []
  sock : Option ℕ := none
  connecting : Option ℕ := none
  openingSocket : Option ℕ := none
  waiting : List (ℕ × Continuation) := []
  ready : List (ℕ × Continuation) := []
  reconnects : ℕ := 0
  cmdSeq : ℕ := 0
  pendingReplies : List (ℕ × ℕ) := []
  issued : List (ℕ × ℕ) := []
  settled : List (ℕ × Settlement) := []
  deriving DecidableEq

namespace Transport

variable (m : Transport)

def handled (topic : Text) : Bool :=
  m.topicHandlers.any (·.1 = topic)

def topics : List Text :=
  (m.topicHandlers.map Prod.fst).dedup

def readyState (s : ℕ) : Option ReadyState :=
  m.sockets[s]?.map Socket.readyState

def setSocket (s : ℕ) (f : Socket → Socket) : Transport :=
  { m with sockets := m.sockets.modify s f }

/-- Send a frame, which is dropped unless the socket is open. -/
def send (s : ℕ) (frame : Frame) : Transport :=
  m.setSocket s fun socket =>
    if socket.readyState = .open_ then { socket with inFlight := socket.inFlight ++ [frame] }
    else socket

/-- The shared socket, if it is open. -/
def openSock : Option ℕ :=
  m.sock.filter fun s => m.readyState s = some .open_

/-! ### Promises -/

/-- The socket to use, and whether it is open. -/
def ensureSocket : Transport × ℕ × Bool :=
  match m.openSock with
  | some s => (m, s, true)
  | none =>
      match m.connecting with
      | some s => (m, s, false)
      | none =>
          let s := m.sockets.length
          ({ m with
            sockets := m.sockets ++ [⟨.connecting, [], []⟩]
            openingSocket := some s
            connecting := some s }, s, false)

/-- Do something with the socket once it is open. -/
def whenOpen (task : Continuation) : Transport :=
  match m.ensureSocket with
  | (m, s, true) => { m with ready := m.ready ++ [(s, task)] }
  | (m, s, false) => { m with waiting := m.waiting ++ [(s, task)] }

def subscribe (topic : Text) (handler : ℕ) : Transport :=
  { m with topicHandlers := m.topicHandlers.insert (topic, handler) }.whenOpen (.sub topic)

/-- Remove a handler, and end the subscription of its topic if that was the last one. -/
def unsubscribe (topic : Text) (handler : ℕ) : Transport :=
  if !m.handled topic then m
  else
    let m := { m with topicHandlers := m.topicHandlers.filter (· ≠ (topic, handler)) }
    if m.handled topic then m
    else
      match m.openSock with
      | some s => m.send s (.unsub topic)
      | none => m

def settle (ids : List ℕ) (how : Settlement) : Transport :=
  { m with
    pendingReplies := m.pendingReplies.filter fun p => p.1 ∉ ids
    settled := m.settled ++ ids.map fun id => (id, how) }

/-- Send a frame that is to be replied to. -/
def socketRequest (s : ℕ) (frame : Frame) : Transport :=
  let id := m.cmdSeq + 1
  let m := { m with
    cmdSeq := id
    issued := m.issued ++ [(id, s)]
    pendingReplies := m.pendingReplies ++ [(id, s)] }
  if m.readyState s = some .connecting then m.settle [id] .unsent else m.send s frame

/-- Do with a socket what waited for it. -/
def perform (s : ℕ) : Continuation → Transport
  | .sub topic => m.send s (.sub topic)
  | .confirm topic => if m.handled topic then m.socketRequest s (.sub topic) else m
  | .command => m.socketRequest s .cmd
  | .notify => m.send s .cmd

/-- Do the next thing that has a socket, at some place in the queue. -/
def run (i : ℕ) : Transport :=
  match m.ready[i]? with
  | none => m
  | some (s, task) => { m with ready := m.ready.eraseIdx i }.perform s task

/-! ### What happens to a socket -/

/-- `onopen`. -/
def onopen (s : ℕ) : Transport :=
  if m.readyState s ≠ some .connecting then m
  else if m.openingSocket ≠ some s then
    m.setSocket s fun socket => { socket with readyState := .closing }
  else
    let m := { m.setSocket s fun socket => { socket with readyState := .open_ } with
      openingSocket := none
      sock := some s
      connecting := none }
    let m := m.topics.foldl (fun m topic => m.send s (.sub topic)) m
    { m with
      ready := m.ready ++ m.waiting.filter (·.1 = s)
      waiting := m.waiting.filter (·.1 ≠ s) }

/-- `onerror` of a socket that does not open. -/
def onerror (s : ℕ) : Transport :=
  if m.readyState s ≠ some .connecting then m
  else
    let m := m.setSocket s fun socket => { socket with readyState := .closing }
    if m.openingSocket = some s then
      { m with connecting := none, waiting := m.waiting.filter (·.1 ≠ s) }
    else m

/-- The requests that wait for a reply from a socket. -/
def requestsOf (s : ℕ) : List ℕ :=
  (m.pendingReplies.filter (·.2 = s)).map Prod.fst

/-- `onclose`. -/
def onclose (s : ℕ) : Transport :=
  if m.readyState s = none ∨ m.readyState s = some .closed then m
  else
    let m := m.setSocket s fun socket => { socket with readyState := .closed }
    let m := m.settle (m.requestsOf s) (.closed s)
    let m := { m with waiting := m.waiting.filter (·.1 ≠ s) }
    if m.sock ≠ some s ∧ m.openingSocket ≠ some s then m
    else
      { m with
        sock := if m.sock = some s then none else m.sock
        openingSocket := if m.openingSocket = some s then none else m.openingSocket
        connecting := if m.openingSocket = some s then none else m.connecting
        reconnects := if m.topicHandlers = [] then m.reconnects else m.reconnects + 1 }

/-- The socket is being closed, by either side. -/
def close (s : ℕ) : Transport :=
  m.setSocket s fun socket =>
    if socket.readyState = .closed then socket else { socket with readyState := .closing }

/-- The delay before connecting again is over. -/
def reconnect : Transport :=
  if m.reconnects = 0 then m
  else
    let m := { m with reconnects := m.reconnects - 1 }
    if m.sock = none ∧ m.topicHandlers ≠ [] then m.ensureSocket.1 else m

/-- The server takes the next frame of a socket. -/
def take (s : ℕ) : Transport :=
  m.setSocket s fun socket =>
    match socket.inFlight with
    | [] => socket
    | frame :: frames =>
        { socket with inFlight := frames, subscribed := receive socket.subscribed frame }

def onReply (s id : ℕ) : Transport :=
  if m.readyState s = some .open_ ∧ m.pendingReplies.lookup id = some s then
    m.settle [id] (.reply s)
  else m

/-- A request has waited for too long. -/
def onTimeout (id : ℕ) : Transport :=
  if (m.pendingReplies.lookup id).isSome then m.settle [id] .timeout else m

/-- Subscriptions are no longer waited for. -/
def giveUp (i : ℕ) : Transport :=
  match m.waiting[i]? with
  | some (_, .confirm _) => { m with waiting := m.waiting.eraseIdx i }
  | _ => m

end Transport

/-! ### Events -/

/-- What can happen. -/
inductive SocketEvent where
  | subscribe (topic : Text) (handler : ℕ)
  | unsubscribe (topic : Text) (handler : ℕ)
  | ensureSubscription (topic : Text)
  | wsCmd
  | wsNotify
  | run (i : ℕ)
  | giveUp (i : ℕ)
  | onopen (s : ℕ)
  | onerror (s : ℕ)
  | onclose (s : ℕ)
  | close (s : ℕ)
  | reconnect
  | take (s : ℕ)
  | reply (s id : ℕ)
  | timeout (id : ℕ)
  deriving DecidableEq

def Transport.after (m : Transport) : SocketEvent → Transport
  | .subscribe topic handler => m.subscribe topic handler
  | .unsubscribe topic handler => m.unsubscribe topic handler
  | .ensureSubscription topic => if m.handled topic then m.whenOpen (.confirm topic) else m
  | .wsCmd => m.whenOpen .command
  | .wsNotify => m.whenOpen .notify
  | .run i => m.run i
  | .giveUp i => m.giveUp i
  | .onopen s => m.onopen s
  | .onerror s => m.onerror s
  | .onclose s => m.onclose s
  | .close s => m.close s
  | .reconnect => m.reconnect
  | .take s => m.take s
  | .reply s id => m.onReply s id
  | .timeout id => m.onTimeout id

end Workbench
