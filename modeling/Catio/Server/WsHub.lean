import Catio.Lib.Json
import Catio.Server.Auth

/-!
# The WebSocket hub

The model of `server_ws.rs`, and of what `handle_ws` in `server.rs` does with it: connections with
their topics, the bounded channels of their writers, and the frames that are sent on a topic.  What
happens is a list of events in any order: the frames of clients, frames that are sent, and the
steps of the writers.  A connection is known by its number.
-/

namespace Server

open Text Json

/-- How many topics a connection may subscribe to. -/
def MAX_TOPICS_PER_CONN : ℕ := 512

/-- How many frames wait for the writer of a connection. -/
def WRITER_CAPACITY : ℕ := 2048

/-- A frame that is sent to a client. -/
inductive WsFrame where
  | event (topic : Text) (payload : Value)
  | reply (id : Value) (result : Except Text Value)
  | pong

def WsFrame.event? : WsFrame → Option (Text × Value)
  | .event topic payload => some (topic, payload)
  | _ => none

/-- What a client may rely on, which the source does not keep: the topics with an ok receipt, its
subscriptions, the events that it is due, and those that it may see. -/
structure WsClient where
  acked : List Text := []
  wanted : List Text := []
  due : List (Text × Value) := []
  allowed : List (Text × Value) := []

/-- The receipt of a subscription that is still to be sent: the id, the topic, and why it is
denied. -/
structure WsReceipt where
  id : Value
  topic : Text
  denied : Option Text

/-- A connection. `registered` is whether it is in the hub, `isOpen` and `writing` whether its
reader and its writer run. -/
structure WsConn where
  owner : Option Text
  topics : List Text := []
  queue : List WsFrame := []
  delivered : List WsFrame := []
  receipt : Option WsReceipt := none
  registered : Bool := true
  isOpen : Bool := true
  writing : Bool := true
  client : WsClient := {}

/-- The connections, and those that are still to be evicted. -/
structure WsHub where
  conns : List WsConn := []
  dead : List ℕ := []

/-! ### Connections -/

namespace WsConn

variable (conn : WsConn)

/-- Whether there is room for a frame. -/
def ready : Bool :=
  conn.writing && conn.queue.length < WRITER_CAPACITY

/-- `try_send` of the channel of the writer. -/
def trySend (frame : WsFrame) : WsConn :=
  if conn.ready then { conn with queue := conn.queue ++ [frame] } else conn

/-- `subscribe`: a topic over the cap is left out. -/
def subscribe (topic : Text) : WsConn :=
  { conn with
    topics :=
      if conn.registered ∧ (topic ∈ conn.topics ∨ conn.topics.length < MAX_TOPICS_PER_CONN) then
        conn.topics.insert topic
      else conn.topics
    client := { conn.client with wanted := conn.client.wanted.insert topic } }

/-- `unsubscribe` -/
def unsubscribe (topic : Text) : WsConn :=
  { conn with
    topics := if conn.registered then conn.topics.filter (· ≠ topic) else conn.topics
    client := { conn.client with
      acked := conn.client.acked.filter (· ≠ topic)
      wanted := conn.client.wanted.filter (· ≠ topic) } }

/-- Whether an event is for an owner. -/
def inScope (scope : Option Text) : Bool :=
  scope.isNone || conn.owner = scope

/-- Whether an event is sent to a connection. -/
def hears (scope : Option Text) (topic : Text) : Bool :=
  conn.registered && conn.inScope scope && topic ∈ conn.topics

/-- An event that is sent, for all or for an owner. -/
def offer (scope : Option Text) (topic : Text) (payload : Value) : WsConn :=
  let sent := if conn.hears scope topic then conn.trySend (.event topic payload) else conn
  { sent with
    client := { conn.client with
      due :=
        if conn.isOpen ∧ conn.inScope scope ∧ topic ∈ conn.client.acked then
          conn.client.due ++ [(topic, payload)]
        else conn.client.due
      allowed :=
        if conn.inScope scope ∧ topic ∈ conn.client.wanted then
          conn.client.allowed ++ [(topic, payload)]
        else conn.client.allowed } }

end WsConn

/-! ### Frames of clients -/

/-- Topics that clients may not subscribe to. -/
def isProtectedTopic (topic : Text) : Bool :=
  (["term://", "history://", "vnc-init://", "vnc-rect://", "vnc-closed://", "monitor://",
    "scan://"] : List String).any fun p => p.toList.isPrefixOf topic

def maySubscribe (actor : User) (topic : Text) : Bool :=
  match stripPrefix "mcp-log://" topic with
  | some scope => actor.isAdmin || scope = (toString actor.id).toList
  | none => !isProtectedTopic topic

/-- Why a subscription is denied, where a session may have no user any more. -/
def denial (actor : Option User) (topic : Text) : Option Text :=
  match actor with
  | none => some "Subscription session expired"
  | some actor => if maySubscribe actor topic then none else some "Subscription denied"

/-- A `sub` frame of a session: the topic is subscribed to, and a receipt is to be sent if the frame
has an id. -/
def WsConn.sub (conn : WsConn) (actor : Option User) (topic : Text) (id : Option Value) : WsConn :=
  let denied := denial actor topic
  let conn := if denied = none then conn.subscribe topic else conn
  { conn with receipt := id.map fun id => { id, topic, denied } }

def WsConn.sendReceipt (conn : WsConn) : WsConn :=
  match conn.receipt with
  | none => conn
  | some receipt =>
      let result := match receipt.denied with
        | some error => .error error
        | none => .ok (.object [("topic", .string receipt.topic)])
      let acked :=
        if conn.ready ∧ receipt.denied = none then conn.client.acked.insert receipt.topic
        else conn.client.acked
      { conn.trySend (.reply receipt.id result) with
        receipt := none
        client := { conn.client with acked := acked } }

/-- The writer sends the next frame. -/
def WsConn.write (conn : WsConn) : WsConn :=
  match conn.queue with
  | frame :: queue =>
      if conn.writing then
        { conn with queue := queue, delivered := conn.delivered ++ [frame] }
      else conn
  | [] => conn

/-! ### Events -/

/-- What happens. -/
inductive WsEvent where
  | register (owner : Option Text)
  | sub (c : ℕ) (actor : Option User) (topic : Text) (id : Option Value)
  | receipt (c : ℕ)
  | unsub (c : ℕ) (topic : Text)
  | serve (c : ℕ) (topic : Text)
  | reply (c : ℕ) (id : Value) (result : Except Text Value)
  | ping (c : ℕ)
  | emit (topic : Text) (payload : Value)
  | emitToOwner (owner topic : Text) (payload : Value)
  | evict (k : ℕ)
  | write (c : ℕ)
  | writerFails (c : ℕ)
  | close (c : ℕ)
  | abortWriter (c : ℕ)
  | unregister (c : ℕ)

namespace WsHub

variable (m : WsHub)

def setConn (c : ℕ) (f : WsConn → WsConn) : WsHub :=
  { m with conns := m.conns.modify c f }

/-- The reader of a connection, between two frames. -/
def onFrame (c : ℕ) (f : WsConn → WsConn) : WsHub :=
  m.setConn c fun conn => if conn.isOpen ∧ conn.receipt.isNone then f conn else conn

/-- An event is sent to the connections that hear it; those whose writer is full or over are to be
evicted. -/
def send (scope : Option Text) (topic : Text) (payload : Value) : WsHub where
  conns := m.conns.map (·.offer scope topic payload)
  dead := m.dead ++ (List.range m.conns.length).filter fun c =>
    (m.conns[c]?).any fun conn => conn.hears scope topic && !conn.ready

def evict (k : ℕ) : WsHub :=
  match m.dead[k]? with
  | some c =>
      { m.setConn c fun conn => { conn with registered := false } with dead := m.dead.eraseIdx k }
  | none => m

def after (m : WsHub) : WsEvent → WsHub
  | .register owner => { m with conns := m.conns ++ [{ owner }] }
  | .sub c actor topic id => m.onFrame c fun conn => conn.sub actor topic id
  | .receipt c => m.setConn c WsConn.sendReceipt
  | .unsub c topic => m.onFrame c fun conn => conn.unsubscribe topic
  | .serve c topic => m.setConn c fun conn => conn.subscribe topic
  | .reply c id result => m.setConn c fun conn => conn.trySend (.reply id result)
  | .ping c => m.onFrame c fun conn => conn.trySend .pong
  | .emit topic payload => m.send none topic payload
  | .emitToOwner owner topic payload => m.send (some owner) topic payload
  | .evict k => m.evict k
  | .write c => m.setConn c WsConn.write
  | .writerFails c => m.setConn c fun conn => { conn with writing := false, isOpen := false }
  | .close c => m.setConn c fun conn => { conn with isOpen := false }
  | .abortWriter c => m.setConn c fun conn =>
      if conn.isOpen then conn else { conn with writing := false }
  | .unregister c => m.setConn c fun conn =>
      if conn.isOpen then conn else { conn with registered := false }

end WsHub

end Server
