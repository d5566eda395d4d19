import Catio.Db.QueryControl

/-!
# Query sessions

The model of `query_session_registry.rs` with the part of `manager.rs` that uses it: SQL sessions
that are leased to a parent connection.  A step is one critical section, so that `activate` comes
some time after `reserve`, and the sections of `remove` and the retirement of a session are apart.
Drivers are numbered as they are forked.
-/

namespace Db

open Text

def maxPerConnection : ℕ := 16

def maxTotal : ℕ := 128

def sessionLeaseSeconds : ℕ := 30 * 60

/-- A session: its parent connection, its driver once it is activated, and the time of its
last use. -/
structure SessionEntry where
  parent : Text
  driver : Option ℕ
  touched : ℕ
  deriving DecidableEq

/-- How far the opening of a session has come. -/
inductive TicketPhase where
  | opening
  | refused
  | activated
  deriving DecidableEq

/-- The ticket of a reserved session. -/
structure OpeningSession where
  id : Text
  phase : TicketPhase
  deriving DecidableEq

/-- The connections, the sessions and what the tasks around them hold: cancelled tokens, tickets,
connections and sessions that are still to be closed or retired, and the numbers of forked and
closed drivers. -/
structure ConnManager where
  conns : List Text := []
  running : RunningQueries := {}
  entries : Table Text SessionEntry := ∅
  cancelled : List Text := []
  tickets : List OpeningSession := []
  removals : List Text := []
  retiring : List (Text × SessionEntry) := []
  closing : List ℕ := []
  drivers : ℕ := 0
  closed : List ℕ := []

/-- The error of a lookup that finds no session. -/
def missing : DbError :=
  .notFound "SQL query session (closed, expired, or owned by another connection)"

/-- The id of a session from its random number, in 32 hexadecimal digits. -/
def sessionId (random : BitVec 128) : Text :=
  "sql-" ++ (Nat.toDigits 16 random.toNat).leftpad 32 '0'

def OpeningSession.settle (id : Text) (phase : TicketPhase) (ticket : OpeningSession) :
    OpeningSession :=
  if ticket.id = id then { ticket with phase := phase } else ticket

namespace ConnManager

/-! ### The registry of sessions -/

/-- Reserve a slot for a session of a parent connection. -/
def reserve (parent id : Text) (now : ℕ) (m : ConnManager) : Except DbError Text × ConnManager :=
  if m.entries.size ≥ maxTotal
      ∨ m.entries.count (fun _ entry => entry.parent = parent) ≥ maxPerConnection then
    (.error (.unsupported "Too many SQL sessions; close unused query tabs"), m)
  else
    (.ok id, { m with
      entries := m.entries.insert id ⟨parent, none, now⟩
      tickets := ⟨id, .opening⟩ :: m.tickets })

/-- Install the forked driver of a ticket, or close it if the slot is gone. -/
def activate (id : Text) (now : ℕ) (m : ConnManager) : Except DbError Unit × ConnManager :=
  if id ∈ m.entries ∧ id ∉ m.cancelled then
    (.ok (), { m with
      entries := m.entries.modify id fun entry =>
        { entry with driver := some m.drivers, touched := now }
      tickets := m.tickets.map (OpeningSession.settle id .activated)
      drivers := m.drivers + 1 })
  else
    (.error missing, { m with
      tickets := m.tickets.map (OpeningSession.settle id .refused)
      drivers := m.drivers + 1
      closed := m.drivers :: m.closed })

/-- The drop of a ticket: a session that was not activated gives its slot back. -/
def dropTicket (ticket : OpeningSession) (m : ConnManager) : ConnManager :=
  let m := { m with tickets := m.tickets.erase ticket }
  if ticket.phase = .activated then m
  else
    match m.entries.lookup ticket.id with
    | none => m
    | some entry => { m with
        entries := m.entries.erase ticket.id
        cancelled := ticket.id :: m.cancelled
        closed := entry.driver.toList ++ m.closed }

/-- The parent connection may use the session. -/
def usable (parent id : Text) (now : ℕ) (m : ConnManager) (entry : SessionEntry) : Bool :=
  entry.parent = parent ∧ id ∉ m.cancelled
    ∧ now - entry.touched < fromSecs sessionLeaseSeconds

/-- The driver of a session that the parent connection may use. -/
def usableDriver (parent id : Text) (now : ℕ) (m : ConnManager) : Option ℕ :=
  ((m.entries.lookup id).filter (m.usable parent id now)).bind SessionEntry.driver

/-- The session was used. -/
def touchEntry (id : Text) (now : ℕ) (m : ConnManager) : ConnManager :=
  { m with entries := m.entries.modify id fun entry => { entry with touched := now } }

/-- Look up the driver of a session. -/
def driver (parent id : Text) (now : ℕ) (m : ConnManager) : Except DbError ℕ × ConnManager :=
  match m.usableDriver parent id now with
  | none => (.error missing, m)
  | some driver => (.ok driver, m.touchEntry id now)

/-- Look up the driver of a session and register an execution on it. -/
def acquire (parent id execution : Text) (now : ℕ) (m : ConnManager) :
    Except DbError (ℕ × QueryGuard) × ConnManager :=
  match m.usableDriver parent id now with
  | none => (.error missing, m)
  | some driver =>
      match m.running.register now id execution with
      | (.error e, running) => (.error e, { m with running := running })
      | (.ok guard, running) => (.ok (driver, guard), { m with running := running }.touchEntry id now)

/-- Cancel an execution on a session, whose driver can interrupt a query or cannot. -/
def cancel (parent id execution : Text) (now : ℕ) (supportsQueryCancel : Bool) (m : ConnManager) :
    Except DbError Unit × ConnManager :=
  match m.driver parent id now with
  | (.error e, m) => (.error e, m)
  | (.ok _, m) =>
      if ¬ supportsQueryCancel then
        (.error (.unsupported
          "This engine cannot interrupt a statement without closing its SQL session"), m)
      else
        match m.running.cancel now id execution with
        | (result, running) => (result, { m with running := running })

/-- Take the sessions that pass a test out of the registry. -/
def takeOut (p : Text → SessionEntry → Bool) (m : ConnManager) : ConnManager :=
  { m with
    entries := m.entries.retain fun id entry => !p id entry
    retiring := (m.entries.entries.filter fun e => p e.1 e.2).map (fun e => (e.1, e.2))
      ++ m.retiring }

/-- Close a session of its parent connection. -/
def close (parent id : Text) (m : ConnManager) : Except DbError Unit × ConnManager :=
  match m.entries.lookup id with
  | none => (.ok (), m)
  | some existing =>
      if existing.parent ≠ parent then (.error missing, m)
      else (.ok (), m.takeOut fun other _ => other = id)

/-- Close all sessions of a parent connection. -/
def closeParent (parent : Text) (m : ConnManager) : ConnManager :=
  m.takeOut fun _ entry => entry.parent = parent

/-- Close the sessions whose lease has run out. -/
def reapExpiredAt (now : ℕ) (m : ConnManager) : ConnManager :=
  m.takeOut fun _ entry => now - entry.touched ≥ fromSecs sessionLeaseSeconds

/-- Retire a session that was taken out: cancel its token and its executions, and leave its
driver to a task that closes it. -/
def retire (session : Text × SessionEntry) (m : ConnManager) : ConnManager :=
  { m with
    retiring := m.retiring.erase session
    cancelled := session.1 :: m.cancelled
    running := m.running.cancelConnection session.1
    closing := session.2.driver.toList ++ m.closing }

/-- The task closes its driver. -/
def closeDriver (driver : ℕ) (m : ConnManager) : ConnManager :=
  { m with
    closing := m.closing.erase driver
    closed := driver :: m.closed }

/-! ### The connections -/

def insert (id : Text) (m : ConnManager) : ConnManager :=
  { m with conns := m.conns.insert id }

/-- Remove a connection and cancel its executions; its sessions are closed in a second
section. -/
def remove (id : Text) (m : ConnManager) : ConnManager :=
  { m with
    conns := m.conns.filter (· ≠ id)
    running := (m.running.cancelConnection id).cancelConnection ("metadata:" ++ id)
    removals := id :: m.removals }

/-- The second section of the removal of a connection. -/
def removeSessions (id : Text) (m : ConnManager) : ConnManager :=
  { m.closeParent id with removals := m.removals.erase id }

/-- Do something on a connection that is there. -/
def onConnection {α : Type} (connection : Text) (f : ConnManager → Except DbError α × ConnManager)
    (m : ConnManager) :
    Except DbError α × ConnManager :=
  if connection ∈ m.conns then f m else (.error (.notFound connection), m)

/-- Start to open a session: reserve a slot with a random id. -/
def openQuerySession (connection : Text) (random : BitVec 128) (now : ℕ) (m : ConnManager) :
    Except DbError Text × ConnManager :=
  m.onConnection connection (reserve connection (sessionId random) now)

def sessionDriver (connection session : Text) (now : ℕ) (m : ConnManager) :
    Except DbError ℕ × ConnManager :=
  m.onConnection connection (driver connection session now)

def acquireSession (connection session execution : Text) (now : ℕ) (m : ConnManager) :
    Except DbError (ℕ × QueryGuard) × ConnManager :=
  m.onConnection connection (acquire connection session execution now)

def cancelQueryInSession (connection session execution : Text) (now : ℕ)
    (supportsQueryCancel : Bool) (m : ConnManager) : Except DbError Unit × ConnManager :=
  m.onConnection connection (cancel connection session execution now supportsQueryCancel)

/-! ### Runs -/

/-- What happens to the connections and sessions. Before `close` the connection may be gone. -/
inductive Event where
  | insert (id : Text)
  | remove (id : Text)
  | removeSessions (id : Text)
  | opens (connection : Text) (result : Except DbError Text)
  | activate (id : Text) (result : Except DbError Unit)
  | dropTicket (ticket : OpeningSession)
  | driver (connection session : Text) (result : Except DbError ℕ)
  | acquire (connection session : Text) (result : Except DbError (ℕ × QueryGuard))
  | cancel (connection session : Text) (result : Except DbError Unit)
  | close (connection session : Text) (result : Except DbError Unit)
  | reap (now : ℕ)
  | retire (session : Text × SessionEntry)
  | closeDriver (driver : ℕ)
  | running (event : RunningQueries.Event)

/-- The steps of the connections and sessions, with any readings of the clock and any random
numbers. -/
inductive Step : ConnManager → Event → ConnManager → Prop where
  | insert (id : Text) (m : ConnManager) : Step m (.insert id) (m.insert id)
  | remove (id : Text) (m : ConnManager) : Step m (.remove id) (m.remove id)
  | removeSessions {id : Text} {m : ConnManager} (removed : id ∈ m.removals) :
      Step m (.removeSessions id) (m.removeSessions id)
  | opens (connection : Text) (random : BitVec 128) (now : ℕ) (m : ConnManager) :
      Step m (.opens connection (m.openQuerySession connection random now).1)
        (m.openQuerySession connection random now).2
  | activate {id : Text} {m : ConnManager} (now : ℕ) (opening : ⟨id, .opening⟩ ∈ m.tickets) :
      Step m (.activate id (m.activate id now).1) (m.activate id now).2
  | dropTicket {ticket : OpeningSession} {m : ConnManager} (held : ticket ∈ m.tickets) :
      Step m (.dropTicket ticket) (m.dropTicket ticket)
  | driver (connection session : Text) (now : ℕ) (m : ConnManager) :
      Step m (.driver connection session (m.sessionDriver connection session now).1)
        (m.sessionDriver connection session now).2
  | acquire (connection session execution : Text) (now : ℕ) (m : ConnManager) :
      Step m (.acquire connection session (m.acquireSession connection session execution now).1)
        (m.acquireSession connection session execution now).2
  | cancel (connection session execution : Text) (now : ℕ) (supportsQueryCancel : Bool)
      (m : ConnManager) :
      Step m (.cancel connection session
          (m.cancelQueryInSession connection session execution now supportsQueryCancel).1)
        (m.cancelQueryInSession connection session execution now supportsQueryCancel).2
  | close (connection session : Text) (m : ConnManager) :
      Step m (.close connection session (m.close connection session).1)
        (m.close connection session).2
  | reap (now : ℕ) (m : ConnManager) : Step m (.reap now) (m.reapExpiredAt now)
  | retire {session : Text × SessionEntry} {m : ConnManager} (out : session ∈ m.retiring) :
      Step m (.retire session) (m.retire session)
  | closeDriver {driver : ℕ} {m : ConnManager} (closing : driver ∈ m.closing) :
      Step m (.closeDriver driver) (m.closeDriver driver)
  | running {m : ConnManager} {event : RunningQueries.Event} {running : RunningQueries}
      (step : RunningQueries.Step m.running event running) :
      Step m (.running event) { m with running := running }

/-- The sessions that were opened, each with its parent connection. -/
def Event.opened : Event → Option (Text × Text)
  | .opens connection (.ok id) => some (id, connection)
  | _ => none

end ConnManager

end Db
