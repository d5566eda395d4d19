import Mathlib.Data.Int.Notation
import Mathlib.Data.List.Basic

/-!
# VNC sessions

The model of the registry of VNC sessions in `vncconn.rs` (`vnc_connect_core`, `vnc_close_core`) and
`server.rs`.  What happens is a list of events in any order: each access to something shared, and
each task that ends.  A session is known by its number.  What is sent over it, and connections to
servers that fail, change nothing here.
-/

namespace Server

/-- How many VNC sessions a connection may have. -/
def MAX_VNC_PER_CONN : ℕ := 8

/-! ### State -/

/-- Where a session was asked for: in the desktop application, or on a connection of a user. -/
inductive VncPath where
  | desktop
  | web (conn : ℕ) (user : ℤ)
  deriving DecidableEq

/-- A session of a connection. -/
def VncPath.on (c : ℕ) : VncPath → Bool
  | .desktop => false
  | .web c' _ => c' = c

/-- How far a session is set up: spawned, in the manager, its reader started, in the list of its
connection, its owner recorded. On the desktop it is done in the manager. -/
inductive Setup where
  | spawned
  | inserted
  | started
  | pushed
  | done
  deriving DecidableEq

/-- The reader waits to be started, reads, has read all, has stopped the other tasks, has removed
the session, or was aborted. -/
inductive VncReader where
  | gated
  | reading
  | ended
  | stopping
  | removed
  | cancelled
  deriving DecidableEq

/-- Another task, which is aborted some time before it stops. -/
inductive VncTask where
  | running
  | aborted
  | stopped
  deriving DecidableEq

/-- `abort` -/
def VncTask.abort : VncTask → VncTask
  | .running => .aborted
  | task => task

/-- A session.  `closed` is whether it was asked to be closed, or its connection was. -/
structure VncSession where
  path : VncPath
  setup : Setup := .spawned
  reader : VncReader
  readerAborted : Bool := false
  writer : VncTask := .running
  ticker : VncTask := .running
  closed : Bool := false
  deriving DecidableEq

/-- Abort the tasks beside the reader. -/
def VncSession.stopSiblings (s : VncSession) : VncSession :=
  { s with writer := s.writer.abort, ticker := s.ticker.abort }

/-- A connection: the users of connects that are under way, the sessions that are counted, and
whether it is still to close them. -/
structure VncConn where
  isOpen : Bool := true
  connecting : List ℤ := []
  opened : List ℕ := []
  cleaning : Bool := false
  deriving DecidableEq

/-- The next step of closing: to take it from a list, to forget its owner, or to take it from the
manager. -/
inductive CloseStep where
  | retain (conn : ℕ)
  | disown
  | core
  deriving DecidableEq

/-- The sessions, the manager, the owners, the connections, and what is being closed. -/
structure Vnc where
  sessions : List VncSession := []
  manager : List ℕ := []
  owners : List (ℕ × ℤ) := []
  conns : List VncConn := []
  closers : List (ℕ × CloseStep) := []
  deriving DecidableEq

namespace Vnc

variable (m : Vnc)

def setSession (i : ℕ) (f : VncSession → VncSession) : Vnc :=
  { m with sessions := m.sessions.modify i f }

/-- Change a connection. -/
def setConn (c : ℕ) (f : VncConn → VncConn) : Vnc :=
  { m with conns := m.conns.modify c f }

/-! ### Connecting -/

/-- `vnc_connect` of the desktop application, up to its tasks. -/
def openDesktop : Vnc :=
  { m with sessions := m.sessions ++ [{ path := .desktop, reader := .reading }] }

/-- `vnc_connect` on a connection, which takes a while. -/
def connectWeb (c : ℕ) (user : ℤ) : Vnc :=
  match m.conns[c]? with
  | none => m
  | some conn =>
      if conn.isOpen && decide (conn.opened.length < MAX_VNC_PER_CONN) then
        m.setConn c fun conn => { conn with connecting := conn.connecting ++ [user] }
      else m

def failWeb (c k : ℕ) : Vnc :=
  m.setConn c fun conn => { conn with connecting := conn.connecting.eraseIdx k }

/-- A connect goes on to its tasks, with the reader to be started later. -/
def openWeb (c k : ℕ) : Vnc :=
  match m.conns[c]? with
  | none => m
  | some conn =>
      match conn.connecting[k]? with
      | none => m
      | some user =>
          { m.failWeb c k with
            sessions := m.sessions ++ [{ path := .web c user, reader := .gated }] }

/-- The next step of a connect. -/
def proceed (i : ℕ) : Vnc :=
  match m.sessions[i]? with
  | none => m
  | some s =>
      match s.setup, s.path with
      | .spawned, .desktop =>
          { m.setSession i fun s => { s with setup := .done } with manager := m.manager ++ [i] }
      | .spawned, .web _ _ =>
          { m.setSession i fun s => { s with setup := .inserted } with manager := m.manager ++ [i] }
      | .inserted, _ =>
          m.setSession i fun s =>
            { s with
              setup := .started
              reader := if s.reader = .gated then .reading else s.reader }
      | .started, .web c _ =>
          (m.setSession i fun s => { s with setup := .pushed }).setConn c fun conn =>
            { conn with opened := conn.opened ++ [i] }
      | .pushed, .web _ user =>
          { m.setSession i fun s => { s with setup := .done } with
            owners := m.owners ++ [(i, user)] }
      | _, _ => m

/-! ### Tasks -/

/-- The reader comes to the end of what there is to read. -/
def pumpEnds (i : ℕ) : Vnc :=
  m.setSession i fun s => if s.reader = .reading then { s with reader := .ended } else s

/-- The reader stops the other tasks. -/
def stopSiblings (i : ℕ) : Vnc :=
  m.setSession i fun s =>
    if s.reader = .ended then { s.stopSiblings with reader := .stopping } else s

/-- The reader removes the session from the manager. -/
def remove (i : ℕ) : Vnc :=
  match m.sessions[i]? with
  | none => m
  | some s =>
      if s.reader = .stopping then
        { m.setSession i fun s => { s with reader := .removed } with
          manager := m.manager.filter (· ≠ i) }
      else m

/-- The reader is aborted while it waits. -/
def cancelReader (i : ℕ) : Vnc :=
  m.setSession i fun s =>
    if s.readerAborted ∧ (s.reader = .gated ∨ s.reader = .reading) then
      { s with reader := .cancelled }
    else s

def stopWriter (i : ℕ) : Vnc :=
  m.setSession i fun s => { s with writer := .stopped }

def stopTicker (i : ℕ) : Vnc :=
  m.setSession i fun s => { s with ticker := .stopped }

/-! ### Closing -/

/-- The owner of a session, or an administrator. -/
def owns (user : ℤ) (admin : Bool) (i : ℕ) : Bool :=
  admin || m.owners.lookup i = some user

/-- `vnc_close` of the desktop application. -/
def closeDesktop (i : ℕ) : Vnc :=
  { m.setSession i fun s => { s with closed := true } with closers := m.closers ++ [(i, .core)] }

/-- `vnc_close` on a connection. -/
def closeWeb (c : ℕ) (user : ℤ) (admin : Bool) (i : ℕ) : Vnc :=
  if m.conns[c]?.any VncConn.isOpen && m.owns user admin i then
    { m.setSession i fun s => { s with closed := true } with
      closers := m.closers ++ [(i, .retain c)] }
  else m

/-- `vnc_close_core`. -/
def closeCore (i : ℕ) : Vnc :=
  if i ∈ m.manager then
    { m.setSession i fun s => { s.stopSiblings with readerAborted := true } with
      manager := m.manager.filter (· ≠ i) }
  else m

/-- The next step in closing a session. -/
def closeStep (k : ℕ) : Vnc :=
  match m.closers[k]? with
  | none => m
  | some (i, .retain c) =>
      { m.setConn c fun conn => { conn with opened := conn.opened.filter (· ≠ i) } with
        closers := m.closers.set k (i, .disown) }
  | some (i, .disown) =>
      { m with
        owners := m.owners.filter (·.1 ≠ i)
        closers := m.closers.set k (i, .core) }
  | some (i, .core) => { m with closers := m.closers.eraseIdx k }.closeCore i

/-- A connection is over. -/
def closeConn (c : ℕ) : Vnc :=
  match m.conns[c]? with
  | none => m
  | some conn =>
      if conn.isOpen then
        { m.setConn c fun conn => { conn with isOpen := false, cleaning := true } with
          sessions := m.sessions.map fun s =>
            if s.path.on c then { s with closed := true } else s }
      else m

/-- The sessions of a connection that is over are to be closed. -/
def cleanup (c : ℕ) : Vnc :=
  match m.conns[c]? with
  | none => m
  | some conn =>
      if conn.cleaning then
        { m.setConn c fun conn => { conn with cleaning := false } with
          closers := m.closers ++ conn.opened.map fun i => (i, .disown) }
      else m

end Vnc

/-! ### Events -/

/-- What can happen. -/
inductive VncEvent where
  | register
  | openDesktop
  | connectWeb (c : ℕ) (user : ℤ)
  | failWeb (c k : ℕ)
  | openWeb (c k : ℕ)
  | proceed (i : ℕ)
  | pumpEnds (i : ℕ)
  | stopSiblings (i : ℕ)
  | remove (i : ℕ)
  | cancelReader (i : ℕ)
  | stopWriter (i : ℕ)
  | stopTicker (i : ℕ)
  | closeDesktop (i : ℕ)
  | closeWeb (c : ℕ) (user : ℤ) (admin : Bool) (i : ℕ)
  | closeStep (k : ℕ)
  | closeConn (c : ℕ)
  | cleanup (c : ℕ)
  deriving DecidableEq

def Vnc.after (m : Vnc) : VncEvent → Vnc
  | .register => { m with conns := m.conns ++ [{}] }
  | .openDesktop => m.openDesktop
  | .connectWeb c user => m.connectWeb c user
  | .failWeb c k => m.failWeb c k
  | .openWeb c k => m.openWeb c k
  | .proceed i => m.proceed i
  | .pumpEnds i => m.pumpEnds i
  | .stopSiblings i => m.stopSiblings i
  | .remove i => m.remove i
  | .cancelReader i => m.cancelReader i
  | .stopWriter i => m.stopWriter i
  | .stopTicker i => m.stopTicker i
  | .closeDesktop i => m.closeDesktop i
  | .closeWeb c user admin i => m.closeWeb c user admin i
  | .closeStep k => m.closeStep k
  | .closeConn c => m.closeConn c
  | .cleanup c => m.cleanup c

end Server
