import Catio.Lib.Text
import Catio.Server.VncSessions

/-!
# Commands of a WebSocket connection

The model of what `handle_ws` and `handle_ws_cmd` in `server.rs` open for a connection and close
with it: terminals, VNC sessions, scans and monitors.  What happens is a list of events in any
order, one for each access to something shared.  Commands that connect to a host run beside the
reader of their connection, which awaits all others; a refused one changes nothing here.
-/

namespace Server

open Text

/-- How many scans a connection may run. -/
def MAX_SCANS_PER_CONN : ℕ := 2

/-! ### What is opened -/

inductive WsKind where
  | term
  | vnc
  | scan
  | monitor
  deriving DecidableEq

/-- What a command has opened.  A channel, a VNC session and a scan have a number, and a monitor is
known by its session. -/
inductive WsHandle where
  | term (session : Text) (chan : ℕ)
  | vnc (id : ℕ)
  | scan (id : ℕ)
  | monitor (session : Text)
  deriving DecidableEq

def WsHandle.kind : WsHandle → WsKind
  | .term _ _ => .term
  | .vnc _ => .vnc
  | .scan _ => .scan
  | .monitor _ => .monitor

/-- A command that connects to a host. -/
inductive WsConnect where
  | termOpen (session : Text)
  | vncConnect
  deriving DecidableEq

/-- What such a command opens. -/
def WsConnect.handle (id : ℕ) : WsConnect → WsHandle
  | .termOpen session => .term session id
  | .vncConnect => .vnc id

/-- How far such a command is: it was spawned, it connects, and what it opened is registered. -/
inductive WsConnecting where
  | spawned (cmd : WsConnect)
  | waiting (cmd : WsConnect)
  | registered (handle : WsHandle)
  deriving DecidableEq

/-- The command that the reader awaits: something taken from a list is to be closed, a registered
scan is to be put into its list, or a monitor in the list is to be registered. -/
inductive WsAwaited where
  | closing (handle : WsHandle)
  | scanning (handle : WsHandle)
  | monitoring (session : Text)
  deriving DecidableEq

/-- A connection. `opened` has its four lists; `uncleaned` are those that its end has still to
close, and `cleaning` is what is left of the copy of one. -/
structure WsTab where
  isOpen : Bool := true
  opened : List WsHandle := []
  connecting : List WsConnecting := []
  awaited : Option WsAwaited := none
  uncleaned : List WsKind := [.term, .vnc, .scan, .monitor]
  cleaning : List WsHandle := []
  deriving DecidableEq

/-- The connections, what they registered, the scans that were cancelled, and the number of what is
opened next. -/
structure WsTabs where
  tabs : List WsTab := []
  registry : List (WsHandle × ℕ) := []
  cancelled : List WsHandle := []
  next : ℕ := 0
  deriving DecidableEq

/-! ### Connections -/

namespace WsTab

variable (tab : WsTab)

def openedOf (kind : WsKind) : List WsHandle :=
  tab.opened.filter (·.kind = kind)

/-- Whether the reader reads the next frame. -/
def reads : Bool :=
  tab.isOpen && tab.awaited.isNone

/-- A connection that is over, of which nothing is left to do. -/
def finished : Bool :=
  !tab.isOpen && tab.connecting.isEmpty && tab.uncleaned.isEmpty && tab.cleaning.isEmpty

end WsTab

namespace WsTabs

variable (m : WsTabs)

def setTab (c : ℕ) (f : WsTab → WsTab) : WsTabs :=
  { m with tabs := m.tabs.modify c f }

/-- Nothing is registered under this any more. -/
def remove (handle : WsHandle) : WsTabs :=
  { m with registry := m.registry.filter (·.1 ≠ handle) }

/-- The VNC sessions that a connection holds. -/
def vncHeld (c : ℕ) : ℕ :=
  m.registry.countP fun entry => entry.1.kind = .vnc && entry.2 = c

/-! ### Commands that connect -/

/-- A command that connects is started: a VNC session over the cap is refused. -/
def startConnect (c k : ℕ) : WsTabs :=
  m.setTab c fun tab =>
    match tab.connecting[k]? with
    | some (.spawned cmd) =>
        if cmd = .vncConnect ∧ MAX_VNC_PER_CONN ≤ (tab.openedOf .vnc).length then
          { tab with connecting := tab.connecting.eraseIdx k }
        else { tab with connecting := tab.connecting.set k (.waiting cmd) }
    | _ => tab

/-- A host could not be connected to. -/
def failConnect (c k : ℕ) : WsTabs :=
  m.setTab c fun tab =>
    match tab.connecting[k]? with
    | some (.waiting _) => { tab with connecting := tab.connecting.eraseIdx k }
    | _ => tab

/-- A host is connected to, and what was opened is registered. -/
def establish (c k : ℕ) : WsTabs :=
  match m.tabs[c]?.bind (·.connecting[k]?) with
  | some (.waiting cmd) =>
      let handle := cmd.handle m.next
      let m := { m with registry := m.registry ++ [(handle, c)], next := m.next + 1 }
      m.setTab c fun tab => { tab with connecting := tab.connecting.set k (.registered handle) }
  | _ => m

/-- What a command has opened is put into the list of its connection. -/
def record (c k : ℕ) : WsTabs :=
  m.setTab c fun tab =>
    match tab.connecting[k]? with
    | some (.registered handle) =>
        { tab with opened := tab.opened ++ [handle], connecting := tab.connecting.eraseIdx k }
    | _ => tab

/-! ### Commands that the reader awaits -/

/-- `term_close`, `vnc_close` and `monitor_stop`: what is closed is taken from the list first. -/
def closeHandle (c : ℕ) (handle : WsHandle) : WsTabs :=
  m.setTab c fun tab =>
    { tab with opened := tab.opened.filter (· ≠ handle), awaited := some (.closing handle) }

/-- `monitor_start` puts the session into the list first. -/
def monitorStart (c : ℕ) (session : Text) : WsTabs :=
  m.setTab c fun tab =>
    { tab with
      opened :=
        if .monitor session ∈ tab.opened then tab.opened else tab.opened ++ [.monitor session]
      awaited := some (.monitoring session) }

/-- `scan_start` registers a scan that is not over the cap. -/
def scanStart (c : ℕ) : WsTabs :=
  match m.tabs[c]? with
  | some tab =>
      if (tab.openedOf .scan).length < MAX_SCANS_PER_CONN then
        let handle := .scan m.next
        let m := { m with registry := m.registry ++ [(handle, c)], next := m.next + 1 }
        m.setTab c fun tab => { tab with awaited := some (.scanning handle) }
      else m
  | none => m

/-- `ScanState::cancel` -/
def cancel (handle : WsHandle) : WsTabs :=
  if m.registry.any (·.1 = handle) then { m with cancelled := m.cancelled ++ [handle] } else m

/-- `scan_cancel` -/
def scanCancel (c id : ℕ) : WsTabs :=
  (m.cancel (.scan id)).setTab c fun tab =>
    { tab with opened := tab.opened.filter (· ≠ .scan id) }

/-- The command that the reader awaits comes to its end.  A monitor is not started if its session is
gone. -/
def finishAwaited (c : ℕ) (ok : Bool) : WsTabs :=
  match m.tabs[c]?.bind (·.awaited) with
  | none => m
  | some (.closing handle) => (m.remove handle).setTab c fun tab => { tab with awaited := none }
  | some (.scanning handle) =>
      m.setTab c fun tab => { tab with opened := tab.opened ++ [handle], awaited := none }
  | some (.monitoring session) =>
      let m :=
        if ok then
          let m := m.remove (.monitor session)
          { m with registry := m.registry ++ [(.monitor session, c)] }
        else m
      m.setTab c fun tab => { tab with awaited := none }

/-! ### The end of a connection -/

/-- Close what comes next, or copy the next list. -/
def clean (c : ℕ) : WsTabs :=
  match m.tabs[c]? with
  | some tab =>
      if tab.isOpen then m
      else
        match tab.cleaning, tab.uncleaned with
        | handle :: cleaning, _ =>
            let m := if handle.kind = .scan then m.cancel handle else m.remove handle
            m.setTab c fun tab => { tab with cleaning := cleaning }
        | [], kind :: uncleaned =>
            m.setTab c fun tab =>
              { tab with cleaning := tab.openedOf kind, uncleaned := uncleaned }
        | [], [] => m
  | none => m

end WsTabs

/-- A frame of a client: a command, or the end of the connection. -/
inductive WsFrameIn where
  | connect (cmd : WsConnect)
  | termClose (session : Text) (chan : ℕ)
  | vncClose (id : ℕ)
  | monitorStart (session : Text)
  | monitorStop (session : Text)
  | scanStart
  | scanCancel (id : ℕ)
  | close

/-- What may happen.  What is registered may be gone at any time: a shell exits, a scan is done. -/
inductive WsTabEvent where
  | register
  | frame (c : ℕ) (frame : WsFrameIn)
  | startConnect (c k : ℕ)
  | failConnect (c k : ℕ)
  | establish (c k : ℕ)
  | record (c k : ℕ)
  | finishAwaited (c : ℕ) (ok : Bool)
  | clean (c : ℕ)
  | ends (handle : WsHandle)

namespace WsTabs

variable (m : WsTabs)

/-- The reader of a connection has read a frame. -/
def onFrame (c : ℕ) : WsFrameIn → WsTabs
  | .connect cmd =>
      m.setTab c fun tab => { tab with connecting := tab.connecting ++ [.spawned cmd] }
  | .termClose session chan => m.closeHandle c (.term session chan)
  | .vncClose id => m.closeHandle c (.vnc id)
  | .monitorStart session => m.monitorStart c session
  | .monitorStop session => m.closeHandle c (.monitor session)
  | .scanStart => m.scanStart c
  | .scanCancel id => m.scanCancel c id
  | .close => m.setTab c fun tab => { tab with isOpen := false }

def after : WsTabEvent → WsTabs
  | .register => { m with tabs := m.tabs ++ [{}] }
  | .frame c frame => if m.tabs[c]?.any (·.reads) then m.onFrame c frame else m
  | .startConnect c k => m.startConnect c k
  | .failConnect c k => m.failConnect c k
  | .establish c k => m.establish c k
  | .record c k => m.record c k
  | .finishAwaited c ok => m.finishAwaited c ok
  | .clean c => m.clean c
  | .ends handle => m.remove handle

end WsTabs

end Server
