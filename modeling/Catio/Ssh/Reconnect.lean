import Catio.Lib.Runs

/-!
# Reconnecting sessions

The model of one logical session with its reconnect supervisor (`ssh/conn.rs`), its lookups and its
removal (`ssh/manager.rs`), as they interleave.  The supervisor is at a point between its checks,
stores and awaits, and an abort takes effect only when it has yielded at an await.  Physical
connections are numbers, and closed when their handle is dropped.
-/

namespace Ssh

/-- The phases of `ReconnectControl`. -/
inductive Phase where
  | connected
  | reconnecting
  | stopped
  deriving DecidableEq

/-- The points of `supervise_reconnect`. -/
inductive Supervising where
  /-- The sleep of half a second. -/
  | sleeping
  /-- The check of `is_stopped` behind the sleep. -/
  | checking
  /-- Waiting for the session, to see if its handle is closed. -/
  | locking
  /-- The store of `mark_reconnecting`. -/
  | marking
  /-- The check of `is_stopped` before an attempt. -/
  | attempting
  /-- Waiting for the session, to take its forwarded routes. -/
  | lockingRoutes
  /-- The attempt, which may have opened a connection. -/
  | connecting (opened : Option ℕ)
  /-- The check of `is_stopped` behind an attempt that has opened a connection. -/
  | connected (opened : ℕ)
  /-- Disconnecting the opened connection, as the supervisor is stopped. -/
  | disconnecting (opened : ℕ)
  /-- Waiting for the session, to install the opened connection. -/
  | installing (opened : ℕ)
  /-- The store of `mark_connected`. -/
  | installed
  /-- The sleep behind an attempt that failed. -/
  | backingOff
  | ended
  deriving DecidableEq

/-- The connection that the supervisor has opened and not yet installed. -/
def Supervising.held : Supervising → Option ℕ
  | .connecting opened => opened
  | .connected opened => some opened
  | .disconnecting opened => some opened
  | .installing opened => some opened
  | _ => none

/-- The points of `ssh_disconnect`. -/
inductive Disconnecting where
  | start
  /-- The store of `stop`, with the entry of the session taken out of `reconnects`. -/
  | stopping
  | aborting
  | removing
  /-- Waiting for the session, to disconnect its handle. -/
  | locking
  | disconnecting
  | returned
  deriving DecidableEq

/-- The points of `get_cancellable`. -/
inductive Looking where
  /-- Reading `sessions`. -/
  | getting
  /-- Reading `reconnects`, with the session in hand. -/
  | asking
  /-- The check of `is_stopped`. -/
  | checking
  /-- Waiting for the session, to see if its handle is open. -/
  | locking
  /-- The check of `is_connected`. -/
  | deciding (physicalOpen : Bool)
  | waiting
  | returned (found : Bool)
  deriving DecidableEq

/-- A lookup, and whether it was started after `ssh_disconnect` had returned. -/
structure Lookup where
  late : Bool
  point : Looking
  deriving DecidableEq

/-- Who holds the lock of the session over an await. -/
inductive Holder where
  | disconnect
  | operation
  deriving DecidableEq

/-- A logical session: its phase, its entries in `reconnects` and `sessions`, its supervisor, its
disconnect, its lookups by number, who holds its lock, the installed connection, the open ones, and
the next one. -/
structure LogicalSession where
  phase : Phase
  registered : Bool
  listed : Bool
  supervisor : Supervising
  yielded : Bool
  aborted : Bool
  disconnect : Disconnecting
  lookups : ℕ → Option Lookup
  lock : Option Holder
  handle : ℕ
  live : List ℕ
  next : ℕ

namespace LogicalSession

/-- The session as `ssh_connect` leaves it. -/
def connected : LogicalSession where
  phase := .connected
  registered := true
  listed := true
  supervisor := .sleeping
  yielded := true
  aborted := false
  disconnect := .start
  lookups := fun _ => none
  lock := none
  handle := 0
  live := [0]
  next := 1

/-- The supervisor goes on to a point without yielding. -/
def supervise (point : Supervising) (s : LogicalSession) : LogicalSession :=
  { s with supervisor := point, yielded := false }

/-- The supervisor goes on to an await at which it yields. -/
def await (point : Supervising) (s : LogicalSession) : LogicalSession :=
  { s with supervisor := point, yielded := true }

/-- A connection is closed. -/
def close (c : ℕ) (s : LogicalSession) : LogicalSession :=
  { s with live := s.live.filter (· ≠ c) }

/-- The connection that the supervisor has in its hand is dropped. -/
def dropHeld (s : LogicalSession) : LogicalSession :=
  match s.supervisor.held with
  | none => s
  | some c => s.close c

/-- The supervisor may go on: it has not yielded, or it is not aborted. -/
def Polled (s : LogicalSession) : Prop :=
  s.yielded = true → s.aborted = false

/-- A lookup goes on to a point. -/
def look (i : ℕ) (lookup : Lookup) (s : LogicalSession) : LogicalSession :=
  { s with lookups := Function.update s.lookups i (some lookup) }

end LogicalSession

/-- Who takes a step. -/
inductive Party where
  | supervisor
  | stop
  | disconnect
  | lookup (i : ℕ)
  | outside
  deriving DecidableEq

namespace LogicalSession

/-- The steps of `supervise_reconnect`. -/
inductive Supervise : LogicalSession → LogicalSession → Prop where
  | wake {s : LogicalSession} (at_ : s.supervisor = .sleeping) (polled : s.Polled) :
      Supervise s (s.supervise .checking)
  | checked {s : LogicalSession} (at_ : s.supervisor = .checking) :
      Supervise s (s.supervise (if s.phase = .stopped then .ended else .locking))
  | looked {s : LogicalSession} (at_ : s.supervisor = .locking) (polled : s.Polled)
      (free : s.lock = none) :
      Supervise s (if s.handle ∈ s.live then s.await .sleeping else s.supervise .marking)
  | markReconnecting {s : LogicalSession} (at_ : s.supervisor = .marking) :
      Supervise s ({ s with phase := .reconnecting }.supervise .attempting)
  | attempt {s : LogicalSession} (at_ : s.supervisor = .attempting) :
      Supervise s (s.supervise (if s.phase = .stopped then .ended else .lockingRoutes))
  | takeRoutes {s : LogicalSession} (at_ : s.supervisor = .lockingRoutes) (polled : s.Polled)
      (free : s.lock = none) :
      Supervise s (s.await (.connecting none))
  | open_ {s : LogicalSession} (at_ : s.supervisor = .connecting none) (polled : s.Polled) :
      Supervise s ({ s with live := s.next :: s.live, next := s.next + 1 }.await
        (.connecting (some s.next)))
  | connected {s : LogicalSession} {c : ℕ} (at_ : s.supervisor = .connecting (some c))
      (polled : s.Polled) :
      Supervise s (s.supervise (.connected c))
  | failed {s : LogicalSession} {opened : Option ℕ} (at_ : s.supervisor = .connecting opened)
      (polled : s.Polled) :
      Supervise s (s.dropHeld.await .backingOff)
  | retry {s : LogicalSession} (at_ : s.supervisor = .backingOff) (polled : s.Polled) :
      Supervise s (s.supervise .attempting)
  | verified {s : LogicalSession} {c : ℕ} (at_ : s.supervisor = .connected c) :
      Supervise s (s.supervise (if s.phase = .stopped then .disconnecting c else .installing c))
  | disconnected {s : LogicalSession} {c : ℕ} (at_ : s.supervisor = .disconnecting c)
      (polled : s.Polled) :
      Supervise s (s.dropHeld.supervise .ended)
  | install {s : LogicalSession} {c : ℕ} (at_ : s.supervisor = .installing c)
      (polled : s.Polled) (free : s.lock = none) :
      Supervise s ({ s.close s.handle with handle := c }.supervise .installed)
  | markConnected {s : LogicalSession} (at_ : s.supervisor = .installed) :
      Supervise s ({ s with phase := .connected }.await .sleeping)
  /-- An await that is not ready. -/
  | yield {s : LogicalSession} (at_ : s.supervisor ∈ [.locking, .lockingRoutes] ∨
      ∃ c, s.supervisor = .disconnecting c ∨ s.supervisor = .installing c) :
      Supervise s { s with yielded := true }
  /-- The runtime drops a task that is aborted. -/
  | abort {s : LogicalSession} (running : s.supervisor ≠ .ended) (yielded : s.yielded = true)
      (aborted : s.aborted = true) :
      Supervise s (s.dropHeld.supervise .ended)

/-- The step of `ssh_disconnect` that stores the stopped phase. -/
inductive Stop : LogicalSession → LogicalSession → Prop where
  | stop {s : LogicalSession} (at_ : s.disconnect = .stopping) :
      Stop s { s with phase := .stopped, disconnect := .aborting }

/-- The other steps of `ssh_disconnect`. -/
inductive Disconnect : LogicalSession → LogicalSession → Prop where
  | take {s : LogicalSession} (at_ : s.disconnect = .start) :
      Disconnect s { s with
        registered := false, disconnect := if s.registered then .stopping else .removing }
  | abort {s : LogicalSession} (at_ : s.disconnect = .aborting) :
      Disconnect s { s with aborted := true, disconnect := .removing }
  | remove {s : LogicalSession} (at_ : s.disconnect = .removing) :
      Disconnect s { s with
        listed := false, disconnect := if s.listed then .locking else .returned }
  | lock {s : LogicalSession} (at_ : s.disconnect = .locking) (free : s.lock = none) :
      Disconnect s { s with lock := some .disconnect, disconnect := .disconnecting }
  | disconnect {s : LogicalSession} (at_ : s.disconnect = .disconnecting) :
      Disconnect s { s.close s.handle with lock := none, disconnect := .returned }

/-- The steps of one lookup of `get_cancellable`. -/
inductive Look (i : ℕ) : LogicalSession → LogicalSession → Prop where
  | start {s : LogicalSession} (new : s.lookups i = none) :
      Look i s (s.look i ⟨s.disconnect = .returned, .getting⟩)
  | cancelled {s : LogicalSession} {late : Bool} (at_ : s.lookups i = some ⟨late, .getting⟩) :
      Look i s (s.look i ⟨late, .returned false⟩)
  | get {s : LogicalSession} {late : Bool} (at_ : s.lookups i = some ⟨late, .getting⟩) :
      Look i s (s.look i ⟨late, if s.listed then .asking else .returned false⟩)
  | ask {s : LogicalSession} {late : Bool} (at_ : s.lookups i = some ⟨late, .asking⟩) :
      Look i s (s.look i ⟨late, if s.registered then .checking else .returned true⟩)
  | check {s : LogicalSession} {late : Bool} (at_ : s.lookups i = some ⟨late, .checking⟩) :
      Look i s (s.look i ⟨late, if s.phase = .stopped then .returned false else .locking⟩)
  | look {s : LogicalSession} {late : Bool} (at_ : s.lookups i = some ⟨late, .locking⟩)
      (free : s.lock = none) :
      Look i s (s.look i ⟨late, .deciding (s.handle ∈ s.live)⟩)
  | decide {s : LogicalSession} {late physicalOpen : Bool}
      (at_ : s.lookups i = some ⟨late, .deciding physicalOpen⟩) :
      Look i s (s.look i ⟨late,
        if s.phase = .connected ∧ physicalOpen then .returned true else .waiting⟩)
  | woken {s : LogicalSession} {late : Bool} (at_ : s.lookups i = some ⟨late, .waiting⟩) :
      Look i s (s.look i ⟨late, .getting⟩)

/-- What happens outside: a connection breaks, and operations lock the session. -/
inductive Happen : LogicalSession → LogicalSession → Prop where
  | break_ (c : ℕ) (s : LogicalSession) : Happen s (s.close c)
  | lock {s : LogicalSession} (free : s.lock = none) :
      Happen s { s with lock := some .operation }
  | unlock {s : LogicalSession} (held : s.lock = some .operation) :
      Happen s { s with lock := none }

/-- The steps of all parties. -/
inductive Step : LogicalSession → Party → LogicalSession → Prop where
  | supervisor {s s' : LogicalSession} (h : Supervise s s') : Step s .supervisor s'
  | stop {s s' : LogicalSession} (h : Stop s s') : Step s .stop s'
  | disconnect {s s' : LogicalSession} (h : Disconnect s s') : Step s .disconnect s'
  | lookup {i : ℕ} {s s' : LogicalSession} (h : Look i s s') : Step s (.lookup i) s'
  | outside {s s' : LogicalSession} (h : Happen s s') : Step s .outside s'

end LogicalSession

end Ssh
