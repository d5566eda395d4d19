import Catio.Lib.Table
import Catio.Lib.Text
import Mathlib.Data.List.MinMax

/-!
# Optical grants

The model of `optical.rs`: a passphrase unlocks a grant for a scope, and a grant is asked for at
each read of a file.  Grants and reads have cancellation tokens; a grant remembers requests that
were cancelled before their read began.  What is outside of this (hashes, files, the clock) answers
in the events.
-/

namespace Optical

open Text

/-! ### The state -/

/-- Nanoseconds of the clock, which does not go back. -/
abbrev Instant :=
  ℕ

def seconds (n : ℕ) : ℕ :=
  n * 10 ^ 9

def GRANT_TTL : ℕ :=
  seconds (8 * 60 * 60)

/-- A cancellation token: the numbers of its ancestors, and its own. -/
abbrev CancellationToken :=
  List ℕ

structure Grant where
  scope : Text
  expires : Instant
  cancel : CancellationToken
  reads : Table Text CancellationToken
  cancelled : List Text
  deriving DecidableEq

structure Inner where
  hash : Option Text
  configError : Bool
  grants : Table Text Grant
  failures : ℕ
  retryAt : Option Instant
  deriving DecidableEq

structure OpticalFile where
  name : Text
  data : Text
  deriving DecidableEq

/-- A call of `read` that began: its lease, what it got from the file, and what it returned. -/
structure ReadLease where
  scope : Text
  token : Text
  requestId : Text
  cancel : CancellationToken
  expires : Instant
  selected : Option (Except Text OpticalFile)
  returned : Option (Except Text OpticalFile)
  dropped : Bool

/-- The state, with the clock, the cancelled tokens, the grants that were issued and the reads that
began. -/
structure OpticalState where
  enabled : Bool
  inner : Inner
  now : Instant
  cancels : List CancellationToken
  issued : List Text
  reads : List ReadLease

/-- A call of `unlock`, and what is outside of it: the hash that was made and written, whether the
stored one can be read and has the passphrase, how long things take, which of two grants is the
oldest, and the random token. -/
structure Attempt where
  scope : Text
  passphrase : Text
  setup : Bool
  canConfigure : Bool
  written : Option Text
  parsed : Bool
  verified : Bool
  verifying : ℕ
  sweep : Text → ℕ
  sweeping : ℕ
  oldest : Text
  token : Text

namespace OpticalState

/-- At the start: the switch, the hash of the passphrase, and whether it could not be read. -/
def init (enabled : Bool) (hash : Option Text) (configError : Bool) : OpticalState :=
  ⟨enabled, ⟨hash, configError, ∅, 0, none⟩, 0, [], [], []⟩

/-- A token is cancelled with each of its ancestors. -/
def isCancelled (s : OpticalState) (token : CancellationToken) : Bool :=
  s.cancels.any fun t => t.isPrefixOf token

def grant (s : OpticalState) (token : Text) : Option Grant :=
  s.inner.grants.lookup token

def setGrants (s : OpticalState) (grants : Table Text Grant) : OpticalState :=
  { s with inner := { s.inner with grants := grants } }

/-- Some grants are removed and cancelled. -/
def revoke (s : OpticalState) (p : Text → Grant → Bool) : OpticalState :=
  { s.setGrants (s.inner.grants.retain fun token g => !p token g) with
    cancels := (s.inner.grants.retain p).entries.map (·.2.cancel) ++ s.cancels }

/-! ### Unlocking -/

/-- The fifth failure closes the door for a while. -/
def fail (s : OpticalState) : OpticalState :=
  let failures := s.inner.failures + 1
  if 5 ≤ failures then
    { s with inner := { s.inner with retryAt := some (s.now + seconds 30), failures := 0 } }
  else { s with inner := { s.inner with failures := failures } }

/-- A passphrase is set up, or checked. -/
def authenticate (s : OpticalState) (a : Attempt) : Except Text Unit × OpticalState :=
  if a.setup then
    if !a.canConfigure then (.error "optical.adminRequired", s)
    else if s.inner.hash.isSome then (.error "optical.alreadyConfigured", s)
    else
      match a.written with
      | none => (.error "optical.configError", s)
      | some hash => (.ok (), { s with inner := { s.inner with hash := some hash } })
  else
    match s.inner.hash with
    | none => (.error "optical.notConfigured", s)
    | some _ =>
        if !a.parsed then (.error "optical.configError", s)
        else if a.verified then (.ok (), s)
        else (.error "optical.wrongPassphrase", s.fail)

/-- The grant of a scope that expires first. -/
def oldestOf (grants : Table Text Grant) (scope : Text) (tie : Text) : Option Text :=
  let mine := grants.retain fun _ g => g.scope = scope
  match mine.lookup tie with
  | some g =>
      if mine.entries.all fun e => g.expires ≤ e.2.expires then some tie
      else (mine.entries.argmin fun e => e.2.expires).map (·.1)
  | none => (mine.entries.argmin fun e => e.2.expires).map (·.1)

/-- Grants that have expired are removed, and the oldest one of too many. -/
def makeRoom (s : OpticalState) (a : Attempt) : OpticalState :=
  let swept := s.revoke fun token g => g.expires ≤ s.now + min (a.sweep token) a.sweeping
  if 8 ≤ swept.inner.grants.count fun _ g => g.scope = a.scope then
    let oldest := oldestOf swept.inner.grants a.scope a.oldest
    swept.revoke fun token _ => some token = oldest
  else swept

/-- A grant is issued. -/
def issue (s : OpticalState) (a : Attempt) : OpticalState :=
  let room := makeRoom { s with inner := { s.inner with failures := 0, retryAt := none } } a
  let now := s.now + a.sweeping
  { room.setGrants (room.inner.grants.insert a.token
      ⟨a.scope, now + GRANT_TTL, [room.issued.length], ∅, []⟩) with
    now := now
    issued := room.issued ++ [a.token] }

/-- `unlock`, under the lock. -/
def unlockSync (s : OpticalState) (a : Attempt) : Except Text Text × OpticalState :=
  if !s.enabled then (.error "optical.disabled", s)
  else if 1024 < utf8Len a.passphrase ∨ a.passphrase.length < 8 then
    (.error "optical.passphraseLength", s)
  else if s.inner.configError then (.error "optical.configError", s)
  else if s.inner.retryAt.any (s.now < ·) then (.error "optical.tryLater", s)
  else
    match { s with now := s.now + a.verifying }.authenticate a with
    | (.error e, s) => (.error e, s)
    | (.ok (), s) => (.ok a.token, s.issue a)

/-! ### Locking and reading -/

def lock (s : OpticalState) (scope token : Text) : OpticalState :=
  s.revoke fun token' g => token' = token && g.scope = scope

def lockScope (s : OpticalState) (scope : Text) : OpticalState :=
  s.revoke fun _ g => g.scope = scope

def valid (s : OpticalState) (scope token : Text) : Bool :=
  s.enabled && (s.grant token).any fun g =>
    g.scope = scope && decide (s.now < g.expires) && !s.isCancelled g.cancel

/-- A request id is not empty, and not long. -/
def validRequestId (requestId : Text) : Bool :=
  requestId ≠ [] && utf8Len requestId ≤ 128

def remember (cancelled : List Text) (requestId : Text) : List Text :=
  (if cancelled.length = 64 then cancelled.tail else cancelled) ++ [requestId]

def cancel (s : OpticalState) (scope token requestId : Text) : OpticalState :=
  if !validRequestId requestId then s
  else
    match (s.grant token).filter (·.scope = scope) with
    | none => s
    | some g =>
        { s.setGrants (s.inner.grants.modify token fun g =>
            { g with cancelled := remember g.cancelled requestId }) with
          cancels := (g.reads.lookup requestId).toList ++ s.cancels }

def beginRead (s : OpticalState) (scope token requestId : Text) :
    Except Text ReadLease × OpticalState :=
  if !s.enabled then (.error "optical.disabled", s)
  else
    match (s.grant token).filter fun g => g.scope = scope && s.now < g.expires with
    | none => (.error "optical.locked", s)
    | some g =>
        if !validRequestId requestId then (.error "optical.invalidRequest", s)
        else if requestId ∈ g.cancelled then (.error "optical.cancelled", s)
        else if g.reads.size ≠ 0 then (.error "optical.busy", s)
        else
          let cancel := g.cancel ++ [s.reads.length]
          let lease : ReadLease := ⟨scope, token, requestId, cancel, g.expires, none, none, false⟩
          (.ok lease, { s.setGrants (s.inner.grants.modify token fun g =>
              { g with reads := g.reads.insert requestId cancel }) with
            reads := s.reads ++ [lease] })

def setRead (s : OpticalState) (k : ℕ) (r : ReadLease) : OpticalState :=
  { s with reads := s.reads.set k r }

/-- The read is cancelled, or its grant has expired, or the file has answered. -/
def select (s : OpticalState) (k : ℕ) (answer : Except Text OpticalFile) : OpticalState :=
  match s.reads[k]? with
  | none => s
  | some r =>
      if r.dropped ∨ r.selected.isSome then s
      else
        let selected :=
          if s.isCancelled r.cancel then .error "optical.cancelled"
          else if r.expires ≤ s.now then .error "optical.locked"
          else answer
        s.setRead k { r with selected := some selected }

/-- The read completes: it returns what was selected, if its grant is still valid. -/
def finish (s : OpticalState) (k : ℕ) : OpticalState :=
  match s.reads[k]? with
  | none => s
  | some r =>
      match r.selected with
      | none => s
      | some result =>
          if r.dropped ∨ r.returned.isSome then s
          else
            let returned :=
              if s.isCancelled r.cancel ∨ !s.valid r.scope r.token then .error "optical.locked"
              else result
            s.setRead k { r with returned := some returned }

/-- The lease is dropped: when the read has returned, or when nobody waits for it any more. -/
def drop (s : OpticalState) (k : ℕ) : OpticalState :=
  match s.reads[k]? with
  | none => s
  | some r =>
      if r.dropped then s
      else
        (s.setGrants (s.inner.grants.modify r.token fun g =>
          { g with reads := g.reads.erase r.requestId })).setRead k { r with dropped := true }

end OpticalState

/-! ### Runs -/

/-- What happens: time passes, or a call comes in, or a read goes on. -/
inductive OpticalEvent where
  | tick (elapsed : ℕ)
  | unlock (a : Attempt)
  | lock (scope token : Text)
  | lockScope (scope : Text)
  | cancel (scope token requestId : Text)
  | beginRead (scope token requestId : Text)
  | select (k : ℕ) (answer : Except Text OpticalFile)
  | finish (k : ℕ)
  | drop (k : ℕ)

def OpticalState.after (s : OpticalState) : OpticalEvent → OpticalState
  | .tick elapsed => { s with now := s.now + elapsed }
  | .unlock a => (s.unlockSync a).2
  | .lock scope token => s.lock scope token
  | .lockScope scope => s.lockScope scope
  | .cancel scope token requestId => s.cancel scope token requestId
  | .beginRead scope token requestId => (s.beginRead scope token requestId).2
  | .select k answer => s.select k answer
  | .finish k => s.finish k
  | .drop k => s.drop k

def OpticalState.run (s : OpticalState) (es : List OpticalEvent) : OpticalState :=
  es.foldl OpticalState.after s

end Optical
