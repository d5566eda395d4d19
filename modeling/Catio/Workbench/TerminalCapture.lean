import Catio.Lib.Steps
import Catio.Workbench.SensitiveCommands

/-!
# Terminal captures

The model of `services/terminalCapture.ts`: a command is written to a terminal, and what the
terminal reports is followed up to the end of the command.  What happens is a list of events in any
order: calls, promises that settle, what terminals report, timers and aborts.

The captured bytes are kept as they are; how they are decoded, cleaned and sampled is left out.
-/

namespace Workbench

/-! ### Commands that keep a terminal -/

/-- Without white space at its ends, as `trim` has it. -/
def trimUnits (text : List ℕ) : List ℕ :=
  let blank := (RegExp.ecmaScript false).isSpace
  (text.dropWhile blank).rdropWhile blank

/-- Each run of white space is replaced by one blank. -/
def collapseUnits : List ℕ → List ℕ
  | [] => []
  | unit :: rest =>
      if (RegExp.ecmaScript false).isSpace unit then
        if rest.head?.any (RegExp.ecmaScript false).isSpace then collapseUnits rest
        else 32 :: collapseUnits rest
      else unit :: collapseUnits rest

/-- A pattern of commands, and what must not follow it: the text of a negative lookahead. -/
structure CommandPattern where
  source : Text
  notAhead : Option Text := none
  deriving DecidableEq

/-- The pattern matches somewhere, whatever the case, and is not followed by the other one. -/
def CommandPattern.test (pattern : CommandPattern) (value : List ℕ) : Bool :=
  let d := RegExp.ecmaScript true
  (RegExp.parse pattern.source).any fun r =>
    (RegExp.positions value).any fun p =>
      (RegExp.ends d r p).any fun q =>
        match pattern.notAhead with
        | none => true
        | some source => (RegExp.parse source).all fun s => (RegExp.ends d s q).isEmpty

/-- The patterns of commands that go on or wait for input. Texts have no line breaks, so any
character is `[^\n]`. -/
def streamingPatterns : List CommandPattern :=
  [⟨"^(?:sudo\\s+)?(?:docker(?:\\s+compose)?|podman|kubectl)\\s+logs\\b[^\\n]*(?:\\s|^)(?:-f|--follow)(?:=|\\s|$)", none⟩,
    ⟨"^(?:sudo\\s+)?tail\\b[^\\n]*(?:\\s|^)(?:-[a-z]*[fF][a-z]*|--follow)(?:=|\\s|$)", none⟩,
    ⟨"^(?:sudo\\s+)?journalctl\\b[^\\n]*(?:\\s|^)(?:-f|--follow)(?:=|\\s|$)", none⟩,
    ⟨"^(?:sudo\\s+)?watch(?:\\s|$)", none⟩,
    ⟨"^(?:sudo\\s+)?docker\\s+stats\\b", some "[^\\n]*(?:\\s|^)--no-stream(?:\\s|$)"⟩,
    ⟨"^(?:sudo\\s+)?(?:docker|podman)(?:\\s+compose)?\\s+up\\b",
      some "[^\\n]*(?:\\s|^)(?:-d|--detach)(?:\\s|$)"⟩,
    ⟨"^(?:sudo\\s+)?(?:docker|podman)\\s+run\\b",
      some "[^\\n]*(?:\\s|^)(?:-d|--detach)(?:\\s|$)"⟩,
    ⟨"^(?:sudo\\s+)?kubectl\\b[^\\n]*(?:\\s-w(?:\\s|$)|\\s--watch(?:=|\\s|$))", none⟩,
    ⟨"^(?:sudo\\s+)?kubectl\\s+(?:port-forward|proxy)(?:\\s|$)", none⟩,
    ⟨"^(?:sudo\\s+)?ollama\\s+serve(?:\\s|$)", none⟩,
    ⟨"^(?:sudo\\s+)?(?:npm|pnpm|yarn|bun)\\s+(?:run\\s+)?(?:dev|start|serve)(?:\\s|$)", none⟩,
    ⟨"^(?:sudo\\s+)?(?:python[0-9]*(?:\\.[0-9]+)?\\s+-m\\s+http\\.server|uvicorn|gunicorn)(?:\\s|$)",
      none⟩,
    ⟨"^(?:sudo\\s+)?(?:ssh|ping)(?:\\s|$)", none⟩,
    ⟨"^(?:sudo\\s+)?systemctl\\b", some "[^\\n]*(?:\\s|^)--no-pager(?:\\s|$)"⟩,
    ⟨"^(?:sudo\\s+)?(?:top|htop|btop|less|more|vi|vim|nano)(?:\\s|$)", none⟩]

/-- A command that goes on or waits for input. -/
def isStreamingOrInteractiveCommand (command : List ℕ) : Bool :=
  let value := collapseUnits (trimUnits command)
  if value = [] then false
  else
    let tokens := value.splitOn 32
    let first := (tokens.headD []).map fun u => if 65 ≤ u ∧ u ≤ 90 then u + 32 else u
    if first = RegExp.utf16 "sudo".toList && !tokens.contains (RegExp.utf16 "-n".toList) then true
    else streamingPatterns.any fun pattern => pattern.test value

/-! ### Calls -/

/-- `status` of a result of a capture. -/
inductive CaptureStatus where
  | completed
  | closed
  | streaming
  | timeout
  | unsupported
  deriving DecidableEq

/-- What a terminal reports. -/
structure TermEvent where
  bytes : Option (List UInt8) := none
  closed : Bool := false
  execStart : Bool := false
  execEnd : Bool := false
  command : Option (List ℕ) := none
  exitCode : Option ℤ := none
  deriving DecidableEq

/-- The end of a command, which is known by its text. -/
def TermEvent.ends (event : TermEvent) (command : List ℕ) : Bool :=
  event.execEnd && event.command.map trimUnits = some (trimUnits command)

/-- What a call is settled with: a result, with the captured bytes, or an error. -/
inductive Outcome where
  | result (status : CaptureStatus) (exitCode : Option ℤ) (output : List (List UInt8))
  | error
  deriving DecidableEq

/-- What a call waits for: that it listens, that its command is written, or its result. -/
inductive Phase where
  | listening
  | writing
  | awaiting
  | returned
  deriving DecidableEq

/-- A timer that is not set, that is running, or that is over. -/
inductive Timer where
  | unset
  | running
  | spent
  deriving DecidableEq

/-- What a call has seen and done, for the record. -/
inductive Entry where
  | wrote
  | event (event : TermEvent)
  | settled (outcome : Outcome)
  deriving DecidableEq

/-- A call that was not refused. `attached` is whether what the terminal reports comes to its
listener. -/
structure Call where
  chanId : Text
  command : List ℕ
  phase : Phase := .listening
  attached : Bool := false
  unlisten : Bool := false
  unlistenPending : Bool := false
  aborted : Bool := false
  resultDelivered : Bool := false
  executionStarted : Bool := false
  lingering : Bool := false
  released : Bool := false
  startTimer : Timer := .unset
  completionTimer : Timer := .unset
  captured : List (List UInt8) := []
  log : List Entry := []
  deriving DecidableEq

/-- `clearTimeout`. -/
def Timer.clear : Timer → Timer
  | .running => .spent
  | timer => timer

namespace Call

variable (a : Call) (running : List Text)

/-- Nothing is waited for any longer. -/
def clearWaiters : Call :=
  { a with
    startTimer := a.startTimer.clear
    completionTimer := a.completionTimer.clear }

/-- Release the channel, and stop to listen. -/
def release : List Text × Call :=
  if a.released then (running, a)
  else
    let a := { a.clearWaiters with released := true }
    (running.filter (· ≠ a.chanId),
      if a.unlisten then { a with attached := false, unlisten := false }
      else { a with unlistenPending := true })

def deliver (outcome : Outcome) : Call :=
  { a with log := a.log ++ [.settled outcome] }

/-- Deliver a result and release the channel. -/
def finish (status : CaptureStatus) (exitCode : Option ℤ) : List Text × Call :=
  if a.resultDelivered then (running, a)
  else
    let (running, a) := { a with resultDelivered := true }.release running
    (running, a.deliver (.result status exitCode a.captured))

/-- Deliver a sample, and keep the channel. -/
def snapshotAndMonitor (status : CaptureStatus) : Call :=
  if a.resultDelivered then a
  else
    { a with resultDelivered := true, lingering := true }.clearWaiters.deliver
      (.result status none a.captured)

/-- Deliver an error, and release the channel unless the command was started. -/
def fail : List Text × Call :=
  if a.resultDelivered then (running, a)
  else
    let a := { a with resultDelivered := true }
    if a.executionStarted then (running, { a.clearWaiters with lingering := true }.deliver .error)
    else
      let (running, a) := a.release running
      (running, a.deliver .error)

/-- The bytes of an event are captured while the command runs. -/
def capture (event : TermEvent) : Call :=
  match event.bytes with
  | some bytes =>
      if !a.resultDelivered && a.executionStarted then { a with captured := a.captured ++ [bytes] }
      else a
  | none => a

/-- The command is seen to start. -/
def started (event : TermEvent) : Call :=
  if event.execStart && a.completionTimer = .unset then
    { a with
      executionStarted := true
      startTimer := a.startTimer.clear
      completionTimer := .running }
  else a

/-- The command is over, or the terminal is. -/
def ended (status : CaptureStatus) (exitCode : Option ℤ) : List Text × Call :=
  if a.lingering then a.release running else a.finish running status exitCode

/-- The listener. -/
def onEvent (event : TermEvent) : List Text × Call :=
  if !a.attached then (running, a)
  else
    let a := { a with log := a.log ++ [Entry.event event] }.capture event
    if event.closed then a.ended running .closed none
    else
      let a := a.started event
      if event.ends a.command then a.ended running .completed event.exitCode else (running, a)

/-- The call listens, from which it goes on to write its command. -/
def onListening : List Text × Call :=
  if a.phase ≠ .listening then (running, a)
  else
    let a := { a with attached := true, unlisten := true }
    let a := if a.unlistenPending then { a with attached := false, unlisten := false } else a
    if a.resultDelivered && !a.lingering then (running, { a with phase := .awaiting })
    else if a.aborted then
      let (running, a) := a.fail running
      (running, { a with phase := .awaiting })
    else
      (running, { a with
        startTimer := .running
        phase := .writing
        log := a.log ++ [.wrote] })

def onListenError : List Text × Call :=
  if a.phase ≠ .listening ∨ a.attached then (running, a)
  else
    let (running, a) := a.fail running
    (running, { a with phase := .awaiting })

/-- The command was written. -/
def onWritten : Call :=
  if a.phase ≠ .writing then a else { a with phase := .awaiting }

/-- The command cannot be written. -/
def onWriteError : List Text × Call :=
  if a.phase ≠ .writing then (running, a)
  else
    let (running, a) := a.fail running
    (running, { a with phase := .awaiting })

def onAbort : List Text × Call :=
  { a with aborted := true }.fail running

/-- The command was not seen to start in time. -/
def onStartTimer : List Text × Call :=
  if a.startTimer ≠ .running then (running, a)
  else { a with startTimer := .spent }.finish running .unsupported none

/-- The command was not seen to end in time. -/
def onCompletionTimer : Call :=
  if a.completionTimer ≠ .running then a
  else
    let status := if isStreamingOrInteractiveCommand a.command then .streaming else .timeout
    { a with completionTimer := .spent }.snapshotAndMonitor status

def onResult : List Text × Call :=
  if a.phase ≠ .awaiting ∨ !a.resultDelivered then (running, a)
  else
    (if a.lingering then running else running.filter (· ≠ a.chanId), { a with phase := .returned })

end Call

/-! ### Events -/

/-- `runningChannels`, and the calls. -/
structure Captures where
  runningChannels : List Text := []
  calls : List Call := []
  deriving DecidableEq

/-- What can happen. -/
inductive CaptureEvent where
  | call (chanId : Text) (command : List ℕ) (aborted : Bool)
  | attach (i : ℕ)
  | listening (i : ℕ)
  | listenError (i : ℕ)
  | written (i : ℕ)
  | writeError (i : ℕ)
  | term (i : ℕ) (event : TermEvent)
  | startTimer (i : ℕ)
  | completionTimer (i : ℕ)
  | abort (i : ℕ)
  | result (i : ℕ)
  deriving DecidableEq

namespace Captures

variable (m : Captures)

/-- A call that is refused, or takes the channel. -/
def call (chanId : Text) (command : List ℕ) (aborted : Bool) : Captures :=
  if chanId ∈ m.runningChannels ∨ aborted then m
  else ⟨m.runningChannels ++ [chanId], m.calls ++ [{ chanId := chanId, command := command }]⟩

/-- Something happens to a call. -/
def update (i : ℕ) (f : Call → List Text → List Text × Call) : Captures :=
  match m.calls[i]? with
  | none => m
  | some a => ⟨(f a m.runningChannels).1, m.calls.set i (f a m.runningChannels).2⟩

def after : CaptureEvent → Captures
  | .call chanId command aborted => m.call chanId command aborted
  | .attach i => m.update i fun a running =>
      (running, if a.phase = .listening then { a with attached := true } else a)
  | .listening i => m.update i Call.onListening
  | .listenError i => m.update i Call.onListenError
  | .written i => m.update i fun a running => (running, a.onWritten)
  | .writeError i => m.update i Call.onWriteError
  | .term i event => m.update i fun a running => a.onEvent running event
  | .startTimer i => m.update i Call.onStartTimer
  | .completionTimer i => m.update i fun a running => (running, a.onCompletionTimer)
  | .abort i => m.update i Call.onAbort
  | .result i => m.update i Call.onResult

end Captures

end Workbench
