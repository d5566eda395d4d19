import Catio.Ssh.Osc

/-!
# Terminals

The model of the owner task of `ssh/term.rs`: what the server sends goes through the scanner, its
visible bytes are collected and sent in frames, and its events become control frames.  Until the
shell integration is ready nothing is shown.  Frames carry their bytes in Base64, which is left
out, as are the messages to the server; instants are in nanoseconds since the owner was started.
-/

namespace Ssh

/-- So long the terminal is muted if no marker arrives: three seconds. -/
def muteFallback : ℕ := 3000 * 10 ^ 6

/-- So long an identical command is taken for a duplicate. -/
def dedupWindow : ℕ := 800 * 10 ^ 6

/-- A frame on the topic of the terminal. -/
inductive Frame where
  | bytes (data : Bytes) (inputStart : Bool)
  | inputStart
  | execStart
  | execEnd (command : Text) (exitCode : Option ℤ)
  | closed
  deriving DecidableEq

/-- A command on the topic of the history. -/
structure HistoryFrame where
  command : Text
  exitCode : Option ℤ
  cwd : Text
  durationMs : ℕ
  deriving DecidableEq

/-- The state of the owner, with the frames that it has sent. -/
structure Owner where
  scanner : Scanner
  curCmd : Option Text
  curCwd : Text
  curStart : ℕ
  muted : Bool
  lastEmit : Option (Text × ℕ)
  stripLeadNl : Bool
  fallbackFired : Bool
  pending : Bytes
  frames : List Frame
  history : List HistoryFrame
  deriving DecidableEq

/-- What happens to the owner. -/
inductive TermEvent where
  | flushTick
  | muteFallback
  | data (chunk : Bytes) (now : ℕ)

/-- A carriage return or a line feed. -/
def isNewline (b : UInt8) : Bool :=
  b = 0x0d || b = 0x0a

namespace Owner

/-- The owner of a channel, which is muted at first. -/
def start (nonce : Text) (muted : Bool) : Owner where
  scanner := .new nonce
  curCmd := none
  curCwd := []
  curStart := 0
  muted := muted
  lastEmit := none
  stripLeadNl := false
  fallbackFired := false
  pending := []
  frames := []
  history := []

def emit (frame : Frame) (o : Owner) : Owner :=
  { o with frames := o.frames ++ [frame] }

/-- Send the pending bytes in one frame, which may tell that the input starts behind them. -/
def flushPending (inputStart : Bool) (o : Owner) : Owner :=
  if o.pending = [] then
    if inputStart then o.emit .inputStart else o
  else { o.emit (.bytes o.pending inputStart) with pending := [] }

def finishOwner (o : Owner) : Owner :=
  (o.flushPending false).emit .closed

/-- Visible bytes become pending; the new line before the first of them may be stripped. -/
def appendVisible (visible : Bytes) (o : Owner) : Owner :=
  let skip := if o.stripLeadNl then (visible.takeWhile isNewline).length else 0
  if skip < visible.length then
    { o with stripLeadNl := false, pending := o.pending ++ visible.drop skip }
  else o

/-- The command is the one that was sent last, a short time ago. -/
def isDuplicateEmit (cmd : Text) (now : ℕ) (o : Owner) : Bool :=
  match o.lastEmit with
  | some (c, t) => c = cmd && now - t < dedupWindow
  | none => false

/-- A command has ended: the frame that tells it, and its place in the history. -/
def endCommand (cmd : Text) (code : Option ℤ) (now : ℕ) (o : Owner) : Owner :=
  let o := { o.emit (.execEnd cmd code) with curCmd := none }
  if o.isDuplicateEmit cmd now then o
  else
    { o with
      history := o.history ++ [⟨cmd, code, o.curCwd, (now - o.curStart) / 10 ^ 6⟩]
      lastEmit := some (cmd, now) }

/-- An event of the scanner; with the owner goes whether the start of the input was told. -/
def heed (now : ℕ) (event : OscEvent) (o : Owner × Bool) : Owner × Bool :=
  if o.1.muted then
    if event = .ready then ({ o.1 with curCmd := none, muted := false }, o.2) else o
  else
    match event with
    | .commandLine c => ({ o.1 with curCmd := some c, curStart := now }, o.2)
    | .cwd d => ({ o.1 with curCwd := d }, o.2)
    | .inputStart => if o.2 then o else (o.1.flushPending true, true)
    | .execStart => ((o.1.flushPending false).emit .execStart, o.2)
    | .execEnd code =>
        match o.1.curCmd with
        | none => (o.1.flushPending false, o.2)
        | some cmd => ((o.1.flushPending false).endCommand cmd code now, o.2)
    | .ready => o

/-- Visible bytes, unless the terminal is muted. -/
def hear (visible : Bytes) (o : Owner) : Owner :=
  if o.muted then o else o.appendVisible visible

/-- The loop over the events of a chunk, with the place up to which its visible bytes are done. -/
def eventLoop (now : ℕ) (visible : Bytes) :
    ℕ → List PositionedOscEvent → Owner × Bool → Owner
  | visiblePos, [], o => o.1.hear (visible.drop visiblePos)
  | visiblePos, positioned :: events, o =>
      let eventPos := min positioned.visibleOffset visible.length
      eventLoop now visible eventPos events
        (heed now positioned.event (o.1.hear ((visible.take eventPos).drop visiblePos), o.2))

/-- What the server has sent goes through the scanner. -/
def emitScanned (chunk : Bytes) (now : ℕ) (o : Owner) : Owner :=
  let fed := o.scanner.feed chunk
  let hasReady := fed.1.events.any fun e => e.event = .ready
  let o := { o with scanner := fed.2 }
  let o := if o.muted && !hasReady && now > Ssh.muteFallback then { o with muted := false } else o
  eventLoop now fed.1.visible 0 fed.1.events (o, false)

def step (o : Owner) : TermEvent → Owner
  | .flushTick => o.flushPending false
  | .muteFallback =>
      if o.fallbackFired then o
      else if o.muted then { o with fallbackFired := true, muted := false, stripLeadNl := true }
      else { o with fallbackFired := true }
  | .data chunk now => o.emitScanned chunk now

def run (events : List TermEvent) (o : Owner) : Owner :=
  events.foldl step o

end Owner

end Ssh
