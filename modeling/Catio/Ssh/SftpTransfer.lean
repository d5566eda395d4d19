import Catio.Lib.Runs
import Catio.Ssh.Exec

/-!
# SFTP transfers

The model of `ssh/sftp_transfer.rs`: the plan of segments, the segmented transfer with its workers,
and the single stream, as step relations in which the workers, the caller that cancels and whoever
changes the source take turns in any order.  What downloads and uploads do differently is a function
of the `Direction`.  Only a write may fail after a part of its effect.  The progress counter is left
out.
-/

namespace Ssh

/-- The size from which a transfer is segmented. -/
def segmentThreshold : ℕ := 8 * 1024 * 1024

def segments : ℕ := 4

def minSegSize : ℕ := 1 * 1024 * 1024

/-- The longest read or write. -/
def chunk : ℕ := 32 * 1024

/-- The last segments, so many, from an offset on; the very last one takes what is left. -/
def planFrom (total seg : ℕ) : ℕ → ℕ → List (ℕ × ℕ)
  | 0, _ => []
  | i + 1, offset =>
      let len := if i = 0 then total - offset else seg
      (offset, len) :: planFrom total seg i (offset + len)

/-- The offsets and the lengths of the segments of a file. -/
def planSegments (total : ℕ) : List (ℕ × ℕ) :=
  if total = 0 then [(0, 0)]
  else
    let n := max (min segments ((total + minSegSize - 1) / minSegSize)) 1
    planFrom total (total / n) n 0

inductive Direction where
  | download
  | upload
  deriving DecidableEq

namespace Direction

def sourceError : Direction → Text → SshError
  | .download => .sftp
  | .upload => .io

/-- An error on the side of the destination. -/
def destError : Direction → Text → SshError
  | .download => .io
  | .upload => .sftp

/-- The side of the source, in messages. -/
def sourceName : Direction → Text
  | .download => "远端"
  | .upload => "本地"

/-- The destination once its place is prepared: a download sets the length of its file. -/
def prepared (total : ℕ) : Direction → Bytes
  | .download => List.replicate total 0
  | .upload => []

/-- The source ended inside a segment. -/
def earlyEof (offset len remaining : ℕ) (d : Direction) : SshError :=
  d.sourceError ("段 [" ++ Text.ofNat offset ++ ", " ++ Text.ofNat (offset + len) ++ ") "
    ++ d.sourceName ++ "提前 EOF（剩余 " ++ Text.ofNat remaining ++ "）")

/-- The source does not have the size that was declared. -/
def sizeMismatch (size total : ℕ) : Direction → SshError
  | .download => .sftp ("远端文件大小 " ++ Text.ofNat size ++ " 与预期 " ++ Text.ofNat total
      ++ " 不一致，疑似 stat 失真或传输中被改写，已中止以避免静默截断")
  | .upload => .io ("本地文件大小 " ++ Text.ofNat size ++ " 与预期 " ++ Text.ofNat total
      ++ " 不一致，疑似传输中被改写，已中止以避免远端静默截断")

end Direction

/-- Write at an offset of a file; a gap before it is filled with zeros. -/
def writeAt (offset : ℕ) (data file : Bytes) : Bytes :=
  (file ++ List.replicate (offset - file.length) 0).take offset ++ data
    ++ file.drop (offset + data.length)

/-! ### Segmented transfer -/

inductive WorkerPhase where
  | opening
  | checking
  | reading
  | writing (data : Bytes)
  | finished (result : Except SshError Unit)

/-- The worker of a segment, with the number of bytes that it has still to copy. -/
structure Worker where
  offset : ℕ
  len : ℕ
  remaining : ℕ
  phase : WorkerPhase

/-- The place of the next byte of a worker. -/
def Worker.position (w : Worker) : ℕ :=
  w.offset + (w.len - w.remaining)

/-- A step of a worker, with the content of the source and the flag: the worker and the destination
before and after. -/
inductive WorkerStep (d : Direction) (source : Bytes) (cancel : Bool) :
    Worker → Bytes → Worker → Bytes → Prop where
  /-- A segment of length zero has nothing to copy. -/
  | empty {w : Worker} {dest : Bytes} (opening : w.phase = .opening) (none : w.len = 0) :
      WorkerStep d source cancel w dest { w with phase := .finished (.ok ()) } dest
  | opens {w : Worker} {dest : Bytes} (opening : w.phase = .opening) (some : 0 < w.len) :
      WorkerStep d source cancel w dest { w with remaining := w.len, phase := .checking } dest
  | cancelled {w : Worker} {dest : Bytes} (checking : w.phase = .checking)
      (more : 0 < w.remaining) (cancels : cancel = true) :
      WorkerStep d source cancel w dest { w with phase := .finished (.ok ()) } dest
  | check {w : Worker} {dest : Bytes} (checking : w.phase = .checking)
      (more : 0 < w.remaining) (goesOn : cancel = false) :
      WorkerStep d source cancel w dest { w with phase := .reading } dest
  /-- A read of some of the next bytes of the source. -/
  | read {w : Worker} {dest : Bytes} {n : ℕ} (reading : w.phase = .reading) (some : 0 < n)
      (fits : n ≤ min w.remaining chunk) (there : w.position + n ≤ source.length) :
      WorkerStep d source cancel w dest
        { w with phase := .writing ((source.drop w.position).take n) } dest
  | eof {w : Worker} {dest : Bytes} (reading : w.phase = .reading) :
      WorkerStep d source cancel w dest
        { w with phase := .finished (.error (d.earlyEof w.offset w.len w.remaining)) } dest
  | write {w : Worker} {dest data : Bytes} (writing : w.phase = .writing data) :
      WorkerStep d source cancel w dest
        { w with remaining := w.remaining - data.length, phase := .checking }
        (writeAt w.position data dest)
  | writeFails {w : Worker} {dest data : Bytes} (n : ℕ) (e : SshError)
      (writing : w.phase = .writing data) :
      WorkerStep d source cancel w dest { w with phase := .finished (.error e) }
        (writeAt w.position (data.take n) dest)
  | flush {w : Worker} {dest : Bytes} (checking : w.phase = .checking)
      (done : w.remaining = 0) :
      WorkerStep d source cancel w dest { w with phase := .finished (.ok ()) } dest
  /-- An error of any operation, or a panic. -/
  | fails {w : Worker} {dest : Bytes} (e : SshError) (some : 0 < w.len)
      (working : ∀ result, w.phase ≠ .finished result) :
      WorkerStep d source cancel w dest { w with phase := .finished (.error e) } dest

/-- Where the segmented transfer is. -/
inductive MainPhase where
  | creating
  | preparing
  | joining (joined : ℕ) (firstErr : Option SshError)
  | removing (result : Except SshError Bool)
  | probing
  | finished (result : Except SshError Bool)

/-- A segmented transfer: the contents of the source, the latest first, the destination, the flag,
the workers and the main task. -/
structure Transfer where
  sources : List Bytes
  dest : Option Bytes
  cancel : Bool
  workers : List Worker
  main : MainPhase

/-- A transfer from a source, with what stands at its destination. -/
def Transfer.start (source : Bytes) (before : Option Bytes) : Transfer :=
  ⟨[source], before, false, [], .creating⟩

def spawn (total : ℕ) : List Worker :=
  (planSegments total).map fun segment => ⟨segment.1, segment.2, segment.2, .opening⟩

inductive TransferEvent where
  | create (result : Except SshError Unit)
  | prepare (result : Except SshError Unit)
  | worker (i : ℕ)
  | join
  | joined
  | remove (removed : Bool)
  | probe (result : Except SshError (Option ℕ))
  | cancel
  | change (content : Bytes)

inductive TransferStep (d : Direction) (total : ℕ) :
    Transfer → TransferEvent → Transfer → Prop where
  | create {m : Transfer} (creating : m.main = .creating) :
      TransferStep d total m (.create (.ok ())) { m with dest := some [], main := .preparing }
  | createFails {m : Transfer} (message : Text) (creating : m.main = .creating) :
      TransferStep d total m (.create (.error (d.destError message)))
        { m with main := .finished (.error (d.destError message)) }
  | prepare {m : Transfer} (preparing : m.main = .preparing) :
      TransferStep d total m (.prepare (.ok ()))
        { m with dest := some (d.prepared total), workers := spawn total, main := .joining 0 none }
  /-- The error is returned at once. -/
  | prepareFails {m : Transfer} (message : Text) (preparing : m.main = .preparing) :
      TransferStep d total m (.prepare (.error (d.destError message)))
        { m with main := .finished (.error (d.destError message)) }
  | worker {m : Transfer} {i : ℕ} {w w' : Worker} {source dest dest' : Bytes}
      {sources : List Bytes} (at_ : m.workers[i]? = some w) (now : m.sources = source :: sources)
      (there : m.dest = some dest) (step : WorkerStep d source m.cancel w dest w' dest') :
      TransferStep d total m (.worker i)
        { m with dest := some dest', workers := m.workers.set i w' }
  | join {m : Transfer} {i : ℕ} {w : Worker} {firstErr : Option SshError}
      (joining : m.main = .joining i firstErr) (at_ : m.workers[i]? = some w)
      (finished : w.phase = .finished (.ok ())) :
      TransferStep d total m .join { m with main := .joining (i + 1) firstErr }
  | joinError {m : Transfer} {i : ℕ} {w : Worker} {firstErr : Option SshError} {e : SshError}
      (joining : m.main = .joining i firstErr) (at_ : m.workers[i]? = some w)
      (finished : w.phase = .finished (.error e)) :
      TransferStep d total m .join
        { m with cancel := true, main := .joining (i + 1) (firstErr <|> some e) }
  | failed {m : Transfer} {e : SshError} (joined : m.main = .joining m.workers.length (some e)) :
      TransferStep d total m .joined { m with main := .removing (.error e) }
  | cancelled {m : Transfer} (joined : m.main = .joining m.workers.length none)
      (cancels : m.cancel = true) :
      TransferStep d total m .joined { m with main := .removing (.ok true) }
  | copied {m : Transfer} (joined : m.main = .joining m.workers.length none)
      (goesOn : m.cancel = false) :
      TransferStep d total m .joined { m with main := .probing }
  | remove {m : Transfer} {result : Except SshError Bool} (removing : m.main = .removing result) :
      TransferStep d total m (.remove true) { m with dest := none, main := .finished result }
  /-- The error of the removal is ignored. -/
  | removeFails {m : Transfer} {result : Except SshError Bool}
      (removing : m.main = .removing result) :
      TransferStep d total m (.remove false) { m with main := .finished result }
  /-- The error is returned at once. -/
  | probeFails {m : Transfer} (message : Text) (probing : m.main = .probing) :
      TransferStep d total m (.probe (.error (d.sourceError message)))
        { m with main := .finished (.error (d.sourceError message)) }
  /-- A server need not report a size. -/
  | probeNone {m : Transfer} (probing : m.main = .probing) (downloads : d = .download) :
      TransferStep d total m (.probe (.ok none)) { m with main := .finished (.ok false) }
  | probe {m : Transfer} {source : Bytes} {sources : List Bytes} (probing : m.main = .probing)
      (now : m.sources = source :: sources) :
      TransferStep d total m (.probe (.ok (some source.length)))
        { m with main :=
            if source.length = total then .finished (.ok false)
            else .removing (.error (d.sizeMismatch source.length total)) }
  | cancel (m : Transfer) : TransferStep d total m .cancel { m with cancel := true }
  | change (content : Bytes) (m : Transfer) :
      TransferStep d total m (.change content) { m with sources := content :: m.sources }

/-! ### Single stream -/

/-- Where the transfer over a single stream is. -/
inductive StreamPhase where
  | opening
  | checking
  | reading
  | writing (data : Bytes)
  | removing
  | flushing
  | finished (result : Except SshError Bool)

/-- A transfer over a single stream. -/
structure Stream where
  sources : List Bytes
  dest : Option Bytes
  cancel : Bool
  done : ℕ
  phase : StreamPhase

def Stream.start (source : Bytes) (before : Option Bytes) : Stream :=
  ⟨[source], before, false, 0, .opening⟩

/-- What happens in a transfer over a single stream. -/
inductive StreamEvent where
  | opens
  | check
  | read (data : Bytes)
  | write
  | flush
  | fails (e : SshError)
  | remove (removed : Bool)
  | cancel
  | change (content : Bytes)

/-- The steps of a transfer over a single stream. -/
inductive StreamStep : Stream → StreamEvent → Stream → Prop where
  | opens {m : Stream} (opening : m.phase = .opening) :
      StreamStep m .opens { m with dest := some [], phase := .checking }
  | cancelled {m : Stream} (checking : m.phase = .checking) (cancels : m.cancel = true) :
      StreamStep m .check { m with phase := .removing }
  | check {m : Stream} (checking : m.phase = .checking) (goesOn : m.cancel = false) :
      StreamStep m .check { m with phase := .reading }
  /-- A read of the next bytes of the source; no bytes are its end. -/
  | read {m : Stream} {source : Bytes} {sources : List Bytes} {n : ℕ}
      (reading : m.phase = .reading) (now : m.sources = source :: sources) (fits : n ≤ chunk)
      (there : n = 0 ∨ m.done + n ≤ source.length) :
      StreamStep m (.read ((source.drop m.done).take n))
        { m with phase := if n = 0 then .flushing else .writing ((source.drop m.done).take n) }
  | write {m : Stream} {dest data : Bytes} (writing : m.phase = .writing data)
      (there : m.dest = some dest) :
      StreamStep m .write
        { m with dest := some (dest ++ data), done := m.done + data.length, phase := .checking }
  | flush {m : Stream} (flushing : m.phase = .flushing) :
      StreamStep m .flush { m with phase := .finished (.ok false) }
  /-- An error of any operation, which may have written a part of its bytes. -/
  | fails {m : Stream} (e : SshError) (dest : Option Bytes)
      (working : ∀ result, m.phase ≠ .finished result) :
      StreamStep m (.fails e) { m with dest := dest, phase := .finished (.error e) }
  | remove {m : Stream} (removing : m.phase = .removing) (removed : Bool) :
      StreamStep m (.remove removed)
        { m with dest := if removed then none else m.dest, phase := .finished (.ok true) }
  | cancel (m : Stream) : StreamStep m .cancel { m with cancel := true }
  | change (content : Bytes) (m : Stream) :
      StreamStep m (.change content) { m with sources := content :: m.sources }

def delivered (es : List StreamEvent) : Bytes :=
  es.flatMap fun e =>
    match e with
    | .read data => data
    | _ => []

end Ssh
