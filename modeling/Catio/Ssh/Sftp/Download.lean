import Catio.Lib.Base64
import Catio.Ssh.Exec

/-!
# Downloads without SFTP

The model of `download_stream` of `ssh/sftp.rs`: the remote host prints a file in Base64 on a
channel, and its lines are decoded into a local file.  The decoder is a parameter; the messages of
the channel, the flag that cancels and what the disk does come from outside.
-/

namespace Ssh

open Text

/-- So many bytes are written between two reports of progress. -/
def progressStep : ℕ := 256 * 1024

/-- What stood in the place of the file, the writes that fail, with the bytes that they have
written, and whether the file can be removed. -/
structure Disk where
  before : Option Bytes
  create : Except Text Unit
  writeAll : ℕ → Option (ℕ × Text)
  flush : Except Text Unit
  removes : Bool

/-- The local file, and how often it was written to. -/
structure LocalFile where
  content : Bytes
  writes : ℕ
  deriving DecidableEq

/-- How a download ends: its result, where `true` means that it was cancelled, the local file and
the reports of progress. -/
structure Ended where
  result : Except SshError Bool
  file : Option Bytes
  progress : List ℕ

/-- The state of the loop; as many bytes are written as the file has. -/
structure Download where
  b64Buf : Text
  file : LocalFile
  lastEmit : ℕ
  stderr : Text
  gotEof : Bool
  gotExit : Bool
  progress : List ℕ

/-- A turn of the loop: the flag, and what arrives within half a second. -/
structure Wake where
  cancel : Bool
  message : Option ChannelMsg

/-- A line without its white space. -/
def compact (line : Text) : Text :=
  line.filter fun c => !isWhitespace c

section

variable (decode : Text → Except Text Bytes) (disk : Disk)

/-- Decode a line into the file.  A failed write has written a part. -/
def storeLine (file : LocalFile) (line : Text) : Except (SshError × Bytes) LocalFile :=
  if compact line = [] then .ok file
  else
    match decode (compact line) with
    | .error e => .error (.sftp e, file.content)
    | .ok decoded =>
        match disk.writeAll file.writes with
        | some (n, e) => .error (.io e, file.content ++ decoded.take n)
        | none => .ok ⟨file.content ++ decoded, file.writes + 1⟩

namespace Download

def start : Download :=
  ⟨[], ⟨[], 0⟩, 0, [], false, false, [0]⟩

/-- Report the progress, if it is worth it. -/
def report (s : Download) : Download :=
  let written := s.file.content.length
  if written - s.lastEmit ≥ progressStep then
    { s with lastEmit := written, progress := s.progress ++ [written] }
  else s

/-- One message; with its new state goes whether the loop is left. -/
def hear (s : Download) : ChannelMsg → Except Ended (Download × Bool)
  | .data bytes =>
      let lines := endedLines (s.b64Buf ++ Utf8.fromUtf8Lossy bytes)
      match lines.1.foldlM (storeLine decode disk) s.file with
      | .error (e, content) => .error ⟨.error e, some content, s.progress⟩
      | .ok file => .ok ({ s with b64Buf := lines.2, file := file }.report, false)
  | .extendedData bytes =>
      .ok ({ s with stderr := s.stderr ++ Utf8.fromUtf8Lossy bytes }, false)
  | .eof => .ok ({ s with gotEof := true }, s.gotExit)
  | .exitStatus status =>
      if status ≠ 0 ∧ trim s.stderr ≠ [] then
        .error ⟨.error (.sftp (trim s.stderr)), some s.file.content, s.progress⟩
      else .ok ({ s with gotExit := true }, s.gotEof)
  | _ => .ok (s, false)

/-- The local file is removed, if that is possible. -/
def cancelled (s : Download) : Ended :=
  ⟨.ok true, if disk.removes then none else some s.file.content, s.progress⟩

/-- The loop over the turns, behind which the channel is closed; the flag of the last turn stands
apart. -/
def loop (last : Bool) : List Wake → Download → Except Ended Download
  | [], s => if last then .error (s.cancelled disk) else .ok s
  | wake :: wakes, s =>
      if wake.cancel then .error (s.cancelled disk)
      else
        match wake.message with
        | none => loop last wakes s
        | some message =>
            match s.hear decode disk message with
            | .error ended => .error ended
            | .ok (s, true) => .ok s
            | .ok (s, false) => loop last wakes s

/-- What is left is decoded, and the file is flushed. -/
def finish (s : Download) : Ended :=
  match storeLine decode disk s.file s.b64Buf with
  | .error (e, content) => ⟨.error e, some content, s.progress⟩
  | .ok file =>
      match disk.flush with
      | .error e => ⟨.error (.io e), some file.content, s.progress⟩
      | .ok () => ⟨.ok false, some file.content, s.progress ++ [file.content.length]⟩

end Download

/-- Download what the channel brings. -/
def downloadStream (wakes : List Wake) (last : Bool) : Ended :=
  match disk.create with
  | .error e => ⟨.error (.io e), disk.before, [0]⟩
  | .ok () =>
      match Download.loop decode disk last wakes .start with
      | .error ended => ended
      | .ok s => s.finish decode disk

end

/-! ### What arrives -/

namespace Wake

def isEof (wake : Wake) : Bool :=
  match wake.message with
  | some .eof => true
  | _ => false

def isExit (wake : Wake) : Bool :=
  match wake.message with
  | some (.exitStatus _) => true
  | _ => false

/-- The output that a turn brings. -/
def stdout (wake : Wake) : Bytes :=
  match wake.message with
  | some (.data bytes) => bytes
  | _ => []

/-- The error output that a turn brings, as text. -/
def stderr (wake : Wake) : Text :=
  match wake.message with
  | some (.extendedData bytes) => Utf8.fromUtf8Lossy bytes
  | _ => []

end Wake

/-- The output that arrives. -/
def received (wakes : List Wake) : Bytes :=
  wakes.flatMap Wake.stdout

/-- The output as text, where each message is read by itself. -/
def receivedText (wakes : List Wake) : Text :=
  wakes.flatMap fun wake => Utf8.fromUtf8Lossy wake.stdout

/-- The turns up to the one with which the end of the output and the exit status are there, if they
were or were not there before. -/
def heard : Bool → Bool → List Wake → List Wake
  | _, _, [] => []
  | eof, exit, wake :: wakes =>
      if (eof || wake.isEof) && (exit || wake.isExit) then [wake]
      else wake :: heard (eof || wake.isEof) (exit || wake.isExit) wakes

/-- The end of the output and the exit status arrive before the channel is closed. -/
def Announced (wakes : List Wake) : Prop :=
  wakes.any Wake.isEof ∧ wakes.any Wake.isExit

/-- The remote command that prints a file: the content, what it prints, and its exit status. If it
succeeds, it prints the encoding of the content. -/
structure Printing (codec : Base64.Codec) where
  content : Bytes
  stdout : Bytes
  status : Option ℕ
  printed : status = some 0 → ∃ pieces : List Bytes, pieces.flatten = content
    ∧ stdout = Utf8.encode (pieces.flatMap fun piece => codec.encode piece ++ ['\n'])

/-- A channel brings the output in order, all of it before its end is told, and no other exit
status. -/
structure Delivers {codec : Base64.Codec} (command : Printing codec) (wakes : List Wake) :
    Prop where
  output : received wakes <+: command.stdout
  eof : ∀ i (hi : i < wakes.length), wakes[i].isEof → received (wakes.take i) = command.stdout
  exit : ∀ wake ∈ wakes, ∀ status, wake.message = some (.exitStatus status) →
    command.status = some status

/-- A download that succeeds has received all the output of a command that succeeded, and has
written the file. -/
def Complete {codec : Base64.Codec} (command : Printing codec) (wakes : List Wake)
    (ended : Ended) : Prop :=
  ended.result = .ok false →
    received wakes = command.stdout ∧ command.status = some 0
      ∧ ended.file = some command.content

end Ssh
