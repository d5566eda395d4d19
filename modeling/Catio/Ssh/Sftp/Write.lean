import Catio.Lib.Result
import Catio.Lib.Runs
import Catio.Ssh.Sftp

/-!
# What a write leaves on the remote host

The files of the remote host and what the calls do to them (`HostStep`).  `sftp_write_file_core`
tells the truth, a success that the target has the new content, an error that it is what it was,
exactly if the host answers its last calls well (`sftpWriteFileCore_honest_iff`): the exit statuses
of the mode and the replacement are not checked, and an error behind the replacement is returned.
-/

namespace Ssh

open Text Shell

/-! ### The host -/

/-- What stands at a path. -/
inductive Node where
  | file (content : Bytes)
  | directory
  deriving DecidableEq

/-- The files of a host, by their paths; there are no links. -/
abbrev Files :=
  Text → Option Node

def lastPart (path : Text) : Text :=
  (path.splitOn '/').getLastD []

/-- What a command, given by its words, does to the files, with its exit status.  A command
that fails leaves them as they are. -/
inductive CommandStep : ℕ → List Text → Files → Files → Prop where
  | chmod {files : Files} (status : ℕ) (mode path : Text) :
      CommandStep status ["chmod".toList, mode, "--".toList, path] files files
  | mv {files : Files} {source target : Text} {node : Node} (differ : source ≠ target)
      (there : files source = some node) (free : files target ≠ some .directory) :
      CommandStep 0 ["mv".toList, "-f".toList, "--".toList, source, target] files
        (Function.update (Function.update files target (some node)) source none)
  /-- What is moved to a directory is moved into it. -/
  | mvInto {files : Files} {source target : Text} {node : Node} (differ : source ≠ target)
      (there : files source = some node) (directory : files target = some .directory) :
      CommandStep 0 ["mv".toList, "-f".toList, "--".toList, source, target] files
        (Function.update (Function.update files (target ++ '/' :: lastPart source) (some node))
          source none)
  | mvFails {files : Files} {status : ℕ} (source target : Text) (failed : status ≠ 0) :
      CommandStep status ["mv".toList, "-f".toList, "--".toList, source, target] files files

inductive HostStep : Files → Program.Event RemoteCall.Answer → Files → Prop where
  | openSftp (files : Files) (session : Text) (answer : Except SshError Unit) :
      HostStep files ⟨.openSftp session, answer⟩ files
  | metadata (files : Files) (path : Text) (answer : Except Text (Option ℕ)) :
      HostStep files ⟨.metadata path, answer⟩ files
  | opens {files : Files} {path : Text} (free : files path ≠ some .directory) :
      HostStep files ⟨.file .openWithFlags path, .ok ()⟩
        (Function.update files path (some (.file [])))
  | writes {files : Files} {path : Text} {data before : Bytes}
      (there : files path = some (.file before)) :
      HostStep files ⟨.file (.writeAll data) path, .ok ()⟩
        (Function.update files path (some (.file (before ++ data))))
  | closes (files : Files) (path : Text) :
      HostStep files ⟨.file .shutdown path, .ok ()⟩ files
  | removes (files : Files) (path : Text) :
      HostStep files ⟨.file .removeFile path, .ok ()⟩ (Function.update files path none)
  /-- An operation that fails may have done anything to its file. -/
  | fails (files : Files) (op : FileOp) (path message : Text) (node : Option Node) :
      HostStep files ⟨.file op path, .error message⟩ (Function.update files path node)
  | notFound (files : Files) (session command : Text) :
      HostStep files ⟨.exec session command, .notFound⟩ files
  | notOpened (files : Files) (session command message : Text) :
      HostStep files ⟨.exec session command, .notOpened message⟩ files
  | notRequested (files : Files) (session command message : Text) :
      HostStep files ⟨.exec session command, .notRequested message⟩ files
  | refused (files : Files) (session command : Text) (messages : List ChannelMsg) :
      HostStep files ⟨.exec session command, .requested none messages⟩ files
  /-- The exit status that is told, if any, is the one of the command. -/
  | runs {files files' : Files} {session command : Text} {status : ℕ}
      {messages : List ChannelMsg} {parts : List Text} (read : words command = some parts)
      (told : ∀ s, .exitStatus s ∈ messages → s = status)
      (step : CommandStep status parts files files') :
      HostStep files ⟨.exec session command, .requested (some status) messages⟩ files'

/-! ### What is claimed -/

def StepSucceeded : Program.Event RemoteCall.Answer → Prop
  | ⟨.openSftp _, answer⟩ => answer = .ok ()
  | ⟨.metadata _, _⟩ => True
  | ⟨.file _ _, answer⟩ => answer = .ok ()
  | ⟨.exec _ _, answer⟩ => ∃ messages, answer = .requested (some 0) messages

/-- The result of a write tells the truth about the target. -/
def Honest (path : Text) (data : Bytes) (before after : Files) (h : RemoteHistory) :
    Except SshError ℤ → Prop
  | .ok _ => (∀ e ∈ h, StepSucceeded e) ∧ after path = some (.file data)
  | .error _ => after path = before path

/-- If the question behind the replacement is answered, the commands before it have exited with
zero, and the target was no directory; if it is not, the replacement did not exit with zero, or the
target was a directory or had the content already. -/
def AnswersWell (path : Text) (data : Bytes) (before : Files) (h : RemoteHistory)
    (status : Option ℕ) : Except Text (Option ℕ) → Prop
  | .ok _ => status = some 0 ∧ before path ≠ some .directory
      ∧ ∀ session command execution, ⟨.exec session command, execution⟩ ∈ h →
        ∃ messages, execution = .requested (some 0) messages
  | .error _ => status = some 0 → before path = some .directory ∨ before path = some (.file data)

/-- Whenever the command that replaces the target was requested, the last question is answered
as it should be. -/
def Dependable (path : Text) (data : Bytes) (before : Files) (h : RemoteHistory) : Prop :=
  ∀ h₀ session command status messages answer,
    h = h₀ ++ [⟨.exec session command, .requested status messages⟩, ⟨.metadata path, answer⟩] →
    AnswersWell path data before h₀ status answer

/-! ### The commands -/

theorem isPlain_of_isDigit {c : Char} (h : c.isDigit) :
  isPlain c
  := by
  simp [isPlain, isWordChar, Char.isAlphanum, h]

theorem words_chmod (mode : ℕ) (tmp : Text) :
  words ("chmod ".toList ++ Nat.toDigits 8 mode ++ " -- ".toList ++ shellEscape tmp)
    = some ["chmod".toList, Nat.toDigits 8 mode, "--".toList, tmp]
  := by
  have hsplit : "chmod ".toList ++ Nat.toDigits 8 mode ++ " -- ".toList ++ shellEscape tmp
      = "chmod".toList ++ ' ' :: (Nat.toDigits 8 mode ++ ' ' ::
          ("--".toList ++ ' ' :: quote tmp)) := by
    simp [shellEscape, quote]
  rw [hsplit, words_plain rfl (by decide), words_plain,
    words_plain rfl (by decide), words_quote]
  · rfl
  · rw [List.all_eq_true]
    intro c hc
    apply isPlain_of_isDigit
    apply Nat.isDigit_of_mem_toDigits _ _ hc
    · decide
    · decide
  · exact Nat.toDigits_ne_nil

theorem words_mv (tmp path : Text) :
  words ("mv -f -- ".toList ++ shellEscape tmp ++ " ".toList ++ shellEscape path)
    = some ["mv".toList, "-f".toList, "--".toList, tmp, path]
  := by
  have hsplit : "mv -f -- ".toList ++ shellEscape tmp ++ " ".toList ++ shellEscape path
      = "mv".toList ++ ' ' :: ("-f".toList ++ ' ' :: ("--".toList ++ ' ' ::
          (quote tmp ++ ' ' :: quote path))) := by
    simp [shellEscape, quote]
  rw [hsplit, words_plain rfl (by decide), words_plain rfl (by decide),
    words_plain rfl (by decide), words_quote_append, words_quote]
  rfl

/-! ### What the calls leave -/

variable {files files' before after : Files} {h h' : RemoteHistory} {path tmp : Text}
  {data : Bytes}

theorem HostStep.elsewhere {op : FileOp} {answer : Except Text Unit} {other : Text}
    (step : HostStep files ⟨.file op path, answer⟩ files') (ne : other ≠ path) :
  files' other = files other
  := by
  cases step with
  | closes => rfl
  | _ => exact Function.update_of_ne ne _ _

theorem HostStep.opened (step : HostStep files ⟨.file .openWithFlags path, .ok ()⟩ files') :
  files' path = some (.file [])
  := by
  cases step
  apply Function.update_self

theorem HostStep.written {content : Bytes} (there : files path = some (.file content))
    (step : HostStep files ⟨.file (.writeAll data) path, .ok ()⟩ files') :
  files' path = some (.file (content ++ data))
  := by
  cases step with
  | writes there' =>
    rw [there] at there'
    cases there'
    apply Function.update_self

theorem HostStep.closed (step : HostStep files ⟨.file .shutdown path, .ok ()⟩ files') :
  files' = files
  := by
  cases step
  rfl

theorem HostStep.asked {answer : Except Text (Option ℕ)}
    (step : HostStep files ⟨.metadata path, answer⟩ files') :
  files' = files
  := by
  cases step
  rfl

theorem HostStep.session {session : Text} {answer : Except SshError Unit}
    (step : HostStep files ⟨.openSftp session, answer⟩ files') :
  files' = files
  := by
  cases step
  rfl

variable {execution : Execution} {s : Unit}

theorem HostStep.commanded {session command : Text} {parts : List Text}
    (read : words command = some parts)
    (step : HostStep files ⟨.exec session command, execution⟩ files') :
  files' = files ∧ (∀ status messages, execution ≠ .requested (some status) messages)
    ∨ ∃ status messages, execution = .requested (some status) messages
      ∧ CommandStep status parts files files'
  := by
  cases step with
  | runs read' told step =>
    rw [read] at read'
    cases read'
    right
    exact ⟨_, _, rfl, step⟩
  | _ =>
    left
    constructor
    · rfl
    · simp

theorem HostStep.chmod {session : Text} {mode : ℕ}
    (step : HostStep files ⟨.exec session ("chmod ".toList ++ Nat.toDigits 8 mode ++ " -- ".toList
      ++ shellEscape tmp), execution⟩ files') :
  files' = files
  := by
  rcases step.commanded (words_chmod mode tmp) with ⟨heq, -⟩ | ⟨status, messages, -, hcommand⟩
  · exact heq
  · generalize hparts : ["chmod".toList, Nat.toDigits 8 mode, "--".toList, tmp] = parts at hcommand
    cases hcommand with
    | chmod => rfl
    | mvFails => rfl
    | mv => simp at hparts
    | mvInto => simp at hparts

/-- The replacement: with exit status zero the temporary file has become the target, unless that is
a directory; otherwise the files are as they were. -/
theorem HostStep.moved {session : Text} {node : Node} (there : files tmp = some node)
    (step : HostStep files ⟨.exec session ("mv -f -- ".toList ++ shellEscape tmp ++ " ".toList
      ++ shellEscape path), execution⟩ files') :
  ((∃ messages, execution = .requested (some 0) messages) →
      files' path = if files path = some .directory then some .directory else some node)
    ∧ ((∀ messages, execution ≠ .requested (some 0) messages) → files' = files)
  := by
  rcases step.commanded (words_mv tmp path) with ⟨heq, hnot⟩ | ⟨status, messages, rfl, hcommand⟩
  · constructor
    · rintro ⟨messages, hrun⟩
      exact absurd hrun (hnot 0 messages)
    · intro _
      exact heq
  · generalize hparts : ["mv".toList, "-f".toList, "--".toList, tmp, path] = parts at hcommand
    cases hcommand with
    | chmod => simp at hparts
    | mvFails source target failed =>
      constructor
      · rintro ⟨messages', hrun⟩
        cases hrun
        exact absurd rfl failed
      · intro _
        rfl
    | mv differ there' free =>
      simp only [List.cons.injEq, true_and, and_true] at hparts
      obtain ⟨rfl, rfl⟩ := hparts
      rw [there] at there'
      cases there'
      constructor
      · intro _
        rw [if_neg free, Function.update_of_ne differ.symm, Function.update_self]
      · intro hnot
        exact absurd rfl (hnot messages)
    | mvInto differ there' directory =>
      simp only [List.cons.injEq, true_and, and_true] at hparts
      obtain ⟨rfl, rfl⟩ := hparts
      constructor
      · intro _
        rw [if_pos directory, Function.update_of_ne differ.symm, Function.update_of_ne, directory]
        intro heq
        have hlength := congrArg List.length heq
        simp only [List.length_append, List.length_cons] at hlength
        omega
      · intro hnot
        exact absurd rfl (hnot messages)

/-! ### Histories -/

/-- All that the host can have done leaves the files so. -/
def Leaves (before : Files) (h : RemoteHistory) (P : Files → Prop) : Prop :=
  ∀ after, Runs HostStep before h after → P after

theorem Leaves.snoc {P P' : Files → Prop} {e : Program.Event RemoteCall.Answer}
    (hleaves : Leaves before h P)
    (keeps : ∀ files files', P files → HostStep files e files' → P' files') :
  Leaves before (h ++ [e]) P'
  := by
  intro after hruns
  obtain ⟨files, hbefore, hlast⟩ := hruns.of_snoc
  apply keeps files after (hleaves files hbefore) hlast

theorem Leaves.asked {P : Files → Prop} {answer : Except Text (Option ℕ)}
    (hleaves : Leaves before h P) :
  Leaves before (h ++ [⟨.metadata path, answer⟩]) P
  := by
  refine hleaves.snoc ?_
  intro files files' hfiles hstep
  rw [hstep.asked]
  exact hfiles

def RunsCommand : Program.Event RemoteCall.Answer → Prop
  | ⟨.exec _ _, _⟩ => True
  | _ => False

/-- The target is what it was, and the replacement has not been followed by a question for the
metadata. -/
structure Kept (path : Text) (before : Files) (h : RemoteHistory) : Prop where
  leaves : Leaves before h fun files => files path = before path
  open_ : ∀ h₀ e path answer, RunsCommand e → h ≠ h₀ ++ [e, ⟨.metadata path, answer⟩]

theorem Kept.honest_iff (hkept : Kept path before h) (hruns : Runs HostStep before h after)
    (e : SshError) :
  Honest path data before after h (.error e) ↔ Dependable path data before h
  := by
  constructor
  · intro _ h₀ session command status messages answer heq
    exact absurd heq (hkept.open_ h₀ _ path answer trivial)
  · intro _
    apply hkept.leaves after hruns

/-- The target is what it was, and no command has been run. -/
structure Preparing (path : Text) (before : Files) (h : RemoteHistory) : Prop where
  leaves : Leaves before h fun files => files path = before path
  steps : ∀ e ∈ h, StepSucceeded e
  quiet : ∀ e ∈ h, ¬ RunsCommand e

theorem kept_of_quiet (leaves : Leaves before h fun files => files path = before path)
    (quiet : ∀ e ∈ h, ¬ RunsCommand e) :
  Kept path before h
  where
  leaves := leaves
  open_ := by
    rintro h₀ e path answer he rfl
    apply quiet e _ he
    simp

theorem Preparing.kept_snoc {e : Program.Event RemoteCall.Answer}
    (hprepared : Preparing path before h) (quiet : ¬ RunsCommand e)
    (keeps : ∀ files files', HostStep files e files' → files' path = files path) :
  Kept path before (h ++ [e])
  := by
  apply kept_of_quiet
  · refine hprepared.leaves.snoc ?_
    intro files files' hfiles hstep
    rw [keeps files files' hstep, hfiles]
  · intro e' hmem
    rw [List.mem_append, List.mem_singleton] at hmem
    rcases hmem with hmem | rfl
    · apply hprepared.quiet e' hmem
    · apply quiet

theorem Preparing.snoc {e : Program.Event RemoteCall.Answer} (hprepared : Preparing path before h)
    (succeeded : StepSucceeded e) (quiet : ¬ RunsCommand e)
    (keeps : ∀ files files', HostStep files e files' → files' path = files path) :
  Preparing path before (h ++ [e])
  where
  leaves := (hprepared.kept_snoc quiet keeps).leaves
  steps := by
    intro e' hmem
    rw [List.mem_append, List.mem_singleton] at hmem
    rcases hmem with hmem | rfl
    · apply hprepared.steps e' hmem
    · apply succeeded
  quiet := by
    intro e' hmem
    rw [List.mem_append, List.mem_singleton] at hmem
    rcases hmem with hmem | rfl
    · apply hprepared.quiet e' hmem
    · apply quiet

/-- The target is what it was, the temporary file has the content, and all that may have gone
wrong are commands. -/
structure Filled (path tmp : Text) (data : Bytes) (before : Files) (h : RemoteHistory) :
    Prop where
  leaves : Leaves before h fun files =>
    files path = before path ∧ files tmp = some (.file data)
  steps : ∀ e ∈ h, RunsCommand e ∨ StepSucceeded e

/-! ### The program -/

theorem wp_fileOp {Q : Unit → Unit → RemoteHistory → Prop}
    {E : SshError → Unit → RemoteHistory → Prop} (op : FileOp) :
  Program.wp Q E (fileOp op path) s h
    ↔ Q () s (h ++ [⟨.file op path, .ok ()⟩])
      ∧ ∀ message, E (.sftp message) s (h ++ [⟨.file op path, .error message⟩])
  := by
  unfold fileOp
  rw [Program.wp_ask_bind]
  simp only [Program.wp_lift]
  constructor
  · intro hall
    constructor
    · apply (hall (.ok ())).1 () rfl
    · intro message
      apply (hall (.error message)).2 _ rfl
  · rintro ⟨hok, herror⟩ answer
    cases answer with
    | ok a =>
      constructor
      · intro _ _
        apply hok
      · intro _ heq
        cases heq
    | error message =>
      constructor
      · intro _ heq
        cases heq
      · intro _ heq
        cases heq
        apply herror

theorem tmpOf_ne (path : Text) :
  path ≠ tmpOf path
  := by
  intro heq
  have hlength := congrArg List.length heq
  simp [tmpOf] at hlength

theorem wp_conflicts (hprepared : Preparing path before h) (baseModified : Option ℤ) :
  Program.wp (fun _ _ h => Preparing path before h) (fun _ _ _ => False)
    (conflicts path baseModified) s h
  := by
  cases baseModified with
  | none => apply hprepared
  | some base =>
    unfold conflicts
    rw [Program.wp_ask_bind]
    intro answer
    have hasked : Preparing path before (h ++ [⟨.metadata path, answer⟩]) := by
      refine hprepared.snoc ?_ id ?_
      · trivial
      intro files files' hstep
      rw [hstep.asked]
    split
    · apply hasked
    · apply hasked

theorem wp_fill {α : Type} {Q : α → Unit → RemoteHistory → Prop}
    {E : SshError → Unit → RemoteHistory → Prop} {rest : RemoteProgram α}
    (hprepared : Preparing path before h) (ne : path ≠ tmp)
    (hrest : ∀ h', Filled path tmp data before h' → Program.wp Q E rest s h')
    (hkept : ∀ e h', Kept path before h' → E e s h') :
  Program.wp Q E
    (do
      fileOp .openWithFlags tmp
      fileOp (.writeAll data) tmp
      fileOp .shutdown tmp
      rest) s h
  := by
  have haside : ∀ op answer files files', HostStep files ⟨.file op tmp, answer⟩ files' →
      files' path = files path := by
    intro op answer files files' hstep
    apply hstep.elsewhere ne
  rw [Program.wp_bind, wp_fileOp]
  constructor
  swap
  · intro message
    apply hkept
    apply hprepared.kept_snoc id (haside _ _)
  have hopened := hprepared.snoc (e := ⟨.file .openWithFlags tmp, .ok ()⟩) rfl id (haside _ _)
  have hempty : Leaves before (h ++ [⟨.file .openWithFlags tmp, .ok ()⟩]) fun files =>
      files tmp = some (.file []) := by
    refine hprepared.leaves.snoc ?_
    intro files files' _ hstep
    apply hstep.opened
  rw [Program.wp_bind, wp_fileOp]
  constructor
  swap
  · intro message
    apply hkept
    apply hopened.kept_snoc id (haside _ _)
  have hwritten := hopened.snoc (e := ⟨.file (.writeAll data) tmp, .ok ()⟩) rfl id (haside _ _)
  have hfull : Leaves before (h ++ [⟨.file .openWithFlags tmp, .ok ()⟩]
      ++ [⟨.file (.writeAll data) tmp, .ok ()⟩]) fun files => files tmp = some (.file data) := by
    refine hempty.snoc ?_
    intro files files' hfiles hstep
    apply hstep.written hfiles
  rw [Program.wp_bind, wp_fileOp]
  constructor
  swap
  · intro message
    apply hkept
    apply hwritten.kept_snoc id (haside _ _)
  have hclosed := hwritten.snoc (e := ⟨.file .shutdown tmp, .ok ()⟩) rfl id (haside _ _)
  have hstill : Leaves before _ fun files => files tmp = some (.file data) :=
    hfull.snoc (e := ⟨.file .shutdown tmp, .ok ()⟩) fun files files' hfiles hstep => by
      rw [hstep.closed, hfiles]
  apply hrest
  exact {
    leaves := fun after hruns => ⟨hclosed.leaves after hruns, hstill after hruns⟩
    steps := by
      intro e hmem
      right
      apply hclosed.steps e hmem }

theorem wp_restoreMode (hfilled : Filled path tmp data before h) (session : Text)
    (mode : Option ℕ) :
  Program.wp (fun _ _ h => Filled path tmp data before h) (fun _ _ _ => False)
    (restoreMode session tmp mode) s h
  := by
  cases mode with
  | none => apply hfilled
  | some mode =>
    unfold restoreMode exec
    rw [Program.wp_bind, Program.wp_attempt, Program.wp_ask_bind]
    intro execution
    have hrun : Filled path tmp data before
        (h ++ [⟨.exec session ("chmod ".toList ++ Nat.toDigits 8 (mode &&& 0o7777)
          ++ " -- ".toList ++ shellEscape tmp), execution⟩]) := {
      leaves := by
        refine hfilled.leaves.snoc ?_
        intro files files' hfiles hstep
        rw [hstep.chmod]
        apply hfiles
      steps := by
        intro e hmem
        rw [List.mem_append, List.mem_singleton] at hmem
        rcases hmem with hmem | rfl
        · apply hfilled.steps e hmem
        · left
          trivial }
    rw [Program.wp_lift]
    constructor
    · intro _ _
      apply hrun
    · intro _ _
      apply hrun

/-- What a request for the replacement leaves. -/
structure Replaced (path : Text) (data : Bytes) (before : Files) (status : Option ℕ)
    (h : RemoteHistory) : Prop where
  moved : status = some 0 → Leaves before h fun files =>
    files path = if before path = some .directory then some .directory else some (.file data)
  failed : status ≠ some 0 → Leaves before h fun files => files path = before path

theorem kept_removed {e : Program.Event RemoteCall.Answer} {answer : Except Text Unit}
    (hleaves : Leaves before (h ++ [e]) fun files => files path = before path) (ne : path ≠ tmp) :
  Kept path before (h ++ [e] ++ [⟨.file .removeFile tmp, answer⟩])
  where
  leaves := by
    refine hleaves.snoc ?_
    intro files files' hfiles hstep
    rw [hstep.elsewhere ne, hfiles]
  open_ := by
    intro h₀ e' path answer _ heq
    rw [List.append_cons h₀ e'] at heq
    have hlast := List.append_inj_right' heq rfl
    simp at hlast

theorem wp_replaceTarget (hfilled : Filled path tmp data before h) (ne : path ≠ tmp)
    (session : Text) :
  Program.wp
    (fun _ _ h' => ∃ command status messages,
      h' = h ++ [⟨.exec session command, .requested status messages⟩]
        ∧ Replaced path data before status h')
    (fun _ _ h' => Kept path before h') (replaceTarget session tmp path) s h
  := by
  unfold replaceTarget exec
  rw [Program.wp_bind, Program.wp_attempt, Program.wp_ask_bind]
  intro execution
  have hmoved : ∀ messages, execution = .requested (some 0) messages →
      Leaves before (h ++ [⟨.exec session ("mv -f -- ".toList ++ shellEscape tmp ++ " ".toList
        ++ shellEscape path), execution⟩]) fun files =>
          files path = if before path = some .directory then some .directory
            else some (.file data) := by
    intro messages hrun
    refine hfilled.leaves.snoc ?_
    rintro files files' ⟨htarget, htmp⟩ hstep
    rw [(hstep.moved htmp).1 ⟨messages, hrun⟩, htarget]
  have hfailed : (∀ messages, execution ≠ .requested (some 0) messages) →
      Leaves before (h ++ [⟨.exec session ("mv -f -- ".toList ++ shellEscape tmp ++ " ".toList
        ++ shellEscape path), execution⟩]) fun files => files path = before path := by
    intro hnot
    refine hfilled.leaves.snoc ?_
    rintro files files' ⟨htarget, htmp⟩ hstep
    rw [(hstep.moved htmp).2 hnot, htarget]
  rw [Program.wp_lift]
  cases execution with
  | requested status messages =>
    constructor
    · intro _ _
      refine ⟨_, status, messages, rfl, ?_, ?_⟩
      · rintro rfl
        apply hmoved messages rfl
      · intro hstatus
        apply hfailed
        intro messages' hrun
        cases hrun
        exact hstatus rfl
    · intro e he
      cases he
  | _ =>
    constructor
    · intro _ hout
      cases hout
    · intro e _
      rw [Program.wp_ask_bind]
      intro answer
      apply kept_removed (hfailed (by simp)) ne

section

variable {session command : Text} {status : Option ℕ} {messages : List ChannelMsg}
  {answer : Except Text (Option ℕ)}

theorem dependable_iff :
  Dependable path data before
      (h ++ [⟨.exec session command, .requested status messages⟩] ++ [⟨.metadata path, answer⟩])
    ↔ AnswersWell path data before h status answer
  := by
  rw [List.append_assoc]
  constructor
  · intro hall
    exact hall h session command status messages answer rfl
  · intro hanswer h₀ session' command' status' messages' answer' heq
    obtain ⟨rfl, hlast⟩ := List.append_inj' heq rfl
    cases hlast
    exact hanswer

theorem Filled.succeeded_iff (hfilled : Filled path tmp data before h) :
  (∀ e ∈ h, StepSucceeded e)
    ↔ ∀ session command execution, ⟨.exec session command, execution⟩ ∈ h →
        ∃ messages, execution = .requested (some 0) messages
  := by
  constructor
  · intro hall session command execution hmem
    apply hall _ hmem
  · rintro hall ⟨c, answer⟩ hmem
    rcases hfilled.steps _ hmem with hcommand | hsucceeded
    · cases c with
      | exec session command => apply hall session command answer hmem
      | _ => exact hcommand.elim
    · exact hsucceeded

theorem Replaced.told_iff (hfilled : Filled path tmp data before h)
    (hreplaced : Replaced path data before status
      (h ++ [⟨.exec session command, .requested status messages⟩]))
    (hruns : Runs HostStep before
      (h ++ [⟨.exec session command, .requested status messages⟩]) after)
    (mtime : ℤ) (told : Option ℕ) :
  Honest path data before after
      (h ++ [⟨.exec session command, .requested status messages⟩] ++ [⟨.metadata path, .ok told⟩])
      (.ok mtime)
    ↔ AnswersWell path data before h status (.ok told)
  := by
  simp only [Honest, AnswersWell, List.forall_mem_append, List.forall_mem_singleton,
    hfilled.succeeded_iff]
  constructor
  · rintro ⟨⟨⟨hsteps, _, hrun⟩, -⟩, hafter⟩
    cases hrun
    refine ⟨rfl, ?_, hsteps⟩
    intro hdirectory
    have hmoved := hreplaced.moved rfl after hruns
    rw [if_pos hdirectory, hafter] at hmoved
    cases hmoved
  · rintro ⟨rfl, hdirectory, hsteps⟩
    refine ⟨⟨⟨hsteps, _, rfl⟩, trivial⟩, ?_⟩
    have hmoved := hreplaced.moved rfl after hruns
    rw [if_neg hdirectory] at hmoved
    exact hmoved

theorem Replaced.untold_iff
    (hreplaced : Replaced path data before status
      (h ++ [⟨.exec session command, .requested status messages⟩]))
    (hruns : Runs HostStep before
      (h ++ [⟨.exec session command, .requested status messages⟩]) after)
    (e : SshError) (message : Text) :
  Honest path data before after
      (h ++ [⟨.exec session command, .requested status messages⟩]
        ++ [⟨.metadata path, .error message⟩]) (.error e)
    ↔ AnswersWell path data before h status (.error message)
  := by
  simp only [Honest, AnswersWell]
  by_cases hstatus : status = some 0
  · rw [hreplaced.moved hstatus after hruns]
    by_cases hdirectory : before path = some .directory
    · simp [hdirectory]
    · simp [hdirectory, hstatus, eq_comm]
  · simp [hreplaced.failed hstatus after hruns, hstatus]

end

/-- The result of a write is honest if and only if the answers are dependable. -/
def Ends (path : Text) (data : Bytes) (before : Files) (h : RemoteHistory)
    (result : Except SshError ℤ) : Prop :=
  Leaves before h fun after =>
    Honest path data before after h result ↔ Dependable path data before h

theorem wp_sftpWriteFileCore (session path content : Text) (baseModified : Option ℤ)
    (mode : Option ℕ) (before : Files) :
  Program.wp (fun mtime _ h => Ends path (Utf8.encode content) before h (.ok mtime))
    (fun e _ h => Ends path (Utf8.encode content) before h (.error e))
    (sftpWriteFileCore session path content baseModified mode) () []
  := by
  have hkept : ∀ e h, Kept path before h → Ends path (Utf8.encode content) before h (.error e) := by
    intro e h hkept after hruns
    apply hkept.honest_iff hruns
  have hnone : Preparing path before [] := {
    leaves := by
      intro after hruns
      rw [Runs.of_nil hruns]
    steps := by simp
    quiet := by simp }
  have haside : ∀ answer files files', HostStep files ⟨.openSftp session, answer⟩ files' →
      files' path = files path := by
    intro answer files files' hstep
    rw [hstep.session]
  unfold sftpWriteFileCore
  rw [Program.wp_ask_bind]
  intro sftp
  rw [Program.wp_bind, Program.wp_lift]
  constructor
  swap
  · rintro e rfl
    apply hkept
    apply hnone.kept_snoc id (haside _)
  rintro ⟨⟩ rfl
  have hopened := hnone.snoc (e := ⟨.openSftp session, .ok ()⟩) rfl id (haside _)
  apply Program.wp_seq
    (R := fun _ _ h => Preparing path before h)
  · apply Program.wp_mono (wp_conflicts hopened baseModified)
    · intro conflict _ h' hasked
      exact hasked
    · intro _ _ _ hfalse
      exact hfalse.elim
  intro conflict _ h hasked
  dsimp only
  rw [Program.wp_ite]
  constructor
  · intro _
    exact hkept _ h (kept_of_quiet hasked.leaves hasked.quiet)
  intro _
  apply wp_fill hasked (tmpOf_ne path)
  swap
  · exact hkept
  intro h hfilled
  apply Program.wp_seq (R := fun _ _ h => Filled path (tmpOf path) (Utf8.encode content) before h)
  · apply Program.wp_mono (wp_restoreMode hfilled session mode)
    · intro _ _ _ hrestored
      exact hrestored
    · intro _ _ _ hfalse
      exact hfalse.elim
  intro _ _ h hrestored
  apply Program.wp_seq
  · apply Program.wp_mono (wp_replaceTarget hrestored (tmpOf_ne path) session)
    · intro _ _ _ hreplaced
      exact hreplaced
    · intro e _ h' hremoved
      apply hkept e h' hremoved
  rintro _ _ _ ⟨command, status, messages, rfl, hreplaced⟩
  rw [Program.wp_ask_bind]
  intro answer
  rw [Program.wp_bind, Program.wp_lift]
  constructor
  · intro mtime hanswer
    rw [Result.mapError_ok] at hanswer
    subst hanswer
    apply Leaves.asked
    intro after hruns
    rw [dependable_iff]
    apply hreplaced.told_iff hrestored hruns
  · intro e hanswer
    cases answer with
    | ok mtime => cases hanswer
    | error message =>
      apply Leaves.asked
      intro after hruns
      rw [dependable_iff]
      apply hreplaced.untold_iff hruns

/-- For every content, target and host: a success only if every step succeeded and the target has
the new content, and an error only if the target is what it was, if and only if the host is
dependable. -/
theorem sftpWriteFileCore_honest_iff (outside : Program.Outside RemoteCall.Answer)
    (session path content : Text) (baseModified : Option ℤ) (mode : Option ℕ)
    {result : Except SshError ℤ} {h : RemoteHistory} {before after : Files}
    (hrun : (sftpWriteFileCore session path content baseModified mode).run outside () []
      = (result, (), h))
    (hruns : Runs HostStep before h after) :
  Honest path (Utf8.encode content) before after h result
    ↔ Dependable path (Utf8.encode content) before h
  := by
  have hends := Program.wp_run outside
    (wp_sftpWriteFileCore session path content baseModified mode before)
  rw [hrun] at hends
  cases result with
  | ok mtime => apply hends after hruns
  | error e => apply hends after hruns

/-! ### A write that is refused -/

def hostExiting (status : ℕ) : Program.Outside RemoteCall.Answer
  | _, .openSftp _ => .ok ()
  | _, .metadata _ => .ok (some 5)
  | _, .file _ _ => .ok ()
  | _, .exec _ _ => .requested (some status) [.exitStatus status, .eof]

/-- The calls of a write to `/a`. -/
def writeHistory (status : ℕ) : RemoteHistory :=
  [⟨.openSftp "s", .ok ()⟩, ⟨.file .openWithFlags "/a.catio.tmp", .ok ()⟩,
    ⟨.file (.writeAll [98]) "/a.catio.tmp", .ok ()⟩, ⟨.file .shutdown "/a.catio.tmp", .ok ()⟩,
    ⟨.exec "s" ("mv -f -- ".toList ++ shellEscape "/a.catio.tmp" ++ " ".toList
      ++ shellEscape "/a"), .requested (some status) [.exitStatus status, .eof]⟩,
    ⟨.metadata "/a", .ok (some 5)⟩]

theorem run_writeHistory (status : ℕ) :
  (sftpWriteFileCore "s" "/a" "b" none none).run (hostExiting status) () []
    = (.ok 5, (), writeHistory status)
  := rfl

/-- A host with the file `/a`. -/
def oneFile : Files :=
  Function.update (fun _ => none) "/a".toList (some (.file [97]))

/-- The files with the temporary file. -/
def withTmp : Files :=
  Function.update (Function.update oneFile "/a.catio.tmp".toList (some (.file [])))
    "/a.catio.tmp".toList (some (.file [98]))

theorem runs_tmp :
  Runs HostStep oneFile ((writeHistory 0).take 4) withTmp
  := by
  have hempty : HostStep oneFile (writeHistory 0)[1] _ := .opens (by decide)
  have hwrite : HostStep _ (writeHistory 0)[2] withTmp := .writes (Function.update_self _ _ _)
  exact (((Runs.start.snoc (.openSftp _ _ _)).snoc hempty).snoc hwrite).snoc (.closes _ _)

theorem runs_moved :
  Runs HostStep oneFile (writeHistory 0)
    (Function.update (Function.update withTmp "/a".toList (some (.file [98]))) "/a.catio.tmp".toList
      none)
  := by
  have hstep : CommandStep 0
      ["mv".toList, "-f".toList, "--".toList, "/a.catio.tmp".toList, "/a".toList] withTmp _ :=
    .mv (by decide) (Function.update_self _ _ _) (by decide)
  have hmove : HostStep withTmp (writeHistory 0)[4] _ := .runs (words_mv _ _) (by simp) hstep
  exact (runs_tmp.snoc hmove).snoc (.metadata _ _ _)

/-- The new content of `/a` has replaced the old one. -/
theorem sftpWriteFileCore_honest_iff_moved :
  Honest "/a".toList (Utf8.encode "b".toList) oneFile
      (Function.update (Function.update withTmp "/a".toList (some (.file [98])))
        "/a.catio.tmp".toList none) (writeHistory 0) (.ok 5)
    ↔ Dependable "/a".toList (Utf8.encode "b".toList) oneFile (writeHistory 0)
  := sftpWriteFileCore_honest_iff (hostExiting 0) "s" "/a" "b" none none (run_writeHistory 0)
    runs_moved

/-- The command that replaces `/a` exits with one: the write is a success, and `/a` has the old
content. -/
theorem refusedMove_dishonest :
  (sftpWriteFileCore "s" "/a" "b" none none).run (hostExiting 1) () [] = (.ok 5, (), writeHistory 1)
    ∧ Runs HostStep oneFile (writeHistory 1) withTmp
    ∧ ¬ Honest "/a".toList (Utf8.encode "b".toList) oneFile withTmp (writeHistory 1) (.ok 5)
  := by
  refine ⟨run_writeHistory 1, ?_, ?_⟩
  · have hfails : HostStep withTmp (writeHistory 1)[4] _ :=
      .runs (words_mv _ _) (by simp) (.mvFails _ _ (by decide))
    exact (runs_tmp.snoc hfails).snoc (.metadata _ _ _)
  · rintro ⟨-, hcontent⟩
    exact absurd hcontent (by decide)

end Ssh
