import Catio.Lib.Program
import Catio.Lib.Shell
import Catio.Ssh.Exec
import Catio.Lib.Paths

/-!
# Writing remote files

The model of the functions of `ssh/sftp.rs` that replace a remote file: the content goes into
a temporary file next to the target, over SFTP, and a command moves it over the target.
-/

namespace Ssh

open Text

/-- The operations on a remote file over SFTP. -/
inductive FileOp where
  /-- Create it, or empty it, and open it. -/
  | openWithFlags
  | writeAll (data : Bytes)
  | shutdown
  | removeFile
  deriving DecidableEq

inductive RemoteCall where
  | openSftp (session : Text)
  | metadata (path : Text)
  | file (op : FileOp) (path : Text)
  | exec (session command : Text)
  deriving DecidableEq

/-- What each call answers.  The metadata is the time of the last change, if the server tells
it. -/
@[reducible]
def RemoteCall.Answer : RemoteCall → Type
  | .openSftp _ => Except SshError Unit
  | .metadata _ => Except Text (Option ℕ)
  | .file _ _ => Except Text Unit
  | .exec _ _ => Execution

abbrev RemoteProgram :=
  Program RemoteCall RemoteCall.Answer Unit SshError

@[reducible]
def RemoteCall.ask (c : RemoteCall) : RemoteProgram c.Answer :=
  Program.ask c

/-- The calls to a remote host with their answers, in order. -/
abbrev RemoteHistory :=
  List (Program.Event RemoteCall.Answer)

def shellEscape (s : Text) : Text :=
  ['\''] ++ replaceChar '\'' "'\\''" s ++ ['\'']

def exec (session command : Text) : RemoteProgram Text := do
  let execution ← (RemoteCall.exec session command).ask
  liftM (execution.output session)

/-- An operation on a remote file, whose error is returned. -/
def fileOp (op : FileOp) (path : Text) : RemoteProgram Unit := do
  let answer ← (RemoteCall.file op path).ask
  liftM (answer.mapError SshError.sftp)

/-- The file has changed since it was read. -/
def conflicts (path : Text) : Option ℤ → RemoteProgram Bool
  | none => pure false
  | some base => do
      match ← (RemoteCall.metadata path).ask with
      | .ok (some mtime) => pure (decide ((mtime : ℤ) ≠ base))
      | _ => pure false

/-- The temporary file of an edited file. -/
def tmpOf (path : Text) : Text :=
  path ++ ".catio.tmp"

/-- Give the temporary file the mode of the target; an error is passed over. -/
def restoreMode (session tmp : Text) : Option ℕ → RemoteProgram Unit
  | none => pure ()
  | some mode => do
      let _ ← (exec session ("chmod " ++ Nat.toDigits 8 (mode &&& 0o7777) ++ " -- "
        ++ shellEscape tmp)).attempt

/-- Move the temporary file over the target; if that is an error, remove the temporary file. -/
def replaceTarget (session tmp path : Text) : RemoteProgram Unit := do
  match ← (exec session ("mv -f -- " ++ shellEscape tmp ++ " " ++ shellEscape path)).attempt with
  | .error e =>
      let _ ← (RemoteCall.file .removeFile tmp).ask
      .fail e
  | .ok _ => pure ()

/-- Write back an edited file, unless it has changed; the result is its new time of change. -/
def sftpWriteFileCore (session path content : Text) (baseModified : Option ℤ)
    (mode : Option ℕ) : RemoteProgram ℤ := do
  let sftp ← (RemoteCall.openSftp session).ask
  liftM sftp
  if ← conflicts path baseModified then
    .fail .conflict
  let tmp := tmpOf path
  fileOp .openWithFlags tmp
  fileOp (.writeAll (Utf8.encode content)) tmp
  fileOp .shutdown tmp
  restoreMode session tmp mode
  replaceTarget session tmp path
  let attrs ← (RemoteCall.metadata path).ask
  let mtime ← liftM (attrs.mapError SshError.sftp)
  return (mtime.getD 0 : ℕ)

end Ssh

/-!
## Deleting remote files

The guard of `sftp_delete_core` in `ssh/sftp.rs` against the deletion of system directories.  It
looks at the path as it is written, up to blanks around it and slashes at its end, so it refuses
the spellings of a protected directory that are its lexical normal form up to slashes at the end,
and no others (`isDangerousDeletePath_iff`).
-/

namespace Ssh

open Paths Text

/-- The paths that must not be deleted. -/
def protectedPaths : List Text :=
  ["", "/", ".", "..", "~", "~/*", "/root", "/home", "/etc", "/usr", "/var", "/bin", "/sbin",
    "/lib", "/lib64", "/boot", "/dev", "/proc", "/sys", "/opt"].map String.toList

/-- A path whose deletion is refused. -/
def isDangerousDeletePath (path : Text) : Bool :=
  let p := trimSlashes (trim path)
  p ∈ protectedPaths || p = "~" || trim path = "~/"

def sftpDeleteCore (session path : Text) : RemoteProgram Unit := do
  if isDangerousDeletePath path then
    .fail (.io ("拒绝删除危险路径: " ++ path))
  let _ ← exec session ("rm -rf -- " ++ shellEscape path)

/-! ### Spellings -/

/-- The path is written like its lexical normal form, up to slashes at the end. -/
def WrittenNormal (path : Text) : Prop :=
  trimSlashes path = trimSlashes (lexicalNormal path)

instance (path : Text) : Decidable (WrittenNormal path) :=
  inferInstanceAs (Decidable (trimSlashes path = trimSlashes (lexicalNormal path)))

theorem visible_of_protected {s : Text} (h : s ∈ protectedPaths) :
  ∀ c ∈ s, isWhitespace c = false
  := by
  have hall : (protectedPaths.all fun s => s.all fun c => !isWhitespace c) = true := by decide
  intro c hc
  have hvisible := List.all_eq_true.mp (List.all_eq_true.mp hall s h) c hc
  simpa using hvisible

theorem trimSlashes_lexicalNormal_of_protected {s : Text} (h : s ∈ protectedPaths) :
  trimSlashes (lexicalNormal s) = trimSlashes s
  := by
  have hall : (protectedPaths.all fun s =>
      trimSlashes (lexicalNormal s) = trimSlashes s) = true := by decide
  simpa using List.all_eq_true.mp hall s h

theorem trimSlashes_trimSlashes (path : Text) :
  trimSlashes (trimSlashes path) = trimSlashes path
  := by
  apply List.rdropWhile_idempotent

theorem mem_of_isDangerous {path : Text} (h : isDangerousDeletePath path) :
  trimSlashes (trim path) ∈ protectedPaths
  := by
  simp only [isDangerousDeletePath, Bool.or_eq_true, decide_eq_true_eq] at h
  rcases h with (h | h) | h
  · exact h
  · rw [h]
    decide
  · rw [h]
    decide

theorem trim_cases (path : Text) :
  trim path = path ∨ (∃ q d, isWhitespace d ∧ path = q ++ [d])
    ∨ ∃ d blanks, (∀ c ∈ d :: blanks, isWhitespace c) ∧ path = d :: blanks ++ trim path
  := by
  have hend {s : Text} (h : trimEnd s ≠ s) : ∃ q d, isWhitespace d ∧ s = q ++ [d] := by
    rcases List.eq_nil_or_concat s with rfl | ⟨q, d, rfl⟩
    · exact absurd rfl h
    · rw [List.concat_eq_append] at h ⊢
      use q, d
      refine ⟨?_, rfl⟩
      by_contra hd
      apply h
      rw [trimEnd, List.rdropWhile_concat_neg]
      simpa using hd
  have hsplit : path.takeWhile isWhitespace ++ trimStart path = path :=
    List.takeWhile_append_dropWhile
  by_cases htrim : trimEnd (trimStart path) = trimStart path
  · rw [← trim] at htrim
    rw [← htrim] at hsplit
    cases hblanks : path.takeWhile isWhitespace with
    | nil =>
      rw [hblanks, List.nil_append] at hsplit
      exact .inl hsplit
    | cons d blanks =>
      right
      right
      use d, blanks
      rw [hblanks] at hsplit
      refine ⟨?_, hsplit.symm⟩
      intro c hc
      rw [← hblanks] at hc
      exact List.mem_takeWhile_imp hc
  · right
    left
    obtain ⟨q, d, hd, hq⟩ := hend htrim
    use path.takeWhile isWhitespace ++ q, d, hd
    rw [List.append_assoc, ← hq, hsplit]

theorem ne_of_isWhitespace {d : Char} (h : isWhitespace d) :
  d ≠ '/' ∧ d ≠ '.'
  := by
  constructor
  · rintro rfl
    revert h
    decide
  · rintro rfl
    revert h
    decide

theorem not_mem_components_of_isDangerous {blanks before after path : Text}
    (h : isDangerousDeletePath path) (hblanks : ∀ c ∈ blanks, isWhitespace c)
    (hpath : path = blanks ++ trim path) (hbefore : '/' ∉ before)
    (hsplit : path = before ++ '/' :: after) :
  (".." : Text) ∉ components after
  := by
  obtain ⟨b, hb, hq⟩ : ∃ b, before = blanks ++ b ∧ trim path = b ++ '/' :: after := by
    rw [hsplit] at hpath
    rcases List.append_eq_append_iff.mp hpath with ⟨as, hblank, hrest⟩ | ⟨b, hb, hq⟩
    · cases as with
      | nil =>
        refine ⟨[], ?_, hsplit ▸ hrest.symm⟩
        rw [hblank, List.append_nil, List.append_nil]
      | cons c as =>
        obtain rfl := (List.cons.inj hrest).1
        have hslash := hblanks '/' (by rw [hblank]; simp)
        have hnot : isWhitespace '/' = false := by decide
        rw [hnot] at hslash
        cases hslash
    · exact ⟨b, hb, hsplit ▸ hq⟩
  have hb' : '/' ∉ b := by
    intro hmem
    apply hbefore
    rw [hb]
    exact List.mem_append_right blanks hmem
  have hmem := mem_of_isDangerous h
  obtain ⟨k, hk⟩ := exists_slashes (trim path)
  have hcs : components (trimSlashes (trim path)) = components b ++ components after := by
    rw [← components_append_slashes _ k, ← hk, hq, components_append_slash_cons]
  intro hup
  -- The only protected path that goes up does so with its first component.
  have hdots : trimSlashes (trim path) = ".." := by
    have hall : (protectedPaths.all fun s =>
        decide ((".." : Text) ∈ components s → s = "..")) = true := by decide
    apply of_decide_eq_true (List.all_eq_true.mp hall _ hmem)
    rw [hcs]
    exact List.mem_append_right _ hup
  rw [hdots, hq] at hk
  cases k with
  | zero =>
    have hslash : '/' ∈ (".." : Text) ++ List.replicate 0 '/' := by
      rw [← hk]
      simp
    revert hslash
    decide
  | succ k =>
    have honce := congrArg (splitOnce '/') hk
    rw [splitOnce_append hb', List.replicate_succ, splitOnce_append (by decide)] at honce
    obtain ⟨-, hafter⟩ := Prod.mk.inj (Option.some.inj honce)
    have hslashes := components_append_slashes [] k
    rw [List.nil_append, ← hafter] at hslashes
    rw [hslashes] at hup
    revert hup
    decide

theorem not_protected_of_blank {path : Text} (h : isDangerousDeletePath path)
    (hblank : trim path ≠ path) :
  lexicalNormal path ∉ protectedPaths
  := by
  intro hprotected
  have hvisible := visible_of_protected hprotected
  rcases trim_cases path with htrim | ⟨q, d, hd, rfl⟩ | ⟨d, blanks, hblanks, hpath⟩
  · exact hblank htrim
  · obtain ⟨hslash, hdot⟩ := ne_of_isWhitespace hd
    rw [hvisible d (mem_lexicalNormal_of_last q hslash hdot)] at hd
    cases hd
  · have hd := hblanks d List.mem_cons_self
    obtain ⟨hslash, hdot⟩ := ne_of_isWhitespace hd
    have hmem : d ∈ lexicalNormal path := by
      rw [hpath, List.cons_append]
      apply mem_lexicalNormal_of_first hslash hdot
      intro before after hbefore hsplit
      apply not_mem_components_of_isDangerous h hblanks hpath hbefore
      rw [hpath, ← hsplit, List.cons_append]
    rw [hvisible d hmem] at hd
    cases hd

theorem writtenNormal_of_isDangerous {path : Text} (h : isDangerousDeletePath path)
    (htrim : trim path = path) :
  WrittenNormal path
  := by
  have hmem := mem_of_isDangerous h
  rw [htrim] at hmem
  obtain ⟨k, hk⟩ := exists_slashes path
  by_cases hnil : trimSlashes path = []
  · rw [hnil, List.nil_append] at hk
    cases k with
    | zero =>
      rw [hk]
      rfl
    | succ k =>
      rw [WrittenNormal, hnil]
      rw [hk, lexicalNormal_slashes]
      rfl
  · have hnormal : lexicalNormal path = lexicalNormal (trimSlashes path) := by
      conv_lhs => rw [hk]
      apply lexicalNormal_append_slashes hnil
    rw [WrittenNormal, hnormal, trimSlashes_lexicalNormal_of_protected hmem,
      trimSlashes_trimSlashes]

theorem isDangerous_of_writtenNormal {path : Text} (h : lexicalNormal path ∈ protectedPaths)
    (hwritten : WrittenNormal path) :
  isDangerousDeletePath path
  := by
  have hmem : trimSlashes path ∈ protectedPaths := by
    have hall : (protectedPaths.all fun s => trimSlashes s ∈ protectedPaths) = true := by decide
    rw [hwritten]
    simpa using List.all_eq_true.mp hall _ h
  have hvisible : ∀ c ∈ path, isWhitespace c = false := by
    obtain ⟨k, hk⟩ := exists_slashes path
    intro c hc
    rw [hk] at hc
    rcases List.mem_append.mp hc with hc | hc
    · exact visible_of_protected hmem c hc
    · rw [List.eq_of_mem_replicate hc]
      decide
  simp only [isDangerousDeletePath, trim_of_visible hvisible, hmem, decide_true, Bool.true_or]

/-- A path with a protected normal form is refused exactly if it is written like that, up to slashes
at its end. -/
theorem isDangerousDeletePath_iff (path : Text) :
  (lexicalNormal path ∈ protectedPaths → isDangerousDeletePath path)
    ↔ (lexicalNormal path ∈ protectedPaths → WrittenNormal path)
  := by
  constructor
  · intro h hprotected
    have hdangerous := h hprotected
    apply writtenNormal_of_isDangerous hdangerous
    by_contra hblank
    exact not_protected_of_blank hdangerous hblank hprotected
  · intro h hprotected
    exact isDangerous_of_writtenNormal hprotected (h hprotected)

/-- A slash more, and the guard lets the deletion of a system directory pass. -/
theorem respelled_not_dangerous :
  lexicalNormal "//etc" ∈ protectedPaths ∧ lexicalNormal "/usr/../etc" ∈ protectedPaths
    ∧ isDangerousDeletePath "//etc" = false ∧ isDangerousDeletePath "/usr/../etc" = false
  := by decide

end Ssh
