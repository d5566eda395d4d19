import Catio.Agent.LocalFiles
import Catio.Lib.Program
import Catio.Lib.Result
import Catio.Lib.Runs
import Catio.Lib.Utf8

/-!
# Workspaces of local files

`LocalWorkspaces` and `FileSession` of `agent/local_files.rs`.  The files are the outside: what the
calls of an operation answer may depend on what other programs do in between.  Whatever they do,
each call is permitted, one that succeeds commits once, and one that fails never
(`executeOnce_guarded`).  The operations of a session, and those of a grant and its revocation,
exclude each other, so that an execution is one step of a run (`workspaces_sound`).
-/

namespace Agent

open Text Program

/-! ### Calls -/

/-- Why a call fails, as far as the source tells it apart. -/
inductive IoError where
  | alreadyExists
  | other (kind : Text)
  deriving DecidableEq

def ioError : IoError → Text
  | .alreadyExists => "fileIo: entity already exists"
  | .other kind => "fileIo: " ++ kind

structure FileMetadata where
  isFile : Bool
  isSymlink : Bool
  len : ℕ

/-- The operations in the directory of a grant; files and directories are given by the names on
their way from it. -/
inductive FileOp where
  | symlinkMetadata (path : List Text)
  | openRead (path : List Text)
  | isFile (path : List Text)
  | readToEnd (path : List Text) (limit : ℕ)
  | createDirAll (path : List Text)
  | openDir (path : List Text)
  | createNew (path : List Text)
  | writeAll (path : List Text) (bytes : Bytes)
  | syncAll (path : List Text)
  | rename (source target : List Text)
  | hardLink (source target : List Text)
  | removeFile (path : List Text)

@[reducible]
def FileOp.Result : FileOp → Type
  | .symlinkMetadata _ => FileMetadata
  | .isFile _ => Bool
  | .readToEnd _ _ => Bytes
  | _ => Unit

inductive FileCall where
  | isCancelled
  | tempName
  | op (op : FileOp)

@[reducible]
def FileCall.Answer : FileCall → Type
  | .isCancelled => Bool
  | .tempName => Text
  | .op o => Except IoError o.Result

abbrev FileHistory :=
  List (Event FileCall.Answer)

abbrev FileProgram :=
  Program FileCall FileCall.Answer Unit Text

/-- An operation with its answer. -/
def callOp (op : FileOp) : FileProgram (Except IoError op.Result) :=
  ask (FileCall.op op)

/-- An operation whose error is returned. -/
def io (op : FileOp) : FileProgram op.Result := do
  match ← callOp op with
  | .ok r => return r
  | .error e => .fail (ioError e)

/-! ### Operations -/

structure Grant where
  path : Text
  active : Bool
  deriving DecidableEq

/-- The fields of the JSON object that an operation returns; that of a read also says that the
content is not trusted. -/
inductive FileReply where
  | read (path content : Text) (bytes : ℕ) (version : Text)
  | written (path : Text) (bytes : ℕ) (version action : Text)
  deriving DecidableEq

/-- Return early with an error. -/
def failIf (c : Prop) [Decidable c] (e : Text) : FileProgram Unit :=
  if c then .fail e else pure ()

def checkCancelled : FileProgram Unit := do
  let cancelled : Bool ← ask FileCall.isCancelled
  failIf cancelled "fileOperationCancelled"

def tooLarge (limit : ℕ) : Text :=
  "fileTooLarge: maximum " ++ ofNat limit ++ " bytes"

def readBounded (path : List Text) (limit : ℕ) : FileProgram Bytes := do
  let found ← io (.symlinkMetadata path)
  failIf (¬ found.isFile ∨ found.isSymlink) "regularTextFileRequired"
  failIf (found.len > limit) (tooLarge limit)
  io (.openRead path)
  let isFile ← io (.isFile path)
  failIf (isFile = false) "regularTextFileRequired"
  let bytes ← io (.readToEnd path (limit + 1))
  failIf (bytes.length > limit) (tooLarge limit)
  return bytes

section

variable (version : Bytes → Text)

/-- The version of a file must be the expected one. -/
def checkVersion (path : List Text) (w : WriteInput) : FileProgram Unit := do
  let bytes ← readBounded path WRITE_LIMIT
  failIf (some (version bytes) ≠ w.expectedVersion) "fileVersionConflict: read the file again"

/-- Put the temporary file in the place of the target. -/
def commit (w : WriteInput) (temp target : List Text) : FileProgram Unit :=
  if w.mode = "replace" then do
    checkVersion version target w
    io (.rename temp target)
  else do
    match ← callOp (.hardLink temp target) with
    | .ok _ => return ()
    | .error .alreadyExists => .fail "fileAlreadyExists"
    | .error e => .fail (ioError e)

/-- Write the temporary file and commit it. -/
def publish (w : WriteInput) (temp target : List Text) (absolute : Text) :
    FileProgram FileReply := do
  io (.createNew temp)
  io (.writeAll temp (Utf8.encode w.content))
  io (.syncAll temp)
  checkCancelled
  commit version w temp target
  return .written absolute (utf8Len w.content) (version (Utf8.encode w.content))
    (if w.mode = "create" then "created" else "updated")

/-- A file is replaced only if its version is the expected one, and created only if it is not
there. -/
def checkTarget (w : WriteInput) (path : List Text) : FileProgram Unit :=
  if w.mode = "replace" then checkVersion version path w
  else do
    match ← callOp (.symlinkMetadata path) with
    | .ok _ => .fail "fileAlreadyExists: choose another filename or read before replacing"
    | .error _ => return ()

def createParent (w : WriteInput) (path : List Text) : FileProgram Unit :=
  if w.mode = "create" then io (.createDirAll path.dropLast) else pure ()

def writeFile (w : WriteInput) (path : List Text) (absolute : Text) : FileProgram FileReply := do
  createParent w path
  io (.openDir path.dropLast)
  checkTarget version w path
  let name : Text ← ask FileCall.tempName
  let temp := path.dropLast ++ [name]
  let outcome ← (publish version w temp path absolute).attempt
  let _ ← callOp (.removeFile temp)
  liftM outcome

def readFile (path : List Text) (absolute : Text) : FileProgram FileReply := do
  let bytes ← readBounded path READ_LIMIT
  match Utf8.strFromUtf8 bytes with
  | none => .fail "textFilesOnly"
  | some content =>
      failIf ('\x00' ∈ content) "textFilesOnly"
      return .read absolute content bytes.length (version bytes)

/-- An operation in the directory of a grant.  The token is asked again when the lock of all
operations is taken. -/
def executeOnce (grant : Grant) (name : Text) (raw : Json.Value) : FileProgram FileReply := do
  let input ← liftM (FileInput.parse name raw)
  failIf (grant.active = false) "workspaceRevoked"
  checkCancelled
  checkCancelled
  let path ← liftM (relativePath input.path)
  let absolute := grant.path ++ "/" ++ input.path
  match input with
  | .read _ => readFile version path absolute
  | .write w => writeFile version w path absolute

end

/-! ### What an operation may do -/

def FileInput.isWrite : FileInput → Bool
  | read _ => false
  | write _ => true

/-- The name of a temporary file that has been made up. -/
def IsTemp (path : List Text) (h : FileHistory) (temp : List Text) : Prop :=
  ∃ name, ⟨.tempName, name⟩ ∈ h ∧ temp = path.dropLast ++ [name]

/-- The temporary file has the content, and then the operation was not cancelled. -/
def Filled (w : WriteInput) (temp : List Text) (h : FileHistory) : Prop :=
  ([⟨.op (.createNew temp), .ok ()⟩, ⟨.op (.writeAll temp (Utf8.encode w.content)), .ok ()⟩,
    ⟨.op (.syncAll temp), .ok ()⟩, ⟨.isCancelled, false⟩] : FileHistory) <:+: h

/-- The content appears under the name of the target. -/
def commits : Event FileCall.Answer → Bool
  | ⟨.op (.rename _ _), .ok _⟩ => true
  | ⟨.op (.hardLink _ _), .ok _⟩ => true
  | _ => false

/-- An operation with its parsed input and path. -/
structure Operation where
  version : Bytes → Text
  input : FileInput
  path : List Text

namespace Operation

/-- What a call may be, after all that has happened.  A file is replaced right after it was read
with the expected version, and a file is created only if there was nothing of its name. -/
def Permitted (x : Operation) (before : FileHistory) : Event FileCall.Answer → Prop
  | ⟨.isCancelled, _⟩ => True
  | ⟨.tempName, _⟩ => ∃ w, x.input = .write w
  | ⟨.op (.symlinkMetadata p), _⟩ => p = x.path
  | ⟨.op (.openRead p), _⟩ => p = x.path
  | ⟨.op (.isFile p), _⟩ => p = x.path
  | ⟨.op (.readToEnd p _), _⟩ => p = x.path
  | ⟨.op (.createDirAll p), _⟩ =>
      p = x.path.dropLast ∧ ∃ w, x.input = .write w ∧ w.mode = "create"
  | ⟨.op (.openDir p), _⟩ => p = x.path.dropLast
  | ⟨.op (.createNew p), _⟩ => IsTemp x.path before p
  | ⟨.op (.writeAll p _), _⟩ => IsTemp x.path before p
  | ⟨.op (.syncAll p), _⟩ => IsTemp x.path before p
  | ⟨.op (.removeFile p), _⟩ => IsTemp x.path before p
  | ⟨.op (.rename source target), _⟩ =>
      target = x.path ∧ ∃ w front limit bytes, x.input = .write w ∧ w.mode = "replace"
        ∧ Filled w source front ∧ before = front ++ [⟨.op (.readToEnd x.path limit), .ok bytes⟩]
        ∧ some (x.version bytes) = w.expectedVersion
  | ⟨.op (.hardLink source target), _⟩ =>
      target = x.path ∧ ∃ w e, x.input = .write w ∧ w.mode ≠ "replace" ∧ Filled w source before
        ∧ ⟨.op (.symlinkMetadata x.path), .error e⟩ ∈ before

/-- How an operation ends: each call was permitted, a write that succeeds has committed once and
nothing else has, and no temporary file is left behind. -/
structure Ended (x : Operation) (result : Except Text FileReply) (h : FileHistory) : Prop where
  permitted : Always x.Permitted h
  committed : h.countP commits = if x.input.isWrite ∧ result.isOk then 1 else 0
  cleaned : ∀ name, ⟨.tempName, name⟩ ∈ h →
    ∃ answer, h.getLast? = some ⟨.op (.removeFile (x.path.dropLast ++ [name])), answer⟩

/-- Within an operation, with the temporary names made up so far and the number of commits. -/
structure Working (x : Operation) (temps : List Text) (n : ℕ) (h : FileHistory) : Prop where
  permitted : Always x.Permitted h
  committed : h.countP commits = n
  temps : ∀ name, ⟨.tempName, name⟩ ∈ h ↔ name ∈ temps

/-- A part of an operation goes on with what it has, or fails with it. -/
abbrev Works {α : Type} (x : Operation) (temps : List Text) (n : ℕ) (Q : α → FileHistory → Prop)
    (p : FileProgram α) (h : FileHistory) : Prop :=
  wp (fun a _ h' => Q a h' ∧ x.Working temps n h') (fun _ _ h' => x.Working temps n h') p () h

variable {x : Operation} {temps : List Text} {n : ℕ} {h : FileHistory} {w : WriteInput}

theorem Working.snoc {e : Event FileCall.Answer} (hw : x.Working temps n h)
    (permitted : x.Permitted h e) (notTemp : e.1 ≠ .tempName) :
  x.Working temps (n + if commits e then 1 else 0) (h ++ [e])
  where
  permitted := always_snoc.mpr ⟨hw.permitted, permitted⟩
  committed := by rw [List.countP_append, List.countP_singleton, hw.committed]
  temps := by
    intro name
    rw [List.mem_append, List.mem_singleton, ← hw.temps name, or_iff_left_iff_imp]
    rintro rfl
    exact absurd rfl notTemp

theorem wp_io {op : FileOp} {Q : op.Result → Unit → FileHistory → Prop}
    {E : Text → Unit → FileHistory → Prop} (hok : ∀ r, Q r () (h ++ [⟨.op op, .ok r⟩]))
    (herror : ∀ e, E (ioError e) () (h ++ [⟨.op op, .error e⟩])) :
  wp Q E (io op) () h
  := by
  unfold io callOp
  rw [wp_ask_bind]
  rintro (e | r)
  · exact herror e
  · exact hok r

/-- An operation that commits nothing. -/
theorem Working.io (hw : x.Working temps n h) (op : FileOp)
    (permitted : ∀ answer, x.Permitted h ⟨.op op, answer⟩)
    (quiet : ∀ answer, commits ⟨.op op, answer⟩ = false) :
  x.Works temps n (fun r h' => h' = h ++ [⟨.op op, .ok r⟩]) (io op) h
  := by
  have next : ∀ answer, x.Working temps n (h ++ [⟨.op op, answer⟩]) := by
    intro answer
    have hw' := hw.snoc (permitted answer) (by simp)
    rwa [quiet] at hw'
  apply wp_io
  · intro r
    exact ⟨rfl, next (.ok r)⟩
  · intro e
    exact next (.error e)

theorem wp_failIf {c : Prop} [Decidable c] {e : Text} {Q : Unit → Unit → FileHistory → Prop}
    {E : Text → Unit → FileHistory → Prop} :
  wp Q E (failIf c e) () h ↔ (c → E e () h) ∧ (¬ c → Q () () h)
  := by
  rw [failIf, wp_ite]
  rfl

theorem Working.checkCancelled (hw : x.Working temps n h) :
  x.Works temps n (fun _ h' => h' = h ++ [⟨.isCancelled, false⟩]) checkCancelled h
  := by
  unfold Works Agent.checkCancelled
  rw [wp_ask_bind]
  rintro (_ | _)
  · exact ⟨rfl, hw.snoc (e := ⟨.isCancelled, false⟩) trivial (by simp)⟩
  · exact hw.snoc (e := ⟨.isCancelled, true⟩) trivial (by simp)

/-- The content that is read is the last answer. -/
theorem Working.readBounded (hw : x.Working temps n h) (limit : ℕ) :
  x.Works temps n (fun bytes h' => ∃ front, h <+: front
      ∧ h' = front ++ [⟨.op (.readToEnd x.path (limit + 1)), .ok bytes⟩])
    (readBounded x.path limit) h
  := by
  unfold Agent.readBounded
  apply wp_seq (hw.io (.symlinkMetadata x.path) (fun _ => rfl) fun _ => rfl)
  rintro found _ _ ⟨rfl, hw₁⟩
  rw [wp_bind, wp_failIf]
  refine ⟨fun _ => hw₁, fun _ => ?_⟩
  rw [wp_bind, wp_failIf]
  refine ⟨fun _ => hw₁, fun _ => ?_⟩
  apply wp_seq (hw₁.io (.openRead x.path) (fun _ => rfl) fun _ => rfl)
  rintro _ _ _ ⟨rfl, hw₂⟩
  apply wp_seq (hw₂.io (.isFile x.path) (fun _ => rfl) fun _ => rfl)
  rintro isFile _ _ ⟨rfl, hw₃⟩
  rw [wp_bind, wp_failIf]
  refine ⟨fun _ => hw₃, fun _ => ?_⟩
  apply wp_seq (hw₃.io (.readToEnd x.path (limit + 1)) (fun _ => rfl) fun _ => rfl)
  rintro bytes _ _ ⟨rfl, hw₄⟩
  rw [wp_bind, wp_failIf]
  refine ⟨fun _ => hw₄, fun _ => ⟨⟨_, ?_, rfl⟩, hw₄⟩⟩
  simp only [List.append_assoc, List.prefix_append]

theorem Working.checkVersion (hw : x.Working temps n h) (w : WriteInput) :
  x.Works temps n (fun _ h' => ∃ front limit bytes, h <+: front
      ∧ h' = front ++ [⟨.op (.readToEnd x.path limit), .ok bytes⟩]
      ∧ some (x.version bytes) = w.expectedVersion)
    (checkVersion x.version x.path w) h
  := by
  unfold Agent.checkVersion
  apply wp_seq (hw.readBounded WRITE_LIMIT)
  rintro bytes _ h' ⟨⟨front, hle, rfl⟩, hw'⟩
  rw [wp_failIf]
  refine ⟨fun _ => hw', fun hv => ⟨⟨front, _, bytes, hle, rfl, ?_⟩, hw'⟩⟩
  exact not_not.mp hv

/-- A file that is not replaced was not there. -/
def Targeted (x : Operation) (w : WriteInput) (h : FileHistory) : Prop :=
  w.mode ≠ "replace" → ∃ e, ⟨.op (.symlinkMetadata x.path), .error e⟩ ∈ h

theorem Targeted.append (ht : x.Targeted w h) (es : FileHistory) :
  x.Targeted w (h ++ es)
  := fun hmode => (ht hmode).imp fun _ he => List.mem_append_left es he

theorem Working.commit {temp : List Text} (hx : x.input = .write w) (hw : x.Working temps 0 h)
    (ht : x.Targeted w h) (hfilled : Filled w temp h) :
  wp (fun _ _ h' => x.Working temps 1 h') (fun _ _ h' => x.Working temps 0 h')
    (commit x.version w temp x.path) () h
  := by
  unfold Agent.commit
  rw [wp_ite]
  constructor
  · intro hmode
    apply wp_seq (hw.checkVersion w)
    rintro _ _ _ ⟨⟨front, limit, bytes, hle, rfl, hv⟩, hw'⟩
    have permitted : ∀ answer, x.Permitted _ ⟨.op (.rename temp x.path), answer⟩ := fun _ =>
      ⟨rfl, w, front, limit, bytes, hx, hmode, hfilled.trans hle.isInfix, rfl, hv⟩
    apply wp_io
    · intro r
      exact hw'.snoc (permitted (.ok r)) (by simp)
    · intro e
      exact hw'.snoc (permitted (.error e)) (by simp)
  · intro hmode
    obtain ⟨e₀, he₀⟩ := ht hmode
    have permitted : ∀ answer, x.Permitted h ⟨.op (.hardLink temp x.path), answer⟩ := fun _ =>
      ⟨rfl, w, e₀, hx, hmode, hfilled, he₀⟩
    rw [callOp, wp_ask_bind]
    rintro (e | r)
    · have hw' := hw.snoc (permitted (.error e)) (by simp)
      cases e with
      | alreadyExists => exact hw'
      | other kind => exact hw'
    · exact hw.snoc (permitted (.ok r)) (by simp)

theorem Working.publish {temp : List Text} {absolute : Text} (hx : x.input = .write w)
    (hw : x.Working temps 0 h) (ht : x.Targeted w h) (htemp : IsTemp x.path h temp) :
  wp (fun _ _ h' => x.Working temps 1 h') (fun _ _ h' => x.Working temps 0 h')
    (publish x.version w temp x.path absolute) () h
  := by
  have later : ∀ es, IsTemp x.path (h ++ es) temp := by
    intro es
    obtain ⟨name, hname, rfl⟩ := htemp
    exact ⟨name, List.mem_append_left es hname, rfl⟩
  unfold Agent.publish
  apply wp_seq (hw.io (.createNew temp) (fun _ => htemp) fun _ => rfl)
  rintro ⟨⟩ _ _ ⟨rfl, hw₁⟩
  apply wp_seq (hw₁.io (.writeAll temp (Utf8.encode w.content)) (fun _ => later _) fun _ => rfl)
  rintro ⟨⟩ _ _ ⟨rfl, hw₂⟩
  rw [List.append_assoc] at hw₂ ⊢
  apply wp_seq (hw₂.io (.syncAll temp) (fun _ => later _) fun _ => rfl)
  rintro ⟨⟩ _ _ ⟨rfl, hw₃⟩
  apply wp_seq hw₃.checkCancelled
  rintro _ _ _ ⟨rfl, hw₄⟩
  simp only [List.append_assoc, List.cons_append, List.nil_append] at hw₄ ⊢
  apply wp_seq (hw₄.commit hx (ht.append _) (List.suffix_append _ _).isInfix)
  intro _ _ _ hw'
  exact hw'

theorem Working.checkTarget (hw : x.Working temps 0 h) (w : WriteInput) :
  x.Works temps 0 (fun _ h' => x.Targeted w h') (checkTarget x.version w x.path) h
  := by
  unfold Works Agent.checkTarget
  rw [wp_ite]
  constructor
  · intro hmode
    apply wp_mono (hw.checkVersion w)
    · rintro _ _ h' ⟨-, hw'⟩
      exact ⟨fun hne => absurd hmode hne, hw'⟩
    · intro _ _ _ hw'
      exact hw'
  · intro _
    rw [callOp, wp_ask_bind]
    intro answer
    have hw' := hw.snoc (e := ⟨.op (.symlinkMetadata x.path), answer⟩) rfl (by simp)
    cases answer with
    | ok found => exact hw'
    | error e => exact ⟨fun _ => ⟨e, List.mem_append_right _ List.mem_cons_self⟩, hw'⟩

theorem Working.createParent (hx : x.input = .write w) (hw : x.Working temps n h) :
  x.Works temps n (fun _ _ => True) (createParent w x.path) h
  := by
  unfold Works Agent.createParent
  rw [wp_ite]
  constructor
  · intro hmode
    apply wp_mono
      (hw.io (.createDirAll x.path.dropLast) (fun _ => ⟨rfl, w, hx, hmode⟩) fun _ => rfl)
    · rintro _ _ _ ⟨-, hw'⟩
      exact ⟨trivial, hw'⟩
    · intro _ _ _ hw'
      exact hw'
  · intro _
    exact ⟨trivial, hw⟩

/-! ### Operations end well -/

theorem Working.ended {result : Except Text FileReply} (hw : x.Working [] 0 h)
    (hresult : ¬ (x.input.isWrite ∧ result.isOk)) :
  x.Ended result h
  where
  permitted := hw.permitted
  committed := by rw [hw.committed, if_neg hresult]
  cleaned := by
    intro name hname
    rw [hw.temps] at hname
    exact absurd hname List.not_mem_nil

theorem Working.failed (e : Text) (_ : Unit) (h : FileHistory) (hw : x.Working [] 0 h) :
  x.Ended (.error e) h
  := hw.ended fun hboth => Bool.false_ne_true hboth.2

theorem Working.removed {name : Text} {result : Except Text FileReply}
    {answer : Except IoError Unit}
    (hw : x.Working [name] (if x.input.isWrite ∧ result.isOk then 1 else 0) h) :
  x.Ended result (h ++ [⟨.op (.removeFile (x.path.dropLast ++ [name])), answer⟩])
  := by
  have htemp : IsTemp x.path h (x.path.dropLast ++ [name]) :=
    ⟨name, (hw.temps name).mpr List.mem_cons_self, rfl⟩
  have hw' := hw.snoc (e := ⟨.op (.removeFile (x.path.dropLast ++ [name])), answer⟩) htemp (by simp)
  refine ⟨hw'.permitted, hw'.committed, ?_⟩
  intro name' hname
  rw [hw'.temps, List.mem_singleton] at hname
  subst hname
  exact ⟨answer, List.getLast?_concat⟩

theorem Working.writeFile {absolute : Text} (hx : x.input = .write w) (hw : x.Working [] 0 h) :
  wp (fun reply _ h' => x.Ended (.ok reply) h') (fun e _ h' => x.Ended (.error e) h')
    (writeFile x.version w x.path absolute) () h
  := by
  unfold Agent.writeFile
  apply wp_seq (wp_mono (hw.createParent hx) (fun _ _ _ hw' => hw'.2) Working.failed)
  intro _ _ h₁ hw₁
  apply wp_seq (wp_mono (hw₁.io (.openDir x.path.dropLast) (fun _ => rfl) fun _ => rfl)
    (fun _ _ _ hw' => hw'.2) Working.failed)
  intro _ _ h₂ hw₂
  apply wp_seq (wp_mono (hw₂.checkTarget w) (fun _ _ _ hw' => hw') Working.failed)
  rintro _ _ h₃ ⟨ht, hw₃⟩
  rw [wp_ask_bind]
  intro name
  have hw₄ : x.Working [name] 0 (h₃ ++ [⟨.tempName, name⟩]) := by
    refine ⟨always_snoc.mpr ⟨hw₃.permitted, w, hx⟩, ?_, ?_⟩
    · rw [List.countP_append, hw₃.committed]
      rfl
    · intro name'
      simp [hw₃.temps]
  have htemp : IsTemp x.path (h₃ ++ [⟨.tempName, name⟩]) (x.path.dropLast ++ [name]) :=
    ⟨name, List.mem_append_right _ List.mem_cons_self, rfl⟩
  apply wp_attempt_seq (hw₄.publish hx (ht.append _) htemp)
  · intro reply _ h₅ hw₅
    rw [callOp, wp_ask_bind]
    intro answer
    apply Working.removed
    rw [hx]
    exact hw₅
  · intro e _ h₅ hw₅
    rw [callOp, wp_ask_bind]
    intro answer
    apply Working.removed
    rw [hx]
    exact hw₅

theorem Working.readFile {absolute : Text} (hx : x.input.isWrite = false)
    (hw : x.Working [] 0 h) :
  wp (fun reply _ h' => x.Ended (.ok reply) h') (fun e _ h' => x.Ended (.error e) h')
    (readFile x.version x.path absolute) () h
  := by
  have ended : ∀ (result : Except Text FileReply) h', x.Working [] 0 h' → x.Ended result h' := by
    intro result h' hw'
    apply hw'.ended
    rintro ⟨hwrite, -⟩
    rw [hx] at hwrite
    cases hwrite
  unfold Agent.readFile
  apply wp_seq (wp_mono (hw.readBounded READ_LIMIT) (fun _ _ _ hw' => hw'.2) Working.failed)
  intro bytes _ h' hw'
  cases Utf8.strFromUtf8 bytes with
  | none => exact ended _ _ hw'
  | some content =>
    rw [wp_bind, wp_failIf]
    exact ⟨fun _ => ended _ _ hw', fun _ => ended _ _ hw'⟩

end Operation

/-- An operation whose input is wrong or whose grant is revoked calls nothing; all others stay below
the directory, by names that are accepted, and end as `Ended` says. -/
def Guarded (version : Bytes → Text) (grant : Grant) (name : Text) (raw : Json.Value)
    (result : Except Text FileReply) (h : FileHistory) : Prop :=
  (h = [] ∧ result.isOk = false) ∨
    ∃ input path, FileInput.parse name raw = .ok input ∧ grant.active = true
      ∧ relativePath input.path = .ok path ∧ (∀ part ∈ path, badPart part = false)
      ∧ Operation.Ended ⟨version, input, path⟩ result h

theorem relativePath_good {value : Text} {path : List Text} (h : relativePath value = .ok path) :
  ∀ part ∈ path, badPart part = false
  := by
  unfold relativePath at h
  split_ifs at h with hbad
  cases h
  intro part hpart
  rw [← Bool.not_eq_true]
  intro hb
  simp only [not_or] at hbad
  exact hbad.2.2.2.2.2.2 (List.any_eq_true.mpr ⟨part, hpart, hb⟩)

theorem parse_relativePath {name : Text} {raw : Json.Value} {input : FileInput}
    (h : FileInput.parse name raw = .ok input) :
  ∃ path, relativePath input.path = .ok path
  := by
  unfold FileInput.parse at h
  split_ifs at h
  all_goals
    obtain ⟨found, -, h⟩ := Result.bind_ok.mp h
    obtain ⟨path, hpath, h⟩ := Result.bind_ok.mp h
    cases found with
    | read input =>
      cases h
      exact ⟨path, hpath⟩
    | write w =>
      obtain ⟨_, -, h⟩ := Result.bind_ok.mp h
      cases h
      exact ⟨path, hpath⟩

theorem wp_executeOnce (version : Bytes → Text) (grant : Grant) (name : Text) (raw : Json.Value) :
  wp (fun reply _ h => Guarded version grant name raw (.ok reply) h)
    (fun e _ h => Guarded version grant name raw (.error e) h)
    (executeOnce version grant name raw) () []
  := by
  unfold executeOnce
  rw [wp_bind, wp_lift]
  refine ⟨fun input hinput => ?_, fun _ _ => .inl ⟨rfl, rfl⟩⟩
  rw [wp_bind, Operation.wp_failIf]
  refine ⟨fun _ => .inl ⟨rfl, rfl⟩, fun hactive => ?_⟩
  rw [Bool.not_eq_false] at hactive
  obtain ⟨path, hpath⟩ := parse_relativePath hinput
  have guarded : ∀ result h, Operation.Ended ⟨version, input, path⟩ result h →
      Guarded version grant name raw result h := by
    intro result h hended
    exact .inr ⟨input, path, hinput, hactive, hpath, relativePath_good hpath, hended⟩
  have cancelled : ∀ (e : Text) (_ : Unit) h, Operation.Working ⟨version, input, path⟩ [] 0 h →
      Guarded version grant name raw (.error e) h := by
    intro e s h hw
    exact guarded _ _ (hw.failed e s)
  have hw₀ : Operation.Working ⟨version, input, path⟩ [] 0 [] := ⟨always_nil, rfl, by simp⟩
  apply wp_seq (wp_mono hw₀.checkCancelled (fun _ _ _ hw => hw.2) cancelled)
  intro _ _ h₁ hw₁
  apply wp_seq (wp_mono hw₁.checkCancelled (fun _ _ _ hw => hw.2) cancelled)
  intro _ _ h₂ hw₂
  rw [hpath]
  cases input with
  | read input => exact wp_mono (hw₂.readFile rfl) (fun _ _ => guarded _) fun _ _ => guarded _
  | write w => exact wp_mono (hw₂.writeFile rfl) (fun _ _ => guarded _) fun _ _ => guarded _

/-- Whatever the file system and other programs do, each operation is guarded. -/
theorem executeOnce_guarded (version : Bytes → Text) (grant : Grant) (name : Text)
    (raw : Json.Value) (o : Outside FileCall.Answer) :
  Guarded version grant name raw (run o (executeOnce version grant name raw) () []).1
    (run o (executeOnce version grant name raw) () []).2.2
  := by
  have hrun := wp_run o (wp_executeOnce version grant name raw)
  generalize run o (executeOnce version grant name raw) () [] = ended at hrun ⊢
  obtain ⟨result | reply, _, h⟩ := ended
  · exact hrun
  · exact hrun

/-! ### Workspaces and sessions -/

def fingerprint (name : Text) (raw : Json.Value) : Text :=
  name ++ ":" ++ raw.toText

/-- A session has the number of its grant, and by the ids of the tool uses the fingerprints and
the results. -/
structure FileSession where
  grant : ℕ
  results : List (Text × Text × Except Text FileReply)

section

variable (version : Bytes → Text)

/-- A tool use that was executed is answered again. -/
def FileSession.execute (o : Outside FileCall.Answer) (f : FileSession) (grant : Grant)
    (id name : Text) (raw : Json.Value) : Except Text FileReply × FileHistory × FileSession :=
  match f.results.lookup id with
  | some found =>
      (if found.1 = fingerprint name raw then found.2 else .error "conflictingToolUseId", [], f)
  | none =>
      let ended := run o (executeOnce version grant name raw) () []
      (ended.1, ended.2.2,
        { f with results := (id, fingerprint name raw, ended.1) :: f.results })

/-- All grants and all sessions, in the order of their numbers; a clear, which holds the lock of the
state, with the grants that it has not yet revoked. -/
structure LocalWorkspaces where
  all : List Grant
  grants : List ℕ
  current : Option ℕ
  sessions : List FileSession
  clearing : Option (List ℕ)

def LocalWorkspaces.initial : LocalWorkspaces :=
  ⟨[], [], none, [], none⟩

inductive WorkspaceEvent where
  | configure (path : Text)
  | clear
  | revoke
  | cleared
  | snapshot
  | execute (session : ℕ) (id name : Text) (raw : Json.Value) (result : Except Text FileReply)
      (calls : FileHistory)

def WorkspaceEvent.isSnapshot : WorkspaceEvent → Bool
  | snapshot => true
  | _ => false

/-- A clear revokes one grant after the other; between, sessions go on. -/
inductive LocalWorkspaces.Step : LocalWorkspaces → WorkspaceEvent → LocalWorkspaces → Prop where
  | configure {m : LocalWorkspaces} (path : Text) (free : m.clearing = none) :
      Step m (.configure path) { m with
        all := m.all ++ [⟨path, true⟩]
        grants := m.grants ++ [m.all.length]
        current := some m.all.length }
  | clear {m : LocalWorkspaces} (free : m.clearing = none) :
      Step m .clear { m with grants := [], clearing := some m.grants }
  | revoke {m : LocalWorkspaces} {g : ℕ} {left : List ℕ} (next : m.clearing = some (g :: left)) :
      Step m .revoke { m with
        all := m.all.modify g fun grant => { grant with active := false }
        clearing := some left }
  | cleared {m : LocalWorkspaces} (last : m.clearing = some []) :
      Step m .cleared { m with current := none, clearing := none }
  | snapshot {m : LocalWorkspaces} {g : ℕ} (free : m.clearing = none) (found : m.current = some g) :
      Step m .snapshot { m with sessions := m.sessions ++ [⟨g, []⟩] }
  | execute {m : LocalWorkspaces} {i : ℕ} {f : FileSession} {grant : Grant}
      (o : Outside FileCall.Answer) (id name : Text) (raw : Json.Value)
      (session : m.sessions[i]? = some f) (granted : m.all[f.grant]? = some grant) :
      Step m
        (.execute i id name raw (f.execute version o grant id name raw).1
          (f.execute version o grant id name raw).2.1)
        { m with sessions := m.sessions.set i (f.execute version o grant id name raw).2.2 }

end

namespace LocalWorkspaces

variable {version : Bytes → Text} {m m' : LocalWorkspaces} {e : WorkspaceEvent}
  {es : List WorkspaceEvent} {i : ℕ} {id : Text}

/-- The state after any run: whatever is active will be revoked by the next clear, or is to be
revoked by the present one; each session has a grant. -/
structure Inv (m : LocalWorkspaces) : Prop where
  known : ∀ g grant, m.all[g]? = some grant → grant.active = true →
    g ∈ m.grants ∨ ∃ left, m.clearing = some left ∧ g ∈ left
  drained : ∀ left, m.clearing = some left → m.grants = []
  current : ∀ g, m.current = some g → g < m.all.length
  granted : ∀ f ∈ m.sessions, f.grant < m.all.length

theorem execute_grant (o : Outside FileCall.Answer) (f : FileSession) (grant : Grant)
    (id name : Text) (raw : Json.Value) :
  (f.execute version o grant id name raw).2.2.grant = f.grant
  := by
  unfold FileSession.execute
  split
  · rfl
  · rfl

theorem Step.keeps_inv (hinv : Inv m) (step : Step version m e m') :
  Inv m'
  := by
  cases step with
  | configure path free =>
    refine ⟨?_, ?_, ?_, ?_⟩
    · intro g grant hg hactive
      rcases Nat.lt_or_ge g m.all.length with hlt | hge
      · rw [List.getElem?_append_left hlt] at hg
        rcases hinv.known g grant hg hactive with hmem | hleft
        · exact .inl (List.mem_append_left _ hmem)
        · exact .inr hleft
      · obtain ⟨hlt, -⟩ := List.getElem?_eq_some_iff.mp hg
        have heq : g = m.all.length := by
          rw [List.length_append, List.length_singleton] at hlt
          omega
        exact .inl (heq ▸ List.mem_append_right _ List.mem_cons_self)
    · intro left hleft
      rw [free] at hleft
      cases hleft
    · intro g hg
      cases hg
      simp
    · intro f hf
      have hlt := hinv.granted f hf
      rw [List.length_append]
      omega
  | clear free =>
    refine ⟨?_, fun _ _ => rfl, hinv.current, hinv.granted⟩
    intro g grant hg hactive
    rcases hinv.known g grant hg hactive with hmem | ⟨left, hleft, -⟩
    · exact .inr ⟨m.grants, rfl, hmem⟩
    · rw [free] at hleft
      cases hleft
  | @revoke g left next =>
    refine ⟨?_, fun _ _ => hinv.drained _ next, ?_, ?_⟩
    · intro g' grant hg hactive
      rw [List.getElem?_modify, Option.map_eq_map, Option.map_eq_some_iff] at hg
      obtain ⟨before, hbefore, rfl⟩ := hg
      by_cases heq : g = g'
      · rw [if_pos heq] at hactive
        cases hactive
      · rw [if_neg heq] at hactive
        rcases hinv.known g' before hbefore hactive with hmem | ⟨left', hleft', hmem⟩
        · exact .inl hmem
        · rw [next] at hleft'
          cases hleft'
          exact .inr ⟨left, rfl, (List.mem_cons.mp hmem).resolve_left (Ne.symm heq)⟩
    · intro g' hg'
      rw [List.length_modify]
      exact hinv.current g' hg'
    · intro f hf
      rw [List.length_modify]
      exact hinv.granted f hf
  | cleared last =>
    refine ⟨?_, fun _ h => ?_, fun _ h => ?_, hinv.granted⟩
    · intro g grant hg hactive
      rcases hinv.known g grant hg hactive with hmem | ⟨left, hleft, hmem⟩
      · exact .inl hmem
      · rw [last] at hleft
        cases hleft
        cases hmem
    · cases h
    · cases h
  | @snapshot g free found =>
    refine ⟨hinv.known, hinv.drained, hinv.current, ?_⟩
    intro f hf
    rcases List.mem_append.mp hf with hf | hf
    · exact hinv.granted f hf
    · rw [List.mem_singleton.mp hf]
      exact hinv.current g found
  | @execute i f grant o id name raw session granted =>
    refine ⟨hinv.known, hinv.drained, hinv.current, ?_⟩
    intro f' hf'
    rcases List.mem_or_eq_of_mem_set hf' with hmem | rfl
    · exact hinv.granted f' hmem
    · rw [execute_grant]
      exact hinv.granted f (List.mem_of_getElem? session)

/-- The grant of a session is revoked. -/
def Revoked (m : LocalWorkspaces) (i : ℕ) : Prop :=
  ∃ f grant, m.sessions[i]? = some f ∧ m.all[f.grant]? = some grant ∧ grant.active = false

/-- A session has answered a tool use. -/
def Answered (id : Text) (found : Text × Except Text FileReply) (m : LocalWorkspaces) (i : ℕ) :
    Prop :=
  ∃ f, m.sessions[i]? = some f ∧ f.results.lookup id = some found

theorem execute_answered (o : Outside FileCall.Answer) {f : FileSession} (grant : Grant)
    (id' name : Text) (raw : Json.Value) {found : Text × Except Text FileReply}
    (h : f.results.lookup id = some found) :
  (f.execute version o grant id' name raw).2.2.results.lookup id = some found
  := by
  unfold FileSession.execute
  split
  · exact h
  · rename_i hnone
    rw [List.lookup_cons]
    have hne : id ≠ id' := by
      rintro rfl
      rw [h] at hnone
      cases hnone
    rw [beq_false_of_ne hne]
    exact h

theorem Step.keeps_session {f : FileSession} (hf : m.sessions[i]? = some f)
    (step : Step version m e m') :
  ∃ f', m'.sessions[i]? = some f' ∧ f'.grant = f.grant
    ∧ ∀ id found, f.results.lookup id = some found → f'.results.lookup id = some found
  := by
  cases step with
  | configure path free => exact ⟨f, hf, rfl, fun _ _ h => h⟩
  | clear free => exact ⟨f, hf, rfl, fun _ _ h => h⟩
  | revoke next => exact ⟨f, hf, rfl, fun _ _ h => h⟩
  | cleared last => exact ⟨f, hf, rfl, fun _ _ h => h⟩
  | snapshot free found =>
    obtain ⟨hlt, -⟩ := List.getElem?_eq_some_iff.mp hf
    exact ⟨f, by rw [List.getElem?_append_left hlt, hf], rfl, fun _ _ h => h⟩
  | @execute j f' grant o id name raw session granted =>
    by_cases hij : j = i
    · subst hij
      rw [hf] at session
      cases session
      obtain ⟨hlt, -⟩ := List.getElem?_eq_some_iff.mp hf
      refine ⟨_, List.getElem?_set_self hlt, execute_grant .., fun _ _ h => ?_⟩
      exact execute_answered _ _ _ _ _ h
    · exact ⟨f, by rw [List.getElem?_set_ne hij, hf], rfl, fun _ _ h => h⟩

theorem Step.keeps_inactive {g : ℕ} (step : Step version m e m')
    (hg : ∃ grant, m.all[g]? = some grant ∧ grant.active = false) :
  ∃ grant, m'.all[g]? = some grant ∧ grant.active = false
  := by
  obtain ⟨grant, hgrant, hactive⟩ := hg
  cases step with
  | configure path free =>
    obtain ⟨hlt, -⟩ := List.getElem?_eq_some_iff.mp hgrant
    exact ⟨grant, by rw [List.getElem?_append_left hlt, hgrant], hactive⟩
  | clear free => exact ⟨grant, hgrant, hactive⟩
  | revoke next =>
    refine ⟨_, by rw [List.getElem?_modify, hgrant]; rfl, ?_⟩
    split_ifs
    · rfl
    · exact hactive
  | cleared last => exact ⟨grant, hgrant, hactive⟩
  | snapshot free found => exact ⟨grant, hgrant, hactive⟩
  | execute o id name raw session granted => exact ⟨grant, hgrant, hactive⟩

theorem Step.keeps_revoked (step : Step version m e m') (h : Revoked m i) :
  Revoked m' i
  := by
  obtain ⟨f, grant, hf, hgrant, hactive⟩ := h
  obtain ⟨f', hf', heq, -⟩ := step.keeps_session hf
  obtain ⟨grant', hgrant', hactive'⟩ := step.keeps_inactive ⟨grant, hgrant, hactive⟩
  exact ⟨f', grant', hf', heq ▸ hgrant', hactive'⟩

theorem Step.keeps_answered {found : Text × Except Text FileReply}
    (step : Step version m e m') (h : Answered id found m i) :
  Answered id found m' i
  := by
  obtain ⟨f, hf, hfound⟩ := h
  obtain ⟨f', hf', -, hall⟩ := step.keeps_session hf
  exact ⟨f', hf', hall id _ hfound⟩

/-! ### Runs -/

theorem calls_of_inactive {o : Outside FileCall.Answer} {grant : Grant}
    (hactive : grant.active = false) (f : FileSession) (id name : Text) (raw : Json.Value) :
  (f.execute version o grant id name raw).2.1 = []
  := by
  unfold FileSession.execute
  split
  · rfl
  · rcases executeOnce_guarded version grant name raw o with ⟨hnil, -⟩ | ⟨_, _, _, htrue, -⟩
    · exact hnil
    · rw [hactive] at htrue
      cases htrue

theorem sessions_count (run : Runs (Step version) initial es m) :
  m.sessions.length = es.countP WorkspaceEvent.isSnapshot
  := by
  induction run with
  | start => rfl
  | snoc before last ih =>
    rw [List.countP_append, ← ih]
    cases last with
    | snapshot free found => rw [List.length_append]; rfl
    | execute o id name raw session granted => exact List.length_set
    | _ => rfl

/-- The end of a clear has revoked all sessions. -/
theorem Step.cleared_revokes (hinv : Inv m) (step : Step version m .cleared m')
    (hi : i < m.sessions.length) :
  Revoked m' i
  := by
  cases step with
  | cleared last =>
    have hgrant := hinv.granted _ (List.getElem_mem hi)
    refine ⟨m.sessions[i], m.all[m.sessions[i].grant], List.getElem?_eq_getElem hi,
      List.getElem?_eq_getElem hgrant, ?_⟩
    rw [← Bool.not_eq_true]
    intro hactive
    rcases hinv.known _ _ (List.getElem?_eq_getElem hgrant) hactive with hmem | ⟨left, hleft, hmem⟩
    · rw [hinv.drained _ last] at hmem
      cases hmem
    · rw [last] at hleft
      cases hleft
      cases hmem

/-- The answer of a session that has answered a tool use. -/
def again (found : Text × Except Text FileReply) (print : Text) : Except Text FileReply :=
  if found.1 = print then found.2 else .error "conflictingToolUseId"

theorem Step.answers {name : Text} {raw : Json.Value} {result : Except Text FileReply}
    {calls : FileHistory} (step : Step version m (.execute i id name raw result calls) m') :
  ∃ found, Answered id found m' i ∧ result = again found (fingerprint name raw)
  := by
  cases step with
  | @execute _ f grant o _ _ _ session granted =>
    obtain ⟨hlt, -⟩ := List.getElem?_eq_some_iff.mp session
    have hset := List.getElem?_set_self (a := (f.execute version o grant id name raw).2.2) hlt
    unfold FileSession.execute at hset ⊢
    split
    · rename_i found hfound
      rw [hfound] at hset
      exact ⟨found, ⟨f, hset, hfound⟩, rfl⟩
    · rename_i hnone
      rw [hnone] at hset
      exact ⟨_, ⟨_, hset, List.lookup_cons_self⟩, (if_pos rfl).symm⟩

theorem Step.answers_again {name : Text} {raw : Json.Value} {result : Except Text FileReply}
    {calls : FileHistory} {found : Text × Except Text FileReply} (h : Answered id found m i)
    (step : Step version m (.execute i id name raw result calls) m') :
  calls = [] ∧ result = again found (fingerprint name raw)
  := by
  obtain ⟨f, hf, hfound⟩ := h
  cases step with
  | execute o _ _ _ session granted =>
    rw [hf] at session
    cases session
    unfold FileSession.execute
    rw [hfound]
    exact ⟨rfl, rfl⟩

/-- After a clear, a session from before calls nothing, and answers with what it has or with an
error; a tool use is executed at most once in a session, and is answered alike when it comes
again. -/
structure Sound (es : List WorkspaceEvent) : Prop where
  revoked : ∀ before after, es = before ++ .cleared :: after → ∀ i id name raw result calls,
    .execute i id name raw result calls ∈ after → i < before.countP WorkspaceEvent.isSnapshot →
      calls = []
  once : ∀ before between after i id name name' raw raw' result result' calls calls',
    es = before ++ .execute i id name raw result calls :: between
      ++ .execute i id name' raw' result' calls' :: after →
        calls' = [] ∧ (fingerprint name' raw' = fingerprint name raw → result' = result)

/-- In every run, with all interleavings of the sessions and of a clear. -/
theorem workspaces_sound (run : Runs (Step version) initial es m) :
  Sound es
  where
  revoked := by
    rintro before after rfl i id name raw result calls hmem hi
    obtain ⟨m₁, front, back⟩ := run.of_append
    obtain ⟨m₂, step, back⟩ := back.of_cons
    have hinv : Inv m₁ := by
      apply front.invariant
      · exact ⟨by simp [initial], by simp [initial], by simp [initial], by simp [initial]⟩
      · intro _ _ _ hinv step
        exact step.keeps_inv hinv
    rw [← sessions_count front] at hi
    obtain ⟨xs, ys, rfl⟩ := List.append_of_mem hmem
    obtain ⟨m₃, middle, back⟩ := back.of_append
    have hrevoked : Revoked m₃ i := by
      apply middle.invariant (P := (Revoked · i)) (step.cleared_revokes hinv hi)
      intro _ _ _ h step
      exact step.keeps_revoked h
    obtain ⟨m₄, last, -⟩ := back.of_cons
    obtain ⟨f, grant, hf, hgrant, hactive⟩ := hrevoked
    cases last with
    | execute o _ _ _ session granted =>
      rw [hf] at session
      cases session
      rw [hgrant] at granted
      cases granted
      exact calls_of_inactive hactive f id name raw
  once := by
    rintro before between after i id name name' raw raw' result result' calls calls' rfl
    obtain ⟨m₃, front, back⟩ := run.of_append
    obtain ⟨m₁, -, front⟩ := front.of_append
    obtain ⟨m₂, step, between⟩ := front.of_cons
    obtain ⟨m₄, last, -⟩ := back.of_cons
    obtain ⟨found, hanswered, hresult⟩ := step.answers
    have hstill : Answered id found m₃ i := by
      apply between.invariant (P := (Answered id found · i)) hanswered
      intro _ _ _ h step
      exact step.keeps_answered h
    obtain ⟨hnil, hresult'⟩ := Step.answers_again hstill last
    refine ⟨hnil, fun hprint => ?_⟩
    rw [hresult', hprint, hresult]

/-- Nothing is cancelled, and each call fails. -/
def unavailable : Outside FileCall.Answer
  | _, .isCancelled => false
  | _, .tempName => ".catio-report-0.tmp"
  | _, .op _ => .error (.other "not found")

/-- The arguments of a read. -/
def readsA : Json.Value :=
  .object [("path", .string "a.txt")]

/-- A tool use of a session before its grant is revoked, and one after it. -/
def aroundClear : List WorkspaceEvent :=
  [.configure "/w", .snapshot,
    .execute 0 "1" READ_FILE readsA (.error "fileIo: not found")
      [⟨.isCancelled, false⟩, ⟨.isCancelled, false⟩,
        ⟨.op (.symlinkMetadata ["a.txt"]), .error (.other "not found")⟩],
    .clear, .revoke, .cleared, .execute 0 "2" READ_FILE readsA (.error "workspaceRevoked") []]

theorem workspaces_sound_aroundClear :
  Sound aroundClear
  := by
  have fails : FileSession.execute (fun _ => []) unavailable ⟨0, []⟩ ⟨"/w", true⟩ "1" READ_FILE
        readsA
      = (.error "fileIo: not found",
        [⟨.isCancelled, false⟩, ⟨.isCancelled, false⟩,
          ⟨.op (.symlinkMetadata ["a.txt"]), .error (.other "not found")⟩],
        ⟨0, [("1", fingerprint READ_FILE readsA, .error "fileIo: not found")]⟩) := rfl
  have opened : Runs (Step fun _ => []) initial [.configure "/w", .snapshot] _ :=
    (Runs.start.snoc (.configure "/w" rfl)).snoc (.snapshot rfl rfl)
  have read := opened.snoc
    (@Step.execute _ _ 0 ⟨0, []⟩ ⟨"/w", true⟩ unavailable "1" READ_FILE readsA rfl rfl)
  rw [fails] at read
  have cleared := ((read.snoc (.clear rfl)).snoc (.revoke rfl)).snoc (.cleared rfl)
  exact workspaces_sound (cleared.snoc
    (@Step.execute _ _ 0 ⟨0, [("1", fingerprint READ_FILE readsA, .error "fileIo: not found")]⟩
      ⟨"/w", false⟩ unavailable "2" READ_FILE readsA rfl rfl))

end LocalWorkspaces

end Agent
