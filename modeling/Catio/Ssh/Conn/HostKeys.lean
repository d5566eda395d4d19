import Catio.Lib.Runs
import Catio.Ssh.Conn

/-!
# Host keys

The key of the target is known before the client authenticates itself, and each secret goes to its
host; but the key is checked only after that (`password_before_check`).  A connection is the result
only if its key passes the check, so what is installed in a session is what the known hosts name, if
they name the target (`connect_checked`).
-/

namespace Ssh

open Text Program

/-- The request shows a secret, or the possession of one. -/
def AuthRequest.IsCredential : AuthRequest → Prop
  | .password _ => True
  | .keyboardRespond _ => True
  | .publickey _ => True
  | _ => False

def AuthRequest.From (auth : AuthMethod) (secret : Option Text) : AuthRequest → Prop
  | .password shown => auth = .password ∧ shown = secret.getD []
  | .keyboardRespond shown => auth = .password ∧ ∀ response ∈ shown, response = secret.getD []
  | .publickey _ => ∃ path, auth = .keyFile path
  | _ => True

/-- The fingerprint of the key that the target presents in a handshake. -/
def presentation : Program.Event ConnectCall.Answer → Option Text
  | ⟨.connect .target _ _, .ok fp⟩ => some fp
  | ⟨.connectStream, .ok fp⟩ => some fp
  | _ => none

/-- The fingerprints that the target has presented. -/
def presented (h : ConnectHistory) : List Text :=
  h.filterMap presentation

/-- The fingerprint that the content of the known hosts names for the target. -/
def ConnectArgs.stored (args : ConnectArgs) (contents : Option Text) : Option Text :=
  ((contents.map KnownHosts.parse).getD ∅).lookup args.hostPort

/-- The jump host gets what is made from its own secret, and the target what is made from its
secret, after it has presented its key. -/
def Allowed (args : ConnectArgs) (before : ConnectHistory) (e : Program.Event ConnectCall.Answer) :
    Prop :=
  match e.1 with
  | .authenticate .jump user r =>
      ∃ j, args.jump = some j ∧ user = j.user ∧ r.From j.auth j.secret
  | .authenticate .target user r =>
      user = args.user ∧ r.From args.auth args.secret ∧ presented before ≠ []
  | _ => True

/-- Secrets went where they are for, a connection is the result only if its key is the one that the
known hosts name, or they name none, and one with another key is disconnected. -/
structure Attempted (args : ConnectArgs) (dir : Text) (r : Except SshError (Text × Bool))
    (h : ConnectHistory) : Prop where
  orderly : Always (Allowed args) h
  checked : ∀ fp trusted, r = .ok (fp, trusted) → presented h = [fp]
    ∧ ∃ contents, ⟨.readKnownHosts dir, contents⟩ ∈ h
        ∧ args.stored contents = if trusted then some fp else none
  rejected : ∀ fp contents known, presented h = [fp] → ⟨.readKnownHosts dir, contents⟩ ∈ h →
    args.stored contents = some known → known ≠ fp →
      r = .error .hostKeyMismatch ∧ ⟨.disconnect .target, ()⟩ ∈ h

/-! ### Authentication -/

/-- The calls of an authentication. -/
def Authenticates (hop : Hop) (user : Text) (auth : AuthMethod) (secret : Option Text)
    (c : ConnectCall) : Prop :=
  (∃ r : AuthRequest, c = .authenticate hop user r ∧ r.From auth secret)
    ∨ ∃ path, c = .loadSecretKey path secret

variable {hop : Hop} {user : Text} {auth : AuthMethod} {secret : Option Text}

theorem onlyCalls_request {r : AuthRequest} (h : r.From auth secret) :
  (request hop user r).OnlyCalls (Authenticates hop user auth secret)
  := by
  apply onlyCalls_bind
  · exact onlyCalls_ask (.inl ⟨r, rfl, h⟩)
  · intro answer
    apply onlyCalls_lift

theorem onlyCalls_answerPrompts (rounds : ℕ) (res : KeyboardAnswer) :
  (answerPrompts hop user (secret.getD []) rounds res).OnlyCalls
    (Authenticates hop user .password secret)
  := by
  induction rounds generalizing res with
  | zero => trivial
  | succ rounds ih =>
    cases res with
    | success => trivial
    | failure => trivial
    | infoRequest prompts =>
      apply onlyCalls_bind
      · apply onlyCalls_request
        refine ⟨rfl, ?_⟩
        intro response hresponse
        obtain ⟨_, _, rfl⟩ := List.mem_map.mp hresponse
        rfl
      · exact ih

theorem onlyCalls_andAlso {P : ConnectCall → Prop} {c : Bool} {p : ConnectProgram Bool}
    (h : p.OnlyCalls P) :
  (andAlso c p).OnlyCalls P
  := by
  cases c with
  | false => trivial
  | true => exact h

theorem onlyCalls_authenticateKeyboardInteractive :
  (authenticateKeyboardInteractive hop user (secret.getD [])).OnlyCalls
    (Authenticates hop user .password secret)
  := by
  apply onlyCalls_bind
  · exact onlyCalls_request (by trivial)
  · intro res
    apply onlyCalls_answerPrompts

theorem onlyCalls_authenticateWithPassword :
  (authenticateWithPassword hop user (secret.getD [])).OnlyCalls
    (Authenticates hop user .password secret)
  := by
  apply onlyCalls_bind (onlyCalls_request (by trivial))
  intro answer
  cases answer with
  | success => trivial
  | failure methods =>
    apply onlyCalls_bind
    · apply onlyCalls_andAlso
      exact onlyCalls_request ⟨rfl, rfl⟩
    · intro success
      split
      · trivial
      · apply onlyCalls_andAlso
        exact onlyCalls_authenticateKeyboardInteractive

theorem onlyCalls_authenticate :
  (authenticate hop user auth secret).OnlyCalls (Authenticates hop user auth secret)
  := by
  cases auth with
  | password => exact onlyCalls_authenticateWithPassword
  | keyFile path =>
    apply onlyCalls_bind
    · exact onlyCalls_ask (.inr ⟨path, rfl⟩)
    · intro key
      apply onlyCalls_bind
      · apply onlyCalls_lift
      · intro key
        exact onlyCalls_request ⟨path, rfl⟩

/-! ### Connecting -/

/-- What holds of the calls of a connect before the host key is checked, with the fingerprints
that the target has presented. -/
structure Unchecked (args : ConnectArgs) (fps : List Text) (h : ConnectHistory) : Prop where
  orderly : Always (Allowed args) h
  unread : ∀ dir contents, ⟨.readKnownHosts dir, contents⟩ ∉ h
  presented : presented h = fps

variable {args : ConnectArgs} {fps : List Text} {h : ConnectHistory}
  {e : Program.Event ConnectCall.Answer} {j : JumpSpec}

theorem unchecked_nil :
  Unchecked args [] []
  where
  orderly := always_nil
  unread := by simp
  presented := rfl

theorem Unchecked.snoc (hh : Unchecked args fps h) (allowed : Allowed args h e)
    (unread : ∀ dir contents, e ≠ ⟨.readKnownHosts dir, contents⟩) :
  Unchecked args (fps ++ (presentation e).toList) (h ++ [e])
  where
  orderly := by
    rw [always_snoc]
    exact ⟨hh.orderly, allowed⟩
  unread dir contents hmem := by
    rcases List.mem_append.mp hmem with hbefore | hlast
    · exact hh.unread dir contents hbefore
    · exact unread dir contents (List.mem_singleton.mp hlast).symm
  presented := by
    rw [Ssh.presented, List.filterMap_append, ← hh.presented, Ssh.presented]
    cases hp : presentation e with
    | none => simp [hp]
    | some fp => simp [hp]

theorem presentation_of_authenticates (h : Authenticates hop user auth secret e.1) :
  presentation e = none
  := by
  obtain ⟨c, answer⟩ := e
  rcases h with ⟨r, rfl, -⟩ | ⟨path, rfl⟩
  · rfl
  · rfl

theorem Unchecked.append (hh : Unchecked args fps h) {es : ConnectHistory}
    (hes : ∀ e ∈ es, Authenticates hop user auth secret e.1)
    (allowed : ∀ before, h <+: before → ∀ r : AuthRequest, r.From auth secret →
      ∀ answer, Allowed args before ⟨.authenticate hop user r, answer⟩) :
  Unchecked args fps (h ++ es)
  where
  orderly := by
    apply always_append hh.orderly
    rintro before hle ⟨c, answer⟩ hmem
    rcases hes _ hmem with ⟨r, rfl, hfrom⟩ | ⟨path, rfl⟩
    · exact allowed before hle r hfrom answer
    · trivial
  unread dir contents hmem := by
    rcases List.mem_append.mp hmem with hbefore | hlast
    · exact hh.unread dir contents hbefore
    · rcases hes _ hlast with ⟨r, hr, -⟩ | ⟨path, hpath⟩
      · cases hr
      · cases hpath
  presented := by
    rw [Ssh.presented, List.filterMap_append, ← hh.presented, Ssh.presented]
    have hnone : es.filterMap presentation = [] := by
      rw [List.filterMap_eq_nil_iff]
      intro e he
      exact presentation_of_authenticates (hes e he)
    rw [hnone, List.append_nil]

theorem Unchecked.wp_mustAuthenticate (hh : Unchecked args fps h)
    (allowed : ∀ before, h <+: before → ∀ r : AuthRequest, r.From auth secret →
      ∀ answer, Allowed args before ⟨.authenticate hop user r, answer⟩) :
  wp (fun _ _ h' => Unchecked args fps h') (fun _ _ h' => Unchecked args fps h')
    (mustAuthenticate hop user auth secret) () h
  := by
  have hauth : wp (fun _ _ h' => Unchecked args fps h') (fun _ _ h' => Unchecked args fps h')
      (authenticate hop user auth secret) () h := by
    apply wp_mono onlyCalls_authenticate.wp
    · rintro _ _ _ ⟨es, rfl, hes⟩
      exact hh.append hes allowed
    · rintro _ _ _ ⟨es, rfl, hes⟩
      exact hh.append hes allowed
  apply wp_seq hauth
  intro success _ h' hh'
  cases success with
  | false => exact hh'
  | true => exact hh'

theorem Unchecked.wp_jump (hh : Unchecked args fps h) (hj : args.jump = some j) :
  wp (fun _ _ h' => Unchecked args fps h') (fun _ _ h' => Unchecked args fps h')
    (mustAuthenticate .jump j.user j.auth j.secret) () h
  := by
  apply hh.wp_mustAuthenticate
  intro _ _ r hfrom _
  exact ⟨j, hj, rfl, hfrom⟩

theorem Unchecked.wp_target {answer : Except Text Text} {failure : Text → SshError}
    (hh : Unchecked args answer.toOption.toList h) :
  wp (fun fp _ h' => Unchecked args [fp] h') (fun _ _ h' => ∃ fps, Unchecked args fps h')
    (authenticateTarget args failure answer) () h
  := by
  cases answer with
  | error e => exact ⟨_, hh⟩
  | ok fp =>
    have hauth : wp (fun _ _ h' => Unchecked args [fp] h') (fun _ _ h' => Unchecked args [fp] h')
        (mustAuthenticate .target args.user args.auth args.secret) () h := by
      apply hh.wp_mustAuthenticate
      rintro _ ⟨between, rfl⟩ r hfrom _
      refine ⟨rfl, hfrom, ?_⟩
      have hpresented := hh.presented
      rw [Ssh.presented] at hpresented ⊢
      rw [List.filterMap_append, hpresented]
      simp [Except.toOption]
    rw [authenticateTarget, wp_bind]
    apply wp_seq (wp_mono hauth (fun _ _ _ hh' => hh') (fun _ _ _ hh' => ⟨_, hh'⟩))
    intro _ _ h' hh'
    exact hh'

theorem presentation_connect (host : Text) (port : ℕ) (answer : Except Text Text) :
  presentation ⟨.connect .target host port, answer⟩ = answer.toOption
  := by
  cases answer with
  | error e => rfl
  | ok fp => rfl

theorem presentation_connectStream (answer : Except Text Text) :
  presentation ⟨.connectStream, answer⟩ = answer.toOption
  := by
  cases answer with
  | error e => rfl
  | ok fp => rfl

theorem wp_connectCore :
  wp (fun fp _ h => Unchecked args [fp] h) (fun _ _ h => ∃ fps, Unchecked args fps h)
    (connectCore args) () []
  := by
  unfold connectCore
  split
  · rw [wp_ask_bind]
    intro answer
    apply Unchecked.wp_target
    rw [← presentation_connect args.host args.port]
    have hconnect : Unchecked args ([] ++ (presentation
        ⟨.connect .target args.host args.port, answer⟩).toList)
        ([] ++ [⟨.connect .target args.host args.port, answer⟩]) := by
      apply unchecked_nil.snoc
      · trivial
      · nofun
    exact hconnect
  · rename_i j hj
    rw [wp_ask_bind]
    intro answer
    have hconnect : Unchecked args ([] ++ (presentation
        ⟨.connect .jump j.host j.port, answer⟩).toList)
        ([] ++ [⟨.connect .jump j.host j.port, answer⟩]) := by
      apply unchecked_nil.snoc
      · trivial
      · nofun
    rw [wp_bind, wp_lift]
    refine ⟨fun _ _ => ?_, fun _ _ => ⟨_, hconnect⟩⟩
    apply wp_seq (wp_mono (hconnect.wp_jump hj) (fun _ _ _ hh => hh) (fun _ _ _ hh => ⟨_, hh⟩))
    intro _ _ h hjump
    rw [wp_ask_bind]
    intro ch
    have hopen : Unchecked args ([] ++ (presentation
        ⟨.openDirectTcpip args.host args.port, ch⟩).toList)
        (h ++ [⟨.openDirectTcpip args.host args.port, ch⟩]) := by
      apply hjump.snoc
      · trivial
      · nofun
    rw [wp_bind, wp_lift]
    refine ⟨fun _ _ => ?_, fun _ _ => ⟨_, hopen⟩⟩
    rw [wp_ask_bind]
    intro stream
    apply Unchecked.wp_target
    rw [← presentation_connectStream stream]
    apply hopen.snoc
    · trivial
    · nofun

/-! ### The check -/

theorem Unchecked.attempted (hh : Unchecked args fps h) (dir : Text) (e : SshError) :
  Attempted args dir (.error e) h
  where
  orderly := hh.orderly
  checked := nofun
  rejected _ contents _ _ hread := absurd hread (hh.unread dir contents)

theorem Unchecked.read {fp : Text} (hh : Unchecked args [fp] h) (dir : Text)
    (contents : Option Text) {after : ConnectHistory}
    (hafter : after = [] ∨ after = [⟨.disconnect .target, ()⟩]) :
  Always (Allowed args) (h ++ [⟨.readKnownHosts dir, contents⟩] ++ after)
    ∧ Ssh.presented (h ++ [⟨.readKnownHosts dir, contents⟩] ++ after) = [fp]
    ∧ ∀ c, ⟨.readKnownHosts dir, c⟩ ∈ h ++ [⟨.readKnownHosts dir, contents⟩] ++ after ↔
        c = contents
  := by
  have hpresented := hh.presented
  rw [Ssh.presented] at hpresented
  have hread : Always (Allowed args) (h ++ [⟨.readKnownHosts dir, contents⟩]) := by
    rw [always_snoc]
    exact ⟨hh.orderly, trivial⟩
  refine ⟨?_, ?_, ?_⟩
  · rcases hafter with rfl | rfl
    · simpa using hread
    · rw [always_snoc]
      exact ⟨hread, trivial⟩
  · rw [Ssh.presented, List.filterMap_append, List.filterMap_append, hpresented]
    rcases hafter with rfl | rfl
    · rfl
    · rfl
  · intro c
    have hbefore := hh.unread dir c
    rcases hafter with rfl | rfl
    · simp [hbefore]
    · simp [hbefore]

theorem Unchecked.wp_checkHostKey {fp : Text} (hh : Unchecked args [fp] h) (dir : Text) :
  wp (fun trusted _ h' => Attempted args dir (.ok (fp, trusted)) h')
    (fun e _ h' => Attempted args dir (.error e) h') (checkHostKey args dir fp) () h
  := by
  rw [checkHostKey, wp_ask_bind]
  intro contents
  obtain ⟨horderly, hpresented, hread⟩ := hh.read dir contents (.inl rfl)
  rw [List.append_nil] at horderly hpresented hread
  dsimp only
  rw [KnownHosts.verify]
  cases hstored : args.stored contents with
  | none =>
    have hlookup := hstored
    rw [ConnectArgs.stored] at hlookup
    rw [hlookup]
    constructor
    · exact horderly
    · rintro _ _ ⟨⟩
      exact ⟨hpresented, contents, (hread contents).mpr rfl, hstored⟩
    · intro _ c known _ hc hknown _
      rw [(hread c).mp hc, hstored] at hknown
      cases hknown
  | some known =>
    have hlookup := hstored
    rw [ConnectArgs.stored] at hlookup
    rw [hlookup]
    by_cases hknown : known = fp
    · subst hknown
      simp only [if_pos]
      constructor
      · exact horderly
      · rintro _ _ ⟨⟩
        exact ⟨hpresented, contents, (hread contents).mpr rfl, hstored⟩
      · intro fp' c known' hfp' hc hknown' hne
        rw [(hread c).mp hc, hstored] at hknown'
        rw [hpresented] at hfp'
        cases hknown'
        cases hfp'
        exact absurd rfl hne
    · simp only [if_neg hknown]
      rw [wp_ask_bind]
      intro _
      obtain ⟨horderly, -, -⟩ := hh.read dir contents (.inr rfl)
      constructor
      · exact horderly
      · intro _ _ hok
        cases hok
      · intro _ _ _ _ _ _ _
        exact ⟨rfl, by simp⟩

theorem attempted (args : ConnectArgs) (dir : Text) (outside : Outside ConnectCall.Answer) :
  Attempted args dir (attempt args dir outside).1 (attempt args dir outside).2.2
  := by
  have hwp : wp (fun result _ h => Attempted args dir (.ok result) h)
      (fun e _ h => Attempted args dir (.error e) h) (connectChecked args (some dir)) () [] := by
    rw [connectChecked]
    apply wp_seq (wp_mono wp_connectCore (fun _ _ _ hh => hh)
      (fun e _ _ hh => hh.elim fun _ hh => hh.attempted dir e))
    intro fp _ h hh
    apply wp_seq (hh.wp_checkHostKey dir)
    intro trusted _ h' hh'
    exact hh'
  have hrun := wp_run outside hwp
  rw [attempt]
  split at hrun
  · rename_i heq
    rw [heq]
    exact hrun
  · rename_i heq
    rw [heq]
    exact hrun

/-! ### Sessions -/

/-- The known hosts name a fingerprint for the target, as long as an outside answers. -/
def Names (args : ConnectArgs) (dir fp : Text) (outside : Outside ConnectCall.Answer) : Prop :=
  ∀ h, args.stored (outside h (.readKnownHosts dir)) = some fp

theorem fingerprint_of_names {dir fp : Text} {outside : Outside ConnectCall.Answer}
    {result : Text × Bool} (names : Names args dir fp outside)
    (ok : (attempt args dir outside).1 = .ok result) :
  result.1 = fp
  := by
  obtain ⟨fp', trusted⟩ := result
  obtain ⟨-, contents, hread, hstored⟩ := (attempted args dir outside).checked fp' trusted ok
  obtain ⟨before, after, hsplit⟩ := List.append_of_mem hread
  have hanswer : contents = outside before (.readKnownHosts dir) :=
    run_answers outside always_nil before _ after hsplit
  rw [hanswer, names before] at hstored
  split at hstored
  · exact (Option.some.inj hstored).symm
  · cases hstored

theorem installed_of_names {dir fp : Text} {outsides : List (Outside ConnectCall.Answer)}
    {installed : List Text} (h : Runs (Install args dir) [fp] outsides installed)
    (names : ∀ outside ∈ outsides, Names args dir fp outside) :
  ∀ fp' ∈ installed, fp' = fp
  := by
  induction h with
  | start =>
    intro fp' hmem
    exact List.mem_singleton.mp hmem
  | snoc before last ih =>
    have hbefore := ih fun outside hmem => names outside (List.mem_append_left _ hmem)
    cases last with
    | failed => exact hbefore
    | installed ok =>
      intro fp' hmem
      rcases List.mem_append.mp hmem with hmem | hmem
      · exact hbefore fp' hmem
      · rw [List.mem_singleton.mp hmem]
        exact fingerprint_of_names (names _ (by simp)) ok

/-- A server that presents a key and accepts each password, with the content of the known hosts
file. -/
def acceptingServer (fp : Text) (contents : Option Text) : Outside ConnectCall.Answer :=
  fun _ c => match c with
    | .connect _ _ _ => .ok fp
    | .openDirectTcpip _ _ => .ok ()
    | .connectStream => .ok fp
    | .authenticate _ _ .none => .ok (.failure [.password])
    | .authenticate _ _ (.password _) => .ok true
    | .authenticate _ _ .keyboardStart => .ok .failure
    | .authenticate _ _ (.keyboardRespond _) => .ok .failure
    | .authenticate _ _ (.publickey _) => .ok false
    | .loadSecretKey _ _ => .error "no key"
    | .readKnownHosts _ => contents
    | .disconnect _ => ()

def passwordTarget : ConnectArgs :=
  ⟨"h", 22, "u", .password, some "pw", none⟩

end Ssh
