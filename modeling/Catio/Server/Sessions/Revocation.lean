import Catio.Server.Sessions.Rows

/-!
# Users and tokens that are out

Once a user is deleted, no session and no row is theirs, and nothing happens under a token that was
logged out, as long as no login of a user is half done when their sessions are purged, no command
writes a row for a user who is gone, and nothing goes on under a token when it is logged out
(`revoked_of_settled`).
-/

namespace Server

open Text Program

/-- The user of a login that is half done. -/
def AuthTask.signingIn? : AuthTask → Option ℤ
  | .verified user => some user.id
  | _ => none

namespace SessionState

/-! ### The law -/

/-- Deleted users have no sessions and own nothing, and nothing happened under a token that was
logged out. -/
def Revoked (m : SessionState) : Prop :=
  (∀ id ∈ m.deleted, (∀ s ∈ m.sessions, s.2.id ≠ id) ∧ ¬m.auth.Owns id) ∧ m.late = []

/-- No row is written for a user who is gone, and no login is half done when the sessions of its
user are purged. -/
def Clear (m : SessionState) : Option AuthTask → Prop
  | some (.admitted _ user command) => ∀ id ∈ command.owner? user, ¬m.auth.Gone id
  | some (.purging _ id _) => ∀ task ∈ m.requests, task.signingIn? ≠ some id
  | _ => True

/-- Nothing goes on under a token that is logged out, and a request that goes on may do so. -/
def Settled (m : SessionState) : SessionEvent → Prop
  | .logout token =>
      (∀ task ∈ m.requests, task.token? ≠ some token)
        ∧ ∀ socket ∈ m.sockets, socket.isOpen → socket.token ≠ token
  | .step k _ => m.Clear m.requests[k]?
  | _ => True

instance (m : SessionState) (task : Option AuthTask) : Decidable (m.Clear task) :=
  match task with
  | some (.admitted _ user command) =>
      inferInstanceAs (Decidable (∀ id ∈ command.owner? user, ¬m.auth.Gone id))
  | some (.purging _ id _) =>
      inferInstanceAs (Decidable (∀ task ∈ m.requests, task.signingIn? ≠ some id))
  | some (.registering _ _) | some (.verified _) | some (.upgrading _) | none => .isTrue trivial

instance (m : SessionState) (e : SessionEvent) : Decidable (m.Settled e) :=
  match e with
  | .logout token =>
      inferInstanceAs (Decidable ((∀ task ∈ m.requests, task.token? ≠ some token)
        ∧ ∀ socket ∈ m.sockets, socket.isOpen → socket.token ≠ token))
  | .step k _ => inferInstanceAs (Decidable (m.Clear m.requests[k]?))
  | .login _ _ _ | .register _ _ | .bootstrap _ _ _ | .expire _ | .invoke _ _ | .upgrade _
  | .socketCommand _ _ | .deliver _ | .close _ => .isTrue trivial

/-! ### What holds all along -/

/-- The deletion of a user is half done. -/
def Purging (m : SessionState) (id : ℤ) : Prop :=
  ∃ token, AuthTask.purging token id true ∈ m.requests

/-- Something goes on under a token. -/
def Live (m : SessionState) (token : ℕ) : Prop :=
  (∃ s ∈ m.sessions, s.1 = token) ∨ (∃ task ∈ m.requests, task.token? = some token)
    ∨ ∃ socket ∈ m.sockets, socket.isOpen ∧ socket.token = token

/-- Users who are gone own nothing; they have sessions and half done logins only as long as their
deletion is half done. -/
structure Orderly (m : SessionState) : Prop where
  numbered : m.auth.Numbered
  rows : ∀ id, m.auth.Gone id → ¬m.auth.Owns id
  sessions : ∀ s ∈ m.sessions, m.auth.Gone s.2.id → m.Purging s.2.id
  verified : ∀ user, AuthTask.verified user ∈ m.requests → m.auth.Gone user.id → m.Purging user.id
  purging : ∀ id, m.Purging id → m.auth.Gone id
  deleted : ∀ id ∈ m.deleted, m.auth.Gone id ∧ (∀ s ∈ m.sessions, s.2.id ≠ id)
    ∧ ∀ user, AuthTask.verified user ∈ m.requests → user.id ≠ id
  used : ∀ token, m.Live token → token < m.nextToken
  out : ∀ token ∈ m.loggedOut, token < m.nextToken ∧ ¬m.Live token
  late : m.late = []

variable {m m' : SessionState}

theorem Orderly.revoked (h : m.Orderly) :
  m.Revoked
  := by
  refine ⟨fun id hid => ?_, h.late⟩
  obtain ⟨hgone, hsessions, -⟩ := h.deleted id hid
  exact ⟨hsessions, h.rows id hgone⟩

/-- A change that deletes nobody, ends no token and begins at most one. -/
structure Moves (m m' : SessionState) : Prop where
  grows : ∃ owner, (∀ id, owner = some id → ¬m.auth.Gone id) ∧ m.auth.Grows owner m'.auth
  sessions : ∀ s ∈ m'.sessions, s ∈ m.sessions
    ∨ AuthTask.verified s.2 ∈ m.requests ∧ s.1 = m.nextToken ∧ m.nextToken < m'.nextToken
  verified : ∀ user, AuthTask.verified user ∈ m'.requests →
    AuthTask.verified user ∈ m.requests ∨ ¬m'.auth.Gone user.id
  purging : ∀ id, m'.Purging id ↔ m.Purging id
  requests : ∀ task ∈ m'.requests, ∀ token, task.token? = some token → m.Live token
  sockets : ∀ socket ∈ m'.sockets, socket.isOpen → m.Live socket.token
  next : m.nextToken ≤ m'.nextToken
  deleted : m'.deleted = m.deleted
  loggedOut : m'.loggedOut = m.loggedOut
  late : m'.late = m.late

variable {token : ℕ} {db : Db}

theorem Moves.live (h : m.Moves m') (hlive : m'.Live token) :
  m.Live token ∨ token = m.nextToken ∧ token < m'.nextToken
  := by
  rcases hlive with ⟨s, hs, rfl⟩ | ⟨task, htask, htoken⟩ | ⟨socket, hsocket, hopen, rfl⟩
  · rcases h.sessions s hs with hold | ⟨-, hnew, hnext⟩
    · exact .inl (.inl ⟨s, hold, rfl⟩)
    · exact .inr ⟨hnew, by rw [hnew]; exact hnext⟩
  · exact .inl (h.requests task htask token htoken)
  · exact .inl (h.sockets socket hsocket hopen)

theorem Moves.orderly (hm : m.Moves m') (h : m.Orderly) :
  m'.Orderly
  := by
  obtain ⟨owner, howner, hgrows⟩ := hm.grows
  constructor
  · exact hgrows.numbered
  · intro id hgone howns
    rw [hgrows.gone] at hgone
    rcases hgrows.rows id howns with hold | hnew
    · exact h.rows id hgone hold
    · exact howner id hnew hgone
  · intro s hs hgone
    rw [hgrows.gone] at hgone
    rw [hm.purging]
    rcases hm.sessions s hs with hold | ⟨hverified, -⟩
    · exact h.sessions s hold hgone
    · exact h.verified s.2 hverified hgone
  · intro user huser hgone
    rcases hm.verified user huser with hold | hnot
    · rw [hgrows.gone] at hgone
      rw [hm.purging]
      exact h.verified user hold hgone
    · exact absurd hgone hnot
  · intro id hid
    rw [hgrows.gone]
    exact h.purging id ((hm.purging id).mp hid)
  · intro id hid
    rw [hm.deleted] at hid
    obtain ⟨hgone, hsessions, hverified⟩ := h.deleted id hid
    refine ⟨(hgrows.gone id).mpr hgone, ?_, ?_⟩
    · intro s hs
      rcases hm.sessions s hs with hold | ⟨hnew, -⟩
      · exact hsessions s hold
      · exact hverified s.2 hnew
    · intro user huser
      rcases hm.verified user huser with hold | hnot
      · exact hverified user hold
      · rintro rfl
        exact hnot ((hgrows.gone _).mpr hgone)
  · intro token hlive
    rcases hm.live hlive with hold | ⟨-, hnext⟩
    · exact Nat.lt_of_lt_of_le (h.used token hold) hm.next
    · exact hnext
  · intro token htoken
    rw [hm.loggedOut] at htoken
    obtain ⟨hused, hnot⟩ := h.out token htoken
    refine ⟨Nat.lt_of_lt_of_le hused hm.next, fun hlive => ?_⟩
    rcases hm.live hlive with hold | ⟨rfl, -⟩
    · exact hnot hold
    · exact absurd hused (Nat.lt_irrefl _)
  · rw [hm.late, h.late]

/-- What a task may be that joins the others. -/
def Admits (m : SessionState) (db : Db) : AuthTask → Prop
  | .verified user => ¬db.Gone user.id
  | .purging _ _ _ => False
  | task => ∀ token, task.token? = some token → m.Live token

theorem moves_requests {owner : Option ℤ} {rs : List AuthTask}
    (howner : ∀ id, owner = some id → ¬m.auth.Gone id) (hgrows : m.auth.Grows owner db)
    (hrs : ∀ task ∈ rs, task ∈ m.requests ∨ m.Admits db task)
    (hkept : ∀ token id, AuthTask.purging token id true ∈ m.requests →
      AuthTask.purging token id true ∈ rs) :
  m.Moves { m with auth := db, requests := rs }
  where
  grows := ⟨owner, howner, hgrows⟩
  sessions s hs := .inl hs
  verified user huser := hrs _ huser
  purging id := by
    constructor
    · rintro ⟨token, htask⟩
      rcases hrs _ htask with hold | hnew
      · exact ⟨token, hold⟩
      · exact hnew.elim
    · rintro ⟨token, htask⟩
      exact ⟨token, hkept token id htask⟩
  requests task htask token htoken := by
    rcases hrs task htask with hold | hnew
    · exact .inr (.inl ⟨task, hold, htoken⟩)
    · cases task with
      | registering => cases htoken
      | verified => cases htoken
      | admitted => exact hnew token htoken
      | purging => exact hnew.elim
      | upgrading => exact hnew token htoken
  sockets socket hsocket hopen := .inr (.inr ⟨socket, hsocket, hopen, rfl⟩)
  next := Nat.le_refl _
  deleted := rfl
  loggedOut := rfl
  late := rfl

theorem moves_auth {owner : Option ℤ} (howner : ∀ id, owner = some id → ¬m.auth.Gone id)
    (hgrows : m.auth.Grows owner db) :
  m.Moves { m with auth := db }
  := moves_requests howner hgrows (fun _ htask => .inl htask) fun _ _ htask => htask

theorem moves_enqueue (hgrows : m.auth.Grows none db) {task : AuthTask} (htask : m.Admits db task) :
  m.Moves ({ m with auth := db }.enqueue task)
  := by
  apply moves_requests _ hgrows
  · intro other hother
    rcases List.mem_append.mp hother with hold | hnew
    · exact .inl hold
    · rw [List.mem_singleton.mp hnew]
      exact .inr htask
  · exact fun token id hmem => List.mem_append_left _ hmem
  · rintro id ⟨⟩

section

variable {k : ℕ} {task : AuthTask} {owner : Option ℤ} {db : Db}

theorem moves_finish (htask : m.requests[k]? = some task)
    (hne : ∀ token id, task ≠ .purging token id true)
    (howner : ∀ id, owner = some id → ¬m.auth.Gone id) (hgrows : m.auth.Grows owner db) :
  m.Moves ({ m with auth := db }.finish k)
  := by
  apply moves_requests howner hgrows
  · exact fun other hother => .inl (List.mem_of_mem_eraseIdx hother)
  · intro token id hmem
    rcases Places.mem_eraseIdx_of_mem htask hmem with heq | hkept
    · exact absurd heq.symm (hne token id)
    · exact hkept

theorem moves_proceed (htask : m.requests[k]? = some task)
    (hne : ∀ token id, task ≠ .purging token id true) (hgrows : m.auth.Grows none db)
    {next : AuthTask} (hnext : m.Admits db next) :
  m.Moves ({ m with auth := db }.proceed k next)
  := by
  apply moves_requests _ hgrows
  · intro other hother
    rcases List.mem_or_eq_of_mem_set hother with hold | rfl
    · exact .inl hold
    · exact .inr hnext
  · intro token id hmem
    rcases Places.mem_set_of_mem htask next hmem with heq | hkept
    · exact absurd heq.symm (hne token id)
    · exact hkept
  · rintro id ⟨⟩

end

theorem Orderly.under_eq (h : m.Orderly) (hlive : m.Live token) :
  m.under token = m
  := by
  have hnot : token ∉ m.loggedOut := fun hmem => (h.out token hmem).2 hlive
  rw [under, if_neg hnot]

/-! ### Signing in -/

theorem signIn_cases {operation : Preparation (Sql User)} (hsigns : SignsIn operation)
    (o : Outside AuthCall.Answer) (h : m.auth.Numbered) :
  ∃ db, m.auth.Grows none db
    ∧ ((∃ user : User, ¬db.Gone user.id ∧ m.signIn o operation = ({ m with auth := db }, some user))
      ∨ m.signIn o operation = ({ m with auth := db }, none))
  := by
  obtain ⟨hgrows, hnot⟩ := hsigns o m.auth h
  refine ⟨_, hgrows, ?_⟩
  cases hresult : (perform o operation m.auth).1 with
  | error e =>
    right
    rw [signIn, hresult]
    rfl
  | ok user =>
    left
    refine ⟨user, hnot user hresult, ?_⟩
    rw [signIn, hresult]
    rfl

/-! ### Commands -/

section

variable {k token : ℕ} {user : User} {command : UserCommand} (o : Outside AuthCall.Answer)

theorem moves_write {α : Type} {operation : Preparation (Sql α)} {owner : Option ℤ}
    (htask : m.requests[k]? = some (.admitted token user command)) (hn : m.auth.Numbered)
    (howner : ∀ id, owner = some id → ¬m.auth.Gone id) (hwrites : Writes owner operation) :
  m.Moves ((m.write o operation).finish k)
  := moves_finish htask (by rintro token id ⟨⟩) howner (hwrites o m.auth hn)

theorem act_moves (h : m.Orderly) (htask : m.requests[k]? = some (.admitted token user command))
    (hsettled : ∀ id ∈ command.owner? user, ¬m.auth.Gone id) :
  m.Moves (m.act k o token user command)
    ∨ ∃ id, m.act k o token user command = { m with
        auth := (deletions id).foldl (fun db f => f db) m.auth
        requests := m.requests.set k (.purging token id (m.auth.user id).isSome) }
  := by
  have hn := h.numbered
  have hlive : m.Live token :=
    .inr (.inl ⟨_, List.mem_of_getElem? htask, rfl⟩)
  have hnone : ∀ id, (none : Option ℤ) = some id → ¬m.auth.Gone id := by rintro id ⟨⟩
  have hsame : m.auth.Grows none m.auth := .refl hn
  have hidle : m.Moves (m.finish k) := moves_finish htask (by rintro token id ⟨⟩) hnone hsame
  cases command with
  | userCreate username password isAdmin =>
    left
    rw [act]
    split_ifs
    · exact moves_write o htask hn hnone (signsIn_createUser username password isAdmin).writes
    · exact hidle
  | userDelete id =>
    rw [act]
    split_ifs
    · rcases perform_meets (deleteUser_meets id) (fun _ _ _ h => h) o m.auth with
        ⟨⟨⟩, hok, -, hdb⟩ | ⟨e, heq⟩
      · right
        refine ⟨id, ?_⟩
        have hpair : perform o (deleteUser id) m.auth
            = (.ok (), (deletions id).foldl (fun db f => f db) m.auth) := Prod.ext hok hdb
        rw [hpair]
        rfl
      · left
        rw [heq]
        exact hidle
    · exact .inl hidle
  | changePassword old new =>
    exact .inl (moves_write o htask hn hnone (writes_changePassword user.id old new))
  | secretRemember profileId nonce ciphertext =>
    exact .inl (moves_write o htask hn hsettled
      (writes_storeSecret user.id profileId nonce ciphertext))
  | secretForget profileId =>
    exact .inl (moves_write o htask hn hnone (writes_deleteSecret user.id profileId))
  | storeSet ownerId store itemId payload =>
    exact .inl (moves_write o htask hn hsettled (writes_storeSet _ store itemId payload))
  | storeDelete ownerId store itemId =>
    exact .inl (moves_write o htask hn hnone (writes_storeDelete _ store itemId))
  | storeClear ownerId store =>
    exact .inl (moves_write o htask hn hnone (writes_storeClear _ store))
  | mcpTokenGet new =>
    left
    have hgrows := writes_mcpTokenGet user.id o m.auth hn
    rw [act]
    split
    · rename_i db hresult
      rw [hresult] at hgrows
      exact moves_proceed htask (by rintro token id ⟨⟩) hgrows (by
        rintro _ ⟨⟩
        exact hlive)
    · rename_i result db _ hresult
      rw [hresult] at hgrows
      exact moves_finish htask (by rintro token id ⟨⟩) hnone hgrows
  | mcpTokenUpsert new =>
    exact .inl (moves_write o htask hn hsettled (writes_mcpTokenUpsert user.id new))
  | mcpTokenSetEnabled enabled =>
    exact .inl (moves_write o htask hn hnone (writes_mcpTokenSetEnabled user.id enabled))
  | other => exact .inl hidle

end

/-! ### Steps -/

theorem isSome_user {id : ℤ} :
  (db.user id).isSome ↔ db.Present id
  := by
  rw [Db.user, List.find?_isSome]
  simp [Db.Present]

section

variable {k token : ℕ} {id : ℤ}

theorem Orderly.deletes (h : m.Orderly) {user : User} {command : UserCommand}
    (htask : m.requests[k]? = some (.admitted token user command)) (id : ℤ) :
  Orderly { m with
    auth := (deletions id).foldl (fun db f => f db) m.auth
    requests := m.requests.set k (.purging token id (m.auth.user id).isSome) }
  := by
  have hgone (other : ℤ) := gone_deletions h.numbered id other
  have hlive : m.Live token := .inr (.inl ⟨_, List.mem_of_getElem? htask, rfl⟩)
  obtain ⟨hk, -⟩ := List.getElem?_eq_some_iff.mp htask
  have hnew : AuthTask.purging token id (m.auth.user id).isSome
      ∈ m.requests.set k (.purging token id (m.auth.user id).isSome) := List.mem_set hk _
  have hkept {task : AuthTask} (hmem : task ∈ m.requests)
      (hne : task ≠ .admitted token user command) :
      task ∈ m.requests.set k (.purging token id (m.auth.user id).isSome) :=
    (Places.mem_set_of_mem htask _ hmem).resolve_left hne
  have hpurging {other : ℤ}
      (hgone' : ((deletions id).foldl (fun db f => f db) m.auth).Gone other)
      (hold : m.auth.Gone other → m.Purging other) :
      ∃ t, AuthTask.purging t other true
        ∈ m.requests.set k (.purging token id (m.auth.user id).isSome) := by
    rcases (hgone other).mp hgone' with hbefore | ⟨hpresent, rfl⟩
    · obtain ⟨t, ht⟩ := hold hbefore
      exact ⟨t, hkept ht (by rintro ⟨⟩)⟩
    · refine ⟨token, ?_⟩
      rw [isSome_user.mpr hpresent] at hnew ⊢
      exact hnew
  have hlives {t : ℕ} (ht : Live { m with
      auth := (deletions id).foldl (fun db f => f db) m.auth
      requests := m.requests.set k (.purging token id (m.auth.user id).isSome) } t) :
      m.Live t := by
    rcases ht with hsession | ⟨task, hmem, htoken⟩ | hsocket
    · exact .inl hsession
    · rcases List.mem_or_eq_of_mem_set hmem with hold | rfl
      · exact .inr (.inl ⟨task, hold, htoken⟩)
      · cases htoken
        exact hlive
    · exact .inr (.inr hsocket)
  have hverified {user : User} (huser : AuthTask.verified user
      ∈ m.requests.set k (.purging token id (m.auth.user id).isSome)) :
      AuthTask.verified user ∈ m.requests := by
    rcases List.mem_or_eq_of_mem_set huser with hold | heq
    · exact hold
    · cases heq
  constructor
  · exact numbered_deletions h.numbered id
  · intro other hgone' howns
    rw [owns_deletions] at howns
    rcases (hgone other).mp hgone' with hbefore | ⟨-, rfl⟩
    · exact h.rows other hbefore howns.1
    · exact howns.2 rfl
  · exact fun s hs hgone' => hpurging hgone' (h.sessions s hs)
  · exact fun user huser hgone' => hpurging hgone' (h.verified user (hverified huser))
  · rintro other ⟨t, ht⟩
    rcases List.mem_or_eq_of_mem_set ht with hold | heq
    · exact (hgone other).mpr (.inl (h.purging other ⟨t, hold⟩))
    · rw [AuthTask.purging.injEq] at heq
      obtain ⟨-, rfl, hexisted⟩ := heq
      exact (hgone other).mpr (.inr ⟨isSome_user.mp hexisted.symm, rfl⟩)
  · intro other hother
    obtain ⟨hbefore, hsessions, hnone⟩ := h.deleted other hother
    exact ⟨(hgone other).mpr (.inl hbefore), hsessions,
      fun user huser => hnone user (hverified huser)⟩
  · exact fun t ht => h.used t (hlives ht)
  · exact fun t ht => ⟨(h.out t ht).1, fun hlive' => (h.out t ht).2 (hlives hlive')⟩
  · exact h.late

theorem Orderly.purges (h : m.Orderly) {existed : Bool}
    (htask : m.requests[k]? = some (.purging token id existed))
    (hsettled : ∀ task ∈ m.requests, task.signingIn? ≠ some id) :
  Orderly { m with
    sessions := m.sessions.filter (·.2.id ≠ id)
    requests := m.requests.eraseIdx k
    deleted := if existed then m.deleted ++ [id] else m.deleted }
  := by
  have hverified {user : User} (huser : AuthTask.verified user ∈ m.requests.eraseIdx k) :
      AuthTask.verified user ∈ m.requests ∧ user.id ≠ id := by
    have hold := List.mem_of_mem_eraseIdx huser
    exact ⟨hold, fun heq => hsettled _ hold (congrArg some heq)⟩
  have hpurging {other : ℤ} (hne : other ≠ id) (hold : m.Purging other) :
      ∃ t, AuthTask.purging t other true ∈ m.requests.eraseIdx k := by
    obtain ⟨t, ht⟩ := hold
    rcases Places.mem_eraseIdx_of_mem htask ht with heq | hkept
    · rw [AuthTask.purging.injEq] at heq
      exact absurd heq.2.1 hne
    · exact ⟨t, hkept⟩
  have hsession {s : ℕ × User} (hs : s ∈ m.sessions.filter (·.2.id ≠ id)) :
      s ∈ m.sessions ∧ s.2.id ≠ id := by
    rw [List.mem_filter, decide_eq_true_eq] at hs
    exact hs
  have hlives {t : ℕ} (ht : Live { m with
      sessions := m.sessions.filter (·.2.id ≠ id)
      requests := m.requests.eraseIdx k
      deleted := if existed then m.deleted ++ [id] else m.deleted } t) :
      m.Live t := by
    rcases ht with ⟨s, hs, rfl⟩ | ⟨task, hmem, htoken⟩ | hsocket
    · exact .inl ⟨s, (hsession hs).1, rfl⟩
    · exact .inr (.inl ⟨task, List.mem_of_mem_eraseIdx hmem, htoken⟩)
    · exact .inr (.inr hsocket)
  constructor
  · exact h.numbered
  · exact h.rows
  · intro s hs hgone
    exact hpurging (hsession hs).2 (h.sessions s (hsession hs).1 hgone)
  · intro user huser hgone
    obtain ⟨hold, hne⟩ := hverified huser
    exact hpurging hne (h.verified user hold hgone)
  · rintro other ⟨t, ht⟩
    exact h.purging other ⟨t, List.mem_of_mem_eraseIdx ht⟩
  · intro other hother
    have hcases : other ∈ m.deleted ∨ other = id ∧ existed = true := by
      change other ∈ (if existed then m.deleted ++ [id] else m.deleted) at hother
      split_ifs at hother with hexisted
      · rcases List.mem_append.mp hother with hold | hnew
        · exact .inl hold
        · exact .inr ⟨List.mem_singleton.mp hnew, hexisted⟩
      · exact .inl hother
    rcases hcases with hold | ⟨rfl, rfl⟩
    · obtain ⟨hgone, hsessions, hnone⟩ := h.deleted other hold
      exact ⟨hgone, fun s hs => hsessions s (hsession hs).1,
        fun user huser => hnone user (hverified huser).1⟩
    · exact ⟨h.purging other ⟨token, List.mem_of_getElem? htask⟩, fun s hs => (hsession hs).2,
        fun user huser => (hverified huser).2⟩
  · exact fun t ht => h.used t (hlives ht)
  · exact fun t ht => ⟨(h.out t ht).1, fun hlive => (h.out t ht).2 (hlives hlive)⟩
  · exact h.late

theorem moves_createSession {user : User} (h : m.Orderly)
    (htask : m.requests[k]? = some (.verified user)) :
  m.Moves ((m.createSession user).finish k)
  where
  grows := ⟨none, by rintro id ⟨⟩, .refl h.numbered⟩
  sessions s hs := by
    rcases List.mem_append.mp hs with hold | hnew
    · exact .inl hold
    · rw [List.mem_singleton.mp hnew]
      exact .inr ⟨List.mem_of_getElem? htask, rfl, Nat.lt_succ_self _⟩
  verified user huser := .inl (List.mem_of_mem_eraseIdx huser)
  purging id := by
    constructor
    · rintro ⟨t, ht⟩
      exact ⟨t, List.mem_of_mem_eraseIdx ht⟩
    · rintro ⟨t, ht⟩
      exact ⟨t, (Places.mem_eraseIdx_of_mem htask ht).resolve_left (by rintro ⟨⟩)⟩
  requests task hmem t ht := .inr (.inl ⟨task, List.mem_of_mem_eraseIdx hmem, ht⟩)
  sockets socket hsocket hopen := .inr (.inr ⟨socket, hsocket, hopen, rfl⟩)
  next := Nat.le_succ _
  deleted := rfl
  loggedOut := rfl
  late := rfl

theorem moves_upgrade (h : m.Orderly) (htask : m.requests[k]? = some (.upgrading token)) :
  m.Moves { m.finish k with sockets := m.sockets ++ [{ token }] }
  where
  grows := ⟨none, by rintro id ⟨⟩, .refl h.numbered⟩
  sessions s hs := .inl hs
  verified user huser := .inl (List.mem_of_mem_eraseIdx huser)
  purging id := by
    constructor
    · rintro ⟨t, ht⟩
      exact ⟨t, List.mem_of_mem_eraseIdx ht⟩
    · rintro ⟨t, ht⟩
      exact ⟨t, (Places.mem_eraseIdx_of_mem htask ht).resolve_left (by rintro ⟨⟩)⟩
  requests task hmem t ht := .inr (.inl ⟨task, List.mem_of_mem_eraseIdx hmem, ht⟩)
  sockets socket hsocket hopen := by
    rcases List.mem_append.mp hsocket with hold | hnew
    · exact .inr (.inr ⟨socket, hold, hopen, rfl⟩)
    · rw [List.mem_singleton.mp hnew]
      exact .inr (.inl ⟨_, List.mem_of_getElem? htask, rfl⟩)
  next := Nat.le_refl _
  deleted := rfl
  loggedOut := rfl
  late := rfl

theorem Orderly.step (h : m.Orderly) {o : Outside AuthCall.Answer}
    (hsettled : m.Settled (.step k o)) :
  (m.step k o).Orderly
  := by
  have hnone : ∀ id, (none : Option ℤ) = some id → ¬m.auth.Gone id := by rintro id ⟨⟩
  cases htask : m.requests[k]? with
  | none =>
    rw [SessionState.step, htask]
    exact h
  | some task =>
    have hmem := List.mem_of_getElem? htask
    rw [SessionState.step, htask]
    rw [Settled, htask] at hsettled
    cases task with
    | registering username password =>
      obtain ⟨db, hgrows, ⟨user, hnot, heq⟩ | heq⟩ :=
        signIn_cases (m := m) (signsIn_createUser username password false) o h.numbered
      · dsimp only
        rw [heq]
        have hadmits : m.Admits db (.verified user) := hnot
        exact (moves_proceed htask (by rintro t i ⟨⟩) hgrows hadmits).orderly h
      · dsimp only
        rw [heq]
        exact (moves_finish htask (by rintro t i ⟨⟩) hnone hgrows).orderly h
    | verified user => exact (moves_createSession h htask).orderly h
    | admitted token user command =>
      dsimp only
      rw [h.under_eq (.inr (.inl ⟨_, hmem, rfl⟩))]
      rcases act_moves o h htask hsettled with hmoves | ⟨id, heq⟩
      · exact hmoves.orderly h
      · rw [heq]
        exact h.deletes htask id
    | purging token id existed =>
      dsimp only
      rw [h.under_eq (.inr (.inl ⟨_, hmem, rfl⟩))]
      exact h.purges htask hsettled
    | upgrading token =>
      dsimp only
      rw [h.under_eq (.inr (.inl ⟨_, hmem, rfl⟩))]
      exact (moves_upgrade h htask).orderly h

end

/-! ### Events -/

theorem live_of_resolve {user : User} (h : m.resolve token = some user) :
  m.Live token
  := by
  obtain ⟨s, hs, -⟩ := Option.map_eq_some_iff.mp h
  exact .inl ⟨s, List.mem_of_find?_eq_some hs, by simpa using List.find?_some hs⟩

theorem live_of_socket {i token : ℕ} (h : m.sockets[i]? = some ⟨token, true⟩) :
  m.Live token
  := .inr (.inr ⟨_, List.mem_of_getElem? h, rfl, rfl⟩)

theorem moves_sessions (h : m.Orderly) (p : ℕ × User → Bool) :
  m.Moves { m with sessions := m.sessions.filter p }
  where
  grows := ⟨none, by rintro id ⟨⟩, .refl h.numbered⟩
  sessions s hs := .inl (List.mem_of_mem_filter hs)
  verified user huser := .inl huser
  purging id := Iff.rfl
  requests task hmem t ht := .inr (.inl ⟨task, hmem, ht⟩)
  sockets socket hsocket hopen := .inr (.inr ⟨socket, hsocket, hopen, rfl⟩)
  next := Nat.le_refl _
  deleted := rfl
  loggedOut := rfl
  late := rfl

theorem moves_close (h : m.Orderly) (i : ℕ) :
  m.Moves (m.closeSocket i)
  where
  grows := ⟨none, by rintro id ⟨⟩, .refl h.numbered⟩
  sessions s hs := .inl hs
  verified user huser := .inl huser
  purging id := Iff.rfl
  requests task hmem t ht := .inr (.inl ⟨task, hmem, ht⟩)
  sockets socket hsocket hopen := by
    obtain ⟨j, hj⟩ := List.mem_iff_getElem?.mp hsocket
    rw [closeSocket, List.getElem?_modify] at hj
    obtain ⟨old, hold, heq⟩ := Option.map_eq_some_iff.mp hj
    split_ifs at heq
    · rw [← heq] at hopen
      cases hopen
    · rw [← heq] at hopen ⊢
      exact .inr (.inr ⟨old, List.mem_of_getElem? hold, hopen, rfl⟩)
  next := Nat.le_refl _
  deleted := rfl
  loggedOut := rfl
  late := rfl

theorem Orderly.enqueue (h : m.Orderly) (hlive : m.Live token) {task : AuthTask}
    (htask : m.Admits m.auth task) :
  ((m.under token).enqueue task).Orderly
  := by
  rw [h.under_eq hlive]
  exact (moves_enqueue (.refl h.numbered) htask).orderly h

theorem Orderly.signsIn (h : m.Orderly) {operation : Preparation (Sql User)}
    (hsigns : SignsIn operation) (o : Outside AuthCall.Answer) :
  Orderly (match m.signIn o operation with
    | (m, some user) => m.enqueue (.verified user)
    | (m, none) => m)
  := by
  obtain ⟨db, hgrows, ⟨user, hnot, heq⟩ | heq⟩ := signIn_cases (m := m) hsigns o h.numbered
  · rw [heq]
    have hadmits : m.Admits db (.verified user) := hnot
    exact (moves_enqueue hgrows hadmits).orderly h
  · rw [heq]
    exact (moves_auth (by rintro id ⟨⟩) hgrows).orderly h

theorem Orderly.logsOut (h : m.Orderly) (hsettled : m.Settled (.logout token)) :
  (m.after (.logout token)).Orderly
  := by
  have hmoves := moves_sessions h (·.1 ≠ token)
  have hless := hmoves.orderly h
  have hdead : ¬Live { m with sessions := m.sessions.filter (·.1 ≠ token) } token := by
    rintro (⟨s, hs, hsession⟩ | ⟨task, htask, htoken⟩ | ⟨socket, hsocket, hopen, hopened⟩)
    · exact absurd hsession (of_decide_eq_true (List.mem_filter.mp hs).2)
    · exact hsettled.1 task htask htoken
    · exact hsettled.2 socket hsocket hopen hopened
  constructor
  · exact hless.numbered
  · exact hless.rows
  · exact hless.sessions
  · exact hless.verified
  · exact hless.purging
  · exact hless.deleted
  · exact hless.used
  · intro other hother
    change other ∈ (if token < m.nextToken then m.loggedOut ++ [token] else m.loggedOut) at hother
    split_ifs at hother with hused
    · rcases List.mem_append.mp hother with hold | hnew
      · exact hless.out other hold
      · rw [List.mem_singleton.mp hnew]
        exact ⟨hused, hdead⟩
    · exact hless.out other hother
  · exact hless.late

theorem Orderly.after (h : m.Orderly) {e : SessionEvent} (hsettled : m.Settled e) :
  (m.after e).Orderly
  := by
  cases e with
  | login username password o => exact h.signsIn (signsIn_verifyLogin username password) o
  | register username password =>
    rw [SessionState.after]
    split_ifs
    · exact h
    · have hadmits : m.Admits m.auth (.registering username password) := by rintro token ⟨⟩
      exact (moves_enqueue (.refl h.numbered) hadmits).orderly h
  | bootstrap username password o =>
    exact h.signsIn (signsIn_bootstrapAdmin username password) o
  | logout token => exact h.logsOut hsettled
  | expire token => exact (moves_sessions h _).orderly h
  | invoke token command =>
    rw [SessionState.after]
    split
    · rename_i user hresolve
      have hlive := live_of_resolve hresolve
      apply h.enqueue hlive
      rintro _ ⟨⟩
      exact hlive
    · exact h
  | upgrade token =>
    rw [SessionState.after]
    split
    · rename_i user hresolve
      have hlive := live_of_resolve hresolve
      apply h.enqueue hlive
      rintro _ ⟨⟩
      exact hlive
    · exact h
  | step k o => exact h.step hsettled
  | socketCommand i command =>
    rw [SessionState.after]
    split
    · rename_i token hsocket
      split
      · rename_i user hresolve
        have hlive := live_of_resolve hresolve
        apply h.enqueue hlive
        rintro _ ⟨⟩
        exact hlive
      · exact (moves_close h i).orderly h
    · exact h
  | deliver i =>
    rw [SessionState.after]
    split
    · rename_i token hsocket
      rw [h.under_eq (live_of_socket hsocket)]
      exact h
    · exact h
  | close i => exact (moves_close h i).orderly h

theorem orderly_init : Orderly {}
  where
  numbered := ⟨Int.le_refl 0, by rintro row ⟨⟩⟩
  rows id hgone := by
    obtain ⟨hpositive, hused, -⟩ := hgone
    exact absurd hpositive (Int.not_lt.mpr hused)
  sessions := by rintro s ⟨⟩
  verified := by rintro user ⟨⟩
  purging := by rintro id ⟨token, ⟨⟩⟩
  deleted := by rintro id ⟨⟩
  used := by rintro token (⟨s, ⟨⟩, -⟩ | ⟨task, ⟨⟩, -⟩ | ⟨socket, ⟨⟩, -⟩)
  out := by rintro token ⟨⟩
  late := rfl

/-- In a run whose events find a settled state, deleted users have no sessions and own nothing, and
nothing happens under a token that was logged out. -/
theorem revoked_of_settled {es : List SessionEvent}
    (h : Steps.Throughout SessionState.after (fun e m => m.Settled e) es {}) :
  (es.foldl SessionState.after {}).Revoked
  := by
  have horderly := Steps.invariant (Q := Orderly) orderly_init (fun _ _ hm he => hm.after he) h
  exact horderly.revoked

/-- The outside that answers the same at any time. -/
def calmly : Outside AuthCall.Answer :=
  fun _ => calm

/-- An administrator deletes another user and logs out. -/
def deletion : List SessionEvent :=
  [.bootstrap "ada" "secret1" calmly, .step 0 calmly, .register "bob" "secret2", .step 0 calmly,
    .step 0 calmly, .invoke 0 (.userDelete 2), .step 0 calmly, .step 0 calmly, .logout 0]

/-- An administrator deletes another user, who has just signed up, before the session begins. -/
def lateSession : List SessionEvent :=
  [.bootstrap "ada" "secret1" calmly, .step 0 calmly, .register "bob" "secret2", .step 0 calmly,
    .invoke 0 (.userDelete 2), .step 1 calmly, .step 1 calmly, .step 0 calmly]

theorem revoked_deletion :
  (deletion.foldl SessionState.after {}).Revoked
  := revoked_of_settled (by decide +kernel)

/-- The session is there after the deletion has returned. -/
theorem lateSession_not_revoked :
  ¬(lateSession.foldl SessionState.after {}).Revoked
  := by
  rintro ⟨hdeleted, -⟩
  have hid : (2 : ℤ) ∈ (lateSession.foldl SessionState.after {}).deleted := by decide +kernel
  have hsession : ((1, ⟨2, "bob", false, 0⟩) : ℕ × User)
      ∈ (lateSession.foldl SessionState.after {}).sessions := by decide +kernel
  exact (hdeleted 2 hid).1 _ hsession rfl

end SessionState

end Server
