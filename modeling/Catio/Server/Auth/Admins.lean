import Catio.Server.Auth

/-!
# Administrators

Operations on accounts, interleaved in any way, take effect one after the other.  The administrator
that is the first user is never the last one to be deleted: there is an administrator as long as
there is a user (`AuthDb.Sound`).
-/

namespace Server

open Text Program

/-! ### What statements do -/

section

variable {α : Type} {s : Db} {h : List (Event AuthCall.Answer)} {E : Text → Db → Prop}

theorem query_spec {f : Db → α} (hE : ∀ e, E e s) :
  (query f).wp (fun a s' _ => a = f s ∧ s' = s) (fun e s' _ => E e s') s h
  := by
  rintro (_ | e)
  · exact ⟨rfl, rfl⟩
  · exact hE e

theorem execute_spec {f : Db → Except Text (Db × α)} (hE : ∀ e, E e s) :
  (execute f).wp (fun a s' _ => f s = .ok (s', a)) (fun e s' _ => E e s') s h
  := by
  unfold execute
  rintro (_ | e)
  · apply wp_load_bind.mpr
    cases hf : f s with
    | error e => exact hE e
    | ok result => rfl
  · exact hE e

theorem transaction_spec {statements : List (Db → Db)} :
  (transaction statements).wp (fun _ s' _ => s' = statements.foldl (fun db f => f db) s)
    (fun _ s' _ => s' = s) s h
  := by
  rintro (_ | e)
  · apply wp_load_bind.mpr
    apply wp_seq (R := fun db s' _ => db = statements.foldl (fun db f => f db) s ∧ s' = s)
    · apply wp_foldlM (I := fun db fs s' _ =>
        fs.foldl (fun db f => f db) db = statements.foldl (fun db f => f db) s ∧ s' = s)
      · rintro db f fs s' _ ⟨hfold, rfl⟩
        rintro (_ | e)
        · exact ⟨hfold, rfl⟩
        · rfl
      · exact ⟨rfl, rfl⟩
    · rintro db s' _ ⟨rfl, rfl⟩
      rintro (_ | e)
      · rfl
      · rfl
  · rfl

theorem query_onlyReads (f : Db → α) :
  Mutex.OnlyReads (query f)
  := by
  rintro (_ | e)
  · exact fun _ => trivial
  · trivial

theorem verifyPassword_onlyReads (password hash : Text) :
  Mutex.OnlyReads (verifyPassword password hash)
  := fun _ => trivial

theorem execute_writesLast (f : Db → Except Text (Db × α)) :
  Mutex.WritesLast (execute f)
  := by
  rw [execute]
  rintro (_ | e)
  · intro db
    dsimp only [Program.bind]
    cases f db with
    | error e => trivial
    | ok result =>
      intro _
      exact ⟨.ok result.2, rfl⟩
  · trivial

theorem transaction_writesLast (statements : List (Db → Db)) :
  Mutex.WritesLast (transaction statements)
  := by
  rintro (_ | e)
  · intro before
    change Mutex.WritesLast (statements.foldlM _ before >>= _)
    apply Mutex.OnlyReads.writesLast_bind
    · induction statements generalizing before with
      | nil => trivial
      | cons f fs ih =>
        rintro (_ | e)
        · exact ih (f before)
        · trivial
    · intro changed
      rintro (_ | e)
      · intro _
        exact ⟨.ok (), rfl⟩
      · trivial
  · trivial

end

/-! ### What operations do -/

/-- An operation on accounts. -/
inductive AuthRequest where
  | createUser (username password : Text) (isAdmin : Bool)
  | bootstrapAdmin (username password : Text)
  | deleteUser (id : ℤ)
  | changePassword (userId : ℤ) (oldPassword newPassword : Text)
  | verifyLogin (username password : Text)
  deriving DecidableEq

/-- The program of an operation; its result is the user, if there is one. -/
def AuthRequest.program : AuthRequest → Preparation (Sql (Option User))
  | .createUser username password isAdmin => do
      let critical ← Server.createUser username password isAdmin
      pure (some <$> critical)
  | .bootstrapAdmin username password => do
      let critical ← Server.bootstrapAdmin username password
      pure (some <$> critical)
  | .deleteUser id => do
      let critical ← Server.deleteUser id
      pure ((fun _ => none) <$> critical)
  | .changePassword userId oldPassword newPassword => do
      let critical ← Server.changePassword userId oldPassword newPassword
      pure ((fun _ => none) <$> critical)
  | .verifyLogin username password => do
      let critical ← Server.verifyLogin username password
      pure (some <$> critical)

/-- One user is added, under a name and an id that are not taken. -/
def Db.Adds (s : Db) (isAdmin : ℤ) (s' : Db) : Prop :=
  ∃ row : UserRow, s.named row.username = none ∧ row.id = s.sequence + 1 ∧ row.isAdmin = isAdmin
    ∧ s' = { s with users := s.users ++ [row], sequence := s.sequence + 1 }

/-- What an operation does, if it succeeds. -/
def AuthRequest.Succeeds : AuthRequest → Db → Db → Prop
  | .createUser _ _ isAdmin, s, s' => s.Adds (if isAdmin then 1 else 0) s'
  | .bootstrapAdmin _ _, s, s' => s.users = [] ∧ s.Adds 1 s'
  | .deleteUser id, s, s' =>
      (((s.user id).map fun row => decide (row.isAdmin ≠ 0)) = some true →
        1 < s.users.countP fun row => row.isAdmin = 1)
        ∧ s' = (deletions id).foldl (fun db f => f db) s
  | .changePassword userId _ _, s, s' => ∃ newHash,
      s' = { s with users := s.users.map (UserRow.withHash userId newHash) }
  | .verifyLogin _ _, s, s' => s' = s

/-- What an operation does: it fails and changes nothing, or it succeeds. -/
def AuthRequest.spec (request : AuthRequest) (s : Db) : Except Text (Option User) → Db → Prop
  | .error _, s' => s' = s
  | .ok _, s' => request.Succeeds s s'

variable {s s' : Db} {es : List AuthEvent}

theorem insertUser_ok {username hash : Text} {isAdmin createdAt id : ℤ}
    (h : insertUser username hash isAdmin createdAt s = .ok (s', id)) :
  s.named username = none ∧ id = s.sequence + 1
    ∧ s' = { s with
        users := s.users ++ [⟨s.sequence + 1, username, hash, isAdmin, createdAt⟩]
        sequence := s.sequence + 1 }
  := by
  unfold insertUser at h
  split at h
  · cases h
  · split at h
    · cases h
    · rename_i hnamed
      cases h
      exact ⟨Option.not_isSome_iff_eq_none.mp hnamed, rfl, rfl⟩

theorem insertUser_eq_ok {username hash : Text} {isAdmin createdAt id : ℤ}
    (h : insertUser username hash isAdmin createdAt s = .ok (s', id)) :
  s.Adds isAdmin s'
  := by
  obtain ⟨hnamed, -, rfl⟩ := insertUser_ok h
  exact ⟨⟨s.sequence + 1, username, hash, isAdmin, createdAt⟩, hnamed, rfl, rfl, rfl⟩

theorem checkedHash_spec {username password : Text} {u : Unit} {h : List (Event AuthCall.Answer)}
    {Q : Text → Unit → List (Event AuthCall.Answer) → Prop} (hQ : ∀ hash u h', Q hash u h') :
  (checkedHash username password).wp Q (fun _ _ _ => True) u h
  := by
  unfold checkedHash
  split
  · trivial
  · split
    · trivial
    · rintro (e | hash)
      · trivial
      · exact hQ hash _ _

theorem createUser_meets (username password : Text) (isAdmin : Bool) :
  Mutex.Meets (AuthRequest.createUser username password isAdmin).spec
    (AuthRequest.createUser username password isAdmin).program
  := by
  apply Mutex.Meets.map
  apply wp_seq (R := fun _ _ _ => True)
  · exact checkedHash_spec fun _ _ _ => trivial
  · intro hash _ _ _ now
    constructor
    · apply (execute_writesLast _).attempt.bind_ofExcept
      rintro (e | id)
      · exact ⟨.error _, rfl⟩
      · exact ⟨.ok _, rfl⟩
    · intro s
      apply wp_attempt_seq (execute_spec (E := fun _ s' => s' = s) fun _ => rfl)
      · intro id s' _ hinsert
        exact insertUser_eq_ok hinsert
      · intro e s' _ hsame
        exact hsame

theorem bootstrapAdmin_meets (username password : Text) :
  Mutex.Meets (AuthRequest.bootstrapAdmin username password).spec
    (AuthRequest.bootstrapAdmin username password).program
  := by
  apply Mutex.Meets.map
  apply wp_seq (R := fun _ _ _ => True)
  · exact checkedHash_spec fun _ _ _ => trivial
  · intro hash _ _ _ now
    constructor
    · apply (query_onlyReads _).writesLast_bind
      intro count
      split
      · trivial
      · apply (execute_writesLast _).bind_ofExcept
        intro id
        exact ⟨.ok _, rfl⟩
    · intro s
      apply wp_seq (query_spec (E := fun _ s' => s' = s) fun _ => rfl)
      rintro count s' _ ⟨rfl, rfl⟩
      rw [wp_ite]
      constructor
      · intro _
        exact rfl
      · intro hcount
        apply wp_seq (execute_spec (E := fun _ s'' => s'' = s') fun _ => rfl)
        intro id s'' _ hinsert
        exact ⟨List.length_eq_zero_iff.mp (not_not.mp hcount), insertUser_eq_ok hinsert⟩

theorem deleteUser_meets (id : ℤ) :
  Mutex.Meets (AuthRequest.deleteUser id).spec (AuthRequest.deleteUser id).program
  := by
  apply Mutex.Meets.map
  constructor
  · apply (query_onlyReads _).writesLast_bind
    intro targetAdmin
    split
    · apply (query_onlyReads _).writesLast_bind
      intro admins
      split
      · trivial
      · exact transaction_writesLast _
    · exact transaction_writesLast _
  · intro s
    apply wp_seq (query_spec (E := fun _ s' => s' = s) fun _ => rfl)
    rintro targetAdmin s' _ ⟨rfl, rfl⟩
    rw [wp_ite]
    constructor
    · intro hadmin
      apply wp_seq (query_spec (E := fun _ s'' => s'' = s') fun _ => rfl)
      rintro admins s'' _ ⟨rfl, rfl⟩
      rw [wp_ite]
      constructor
      · intro _
        exact rfl
      · intro hadmins
        apply wp_mono transaction_spec
        · intro _ s' _ hs'
          exact ⟨fun _ => not_le.mp hadmins, hs'⟩
        · intro e s' _ hs'
          exact hs'
    · intro hnot
      apply wp_mono transaction_spec
      · intro _ s' _ hs'
        exact ⟨fun hadmin => absurd hadmin hnot, hs'⟩
      · intro e s' _ hs'
        exact hs'

theorem changePassword_meets (userId : ℤ) (oldPassword newPassword : Text) :
  Mutex.Meets (AuthRequest.changePassword userId oldPassword newPassword).spec
    (AuthRequest.changePassword userId oldPassword newPassword).program
  := by
  apply Mutex.Meets.map
  unfold changePassword Mutex.Meets
  rw [wp_ite]
  constructor
  · intro _
    trivial
  · rintro - (e | newHash)
    · trivial
    · constructor
      · apply (query_onlyReads _).writesLast_bind
        rintro (_ | row)
        · trivial
        · apply (verifyPassword_onlyReads _ _).writesLast_bind
          rintro (e | u)
          · trivial
          · exact execute_writesLast _
      · intro s
        apply wp_seq (query_spec (E := fun _ s' => s' = s) fun _ => rfl)
        rintro row s' _ ⟨rfl, rfl⟩
        split
        · exact rfl
        · apply wp_seq (R := fun _ s'' _ => s'' = s')
          · intro _
            rfl
          · rintro (e | u) s'' _ rfl
            · exact rfl
            · apply wp_mono (execute_spec (E := fun _ s' => s' = s'') fun _ => rfl)
              · intro _ s' _ hs'
                cases hs'
                exact ⟨newHash, rfl⟩
              · intro e s' _ hs'
                exact hs'

theorem verifyLogin_meets (username password : Text) :
  Mutex.Meets (AuthRequest.verifyLogin username password).spec
    (AuthRequest.verifyLogin username password).program
  := by
  apply Mutex.Meets.map
  constructor
  · apply (query_onlyReads _).writesLast_bind
    rintro (_ | row)
    · trivial
    · rintro (e | u)
      · trivial
      · trivial
  · intro s
    apply wp_seq (query_spec (E := fun _ s' => s' = s) fun _ => rfl)
    rintro row s' _ ⟨rfl, rfl⟩
    split
    · exact rfl
    · rintro (e | ⟨⟩)
      · exact rfl
      · exact rfl

theorem AuthRequest.meets (request : AuthRequest) :
  Mutex.Meets request.spec request.program
  := by
  cases request with
  | createUser username password isAdmin => exact createUser_meets username password isAdmin
  | bootstrapAdmin username password => exact bootstrapAdmin_meets username password
  | deleteUser id => exact deleteUser_meets id
  | changePassword userId oldPassword newPassword =>
    exact changePassword_meets userId oldPassword newPassword
  | verifyLogin username password => exact verifyLogin_meets username password

/-! ### What operations keep -/

/-- User names differ, also for SQLite; ids differ and were given out; a user is an administrator or
not. -/
structure Db.Sound (db : Db) : Prop where
  names : db.users.Pairwise fun a b => nocaseKey a.username ≠ nocaseKey b.username
  ids : db.users.Pairwise fun a b => a.id ≠ b.id
  used : ∀ row ∈ db.users, row.id ≤ db.sequence
  flags : ∀ row ∈ db.users, row.isAdmin = 0 ∨ row.isAdmin = 1

/-- There is an administrator. -/
def Db.HasAdmin (db : Db) : Prop :=
  ∃ row ∈ db.users, row.isAdmin = 1

theorem nocaseKey_eq {s t : Text} (h : eqIgnoreAsciiCase s t) :
  nocaseKey s = nocaseKey t
  := by
  have hlower : toAsciiLowercase s = toAsciiLowercase t := eq_of_beq h
  have hzero (u : Text) : toAsciiLowercase (u.takeWhile (· ≠ '\x00'))
      = (toAsciiLowercase u).takeWhile (· ≠ '\x00') := by
    unfold toAsciiLowercase
    rw [List.takeWhile_map]
    congr 2
    ext c
    simp [toLower_eq_zero]
  unfold nocaseKey
  rw [hzero, hzero, ← utf8Len_toAsciiLowercase s, ← utf8Len_toAsciiLowercase t, hlower]

theorem Db.sound_init :
  Db.init.Sound
  where
  names := .nil
  ids := .nil
  used _ h := by cases h
  flags _ h := by cases h

theorem Db.named_eq_none {db : Db} {username : Text} (h : db.named username = none) :
  ∀ row ∈ db.users, nocaseKey row.username ≠ nocaseKey username
  := by
  intro row hrow
  have hnot := List.find?_eq_none.mp h row hrow
  rwa [decide_eq_true_eq] at hnot

theorem Db.Sound.adds (h : s.Sound) {isAdmin : ℤ} (hadds : s.Adds isAdmin s')
    (hflag : isAdmin = 0 ∨ isAdmin = 1) :
  s'.Sound
  := by
  obtain ⟨row, hnamed, hid, rfl, rfl⟩ := hadds
  constructor
  · apply List.pairwise_append.mpr
    use h.names, List.pairwise_singleton _ _
    intro a ha b hb
    rw [List.mem_singleton] at hb
    subst hb
    exact named_eq_none hnamed a ha
  · apply List.pairwise_append.mpr
    use h.ids, List.pairwise_singleton _ _
    intro a ha b hb
    rw [List.mem_singleton] at hb
    subst hb
    have hused := h.used a ha
    omega
  · intro a ha
    change a ∈ s.users ++ [row] at ha
    change a.id ≤ s.sequence + 1
    rw [List.mem_append, List.mem_singleton] at ha
    obtain ha | rfl := ha
    · have hused := h.used a ha
      omega
    · exact Int.le_of_eq hid
  · intro a ha
    change a ∈ s.users ++ [row] at ha
    rw [List.mem_append, List.mem_singleton] at ha
    obtain ha | rfl := ha
    · exact h.flags a ha
    · exact hflag

theorem Db.Sound.deletions {s : Db} (h : s.Sound) (id : ℤ) :
  ((Server.deletions id).foldl (fun db f => f db) s).Sound
  where
  names := h.names.filter _
  ids := h.ids.filter _
  used row hrow := h.used row (List.mem_of_mem_filter hrow)
  flags row hrow := h.flags row (List.mem_of_mem_filter hrow)

@[simp]
theorem UserRow.withHash_id (userId : ℤ) (newHash : Text) (row : UserRow) :
  (row.withHash userId newHash).id = row.id
  := by
  unfold withHash
  split
  · rfl
  · rfl

@[simp]
theorem UserRow.withHash_username (userId : ℤ) (newHash : Text) (row : UserRow) :
  (row.withHash userId newHash).username = row.username
  := by
  unfold withHash
  split
  · rfl
  · rfl

@[simp]
theorem UserRow.withHash_isAdmin (userId : ℤ) (newHash : Text) (row : UserRow) :
  (row.withHash userId newHash).isAdmin = row.isAdmin
  := by
  unfold withHash
  split
  · rfl
  · rfl

theorem Db.Sound.password {s : Db} (h : s.Sound) (userId : ℤ) (newHash : Text) :
  Db.Sound { s with users := s.users.map (UserRow.withHash userId newHash) }
  where
  names := by
    rw [List.pairwise_map]
    simpa using h.names
  ids := by
    rw [List.pairwise_map]
    simpa using h.ids
  used := by
    simpa using h.used
  flags := by
    simpa using h.flags

theorem AuthRequest.Succeeds.sound {request : AuthRequest} (h : request.Succeeds s s')
    (hs : s.Sound) :
  s'.Sound
  := by
  cases request with
  | createUser username password isAdmin =>
    apply hs.adds h
    cases isAdmin with
    | false => exact .inl rfl
    | true => exact .inr rfl
  | bootstrapAdmin username password => exact hs.adds h.2 (.inr rfl)
  | deleteUser id =>
    obtain ⟨-, rfl⟩ := h
    exact hs.deletions id
  | changePassword userId oldPassword newPassword =>
    obtain ⟨newHash, rfl⟩ := h
    exact hs.password userId newHash
  | verifyLogin username password =>
    cases h
    exact hs

theorem Db.Sound.user_eq {s : Db} (h : s.Sound) {row : UserRow} (hrow : row ∈ s.users) :
  s.user row.id = some row
  := by
  obtain ⟨before, after, husers⟩ := List.append_of_mem hrow
  have hids := h.ids
  unfold user
  rw [husers, List.pairwise_append] at *
  rw [List.find?_append, List.find?_eq_none.mpr, Option.none_or]
  · simp
  · intro a ha
    simpa using hids.2.2 a ha row List.mem_cons_self

theorem Db.Sound.hasAdmin_deletions {s : Db} (h : s.Sound) {id : ℤ} (hadmin : s.HasAdmin)
    (hlast : ((s.user id).map fun row => decide (row.isAdmin ≠ 0)) = some true →
      1 < s.users.countP fun row => row.isAdmin = 1) :
  ((Server.deletions id).foldl (fun db f => f db) s).HasAdmin
  := by
  have hrest (row : UserRow) (hrow : row ∈ s.users) (hflag : row.isAdmin = 1)
      (hid : row.id ≠ id) : ((Server.deletions id).foldl (fun db f => f db) s).HasAdmin := by
    use row, List.mem_filter.mpr ⟨hrow, by simpa using hid⟩, hflag
  obtain ⟨admin, hmem, hflag⟩ := hadmin
  by_cases hid : admin.id = id
  · -- the one that is deleted is an administrator, so there is another
    have htwo : 1 < s.users.countP fun row => row.isAdmin = 1 := by
      apply hlast
      rw [← hid, h.user_eq hmem, Option.map_some, hflag]
      rfl
    have hids := h.ids.filter fun row => decide (row.isAdmin = 1)
    have hadmins (row : UserRow) (hrow : row ∈ s.users.filter fun row => row.isAdmin = 1) :
        row ∈ s.users ∧ row.isAdmin = 1 := by
      simpa using hrow
    rw [List.countP_eq_length_filter] at htwo
    generalize s.users.filter (fun row => decide (row.isAdmin = 1)) = admins at htwo hids hadmins
    obtain _ | ⟨a, _ | ⟨b, rest⟩⟩ := admins
    · cases htwo
    · exact absurd htwo (lt_irrefl 1)
    · obtain ⟨ha, hadmin⟩ := hadmins a List.mem_cons_self
      obtain ⟨hb, hbadmin⟩ := hadmins b (List.mem_cons_of_mem a List.mem_cons_self)
      by_cases haid : a.id = id
      · apply hrest b hb hbadmin
        rw [← haid]
        exact fun heq => (List.pairwise_cons.mp hids).1 b List.mem_cons_self heq.symm
      · exact hrest a ha hadmin haid
  · exact hrest admin hmem hflag hid

theorem Db.Adds.hasAdmin {isAdmin : ℤ} (h : s.Adds isAdmin s') (hadmin : s.HasAdmin) :
  s'.HasAdmin
  := by
  obtain ⟨row, -, -, -, rfl⟩ := h
  obtain ⟨admin, hmem, hflag⟩ := hadmin
  exact ⟨admin, List.mem_append_left _ hmem, hflag⟩

theorem AuthRequest.Succeeds.hasAdmin {request : AuthRequest} (h : request.Succeeds s s')
    (hs : s.Sound) (hadmin : s.HasAdmin) :
  s'.HasAdmin
  := by
  cases request with
  | createUser username password isAdmin => exact Db.Adds.hasAdmin h hadmin
  | bootstrapAdmin username password => exact h.2.hasAdmin hadmin
  | deleteUser id =>
    obtain ⟨hlast, rfl⟩ := h
    exact hs.hasAdmin_deletions hadmin hlast
  | changePassword userId oldPassword newPassword =>
    obtain ⟨newHash, rfl⟩ := h
    obtain ⟨admin, hmem, hflag⟩ := hadmin
    use admin.withHash userId newHash, List.mem_map_of_mem hmem
    rw [UserRow.withHash_isAdmin, hflag]
  | verifyLogin username password =>
    cases h
    exact hadmin

/-! ### Runs -/

/-- What happens to one database: an operation is called, or one goes on. -/
abbrev AuthEvent :=
  Mutex.Event AuthRequest AuthCall AuthCall.Answer

/-- A new database after a run. -/
def authDb (es : List AuthEvent) :
    Mutex.Shared AuthRequest AuthCall AuthCall.Answer Db Text (Option User) :=
  Mutex.run AuthRequest.program Db.init es

theorem authDb_snoc (es : List AuthEvent) (e : AuthEvent) :
  (authDb (es ++ [e])).state = (authDb es).state
    ∨ ∃ i answer request p user, e = .step i answer
      ∧ (authDb es).threads[i]? = some (request, .inside p)
      ∧ request.Succeeds (authDb es).state (authDb (es ++ [e])).state
      ∧ Mutex.Settled (authDb (es ++ [e])) i request (.ok user)
  := by
  cases e with
  | call request =>
    left
    unfold authDb
    rw [Mutex.run_snoc]
    rfl
  | step i answer =>
    obtain hsame | ⟨request, p, r, hi, -, hspec, hsettled⟩ :=
      Mutex.step_state AuthRequest.meets Db.init es i answer
    · exact .inl hsame
    · cases r with
      | ok user => exact .inr ⟨i, answer, request, p, user, rfl, hi, hspec, hsettled⟩
      | error e => exact .inl hspec

theorem authDb_sound (es : List AuthEvent) :
  (authDb es).state.Sound
  := by
  induction es using List.reverseRecOn with
  | nil => exact Db.sound_init
  | append_singleton es e ih =>
    obtain hsame | ⟨i, answer, request, p, user, -, -, hsucceeds, -⟩ := authDb_snoc es e
    · rwa [hsame]
    · exact hsucceeds.sound ih

theorem authDb_hasAdmin (h : (authDb es).state.HasAdmin) (more : List AuthEvent) :
  (authDb (es ++ more)).state.HasAdmin
  := by
  induction more using List.reverseRecOn with
  | nil => rwa [List.append_nil]
  | append_singleton more e ih =>
    rw [← List.append_assoc]
    obtain hsame | ⟨i, answer, request, p, user, -, -, hsucceeds, -⟩ :=
      authDb_snoc (es ++ more) e
    · rwa [hsame]
    · exact hsucceeds.hasAdmin (authDb_sound _) ih

/-- The step before which there never was a user, and after which there is one, is that of a
bootstrap. -/
def FirstFromBootstrap (es : List AuthEvent) : Prop :=
  ∀ pre i answer, pre ++ [.step i answer] <+: es →
    (∀ before, before <+: pre → (authDb before).state.users = []) →
    (authDb (pre ++ [.step i answer])).state.users ≠ [] →
    ∃ username password thread,
      (authDb pre).threads[i]? = some (.bootstrapAdmin username password, thread)

/-- If the first user comes from a bootstrap, there was no user yet or there is an
administrator. -/
theorem hasAdmin_of_firstFromBootstrap (h : FirstFromBootstrap es) :
  (∀ before, before <+: es → (authDb before).state.users = []) ∨ (authDb es).state.HasAdmin
  := by
  induction es using List.reverseRecOn with
  | nil =>
    left
    intro before hbefore
    rw [List.prefix_nil.mp hbefore]
    rfl
  | append_singleton es e ih =>
    have hes : FirstFromBootstrap es := by
      intro pre i answer hpre
      exact h pre i answer (hpre.trans (List.prefix_append es [e]))
    obtain hnone | hadmin := ih hes
    · by_cases husers : (authDb (es ++ [e])).state.users = []
      · left
        intro before hbefore
        obtain rfl | hbefore := List.prefix_concat_iff.mp hbefore
        · exact husers
        · exact hnone before hbefore
      · right
        obtain hsame | ⟨i, answer, request, p, user, rfl, hi, hsucceeds, -⟩ := authDb_snoc es e
        · rw [hsame] at husers
          exact absurd (hnone es List.prefix_rfl) husers
        · obtain ⟨username, password, thread, hbootstrap⟩ :=
            h es i answer List.prefix_rfl hnone husers
          rw [hi] at hbootstrap
          cases hbootstrap
          obtain ⟨-, row, -, -, hflag, hadds⟩ := hsucceeds
          rw [hadds]
          exact ⟨row, List.mem_append_right _ List.mem_cons_self, hflag⟩
    · exact .inr (authDb_hasAdmin hadmin [e])

theorem bootstrap_succeeded {i : ℕ} {username password : Text} {user : Option User}
    (h : (authDb es).threads[i]? = some (.bootstrapAdmin username password, .ended (.ok user))) :
  ∃ pre answer, pre ++ [.step i answer] <+: es ∧ (authDb pre).holder = some i
    ∧ (authDb pre).state.users = [] ∧ (authDb (pre ++ [.step i answer])).state.HasAdmin
  := by
  obtain ⟨pre, -, hholder, ⟨hnone, row, -, -, -, hadds⟩ | ⟨answer, hlater, hnone, hadds⟩⟩ :=
    Mutex.tookEffect AuthRequest.meets h
  · have husers := congrArg Db.users hadds
    change _ = _ ++ [row] at husers
    rw [hnone] at husers
    cases husers
  · use pre, answer, hlater, hholder, hnone
    obtain ⟨row, -, -, hflag, hadds⟩ := hadds
    unfold authDb
    rw [hadds]
    exact ⟨row, List.mem_append_right _ List.mem_cons_self, hflag⟩

theorem same_bootstrap {pre pre' : List AuthEvent} {i j : ℕ}
    {answer answer' : ∀ c, AuthCall.Answer c}
    (h : pre ++ [.step i answer] <+: pre' ++ [.step j answer'])
    (hadmin : (authDb (pre ++ [.step i answer])).state.HasAdmin)
    (hnone : (authDb pre').state.users = []) :
  i = j
  := by
  obtain heq | ⟨more, rfl⟩ := List.prefix_concat_iff.mp h
  · obtain ⟨-, hlast⟩ := List.append_inj' heq rfl
    cases hlast
    rfl
  · obtain ⟨row, hrow, -⟩ := authDb_hasAdmin hadmin more
    rw [hnone] at hrow
    cases hrow

/-- Whatever operations are interleaved on a new database: names differ up to the case of ASCII;
there is an administrator as long as there is a user, if the first one comes from a bootstrap; a
bootstrap succeeds only without users, and once; and an operation that failed has changed nothing.
-/
theorem authDb_administrators (es : List AuthEvent) :
  ((authDb es).state.users.Pairwise fun a b => ¬ eqIgnoreAsciiCase a.username b.username)
    ∧ (FirstFromBootstrap es → (authDb es).state.users ≠ [] →
      ∃ row ∈ (authDb es).state.users, row.isAdmin = 1)
    ∧ (∀ i username password user,
      (authDb es).threads[i]? = some (.bootstrapAdmin username password, .ended (.ok user)) →
      ∃ pre, pre <+: es ∧ (authDb pre).holder = some i ∧ (authDb pre).state.users = [])
    ∧ (∀ (i j : ℕ) username password user username' password' user',
      (authDb es).threads[i]? = some (.bootstrapAdmin username password, .ended (.ok user)) →
      (authDb es).threads[j]? = some (.bootstrapAdmin username' password', .ended (.ok user')) →
      i = j)
    ∧ ∀ i request error, (authDb es).threads[i]? = some (request, .ended (.error error)) →
      ∀ pre answer, pre ++ [.step i answer] <+: es →
      (authDb (pre ++ [.step i answer])).state = (authDb pre).state
  := by
  refine ⟨?_, ?_, ?_, ?_, ?_⟩
  · apply (authDb_sound es).names.imp
    intro a b hne heq
    exact hne (nocaseKey_eq heq)
  · intro hfirst husers
    obtain hnone | hadmin := hasAdmin_of_firstFromBootstrap hfirst
    · exact absurd (hnone es List.prefix_rfl) husers
    · exact hadmin
  · intro i username password user h
    obtain ⟨pre, answer, hlater, hholder, hnone, -⟩ := bootstrap_succeeded h
    exact ⟨pre, (List.prefix_append pre _).trans hlater, hholder, hnone⟩
  · intro i j username password user username' password' user' hi hj
    obtain ⟨pre, answer, hpre, -, hnone, hadmin⟩ := bootstrap_succeeded hi
    obtain ⟨pre', answer', hpre', -, hnone', hadmin'⟩ := bootstrap_succeeded hj
    obtain h | h := List.prefix_or_prefix_of_prefix hpre hpre'
    · exact same_bootstrap h hadmin hnone'
    · exact (same_bootstrap h hadmin' hnone).symm
  · intro i request error hi pre answer hpre
    obtain ⟨more, rfl⟩ := hpre
    obtain hsame | ⟨j, answer', request', p, user, heq, -, -, hsettled⟩ := authDb_snoc pre _
    · exact hsame
    · cases heq
      obtain hinside | hended := hsettled.run more
      · unfold authDb at hi
        rw [hinside] at hi
        cases hi
      · unfold authDb at hi
        rw [hended] at hi
        cases hi

/-- The outside of a test: all hashes are the same, and nothing fails. -/
def calm : ∀ c, AuthCall.Answer c
  | .hashPassword _ => .ok "hash"
  | .verifyPassword _ _ => .ok ()
  | .nowSecs => (0 : ℤ)
  | .statement => none

/-- Of two bootstraps that are interleaved, one succeeds. -/
example :
  (authDb ([.call (.bootstrapAdmin "ada" "secret1"), .call (.bootstrapAdmin "bob" "secret2")]
    ++ (List.replicate 12 [.step 0 calm, .step 1 calm]).flatten)).state.users
    = [⟨1, "ada", "hash", 1, 0⟩]
  := by decide +kernel

end Server
