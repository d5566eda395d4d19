import Catio.Server.Auth.Admins
import Catio.Server.Sessions

/-!
# What belongs to users who are gone

A user is gone when the id was given out and has no row any more (`Db.Gone`).  Operations other than
deletions make nobody gone, and make rows for one owner at most (`Db.Grows`).
-/

namespace Server

open Text Program

/-- The ids of users are positive, and were given out. -/
structure Db.Numbered (db : Db) : Prop where
  start : 0 ≤ db.sequence
  ids : ∀ row ∈ db.users, 0 < row.id ∧ row.id ≤ db.sequence

def Db.Present (db : Db) (id : ℤ) : Prop :=
  ∃ row ∈ db.users, row.id = id

/-- The id was given out, and its user is deleted. -/
def Db.Gone (db : Db) (id : ℤ) : Prop :=
  0 < id ∧ id ≤ db.sequence ∧ ¬db.Present id

instance (db : Db) (id : ℤ) : Decidable (db.Present id) :=
  inferInstanceAs (Decidable (∃ row ∈ db.users, row.id = id))

instance (db : Db) (id : ℤ) : Decidable (db.Gone id) :=
  inferInstanceAs (Decidable (0 < id ∧ id ≤ db.sequence ∧ ¬db.Present id))

/-- A secret, an item or a token belongs to the user. -/
def Db.Owns (db : Db) (id : ℤ) : Prop :=
  (∃ key ∈ db.connSecrets, key.1 = id) ∨ (∃ key ∈ db.userStore, key.1 = id) ∨ id ∈ db.mcpTokens

/-- Nobody is deleted, and rows are made for an owner only. -/
structure Db.Grows (owner : Option ℤ) (s s' : Db) : Prop where
  numbered : s'.Numbered
  gone : ∀ id, s'.Gone id ↔ s.Gone id
  rows : ∀ id, s'.Owns id → s.Owns id ∨ owner = some id

variable {s s' : Db} {owner : Option ℤ}

theorem Db.Grows.refl (h : s.Numbered) :
  s.Grows owner s
  where
  numbered := h
  gone _ := Iff.rfl
  rows _ howns := .inl howns

theorem Db.Grows.of_ids (h : s.Numbered) (hids : s'.users.map UserRow.id = s.users.map UserRow.id)
    (hsequence : s'.sequence = s.sequence)
    (hrows : ∀ id, s'.Owns id → s.Owns id ∨ owner = some id) :
  s.Grows owner s'
  := by
  have hpresent (id : ℤ) : s'.Present id ↔ s.Present id := by
    have hmem (db : Db) : db.Present id ↔ id ∈ db.users.map UserRow.id := List.mem_map.symm
    rw [hmem, hmem, hids]
  constructor
  · constructor
    · rw [hsequence]
      exact h.start
    · intro row hrow
      obtain ⟨row', hrow', hid⟩ := (hpresent row.id).mp ⟨row, hrow, rfl⟩
      rw [hsequence, ← hid]
      exact h.ids row' hrow'
  · intro id
    rw [Db.Gone, Db.Gone, hpresent, hsequence]
  · exact hrows

theorem Db.Grows.adds (h : s.Numbered) {isAdmin : ℤ} (hadds : s.Adds isAdmin s') :
  s.Grows none s'
  := by
  obtain ⟨row, -, hid, -, rfl⟩ := hadds
  have hstart := h.start
  constructor
  · constructor
    · change 0 ≤ s.sequence + 1
      omega
    · intro other hother
      change 0 < other.id ∧ other.id ≤ s.sequence + 1
      rcases List.mem_append.mp hother with hother | hother
      · have hused := h.ids other hother
        omega
      · rw [List.mem_singleton.mp hother]
        omega
  · intro id
    constructor
    · rintro ⟨hpositive, hused, habsent⟩
      refine ⟨hpositive, ?_, ?_⟩
      · change id ≤ s.sequence + 1 at hused
        have hne : row.id ≠ id := fun heq =>
          habsent ⟨row, List.mem_append_right _ (List.mem_singleton_self row), heq⟩
        omega
      · rintro ⟨other, hother, heq⟩
        exact habsent ⟨other, List.mem_append_left _ hother, heq⟩
    · rintro ⟨hpositive, hused, habsent⟩
      refine ⟨hpositive, ?_, ?_⟩
      · change id ≤ s.sequence + 1
        omega
      · rintro ⟨other, hother, heq⟩
        rcases List.mem_append.mp hother with hother | hother
        · exact habsent ⟨other, hother, heq⟩
        · rw [List.mem_singleton.mp hother] at heq
          omega
  · exact fun id howns => .inl howns

/-! ### Deletion -/

theorem gone_deletions (h : s.Numbered) (id other : ℤ) :
  ((deletions id).foldl (fun db f => f db) s).Gone other
    ↔ s.Gone other ∨ s.Present id ∧ other = id
  := by
  have hpresent : ((deletions id).foldl (fun db f => f db) s).Present other
      ↔ s.Present other ∧ other ≠ id := by
    constructor
    · rintro ⟨row, hrow, rfl⟩
      have hkept := List.mem_filter.mp hrow
      exact ⟨⟨row, hkept.1, rfl⟩, of_decide_eq_true hkept.2⟩
    · rintro ⟨⟨row, hrow, rfl⟩, hne⟩
      exact ⟨row, List.mem_filter.mpr ⟨hrow, decide_eq_true hne⟩, rfl⟩
  rw [Db.Gone, Db.Gone, hpresent]
  change 0 < other ∧ other ≤ s.sequence ∧ _ ↔ _
  constructor
  · rintro ⟨hpositive, hused, hnot⟩
    by_cases hid : other = id
    · by_cases hthere : s.Present other
      · rw [hid] at hthere
        exact .inr ⟨hthere, hid⟩
      · exact .inl ⟨hpositive, hused, hthere⟩
    · exact .inl ⟨hpositive, hused, fun hthere => hnot ⟨hthere, hid⟩⟩
  · rintro (⟨hpositive, hused, habsent⟩ | ⟨⟨row, hrow, hid⟩, rfl⟩)
    · exact ⟨hpositive, hused, fun hboth => habsent hboth.1⟩
    · have hids := h.ids row hrow
      rw [hid] at hids
      exact ⟨hids.1, hids.2, fun hboth => hboth.2 rfl⟩

theorem numbered_deletions (h : s.Numbered) (id : ℤ) :
  ((deletions id).foldl (fun db f => f db) s).Numbered
  where
  start := h.start
  ids row hrow := h.ids row (List.mem_of_mem_filter hrow)

theorem owns_deletions (id other : ℤ) :
  ((deletions id).foldl (fun db f => f db) s).Owns other ↔ s.Owns other ∧ other ≠ id
  := by
  have hmem {κ ν : Type} [DecidableEq κ] (t : Table κ ν) (p : κ → Bool) (k : κ) :
      k ∈ t.retain (fun k _ => p k) ↔ k ∈ t ∧ p k := by
    rw [Table.mem_iff_exists_lookup, Table.mem_iff_exists_lookup]
    simp [Option.filter_eq_some_iff]
  simp only [Db.Owns, deletions, List.foldl_cons, List.foldl_nil, hmem, decide_eq_true_eq]
  constructor
  · rintro (⟨key, ⟨hkey, hne⟩, rfl⟩ | ⟨key, ⟨hkey, hne⟩, rfl⟩ | ⟨hkey, hne⟩)
    · exact ⟨.inl ⟨key, hkey, rfl⟩, hne⟩
    · exact ⟨.inr (.inl ⟨key, hkey, rfl⟩), hne⟩
    · exact ⟨.inr (.inr hkey), hne⟩
  · rintro ⟨⟨key, hkey, rfl⟩ | ⟨key, hkey, rfl⟩ | hkey, hne⟩
    · exact .inl ⟨key, ⟨hkey, hne⟩, rfl⟩
    · exact .inr (.inl ⟨key, ⟨hkey, hne⟩, rfl⟩)
    · exact .inr (.inr ⟨hkey, hne⟩)

/-! ### Operations -/

section

variable {α : Type} {operation : Preparation (Sql α)}

theorem perform_spec {Q : Db → α → Db → Prop}
    (h : operation.wp
      (fun critical _ _ => ∀ s, critical.wp (fun a s' _ => Q s a s') (fun _ s' _ => s' = s) s [])
      (fun _ _ _ => True) () []) (o : Outside AuthCall.Answer) (db : Db) :
  (∃ a, (perform o operation db).1 = .ok a ∧ Q db a (perform o operation db).2)
    ∨ ∃ e, perform o operation db = (.error e, db)
  := by
  have hprepared := wp_run o h
  unfold perform
  split at hprepared
  · rename_i critical _ _ heq
    rw [heq]
    have hdone := wp_run o (hprepared db)
    dsimp only
    split at hdone
    · rename_i a db' h' heq'
      rw [heq']
      exact .inl ⟨a, rfl, hdone⟩
    · rename_i e db' h' heq'
      rw [heq', hdone]
      exact .inr ⟨e, rfl⟩
  · rename_i e _ _ heq
    rw [heq]
    exact .inr ⟨e, rfl⟩

theorem perform_meets {β : Type} {f : α → β} {spec : Db → Except Text β → Db → Prop}
    (h : Mutex.Meets spec (Program.bind operation fun critical => .done (f <$> critical)))
    (herror : ∀ s e s', spec s (.error e) s' → s' = s) (o : Outside AuthCall.Answer) (db : Db) :
  (∃ a, (perform o operation db).1 = .ok a ∧ spec db (.ok (f a)) (perform o operation db).2)
    ∨ ∃ e, perform o operation db = (.error e, db)
  := by
  refine perform_spec (Q := fun s a s' => spec s (.ok (f a)) s') ?_ o db
  apply wp_mono ((wp_bind operation _).mp h)
  · intro critical _ _ hdoes s
    apply wp_mono ((wp_bind critical _).mp (hdoes.2 s))
    · intro a s' _ hspec
      exact hspec
    · intro e s' _ hspec
      exact herror s e s' hspec
  · intro _ _ _ htrue
    exact htrue

/-- An operation deletes nobody, and makes rows for an owner only. -/
def Writes (owner : Option ℤ) (operation : Preparation (Sql α)) : Prop :=
  ∀ (o : Outside AuthCall.Answer) (db : Db), db.Numbered →
    db.Grows owner (perform o operation db).2

theorem writes_of_spec
    (h : operation.wp
      (fun critical _ _ => ∀ s, critical.wp (fun _ s' _ => s.Numbered → s.Grows owner s')
        (fun _ s' _ => s' = s) s [])
      (fun _ _ _ => True) () []) :
  Writes owner operation
  := by
  intro o db hnumbered
  rcases perform_spec (Q := fun s _ s' => s.Numbered → s.Grows owner s') h o db with
    ⟨a, -, hgrows⟩ | ⟨e, heq⟩
  · exact hgrows hnumbered
  · rw [heq]
    exact .refl hnumbered

theorem execute_grows {f : Db → Db} (hf : ∀ s : Db, s.Numbered → s.Grows owner (f s)) (s : Db)
    (h : List (Event AuthCall.Answer)) :
  (execute fun db => .ok (f db, ())).wp (fun _ s' _ => s.Numbered → s.Grows owner s')
    (fun _ s' _ => s' = s) s h
  := by
  apply wp_mono (execute_spec (E := fun _ s' => s' = s) fun _ => rfl)
  · intro _ s' _ hs'
    cases hs'
    exact hf s
  · intro e s' _ hs'
    exact hs'

theorem writes_execute {f : Db → Db} (hf : ∀ s : Db, s.Numbered → s.Grows owner (f s)) :
  Writes owner (pure (execute fun db => .ok (f db, ())))
  := writes_of_spec fun s => execute_grows hf s []

end

theorem Db.Grows.secrets (h : s.Numbered) {t : Table (ℤ × Text) (List UInt8 × List UInt8)}
    (ht : ∀ key ∈ t, key ∈ s.connSecrets ∨ owner = some key.1) :
  s.Grows owner { s with connSecrets := t }
  := by
  apply Grows.of_ids h
  · rfl
  · rfl
  · rintro id (⟨key, hkey, rfl⟩ | hother)
    · rcases ht key hkey with hold | hnew
      · exact .inl (.inl ⟨key, hold, rfl⟩)
      · exact .inr hnew
    · exact .inl (.inr hother)

theorem Db.Grows.items (h : s.Numbered) {t : Table (ℤ × Text × Text) (Text × ℤ)}
    (ht : ∀ key ∈ t, key ∈ s.userStore ∨ owner = some key.1) :
  s.Grows owner { s with userStore := t }
  := by
  apply Grows.of_ids h
  · rfl
  · rfl
  · rintro id (hother | ⟨key, hkey, rfl⟩ | hother)
    · exact .inl (.inl hother)
    · rcases ht key hkey with hold | hnew
      · exact .inl (.inr (.inl ⟨key, hold, rfl⟩))
      · exact .inr hnew
    · exact .inl (.inr (.inr hother))

theorem Db.Grows.tokens (h : s.Numbered) {t : Table ℤ TokenRow}
    (ht : ∀ key ∈ t, key ∈ s.mcpTokens ∨ owner = some key) :
  s.Grows owner { s with mcpTokens := t }
  := by
  apply Grows.of_ids h
  · rfl
  · rfl
  · rintro id (hother | hother | hkey)
    · exact .inl (.inl hother)
    · exact .inl (.inr (.inl hother))
    · rcases ht id hkey with hold | hnew
      · exact .inl (.inr (.inr hold))
      · exact .inr hnew

theorem mem_insert_of_owner {κ ν : Type} [DecidableEq κ] {t : Table κ ν} {k key : κ} {v : ν}
    (f : κ → ℤ) (h : key ∈ t.insert k v) :
  key ∈ t ∨ some (f k) = some (f key)
  := by
  rcases (AList.mem_insert t).mp h with rfl | h
  · exact .inr rfl
  · exact .inl h

theorem writes_storeSecret (userId : ℤ) (profileId : Text) (nonce ciphertext : List UInt8) :
  Writes (some userId) (storeSecret userId profileId nonce ciphertext)
  := by
  apply writes_execute
  intro s hs
  exact .secrets hs fun key hkey => mem_insert_of_owner Prod.fst hkey

theorem writes_deleteSecret (userId : ℤ) (profileId : Text) :
  Writes none (deleteSecret userId profileId)
  := by
  apply writes_execute
  intro s hs
  exact .secrets hs fun key hkey => .inl (AList.mem_erase.mp hkey).2

theorem writes_storeSet (ownerUserId : ℤ) (store itemId payload : Text) :
  Writes (some ownerUserId) (storeSet ownerUserId store itemId payload)
  := by
  apply writes_of_spec
  intro s now
  apply execute_grows
  intro s hs
  exact .items hs fun key hkey => mem_insert_of_owner Prod.fst hkey

theorem writes_storeDelete (ownerUserId : ℤ) (store itemId : Text) :
  Writes none (storeDelete ownerUserId store itemId)
  := by
  apply writes_execute
  intro s hs
  exact .items hs fun key hkey => .inl (AList.mem_erase.mp hkey).2

theorem writes_storeClear (ownerUserId : ℤ) (store : Text) :
  Writes none (storeClear ownerUserId store)
  := by
  apply writes_execute
  intro s hs
  apply Db.Grows.items hs
  intro key hkey
  rw [Table.mem_iff_exists_lookup, Table.lookup_retain] at hkey
  obtain ⟨v, hv⟩ := hkey
  exact .inl (Table.mem_iff_exists_lookup.mpr ⟨v, (Option.filter_eq_some_iff.mp hv).1⟩)

theorem writes_mcpTokenUpsert (userId : ℤ) (token : Text) :
  Writes (some userId) (mcpTokenUpsert userId token)
  := by
  apply writes_of_spec
  intro s now
  apply execute_grows (f := fun db => { db with
    mcpTokens := db.mcpTokens.insert userId (upsertToken token now (db.mcpTokens.lookup userId)) })
  intro s hs
  exact .tokens hs fun key hkey => mem_insert_of_owner id hkey

theorem writes_mcpTokenSetEnabled (userId : ℤ) (enabled : Bool) :
  Writes none (mcpTokenSetEnabled userId enabled)
  := by
  apply writes_execute
  intro s hs
  exact .tokens hs fun key hkey => .inl (Table.mem_modify.mp hkey)

theorem writes_mcpTokenGet (userId : ℤ) :
  Writes none (mcpTokenGet userId)
  := by
  apply writes_of_spec
  intro s
  apply wp_mono (query_spec (E := fun _ s' => s' = s) fun _ => rfl)
  · rintro a s' _ ⟨-, rfl⟩ hs
    exact .refl hs
  · intro e s' _ hs'
    exact hs'

theorem writes_changePassword (userId : ℤ) (oldPassword newPassword : Text) :
  Writes none (changePassword userId oldPassword newPassword)
  := by
  intro o db hnumbered
  rcases perform_meets (changePassword_meets userId oldPassword newPassword)
    (fun _ _ _ h => h) o db with ⟨a, -, newHash, hnew⟩ | ⟨e, heq⟩
  · rw [hnew]
    apply Db.Grows.of_ids hnumbered
    · simp
    · rfl
    · exact fun id howns => .inl howns
  · rw [heq]
    exact .refl hnumbered

/-! ### Signing in -/

/-- An operation that succeeds with a user who is not gone. -/
def SignsIn (operation : Preparation (Sql User)) : Prop :=
  ∀ (o : Outside AuthCall.Answer) (db : Db), db.Numbered →
    db.Grows none (perform o operation db).2
      ∧ ∀ user : User, (perform o operation db).1 = .ok user →
        ¬(perform o operation db).2.Gone user.id

theorem SignsIn.writes {operation : Preparation (Sql User)} (h : SignsIn operation) :
  Writes none operation
  := fun o db hnumbered => (h o db hnumbered).1

theorem signsIn_of_spec {operation : Preparation (Sql User)}
    (h : operation.wp
      (fun critical _ _ => ∀ s, critical.wp
        (fun (user : User) s' _ => s.Numbered → s.Grows none s' ∧ s'.Present user.id)
        (fun _ s' _ => s' = s) s [])
      (fun _ _ _ => True) () []) :
  SignsIn operation
  := by
  intro o db hnumbered
  rcases perform_spec
    (Q := fun s (user : User) s' => s.Numbered → s.Grows none s' ∧ s'.Present user.id) h o db with
    ⟨user, huser, hdone⟩ | ⟨e, heq⟩
  · obtain ⟨hgrows, hpresent⟩ := hdone hnumbered
    refine ⟨hgrows, fun user' huser' hgone => ?_⟩
    rw [huser] at huser'
    cases huser'
    exact hgone.2.2 hpresent
  · rw [heq]
    exact ⟨.refl hnumbered, by rintro user ⟨⟩⟩

theorem insertUser_present {username hash : Text} {isAdmin createdAt id : ℤ}
    (h : insertUser username hash isAdmin createdAt s = .ok (s', id)) :
  s'.Present id
  := by
  obtain ⟨-, rfl, rfl⟩ := insertUser_ok h
  exact ⟨_, List.mem_append_right _ (List.mem_singleton_self _), rfl⟩

theorem signsIn_createUser (username password : Text) (isAdmin : Bool) :
  SignsIn (createUser username password isAdmin)
  := by
  apply signsIn_of_spec
  apply wp_seq (R := fun _ _ _ => True)
  · exact checkedHash_spec fun _ _ _ => trivial
  · intro hash _ _ _ now s
    apply wp_attempt_seq (execute_spec (E := fun _ s' => s' = s) fun _ => rfl)
    · intro id s' _ hinsert hs
      exact ⟨.adds hs (insertUser_eq_ok hinsert), insertUser_present hinsert⟩
    · intro e s' _ hsame
      exact hsame

theorem signsIn_bootstrapAdmin (username password : Text) :
  SignsIn (bootstrapAdmin username password)
  := by
  apply signsIn_of_spec
  apply wp_seq (R := fun _ _ _ => True)
  · exact checkedHash_spec fun _ _ _ => trivial
  · intro hash _ _ _ now s
    apply wp_seq (query_spec (E := fun _ s' => s' = s) fun _ => rfl)
    rintro count s' _ ⟨rfl, rfl⟩
    rw [wp_ite]
    constructor
    · intro _
      exact rfl
    · intro hcount
      apply wp_seq (execute_spec (E := fun _ s'' => s'' = s') fun _ => rfl)
      intro id s'' _ hinsert hs
      exact ⟨.adds hs (insertUser_eq_ok hinsert), insertUser_present hinsert⟩

theorem signsIn_verifyLogin (username password : Text) :
  SignsIn (verifyLogin username password)
  := by
  apply signsIn_of_spec
  intro s
  apply wp_seq (query_spec (E := fun _ s' => s' = s) fun _ => rfl)
  rintro row s' _ ⟨hrow, rfl⟩
  split
  · exact rfl
  · rename_i row
    rintro (e | ⟨⟩)
    · exact rfl
    · intro hs
      exact ⟨.refl hs, row, List.mem_of_find?_eq_some hrow.symm, rfl⟩

end Server
