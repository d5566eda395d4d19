import Catio.Lib.Places
import Catio.Optical

/-!
# What grants guard

In every run: a read returns data only under a grant that was open when it began and when it
returned; a grant has one read at a time; a scope has eight grants at most; and after five wrong
passphrases nobody gets in for a while.  Grant tokens are random, so no token is issued twice.
-/

namespace Optical

open Text

/-- What a read is; what happens to it may differ. -/
structure ReadLease.Same (r r' : ReadLease) : Prop where
  scope : r'.scope = r.scope
  token : r'.token = r.token
  requestId : r'.requestId = r.requestId
  cancel : r'.cancel = r.cancel

theorem ReadLease.Same.trans {r r' r'' : ReadLease} (h : r.Same r') (h' : r'.Same r'') :
  r.Same r''
  := ⟨h'.scope.trans h.scope, h'.token.trans h.token, h'.requestId.trans h.requestId,
    h'.cancel.trans h.cancel⟩

namespace OpticalState

/-! ### Small steps -/

section

variable {s : OpticalState} {token : Text} {g : Grant} {p : Text → Grant → Bool}

theorem grant_revoke :
  (s.revoke p).grant token = some g ↔ s.grant token = some g ∧ p token g = false
  := by
  change (s.inner.grants.retain _).lookup token = some g ↔ _
  rw [Table.lookup_retain, Option.filter_eq_some_iff, Bool.not_eq_true']
  rfl

theorem mem_cancels_revoke {c : CancellationToken} :
  c ∈ (s.revoke p).cancels
    ↔ (∃ token g, s.grant token = some g ∧ p token g ∧ g.cancel = c) ∨ c ∈ s.cancels
  := by
  change c ∈ ((s.inner.grants.retain p).entries.map (·.2.cancel)) ++ s.cancels ↔ _
  rw [List.mem_append, List.mem_map]
  apply or_congr_left
  constructor
  · rintro ⟨⟨token, g⟩, hmem, rfl⟩
    have hlookup := Table.lookup_eq_some.mpr hmem
    rw [Table.lookup_retain, Option.filter_eq_some_iff] at hlookup
    exact ⟨token, g, hlookup.1, hlookup.2, rfl⟩
  · rintro ⟨token, g, hg, hp, rfl⟩
    use ⟨token, g⟩
    constructor
    · apply Table.lookup_eq_some.mp
      rw [Table.lookup_retain, Option.filter_eq_some_iff]
      exact ⟨hg, hp⟩
    · rfl

theorem isCancelled_iff {c : CancellationToken} :
  s.isCancelled c ↔ ∃ t ∈ s.cancels, t <+: c
  := by
  unfold isCancelled
  simp

end

/-! ### What holds in every state -/

/-- The number of a grant is the place of its token among those issued, and a read has its grant's
number and its own. -/
structure Sound (s : OpticalState) : Prop where
  grants : ∀ token g, s.grant token = some g →
    ∃ n, s.issued[n]? = some token ∧ g.cancel = [n]
  reads : ∀ (k : ℕ) (r : ReadLease), s.reads[k]? = some r →
    ∃ n, s.issued[n]? = some r.token ∧ r.cancel = [n, k]
  leases : ∀ token g requestId (c : CancellationToken), s.grant token = some g →
    g.reads.lookup requestId = some c → c.length = 2
  open_ : ∀ token g, s.grant token = some g → g.cancel ∉ s.cancels
  root : [] ∉ s.cancels
  old : ∀ n, [n] ∈ s.cancels → n < s.issued.length
  flight : ∀ (k : ℕ) (r : ReadLease) g, s.reads[k]? = some r → r.dropped = false →
    s.grant r.token = some g → g.reads.lookup r.requestId = some r.cancel
  single : ∀ (j k : ℕ) (r r' : ReadLease), s.reads[j]? = some r → s.reads[k]? = some r' →
    r.dropped = false → r'.dropped = false → r.token = r'.token → j = k
  scopes : ∀ scope, s.inner.grants.count (fun _ g => g.scope = scope) ≤ 8

section

variable {s s' : OpticalState}

theorem sound_init (enabled : Bool) (hash : Option Text) (configError : Bool) :
  (init enabled hash configError).Sound
  where
  grants _ _ h := by cases h
  reads _ _ h := by cases h
  leases _ _ _ _ h := by cases h
  open_ _ _ h := by cases h
  root h := by cases h
  old _ h := by cases h
  flight _ _ _ h := by cases h
  single _ _ _ _ h := by cases h
  scopes _ := Nat.zero_le 8

theorem Sound.congr (h : s.Sound) (hgrants : s'.inner.grants = s.inner.grants)
    (hcancels : s'.cancels = s.cancels) (hissued : s'.issued = s.issued)
    (hreads : s'.reads = s.reads) :
  s'.Sound
  := by
  have hgrant : s'.grant = s.grant := by
    unfold grant
    rw [hgrants]
  constructor
  · rw [hgrant, hissued]
    exact h.grants
  · rw [hreads, hissued]
    exact h.reads
  · rw [hgrant]
    exact h.leases
  · rw [hgrant, hcancels]
    exact h.open_
  · rw [hcancels]
    exact h.root
  · rw [hcancels, hissued]
    exact h.old
  · rw [hreads, hgrant]
    exact h.flight
  · rw [hreads]
    exact h.single
  · rw [hgrants]
    exact h.scopes

theorem Sound.not_cancelled (h : s.Sound) {token : Text} {g : Grant} (hg : s.grant token = some g) :
  s.isCancelled g.cancel = false
  := by
  rw [Bool.eq_false_iff, ne_eq, isCancelled_iff]
  rintro ⟨t, ht, hprefix⟩
  obtain ⟨n, -, hn⟩ := h.grants token g hg
  rw [hn] at hprefix
  obtain rfl | ⟨rest, rfl, hrest⟩ := List.prefix_cons_iff.mp hprefix
  · exact h.root ht
  · rw [List.prefix_nil.mp hrest, ← hn] at ht
    exact h.open_ token g hg ht

theorem Sound.revoke (h : s.Sound) (p : Text → Grant → Bool) :
  (s.revoke p).Sound
  where
  grants token g hg := h.grants token g (grant_revoke.mp hg).1
  reads := h.reads
  leases token g requestId c hg := h.leases token g requestId c (grant_revoke.mp hg).1
  open_ token g hg hmem := by
    obtain ⟨hg, hp⟩ := grant_revoke.mp hg
    obtain ⟨token', g', hg', hp', hsame⟩ | hmem := mem_cancels_revoke.mp hmem
    · obtain ⟨n, hn, hcancel⟩ := h.grants token g hg
      obtain ⟨n', hn', hcancel'⟩ := h.grants token' g' hg'
      rw [hcancel, hcancel'] at hsame
      cases hsame
      rw [hn, Option.some.injEq] at hn'
      subst hn'
      rw [hg, Option.some.injEq] at hg'
      subst hg'
      rw [hp] at hp'
      cases hp'
    · exact h.open_ token g hg hmem
  root hmem := by
    obtain ⟨token, g, hg, -, hnil⟩ | hmem := mem_cancels_revoke.mp hmem
    · obtain ⟨n, -, hcancel⟩ := h.grants token g hg
      rw [hcancel] at hnil
      cases hnil
    · exact h.root hmem
  old n hmem := by
    obtain ⟨token, g, hg, -, hcancel⟩ | hmem := mem_cancels_revoke.mp hmem
    · obtain ⟨n', hn', hcancel'⟩ := h.grants token g hg
      rw [hcancel'] at hcancel
      cases hcancel
      exact (List.getElem?_eq_some_iff.mp hn').1
    · exact h.old n hmem
  flight k r g hr hdropped hg := h.flight k r g hr hdropped (grant_revoke.mp hg).1
  single := h.single
  scopes scope := (Table.count_retain_le ..).trans (h.scopes scope)

theorem oldestOf_spec {grants : Table Text Grant} {scope : Text} (tie : Text)
    (h : 0 < grants.count fun _ g => g.scope = scope) :
  ∃ token g, oldestOf grants scope tie = some token ∧ grants.lookup token = some g
    ∧ g.scope = scope
  := by
  have hmine (e : Σ _ : Text, Grant) (he : e ∈ (grants.retain fun _ g => g.scope = scope).entries) :
      grants.lookup e.1 = some e.2 ∧ e.2.scope = scope := by
    have hlookup := Table.lookup_eq_some.mpr he
    rw [Table.lookup_retain, Option.filter_eq_some_iff, decide_eq_true_eq] at hlookup
    exact hlookup
  have hmin : ∃ token g, ((grants.retain fun _ g => g.scope = scope).entries.argmin
      fun e => e.2.expires).map (·.1) = some token ∧ grants.lookup token = some g
        ∧ g.scope = scope := by
    cases he : (grants.retain fun _ g => g.scope = scope).entries.argmin fun e => e.2.expires with
    | none =>
      rw [List.argmin_eq_none] at he
      obtain ⟨e, hmem, hscope⟩ := List.countP_pos_iff.mp h
      have hin : e ∈ (grants.retain fun _ g => g.scope = scope).entries :=
        List.mem_filter.mpr ⟨hmem, hscope⟩
      rw [he] at hin
      cases hin
    | some e => exact ⟨e.1, e.2, rfl, hmine e (List.argmin_mem he)⟩
  unfold oldestOf
  dsimp only
  split
  · rename_i g hg
    split
    · exact ⟨tie, g, rfl, hmine ⟨tie, g⟩ (Table.lookup_eq_some.mp hg)⟩
    · exact hmin
  · exact hmin

theorem Sound.makeRoom (h : s.Sound) (a : Attempt) :
  (s.makeRoom a).Sound
    ∧ ((s.makeRoom a).inner.grants.count fun _ g => g.scope = a.scope) < 8
  := by
  unfold OpticalState.makeRoom
  dsimp only
  generalize hswept : s.revoke _ = swept
  have hsound : swept.Sound := by
    rw [← hswept]
    exact h.revoke _
  split
  · rename_i hfull
    use hsound.revoke _
    obtain ⟨token, g, holdest, hg, hscope⟩ :=
      oldestOf_spec a.oldest (lt_of_lt_of_le (by decide) hfull)
    have hless : (Table.count (fun _ g => g.scope = a.scope) (swept.inner.grants.retain
        fun token _ => !decide (some token = oldestOf swept.inner.grants a.scope a.oldest)))
        < swept.inner.grants.count fun _ g => g.scope = a.scope := by
      apply Table.count_retain_lt hg
      · simpa using hscope
      · simp [holdest]
    exact lt_of_lt_of_le hless (hsound.scopes a.scope)
  · rename_i hfew
    exact ⟨hsound, not_le.mp hfew⟩

theorem Sound.insert (h : s.Sound) {token scope : Text} {expires now : Instant}
    (hnew : token ∉ s.issued) (hroom : (s.inner.grants.count fun _ g => g.scope = scope) < 8) :
  Sound { s.setGrants (s.inner.grants.insert token
    ⟨scope, expires, [s.issued.length], ∅, []⟩) with
      now := now
      issued := s.issued ++ [token] }
  := by
  have hissued {n : ℕ} {t : Text} (hn : s.issued[n]? = some t) :
      (s.issued ++ [token])[n]? = some t := by
    rw [List.getElem?_append_left (List.getElem?_eq_some_iff.mp hn).1, hn]
  have hold {t : Text} {g : Grant} (hne : t ≠ token)
      (hg : (s.inner.grants.insert token
        ⟨scope, expires, [s.issued.length], ∅, []⟩).lookup t = some g) :
      s.grant t = some g := by
    rwa [AList.lookup_insert_ne hne] at hg
  constructor
  · intro t g hg
    obtain rfl | hne := eq_or_ne t token
    · rw [grant, setGrants, AList.lookup_insert, Option.some.injEq] at hg
      subst hg
      exact ⟨s.issued.length, List.getElem?_concat_length, rfl⟩
    · obtain ⟨n, hn, hcancel⟩ := h.grants t g (hold hne hg)
      exact ⟨n, hissued hn, hcancel⟩
  · intro k r hr
    obtain ⟨n, hn, hcancel⟩ := h.reads k r hr
    exact ⟨n, hissued hn, hcancel⟩
  · intro t g requestId c hg hc
    obtain rfl | hne := eq_or_ne t token
    · rw [grant, setGrants, AList.lookup_insert, Option.some.injEq] at hg
      subst hg
      cases hc
    · exact h.leases t g requestId c (hold hne hg) hc
  · intro t g hg hmem
    obtain rfl | hne := eq_or_ne t token
    · rw [grant, setGrants, AList.lookup_insert, Option.some.injEq] at hg
      subst hg
      exact lt_irrefl _ (h.old _ hmem)
    · exact h.open_ t g (hold hne hg) hmem
  · exact h.root
  · intro n hmem
    have hlt := h.old n hmem
    change n < (s.issued ++ [token]).length
    rw [List.length_append]
    omega
  · intro k r g hr hdropped hg
    obtain ⟨n, hn, -⟩ := h.reads k r hr
    have hne : r.token ≠ token := by
      rintro rfl
      exact hnew (List.mem_of_getElem? hn)
    exact h.flight k r g hr hdropped (hold hne hg)
  · exact h.single
  · intro scope'
    apply (Table.count_insert_le ..).trans
    split
    · rename_i hsame
      rw [decide_eq_true_eq] at hsame
      subst hsame
      exact hroom
    · exact h.scopes scope'

theorem authenticate_cases (s : OpticalState) (a : Attempt) :
  s.authenticate a = (.error "optical.wrongPassphrase", s.fail)
    ∨ (∃ e, s.authenticate a = (.error e, s) ∧ e ≠ "optical.wrongPassphrase")
    ∨ ∃ hash, s.authenticate a = (.ok (), { s with inner := { s.inner with hash := hash } })
  := by
  unfold authenticate
  split
  · split
    · exact .inr (.inl ⟨_, rfl, by decide⟩)
    · split
      · exact .inr (.inl ⟨_, rfl, by decide⟩)
      · split
        · exact .inr (.inl ⟨_, rfl, by decide⟩)
        · exact .inr (.inr ⟨_, rfl⟩)
  · split
    · exact .inr (.inl ⟨_, rfl, by decide⟩)
    · split
      · exact .inr (.inl ⟨_, rfl, by decide⟩)
      · split
        · exact .inr (.inr ⟨s.inner.hash, rfl⟩)
        · exact .inl rfl

theorem unlockSync_cases (s : OpticalState) (a : Attempt) :
  (∃ e now, s.unlockSync a = (.error e, { s with now := now }) ∧ s.now ≤ now
      ∧ e ≠ "optical.wrongPassphrase")
    ∨ s.inner.retryAt.all (· ≤ s.now)
      ∧ (s.unlockSync a
          = (.error "optical.wrongPassphrase", { s with now := s.now + a.verifying }.fail)
        ∨ ∃ hash, s.unlockSync a = (.ok a.token,
          { s with now := s.now + a.verifying, inner := { s.inner with hash := hash } }.issue a))
  := by
  unfold unlockSync
  split
  · exact .inl ⟨_, s.now, rfl, le_refl _, by decide⟩
  · split
    · exact .inl ⟨_, s.now, rfl, le_refl _, by decide⟩
    · split
      · exact .inl ⟨_, s.now, rfl, le_refl _, by decide⟩
      · split
        · exact .inl ⟨_, s.now, rfl, le_refl _, by decide⟩
        · rename_i hretry
          have hopen : s.inner.retryAt.all (· ≤ s.now) := by
            cases hat : s.inner.retryAt with
            | none => rfl
            | some t => simpa [hat] using hretry
          obtain hwrong | ⟨e, herror, hne⟩ | ⟨hash, hok⟩ :=
            authenticate_cases { s with now := s.now + a.verifying } a
          · rw [hwrong]
            exact .inr ⟨hopen, .inl rfl⟩
          · rw [herror]
            exact .inl ⟨e, s.now + a.verifying, rfl, Nat.le_add_right .., hne⟩
          · rw [hok]
            exact .inr ⟨hopen, .inr ⟨hash, rfl⟩⟩

theorem Sound.fail (h : s.Sound) :
  s.fail.Sound
  := by
  unfold OpticalState.fail
  dsimp only
  split
  · exact h.congr rfl rfl rfl rfl
  · exact h.congr rfl rfl rfl rfl

theorem makeRoom_issued (a : Attempt) :
  (s.makeRoom a).issued = s.issued
  := by
  unfold makeRoom
  dsimp only
  split
  · rfl
  · rfl

theorem makeRoom_reads (a : Attempt) :
  (s.makeRoom a).reads = s.reads
  := by
  unfold makeRoom
  dsimp only
  split
  · rfl
  · rfl

theorem Sound.issue (h : s.Sound) (a : Attempt) (hissued : (s.issue a).issued.Nodup) :
  (s.issue a).Sound
  := by
  have hopen : OpticalState.Sound
      { s with inner := { s.inner with failures := 0, retryAt := none } } :=
    h.congr rfl rfl rfl rfl
  obtain ⟨hroom, hfew⟩ := hopen.makeRoom a
  apply hroom.insert _ hfew
  have hlast := List.nodup_append.mp hissued
  intro hmem
  exact hlast.2.2 _ hmem _ (List.mem_singleton_self _) rfl

theorem Sound.unlockSync (h : s.Sound) (a : Attempt) (hissued : (s.unlockSync a).2.issued.Nodup) :
  (s.unlockSync a).2.Sound
  := by
  obtain ⟨e, now, herror, -, -⟩ | ⟨-, hwrong | ⟨hash, hok⟩⟩ := unlockSync_cases s a
  · rw [herror]
    exact h.congr rfl rfl rfl rfl
  · rw [hwrong]
    have hlater : OpticalState.Sound { s with now := s.now + a.verifying } :=
      h.congr rfl rfl rfl rfl
    exact hlater.fail
  · rw [hok] at hissued ⊢
    apply Sound.issue _ a hissued
    exact h.congr rfl rfl rfl rfl

theorem Sound.modify (h : s.Sound) (token : Text) (f : Grant → Grant) (reads : List ReadLease)
    (hscope : ∀ g, (f g).scope = g.scope) (hcancel : ∀ g, (f g).cancel = g.cancel)
    (hreads : ∀ (k : ℕ) (r : ReadLease), reads[k]? = some r →
      ∃ n, s.issued[n]? = some r.token ∧ r.cancel = [n, k])
    (hleases : ∀ g requestId (c : CancellationToken), s.grant token = some g →
      (f g).reads.lookup requestId = some c → c.length = 2)
    (hflight : ∀ (k : ℕ) (r : ReadLease) g, reads[k]? = some r → r.dropped = false →
      s.grant r.token = some g →
      (if r.token = token then f g else g).reads.lookup r.requestId = some r.cancel)
    (hsingle : ∀ (j k : ℕ) (r r' : ReadLease), reads[j]? = some r → reads[k]? = some r' →
      r.dropped = false → r'.dropped = false → r.token = r'.token → j = k) :
  Sound { s.setGrants (s.inner.grants.modify token f) with reads := reads }
  := by
  have hold {t : Text} {g' : Grant}
      (hg' : (s.inner.grants.modify token f).lookup t = some g') :
      ∃ g, s.grant t = some g ∧ g' = (if t = token then f g else g) ∧ g'.cancel = g.cancel := by
    obtain ⟨g, hg, rfl⟩ := Table.lookup_modify_eq_some.mp hg'
    use g, hg, rfl
    split
    · exact hcancel g
    · rfl
  constructor
  · intro t g' hg'
    obtain ⟨g, hg, -, hsame⟩ := hold hg'
    rw [hsame]
    exact h.grants t g hg
  · exact hreads
  · intro t g' requestId c hg' hc
    obtain ⟨g, hg, rfl, -⟩ := hold hg'
    split at hc
    · rename_i heq
      subst heq
      exact hleases g requestId c hg hc
    · exact h.leases t g requestId c hg hc
  · intro t g' hg'
    obtain ⟨g, hg, -, hsame⟩ := hold hg'
    rw [hsame]
    exact h.open_ t g hg
  · exact h.root
  · exact h.old
  · intro k r g' hr hdropped hg'
    obtain ⟨g, hg, rfl, -⟩ := hold hg'
    exact hflight k r g hr hdropped hg
  · exact hsingle
  · intro scope
    change Table.count _ (s.inner.grants.modify token f) ≤ 8
    rw [Table.count_modify]
    · exact h.scopes scope
    · intro g
      rw [hscope]

theorem Sound.cancelReads (h : s.Sound) {cs : List CancellationToken}
    (hcs : ∀ c ∈ cs, c.length = 2) :
  Sound { s with cancels := cs ++ s.cancels }
  where
  grants := h.grants
  reads := h.reads
  leases := h.leases
  open_ token g hg hmem := by
    obtain hmem | hmem := List.mem_append.mp hmem
    · obtain ⟨n, -, hcancel⟩ := h.grants token g hg
      have htwo := hcs _ hmem
      rw [hcancel] at htwo
      cases htwo
    · exact h.open_ token g hg hmem
  root hmem := by
    obtain hmem | hmem := List.mem_append.mp hmem
    · cases hcs _ hmem
    · exact h.root hmem
  old n hmem := by
    obtain hmem | hmem := List.mem_append.mp hmem
    · cases hcs _ hmem
    · exact h.old n hmem
  flight := h.flight
  single := h.single
  scopes := h.scopes

theorem Sound.cancel (h : s.Sound) (scope token requestId : Text) :
  (s.cancel scope token requestId).Sound
  := by
  unfold OpticalState.cancel
  split
  · exact h
  · split
    · exact h
    · rename_i g hg
      rw [Option.filter_eq_some_iff] at hg
      have hmodified := h.modify token
        (fun g => { g with cancelled := remember g.cancelled requestId }) s.reads
        (fun _ => rfl) (fun _ => rfl) h.reads (h.leases token) (by
          intro k r g' hr hdropped hg'
          have hkept := h.flight k r g' hr hdropped hg'
          split
          · exact hkept
          · exact hkept) h.single
      apply hmodified.cancelReads
      intro c hc
      exact h.leases token g requestId c hg.1 (Option.mem_toList.mp hc)

theorem Sound.setRead (h : s.Sound) {k : ℕ} {r r' : ReadLease} (hr : s.reads[k]? = some r)
    (hsame : r.Same r') (hdropped : r'.dropped = r.dropped) :
  (s.setRead k r').Sound
  := by
  have hold {j : ℕ} {q' : ReadLease} (hq' : (s.reads.set k r')[j]? = some q') :
      ∃ q, s.reads[j]? = some q ∧ q.Same q' ∧ q'.dropped = q.dropped := by
    obtain ⟨rfl, rfl⟩ | ⟨-, hq'⟩ := Places.getElem?_set hq'
    · exact ⟨r, hr, hsame, hdropped⟩
    · exact ⟨q', hq', ⟨rfl, rfl, rfl, rfl⟩, rfl⟩
  constructor
  · exact h.grants
  · intro j q' hq'
    obtain ⟨q, hq, hqsame, -⟩ := hold hq'
    rw [hqsame.token, hqsame.cancel]
    exact h.reads j q hq
  · exact h.leases
  · exact h.open_
  · exact h.root
  · exact h.old
  · intro j q' g hq' hopen hg
    obtain ⟨q, hq, hqsame, hqdropped⟩ := hold hq'
    rw [hqsame.requestId, hqsame.cancel]
    rw [hqdropped] at hopen
    rw [hqsame.token] at hg
    exact h.flight j q g hq hopen hg
  · intro i j q' p' hq' hp' hqopen hpopen htoken
    obtain ⟨q, hq, hqsame, hqdropped⟩ := hold hq'
    obtain ⟨p, hp, hpsame, hpdropped⟩ := hold hp'
    rw [hqdropped] at hqopen
    rw [hpdropped] at hpopen
    rw [hqsame.token, hpsame.token] at htoken
    exact h.single i j q p hq hp hqopen hpopen htoken
  · exact h.scopes

theorem Sound.select (h : s.Sound) (k : ℕ) (answer : Except Text OpticalFile) :
  (s.select k answer).Sound
  := by
  unfold OpticalState.select
  split
  · exact h
  · rename_i r hr
    split
    · exact h
    · exact h.setRead hr ⟨rfl, rfl, rfl, rfl⟩ rfl

theorem Sound.finish (h : s.Sound) (k : ℕ) :
  (s.finish k).Sound
  := by
  unfold OpticalState.finish
  split
  · exact h
  · rename_i r hr
    split
    · exact h
    · split
      · exact h
      · exact h.setRead hr ⟨rfl, rfl, rfl, rfl⟩ rfl

theorem beginRead_cases (s : OpticalState) (scope token requestId : Text) :
  (∃ e, s.beginRead scope token requestId = (.error e, s))
    ∨ ∃ g, s.enabled ∧ s.grant token = some g ∧ g.scope = scope ∧ s.now < g.expires
      ∧ validRequestId requestId ∧ requestId ∉ g.cancelled ∧ g.reads.size = 0
      ∧ s.beginRead scope token requestId
        = (.ok ⟨scope, token, requestId, g.cancel ++ [s.reads.length], g.expires, none, none,
            false⟩,
          { s.setGrants (s.inner.grants.modify token fun g' =>
              { g' with reads := g'.reads.insert requestId (g.cancel ++ [s.reads.length]) }) with
            reads := s.reads ++ [⟨scope, token, requestId, g.cancel ++ [s.reads.length], g.expires,
              none, none, false⟩] })
  := by
  unfold beginRead
  split
  · exact .inl ⟨_, rfl⟩
  · rename_i henabled
    split
    · exact .inl ⟨_, rfl⟩
    · rename_i g hg
      rw [Option.filter_eq_some_iff, Bool.and_eq_true, decide_eq_true_eq, decide_eq_true_eq] at hg
      obtain ⟨hg, hscope, hnow⟩ := hg
      split
      · exact .inl ⟨_, rfl⟩
      · rename_i hvalid
        split
        · exact .inl ⟨_, rfl⟩
        · rename_i hnot
          split
          · exact .inl ⟨_, rfl⟩
          · rename_i hidle
            right
            use g
            refine ⟨?_, hg, hscope, hnow, ?_, hnot, ?_, rfl⟩
            · simpa using henabled
            · simpa using hvalid
            · simpa using hidle

theorem Sound.beginRead (h : s.Sound) (scope token requestId : Text) :
  (s.beginRead scope token requestId).2.Sound
  := by
  obtain ⟨e, herror⟩ | ⟨g, -, hg, -, -, -, -, hidle, hok⟩ :=
    beginRead_cases s scope token requestId
  · rw [herror]
    exact h
  · rw [hok]
    obtain ⟨n, hn, hcancel⟩ := h.grants token g hg
    -- no other read of the grant is under way
    have hempty (requestId : Text) (c : CancellationToken) :
        g.reads.lookup requestId ≠ some c := by
      intro hc
      have hmem := Table.lookup_eq_some.mp hc
      rw [List.length_eq_zero_iff.mp hidle] at hmem
      cases hmem
    have hnone (k : ℕ) (r : ReadLease) (hr : s.reads[k]? = some r) (hopen : r.dropped = false) :
        r.token ≠ token := by
      rintro rfl
      exact hempty r.requestId r.cancel (h.flight k r g hr hopen hg)
    apply h.modify token
    · exact fun _ => rfl
    · exact fun _ => rfl
    · intro k r hr
      obtain ⟨rfl, rfl⟩ | hr := Places.getElem?_snoc hr
      · exact ⟨n, hn, by rw [hcancel]; rfl⟩
      · exact h.reads k r hr
    · intro g' id c hg' hc
      rw [hg, Option.some.injEq] at hg'
      subst hg'
      by_cases hid : id = requestId
      · subst hid
        rw [AList.lookup_insert, Option.some.injEq] at hc
        rw [← hc, hcancel]
        rfl
      · rw [AList.lookup_insert_ne hid] at hc
        exact absurd hc (hempty id c)
    · intro k r g' hr hopen hg'
      obtain ⟨rfl, rfl⟩ | hr := Places.getElem?_snoc hr
      · rw [if_pos rfl, AList.lookup_insert]
      · rw [if_neg (hnone k r hr hopen)]
        exact h.flight k r g' hr hopen hg'
    · intro j k r r' hr hr' hopen hopen' htoken
      obtain ⟨rfl, rfl⟩ | hr := Places.getElem?_snoc hr
      · obtain ⟨rfl, rfl⟩ | hr' := Places.getElem?_snoc hr'
        · rfl
        · exact absurd htoken.symm (hnone k r' hr' hopen')
      · obtain ⟨rfl, rfl⟩ | hr' := Places.getElem?_snoc hr'
        · exact absurd htoken (hnone j r hr hopen)
        · exact h.single j k r r' hr hr' hopen hopen' htoken

theorem Sound.drop (h : s.Sound) (k : ℕ) :
  (s.drop k).Sound
  := by
  unfold OpticalState.drop
  split
  · exact h
  · rename_i r hr
    split
    · exact h
    · rename_i hopen
      rw [Bool.not_eq_true] at hopen
      apply h.modify r.token
      · exact fun _ => rfl
      · exact fun _ => rfl
      · intro j q hq
        obtain ⟨rfl, rfl⟩ | ⟨-, hq⟩ := Places.getElem?_set hq
        · exact h.reads j r hr
        · exact h.reads j q hq
      · intro g id c hg hc
        apply h.leases r.token g id c hg
        by_cases hid : id = r.requestId
        · subst hid
          rw [AList.lookup_erase] at hc
          cases hc
        · rwa [AList.lookup_erase_ne hid] at hc
      · intro j q g hq hqopen hg
        obtain ⟨rfl, rfl⟩ | ⟨hne, hq⟩ := Places.getElem?_set hq
        · cases hqopen
        · rw [if_neg]
          · exact h.flight j q g hq hqopen hg
          · intro htoken
            exact hne (h.single j k q r hq hr hqopen hopen htoken)
      · intro i j q p hq hp hqopen hpopen htoken
        obtain ⟨rfl, rfl⟩ | ⟨-, hq⟩ := Places.getElem?_set hq
        · cases hqopen
        · obtain ⟨rfl, rfl⟩ | ⟨-, hp⟩ := Places.getElem?_set hp
          · cases hpopen
          · exact h.single i j q p hq hp hqopen hpopen htoken

theorem Sound.after (h : s.Sound) (e : OpticalEvent) (hissued : (s.after e).issued.Nodup) :
  (s.after e).Sound
  := by
  cases e with
  | tick elapsed => exact h.congr rfl rfl rfl rfl
  | unlock a => exact h.unlockSync a hissued
  | lock scope token => exact h.revoke _
  | lockScope scope => exact h.revoke _
  | cancel scope token requestId => exact h.cancel scope token requestId
  | beginRead scope token requestId => exact h.beginRead scope token requestId
  | select k answer => exact h.select k answer
  | finish k => exact h.finish k
  | drop k => exact h.drop k

end

end OpticalState

end Optical
