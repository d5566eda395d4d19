import Catio.Optical.Grants

/-!
# Reads in runs

What was between the beginning of a read and its end, and what was before it; and the attempts to
unlock after five wrong passphrases.
-/

namespace Optical

open Text

namespace OpticalState

variable {s : OpticalState} {es : List OpticalEvent} {e : OpticalEvent}

@[simp]
theorem run_snoc (s : OpticalState) (es : List OpticalEvent) (e : OpticalEvent) :
  s.run (es ++ [e]) = (s.run es).after e
  := List.foldl_concat ..

/-! ### What a step does -/

/-- An event does nothing to grants and reads; or grants are revoked, one is issued, a request is
cancelled; or a read begins, goes on or is dropped. -/
inductive Step (s : OpticalState) : OpticalEvent → OpticalState → Prop where
  | quiet {e : OpticalEvent} {s' : OpticalState} (hgrants : s'.inner.grants = s.inner.grants)
      (hcancels : s'.cancels = s.cancels) (hissued : s'.issued = s.issued)
      (hreads : s'.reads = s.reads)
      (hcancel : ∀ scope token requestId g, e = .cancel scope token requestId →
        validRequestId requestId → s.grant token = some g → g.scope ≠ scope) :
      Step s e s'
  | lock (scope token : Text) : Step s (.lock scope token) (s.lock scope token)
  | lockScope (scope : Text) : Step s (.lockScope scope) (s.lockScope scope)
  | issue (a : Attempt) (hash : Option Text) :
      Step s (.unlock a)
        ({ s with now := s.now + a.verifying, inner := { s.inner with hash := hash } }.issue a)
  | cancel (scope token requestId : Text) (g : Grant) (hid : validRequestId requestId)
      (hg : s.grant token = some g) (hscope : g.scope = scope) :
      Step s (.cancel scope token requestId)
        { s.setGrants (s.inner.grants.modify token fun g =>
            { g with cancelled := remember g.cancelled requestId }) with
          cancels := (g.reads.lookup requestId).toList ++ s.cancels }
  | beginRead (scope token requestId : Text) (g : Grant) (hg : s.grant token = some g)
      (hscope : g.scope = scope) (hnow : s.now < g.expires) (hid : validRequestId requestId)
      (hnot : requestId ∉ g.cancelled) :
      Step s (.beginRead scope token requestId)
        { s.setGrants (s.inner.grants.modify token fun g' =>
            { g' with reads := g'.reads.insert requestId (g.cancel ++ [s.reads.length]) }) with
          reads := s.reads ++ [⟨scope, token, requestId, g.cancel ++ [s.reads.length], g.expires,
            none, none, false⟩] }
  | select (k : ℕ) (answer : Except Text OpticalFile) (r : ReadLease)
      (selected : Except Text OpticalFile) (hr : s.reads[k]? = some r) :
      Step s (.select k answer) (s.setRead k { r with selected := some selected })
  | finish (k : ℕ) (r : ReadLease) (returned : Except Text OpticalFile) (hr : s.reads[k]? = some r)
      (hopen : r.dropped = false)
      (hok : ∀ file, returned = .ok file →
        s.isCancelled r.cancel = false ∧ s.valid r.scope r.token) :
      Step s (.finish k) (s.setRead k { r with returned := some returned })
  | drop (k : ℕ) (r : ReadLease) (hr : s.reads[k]? = some r) :
      Step s (.drop k) ((s.setGrants (s.inner.grants.modify r.token fun g =>
        { g with reads := g.reads.erase r.requestId })).setRead k { r with dropped := true })

theorem Step.of_eq {s' : OpticalState} (hgrants : s'.inner.grants = s.inner.grants)
    (hcancels : s'.cancels = s.cancels) (hissued : s'.issued = s.issued)
    (hreads : s'.reads = s.reads)
    (hne : ∀ scope token requestId, e ≠ .cancel scope token requestId) :
  Step s e s'
  := .quiet hgrants hcancels hissued hreads fun scope token requestId _ heq =>
    absurd heq (hne scope token requestId)

theorem after_step (s : OpticalState) (e : OpticalEvent) :
  Step s e (s.after e)
  := by
  cases e with
  | tick elapsed => exact .of_eq rfl rfl rfl rfl nofun
  | unlock a =>
    change Step s _ (s.unlockSync a).2
    obtain ⟨_, now, herror, -, -⟩ | ⟨-, hwrong | ⟨hash, hok⟩⟩ := unlockSync_cases s a
    · rw [herror]
      exact .of_eq rfl rfl rfl rfl nofun
    · rw [hwrong]
      unfold fail
      dsimp only
      split
      · exact .of_eq rfl rfl rfl rfl nofun
      · exact .of_eq rfl rfl rfl rfl nofun
    · rw [hok]
      exact .issue a hash
  | lock scope token => exact .lock scope token
  | lockScope scope => exact .lockScope scope
  | cancel scope token requestId =>
    change Step s _ (s.cancel scope token requestId)
    unfold cancel
    split
    · rename_i hid
      apply Step.quiet rfl rfl rfl rfl
      intro scope' token' requestId' g heq hid'
      cases heq
      rw [hid'] at hid
      cases hid
    · rename_i hid
      split
      · rename_i hnone
        apply Step.quiet rfl rfl rfl rfl
        intro scope' token' requestId' g heq _ hg
        cases heq
        rw [hg, Option.filter_eq_none_iff] at hnone
        simpa using hnone g rfl
      · rename_i g hg
        rw [Option.filter_eq_some_iff, decide_eq_true_eq] at hg
        exact .cancel scope token requestId g (by simpa using hid) hg.1 hg.2
  | beginRead scope token requestId =>
    change Step s _ (s.beginRead scope token requestId).2
    obtain ⟨_, herror⟩ | ⟨g, -, hg, hscope, hnow, hid, hnot, -, hok⟩ :=
      beginRead_cases s scope token requestId
    · rw [herror]
      exact .of_eq rfl rfl rfl rfl nofun
    · rw [hok]
      exact .beginRead scope token requestId g hg hscope hnow hid hnot
  | select k answer =>
    change Step s _ (s.select k answer)
    unfold select
    split
    · exact .of_eq rfl rfl rfl rfl nofun
    · rename_i r hr
      split
      · exact .of_eq rfl rfl rfl rfl nofun
      · exact .select k answer r _ hr
  | finish k =>
    change Step s _ (s.finish k)
    unfold finish
    split
    · exact .of_eq rfl rfl rfl rfl nofun
    · rename_i r hr
      split
      · exact .of_eq rfl rfl rfl rfl nofun
      · split
        · exact .of_eq rfl rfl rfl rfl nofun
        · rename_i hopen
          apply Step.finish k r _ hr
          · cases hdropped : r.dropped with
            | false => rfl
            | true => exact absurd (.inl hdropped) hopen
          · intro file hfile
            split at hfile
            · cases hfile
            · rename_i hvalid
              simpa using hvalid
  | drop k =>
    change Step s _ (s.drop k)
    unfold drop
    split
    · exact .of_eq rfl rfl rfl rfl nofun
    · rename_i r hr
      split
      · exact .of_eq rfl rfl rfl rfl nofun
      · exact .drop k r hr

variable {s' : OpticalState} {token : Text}

theorem Step.issued (h : Step s e s') :
  s.issued <+: s'.issued
  := by
  cases h with
  | quiet _ _ hissued _ _ => exact hissued ▸ List.prefix_rfl
  | issue a hash =>
    unfold OpticalState.issue
    dsimp only
    rw [makeRoom_issued]
    exact List.prefix_append ..
  | lock => exact List.prefix_rfl
  | lockScope => exact List.prefix_rfl
  | cancel => exact List.prefix_rfl
  | beginRead => exact List.prefix_rfl
  | select => exact List.prefix_rfl
  | finish => exact List.prefix_rfl
  | drop => exact List.prefix_rfl

theorem Step.cancels (h : Step s e s') :
  s.cancels ⊆ s'.cancels
  := by
  have hrevoke (s : OpticalState) (p : Text → Grant → Bool) :
      s.cancels ⊆ (s.revoke p).cancels := by
    intro c hc
    exact mem_cancels_revoke.mpr (.inr hc)
  cases h with
  | quiet _ hcancels _ _ _ =>
    rw [hcancels]
    exact List.Subset.refl _
  | issue a hash =>
    unfold OpticalState.issue makeRoom
    dsimp only
    split
    · exact List.Subset.trans (hrevoke _ _) (hrevoke _ _)
    · exact hrevoke _ _
  | lock => exact hrevoke _ _
  | lockScope => exact hrevoke _ _
  | cancel => exact List.subset_append_right ..
  | beginRead => exact List.Subset.refl _
  | select => exact List.Subset.refl _
  | finish => exact List.Subset.refl _
  | drop => exact List.Subset.refl _

theorem Step.length (h : Step s e s') :
  s.reads.length ≤ s'.reads.length
  := by
  cases h with
  | quiet _ _ _ hreads _ => rw [hreads]
  | issue a hash =>
    unfold OpticalState.issue
    change _ ≤ (makeRoom _ a).reads.length
    rw [makeRoom_reads]
  | beginRead => exact List.length_append ▸ Nat.le_add_right ..
  | select => exact (List.length_set ..).ge
  | finish => exact (List.length_set ..).ge
  | drop => exact (List.length_set ..).ge
  | lock => exact Nat.le_refl _
  | lockScope => exact Nat.le_refl _
  | cancel => exact Nat.le_refl _

/-- A read has just begun or was there before. It returns data only if it is not cancelled and its
grant is valid. -/
theorem Step.reads (h : Step s e s') {k : ℕ} {r' : ReadLease} (hr' : s'.reads[k]? = some r') :
  (∃ r, s.reads[k]? = some r ∧ r.Same r' ∧ (r'.dropped = false → r.dropped = false)
      ∧ (r'.returned = r.returned ∨ e = .finish k ∧ r.dropped = false
        ∧ ∀ file, r'.returned = some (.ok file) →
          s.isCancelled r.cancel = false ∧ s.valid r.scope r.token))
    ∨ k = s.reads.length ∧ e = .beginRead r'.scope r'.token r'.requestId ∧ r'.returned = none
      ∧ validRequestId r'.requestId ∧ ∃ g, s.grant r'.token = some g ∧ g.scope = r'.scope
        ∧ s.now < g.expires ∧ r'.requestId ∉ g.cancelled
  := by
  have hkept (hr : s.reads[k]? = some r') :
      ∃ r, s.reads[k]? = some r ∧ r.Same r' ∧ (r'.dropped = false → r.dropped = false)
        ∧ (r'.returned = r.returned ∨ e = .finish k ∧ r.dropped = false
          ∧ ∀ file, r'.returned = some (.ok file) →
            s.isCancelled r.cancel = false ∧ s.valid r.scope r.token) :=
    ⟨r', hr, ⟨rfl, rfl, rfl, rfl⟩, fun hopen => hopen, .inl rfl⟩
  cases h with
  | quiet _ _ _ hreads _ =>
    rw [hreads] at hr'
    exact .inl (hkept hr')
  | lock => exact .inl (hkept hr')
  | lockScope => exact .inl (hkept hr')
  | issue a hash =>
    unfold OpticalState.issue at hr'
    dsimp only at hr'
    change (makeRoom _ a).reads[k]? = some r' at hr'
    rw [makeRoom_reads] at hr'
    exact .inl (hkept hr')
  | cancel => exact .inl (hkept hr')
  | beginRead scope token requestId g hg hscope hnow hid hnot =>
    obtain ⟨rfl, rfl⟩ | hr := Places.getElem?_snoc hr'
    · exact .inr ⟨rfl, rfl, rfl, hid, g, hg, hscope, hnow, hnot⟩
    · exact .inl (hkept hr)
  | select j answer r selected hr =>
    obtain ⟨rfl, rfl⟩ | ⟨-, hr⟩ := Places.getElem?_set hr'
    · exact .inl ⟨r, hr, ⟨rfl, rfl, rfl, rfl⟩, fun hopen => hopen, .inl rfl⟩
    · exact .inl (hkept hr)
  | finish j r returned hr hopen hok =>
    obtain ⟨rfl, rfl⟩ | ⟨-, hr⟩ := Places.getElem?_set hr'
    · left
      use r, hr, ⟨rfl, rfl, rfl, rfl⟩, fun hopen => hopen
      right
      use rfl, hopen
      intro file hfile
      exact hok file (Option.some.inj hfile)
    · exact .inl (hkept hr)
  | drop j r hr =>
    obtain ⟨rfl, rfl⟩ | ⟨-, hr⟩ := Places.getElem?_set hr'
    · exact .inl ⟨r, hr, ⟨rfl, rfl, rfl, rfl⟩, nofun, .inl rfl⟩
    · exact .inl (hkept hr)

theorem grant_makeRoom {a : Attempt} {g : Grant} (hg : (s.makeRoom a).grant token = some g) :
  s.grant token = some g
  := by
  unfold makeRoom at hg
  dsimp only at hg
  split at hg
  · exact (grant_revoke.mp (grant_revoke.mp hg).1).1
  · exact (grant_revoke.mp hg).1

def cancelOf (scope token : Text) : OpticalEvent → Option Text
  | .cancel scope' token' requestId =>
      if scope' = scope ∧ token' = token ∧ validRequestId requestId then some requestId else none
  | _ => none

/-- The requests that are cancelled, for a grant of a scope. -/
def cancelsOf (scope token : Text) (es : List OpticalEvent) : List Text :=
  es.filterMap (cancelOf scope token)

/-- A grant was there before with its scope, or its token is new; it remembers a cancelled request.
-/
theorem Step.grant (h : Step s e s') {g' : Grant} (hg' : s'.grant token = some g')
    (hold : token ∈ s.issued) (hissued : s'.issued.Nodup) :
  ∃ g, s.grant token = some g ∧ g'.scope = g.scope
    ∧ g'.cancelled = (cancelOf g.scope token e).toList.foldl remember g.cancelled
  := by
  cases h with
  | quiet hgrants _ _ _ hcancel =>
    have hg : s.grant token = some g' := by
      unfold OpticalState.grant at hg' ⊢
      rwa [hgrants] at hg'
    use g', hg, rfl
    have hnone : cancelOf g'.scope token e = none := by
      unfold cancelOf
      split
      · rename_i scope' token' requestId
        rw [if_neg]
        rintro ⟨rfl, rfl, hid⟩
        exact hcancel _ _ _ _ rfl hid hg rfl
      · rfl
    rw [hnone]
    rfl
  | lock => exact ⟨g', (grant_revoke.mp hg').1, rfl, rfl⟩
  | lockScope => exact ⟨g', (grant_revoke.mp hg').1, rfl, rfl⟩
  | issue a hash =>
    have hne : token ≠ a.token := by
      rintro rfl
      unfold OpticalState.issue at hissued
      dsimp only at hissued
      rw [makeRoom_issued, List.nodup_append] at hissued
      exact hissued.2.2 _ hold _ (List.mem_singleton_self _) rfl
    have hroom : (makeRoom _ a).grant token = some g' :=
      (AList.lookup_insert_ne hne).symm.trans hg'
    have hg := grant_makeRoom hroom
    exact ⟨g', hg, rfl, rfl⟩
  | cancel scope token' requestId g₀ hid hg₀ hscope =>
    obtain ⟨g, hg, rfl⟩ := Table.lookup_modify_eq_some.mp hg'
    use g, hg
    split
    · rename_i htoken
      subst htoken
      obtain rfl := Option.some.inj (hg.symm.trans hg₀)
      rw [cancelOf, if_pos ⟨hscope.symm, rfl, hid⟩]
      exact ⟨rfl, rfl⟩
    · rename_i htoken
      rw [cancelOf, if_neg fun heq => htoken heq.2.1.symm]
      exact ⟨rfl, rfl⟩
  | beginRead scope token' requestId g₀ =>
    obtain ⟨g, hg, rfl⟩ := Table.lookup_modify_eq_some.mp hg'
    use g, hg
    split
    · exact ⟨rfl, rfl⟩
    · exact ⟨rfl, rfl⟩
  | select => exact ⟨g', hg', rfl, rfl⟩
  | finish => exact ⟨g', hg', rfl, rfl⟩
  | drop k r hr =>
    obtain ⟨g, hg, rfl⟩ := Table.lookup_modify_eq_some.mp hg'
    use g, hg
    split
    · exact ⟨rfl, rfl⟩
    · exact ⟨rfl, rfl⟩

/-! ### Runs -/

section

variable {start : OpticalState} {pre post : List OpticalEvent}

theorem run_append (s : OpticalState) (pre post : List OpticalEvent) :
  s.run (pre ++ post) = (s.run pre).run post
  := List.foldl_append

theorem issued_run (s : OpticalState) (es : List OpticalEvent) :
  s.issued <+: (s.run es).issued
  := by
  induction es using List.reverseRecOn with
  | nil => exact List.prefix_rfl
  | append_singleton es e ih =>
    rw [run_snoc]
    exact ih.trans (after_step _ _).issued

theorem Sound.run (h : start.Sound) (hissued : (start.run es).issued.Nodup) :
  (start.run es).Sound
  := by
  induction es using List.reverseRecOn with
  | nil => exact h
  | append_singleton es e ih =>
    rw [run_snoc] at hissued ⊢
    have hbefore := ih (hissued.sublist (after_step _ e).issued.sublist)
    exact hbefore.after e hissued

theorem cancels_run (s : OpticalState) (es : List OpticalEvent) :
  s.cancels ⊆ (s.run es).cancels
  := by
  induction es using List.reverseRecOn with
  | nil => exact List.Subset.refl _
  | append_singleton es e ih =>
    rw [run_snoc]
    exact List.Subset.trans ih (after_step _ _).cancels

theorem length_run (s : OpticalState) (es : List OpticalEvent) :
  s.reads.length ≤ (s.run es).reads.length
  := by
  induction es using List.reverseRecOn with
  | nil => exact Nat.le_refl _
  | append_singleton es e ih =>
    rw [run_snoc]
    exact ih.trans (after_step _ _).length

variable {r : ReadLease} {k : ℕ}

theorem reads_run {r' : ReadLease} (hr' : (s.run es).reads[k]? = some r')
    (hk : k < s.reads.length) :
  ∃ r, s.reads[k]? = some r ∧ r.Same r' ∧ (r'.dropped = false → r.dropped = false)
  := by
  induction es using List.reverseRecOn generalizing r' with
  | nil => exact ⟨r', hr', ⟨rfl, rfl, rfl, rfl⟩, fun hopen => hopen⟩
  | append_singleton es e ih =>
    rw [run_snoc] at hr'
    obtain ⟨r₁, hr₁, hsame₁, hopen₁, -⟩ | ⟨hlength, -⟩ := (after_step _ e).reads hr'
    · obtain ⟨r, hr, hsame, hopen⟩ := ih hr₁
      exact ⟨r, hr, hsame.trans hsame₁, fun h => hopen (hopen₁ h)⟩
    · have hgrows := length_run s es
      omega

theorem grant_run {token : Text} {g' : Grant} (hg' : (s.run es).grant token = some g')
    (hold : token ∈ s.issued) (hissued : (s.run es).issued.Nodup) :
  ∃ g, s.grant token = some g ∧ g'.scope = g.scope
    ∧ g'.cancelled = (cancelsOf g.scope token es).foldl remember g.cancelled
  := by
  induction es using List.reverseRecOn generalizing g' with
  | nil => exact ⟨g', hg', rfl, rfl⟩
  | append_singleton es e ih =>
    rw [run_snoc] at hg' hissued
    have hstep := after_step (s.run es) e
    obtain ⟨g₁, hg₁, hscope₁, hcancelled₁⟩ :=
      hstep.grant hg' ((issued_run s es).subset hold) hissued
    obtain ⟨g, hg, hscope, hcancelled⟩ := ih hg₁ (hissued.sublist hstep.issued.sublist)
    use g, hg, hscope₁.trans hscope
    rw [hcancelled₁, hcancelled, hscope]
    unfold cancelsOf
    rw [List.filterMap_append, List.foldl_append]
    congr 1

theorem mem_foldl_remember {id : Text} {ids before after : List Text}
    (h : after.length + ids.length < 64) :
  id ∈ ids.foldl remember (before ++ id :: after)
  := by
  induction ids generalizing before after with
  | nil => simp
  | cons x ids ih =>
    rw [List.foldl_cons]
    rw [List.length_cons] at h
    unfold remember
    split
    · rename_i hfull
      obtain _ | ⟨y, before⟩ := before
      · simp only [List.nil_append, List.length_cons] at hfull
        omega
      · rw [List.cons_append, List.tail_cons, List.append_assoc, List.cons_append]
        apply ih
        rw [List.length_append, List.length_singleton]
        omega
    · rw [List.append_assoc, List.cons_append]
      apply ih
      rw [List.length_append, List.length_singleton]
      omega

theorem began (hempty : start.reads = []) (hr : (start.run es).reads[k]? = some r) :
  ∃ pre mid, es = pre ++ .beginRead r.scope r.token r.requestId :: mid
    ∧ (start.run pre).reads.length = k
    ∧ k < (start.run (pre ++ [.beginRead r.scope r.token r.requestId])).reads.length
    ∧ validRequestId r.requestId ∧ ∃ g, (start.run pre).grant r.token = some g ∧ g.scope = r.scope
      ∧ (start.run pre).now < g.expires ∧ r.requestId ∉ g.cancelled
  := by
  induction es using List.reverseRecOn generalizing r with
  | nil =>
    change start.reads[k]? = some r at hr
    rw [hempty] at hr
    cases hr
  | append_singleton es e ih =>
    rw [run_snoc] at hr
    obtain ⟨r₀, hr₀, hsame, -, -⟩ | ⟨hk, rfl, -, hid, hgrant⟩ := (after_step _ e).reads hr
    · obtain ⟨pre, mid, rfl, hlength, hid, hgrant⟩ := ih hr₀
      use pre, mid ++ [e]
      rw [hsame.scope, hsame.token, hsame.requestId]
      exact ⟨by simp, hlength, hid, hgrant⟩
    · refine ⟨es, [], rfl, hk.symm, ?_, hid, hgrant⟩
      rw [run_snoc]
      exact (List.getElem?_eq_some_iff.mp hr).1

theorem returned (hempty : start.reads = []) {file : OpticalFile}
    (hr : (start.run es).reads[k]? = some r) (hfile : r.returned = some (.ok file)) :
  ∃ pre post r₀, es = pre ++ .finish k :: post ∧ (start.run pre).reads[k]? = some r₀ ∧ r₀.Same r
    ∧ r₀.dropped = false ∧ (start.run pre).isCancelled r.cancel = false
    ∧ (start.run pre).valid r.scope r.token
  := by
  induction es using List.reverseRecOn generalizing r with
  | nil =>
    change start.reads[k]? = some r at hr
    rw [hempty] at hr
    cases hr
  | append_singleton es e ih =>
    rw [run_snoc] at hr
    obtain ⟨r₀, hr₀, hsame, -, hreturned | ⟨rfl, hopen, hok⟩⟩ | ⟨-, -, hnone, -⟩ :=
      (after_step _ e).reads hr
    · rw [hreturned] at hfile
      obtain ⟨pre, post, r₁, rfl, hr₁, hsame₁, hrest⟩ := ih hr₀ hfile
      use pre, post ++ [e], r₁
      rw [hsame.scope, hsame.token, hsame.cancel]
      exact ⟨by simp, hr₁, hsame₁.trans hsame, hrest⟩
    · obtain ⟨hcancel, hvalid⟩ := hok file hfile
      use es, [], r₀, rfl, hr₀, hsame, hopen
      rw [hsame.scope, hsame.token, hsame.cancel]
      exact ⟨hcancel, hvalid⟩
    · rw [hfile] at hnone
      cases hnone

/-- The grant of a token is there for the scope, has not expired, and is not locked. -/
def Open (s : OpticalState) (scope token : Text) : Prop :=
  ∃ g, s.grant token = some g ∧ g.scope = scope ∧ s.now < g.expires
    ∧ s.isCancelled g.cancel = false

theorem open_of_valid {scope token : Text} (h : s.valid scope token) :
  s.Open scope token
  := by
  unfold valid at h
  rw [Bool.and_eq_true, Option.any_eq_true] at h
  obtain ⟨-, g, hg, hvalid⟩ := h
  simp only [Bool.and_eq_true, decide_eq_true_eq, Bool.not_eq_true'] at hvalid
  exact ⟨g, hg, hvalid.1.1, hvalid.1.2, hvalid.2⟩

theorem Sound.isCancelled_cancel (h : s.Sound) {g : Grant} (hr : s.reads[k]? = some r)
    (hopen : r.dropped = false) (hg : s.grant r.token = some g) (hscope : g.scope = r.scope)
    (hid : validRequestId r.requestId) :
  r.cancel ∈ (s.after (.cancel r.scope r.token r.requestId)).cancels
  := by
  have hread := h.flight k r g hr hopen hg
  change r.cancel ∈ (s.cancel r.scope r.token r.requestId).cancels
  unfold OpticalState.cancel
  have hfilter : (s.grant r.token).filter (·.scope = r.scope) = some g := by
    rw [hg, Option.filter_some, hscope, decide_eq_true rfl, if_pos rfl]
  rw [if_neg (by simp [hid]), hfilter]
  exact List.mem_append_left _ (Option.mem_toList.mpr hread)

theorem Sound.not_mem_cancel (h : s.Sound) (hissued : (s.run es).issued.Nodup) {g : Grant}
    (hr : (s.run es).reads[k]? = some r) (hk : k < s.reads.length) (hopen : r.dropped = false)
    (hg : (s.run es).grant r.token = some g) (hscope : g.scope = r.scope)
    (hid : validRequestId r.requestId) (hnot : (s.run es).isCancelled r.cancel = false) :
  .cancel r.scope r.token r.requestId ∉ es
  := by
  intro hmem
  obtain ⟨before, after, rfl⟩ := List.append_of_mem hmem
  rw [run_append] at hr hg hissued hnot
  have hprefix := issued_run (s.run before) (.cancel r.scope r.token r.requestId :: after)
  have hsound : (s.run before).Sound := h.run (hissued.sublist hprefix.sublist)
  obtain ⟨r₁, hr₁, hsame, hopen₁⟩ := reads_run hr (lt_of_lt_of_le hk (length_run s before))
  obtain ⟨n, hn, -⟩ := hsound.reads k r₁ hr₁
  rw [← hsame.token] at hn
  obtain ⟨g₁, hg₁, hscope₁, -⟩ := grant_run hg (List.mem_of_getElem? hn) hissued
  have hcancelled : r₁.cancel
      ∈ ((s.run before).after (.cancel r₁.scope r₁.token r₁.requestId)).cancels := by
    apply hsound.isCancelled_cancel hr₁ (hopen₁ hopen)
    · rwa [← hsame.token]
    · rw [← hscope₁, hscope, hsame.scope]
    · rwa [← hsame.requestId]
  rw [← hsame.scope, ← hsame.token, ← hsame.requestId, ← hsame.cancel] at hcancelled
  rw [Bool.eq_false_iff, ne_eq, isCancelled_iff] at hnot
  apply hnot
  exact ⟨r.cancel, cancels_run _ after hcancelled, List.prefix_rfl⟩

theorem cancelled_before {pre before between : List OpticalEvent} {scope token requestId : Text}
    {g g' : Grant} (hsound : (start.run before).Sound) (hissued : (start.run pre).issued.Nodup)
    (hpre : pre = before ++ .cancel scope token requestId :: between)
    (hg : (start.run before).grant token = some g) (hg' : (start.run pre).grant token = some g')
    (hscope : g'.scope = scope) (hid : validRequestId requestId) (hnot : requestId ∉ g'.cancelled) :
  64 ≤ (cancelsOf scope token between).length
  := by
  subst hpre
  rw [run_append] at hg' hissued
  obtain ⟨n, hn, -⟩ := hsound.grants token g hg
  obtain ⟨g₁, hg₁, hscope₁, hcancelled⟩ := grant_run hg' (List.mem_of_getElem? hn) hissued
  have hfirst : cancelsOf g₁.scope token (.cancel scope token requestId :: between)
      = requestId :: cancelsOf scope token between := by
    rw [← hscope₁, hscope]
    unfold cancelsOf
    rw [List.filterMap_cons, cancelOf, if_pos ⟨rfl, rfl, hid⟩]
  rw [hfirst, List.foldl_cons] at hcancelled
  by_contra hfew
  apply hnot
  rw [hcancelled]
  change requestId ∈ List.foldl remember (_ ++ [requestId]) _
  apply mem_foldl_remember
  rw [List.length_nil, Nat.zero_add]
  exact not_le.mp hfew

/-- A read returns data only if its grant was open when it began and when it returned, and its
request was not cancelled since, or before with fewer than 64 others since. -/
theorem Sound.read (h : start.Sound) (hempty : start.reads = [])
    (hissued : (start.run es).issued.Nodup) {k : ℕ} {r : ReadLease} {file : OpticalFile}
    (hr : (start.run es).reads[k]? = some r) (hfile : r.returned = some (.ok file)) :
  ∃ pre mid post, es = pre ++ .beginRead r.scope r.token r.requestId :: (mid ++ .finish k :: post)
    ∧ (start.run pre).reads.length = k
    ∧ (start.run pre).Open r.scope r.token
    ∧ (start.run (pre ++ .beginRead r.scope r.token r.requestId :: mid)).Open r.scope r.token
    ∧ .cancel r.scope r.token r.requestId ∉ mid
    ∧ ∀ before between g, pre = before ++ .cancel r.scope r.token r.requestId :: between →
      (start.run before).grant r.token = some g →
      64 ≤ (cancelsOf r.scope r.token between).length
  := by
  obtain ⟨whole, post, r₀, rfl, hr₀, hsame, hopen, hnot, hvalid⟩ := returned hempty hr hfile
  obtain ⟨pre, mid, rfl, hlength, hlater, hid, g, hg, hscope, hnow, hnew⟩ := began hempty hr₀
  rw [hsame.scope, hsame.token, hsame.requestId]
  rw [hsame.cancel] at hnot
  rw [hsame.scope, hsame.token] at hvalid
  have hwhole : (start.run (pre ++ .beginRead r₀.scope r₀.token r₀.requestId :: mid)).issued.Nodup
      := by
    rw [run_append] at hissued
    exact hissued.sublist (issued_run _ _).sublist
  have hpre : (start.run pre).issued.Nodup := by
    rw [run_append] at hwhole
    exact hwhole.sublist (issued_run _ _).sublist
  have hsound := h.run hpre
  use pre, mid, post, by simp, hlength
  use ⟨g, hg, hscope, hnow, hsound.not_cancelled hg⟩
  use open_of_valid hvalid
  constructor
  · obtain ⟨g', hg', hscope', -, -⟩ := open_of_valid hvalid
    rw [List.append_cons, run_append] at hwhole hr₀ hnot hg'
    have hbegun : (start.run (pre ++ [.beginRead r₀.scope r₀.token r₀.requestId])).Sound :=
      h.run (hwhole.sublist (issued_run _ _).sublist)
    exact hbegun.not_mem_cancel hwhole hr₀ hlater hopen hg' hscope' hid hnot
  · intro before between g₀ hsplit hg₀
    have hbefore : (start.run before).Sound := by
      apply h.run
      rw [hsplit, run_append] at hpre
      exact hpre.sublist (issued_run _ _).sublist
    exact cancelled_before hbefore hpre hsplit hg₀ hg hscope hid hnew

end

/-! ### Wrong passphrases -/

/-- How many wrong passphrases there are in a row after an event, if there were `n`. -/
def wrongAfter (s : OpticalState) (n : ℕ) : OpticalEvent → ℕ
  | .unlock a =>
      match (s.unlockSync a).1 with
      | .ok _ => 0
      | .error e => if e = "optical.wrongPassphrase" then n + 1 else n
  | _ => n

/-- The wrong passphrases since the last right one, after a run. -/
def wrongInARow (s : OpticalState) (es : List OpticalEvent) : ℕ :=
  (es.foldl (fun (p : OpticalState × ℕ) e => (p.1.after e, wrongAfter p.1 p.2 e)) (s, 0)).2

theorem wrongInARow_snoc (s : OpticalState) (es : List OpticalEvent) (e : OpticalEvent) :
  wrongInARow s (es ++ [e]) = wrongAfter (s.run es) (wrongInARow s es) e
  := by
  have hrun : (es.foldl (fun (p : OpticalState × ℕ) e => (p.1.after e, wrongAfter p.1 p.2 e))
      (s, 0)).1 = s.run es := by
    induction es using List.reverseRecOn with
    | nil => rfl
    | append_singleton es e ih =>
      rw [List.foldl_concat, run_snoc, ih]
  unfold wrongInARow
  rw [List.foldl_concat, hrun]

theorem failures_after (hne : ∀ a, e ≠ .unlock a) :
  (s.after e).inner.failures = s.inner.failures ∧ (s.after e).inner.retryAt = s.inner.retryAt
    ∧ s.now ≤ (s.after e).now
  := by
  cases e with
  | unlock a => exact absurd rfl (hne a)
  | tick elapsed => exact ⟨rfl, rfl, Nat.le_add_right ..⟩
  | lock scope token => exact ⟨rfl, rfl, le_rfl⟩
  | lockScope scope => exact ⟨rfl, rfl, le_rfl⟩
  | cancel scope token requestId =>
    change (s.cancel scope token requestId).inner.failures = _
      ∧ (s.cancel scope token requestId).inner.retryAt = _
      ∧ _ ≤ (s.cancel scope token requestId).now
    unfold cancel
    split
    · exact ⟨rfl, rfl, le_rfl⟩
    · split
      · exact ⟨rfl, rfl, le_rfl⟩
      · exact ⟨rfl, rfl, le_rfl⟩
  | beginRead scope token requestId =>
    change (s.beginRead scope token requestId).2.inner.failures = _
      ∧ (s.beginRead scope token requestId).2.inner.retryAt = _
      ∧ _ ≤ (s.beginRead scope token requestId).2.now
    obtain ⟨_, herror⟩ | ⟨g, -, -, -, -, -, -, -, hok⟩ :=
      beginRead_cases s scope token requestId
    · rw [herror]
      exact ⟨rfl, rfl, le_rfl⟩
    · rw [hok]
      exact ⟨rfl, rfl, le_rfl⟩
  | select k answer =>
    change (s.select k answer).inner.failures = _ ∧ (s.select k answer).inner.retryAt = _
      ∧ _ ≤ (s.select k answer).now
    unfold select
    split
    · exact ⟨rfl, rfl, le_rfl⟩
    · split
      · exact ⟨rfl, rfl, le_rfl⟩
      · exact ⟨rfl, rfl, le_rfl⟩
  | finish k =>
    change (s.finish k).inner.failures = _ ∧ (s.finish k).inner.retryAt = _
      ∧ _ ≤ (s.finish k).now
    unfold finish
    split
    · exact ⟨rfl, rfl, le_rfl⟩
    · split
      · exact ⟨rfl, rfl, le_rfl⟩
      · split
        · exact ⟨rfl, rfl, le_rfl⟩
        · exact ⟨rfl, rfl, le_rfl⟩
  | drop k =>
    change (s.drop k).inner.failures = _ ∧ (s.drop k).inner.retryAt = _ ∧ _ ≤ (s.drop k).now
    unfold drop
    split
    · exact ⟨rfl, rfl, le_rfl⟩
    · split
      · exact ⟨rfl, rfl, le_rfl⟩
      · exact ⟨rfl, rfl, le_rfl⟩

theorem issue_failures (s : OpticalState) (a : Attempt) :
  (s.issue a).inner.failures = 0 ∧ (s.issue a).now = s.now + a.sweeping
  := by
  unfold issue makeRoom
  dsimp only
  split
  · exact ⟨rfl, rfl⟩
  · exact ⟨rfl, rfl⟩

theorem failures_run (hzero : s.inner.failures = 0) (es : List OpticalEvent) :
  (s.run es).inner.failures = wrongInARow s es % 5
  := by
  induction es using List.reverseRecOn with
  | nil => exact hzero
  | append_singleton es e ih =>
    rw [run_snoc, wrongInARow_snoc]
    by_cases hunlock : ∃ a, e = .unlock a
    · obtain ⟨a, rfl⟩ := hunlock
      change ((s.run es).unlockSync a).2.inner.failures = wrongAfter _ _ (.unlock a) % 5
      unfold wrongAfter
      dsimp only
      obtain ⟨e, now, herror, -, hne⟩ | ⟨-, hwrong | ⟨hash, hok⟩⟩ :=
        unlockSync_cases (s.run es) a
      · rw [herror]
        dsimp only
        rw [if_neg hne]
        exact ih
      · rw [hwrong]
        dsimp only
        rw [if_pos rfl]
        unfold fail
        dsimp only
        split
        · change 0 = _
          omega
        · change _ + 1 = _
          omega
      · rw [hok]
        exact (issue_failures _ a).1
    · rw [(failures_after fun a heq => hunlock ⟨a, heq⟩).1, ih]
      unfold wrongAfter
      split
      · exact absurd ⟨_, rfl⟩ hunlock
      · rfl

theorem retryAt_run {t : Instant} (hretry : s.inner.retryAt = some t) (es : List OpticalEvent) :
  (s.run es).inner.retryAt = some t ∨ t ≤ (s.run es).now
  := by
  induction es using List.reverseRecOn with
  | nil => exact .inl hretry
  | append_singleton es e ih =>
    rw [run_snoc]
    by_cases hunlock : ∃ a, e = .unlock a
    · obtain ⟨a, rfl⟩ := hunlock
      change ((s.run es).unlockSync a).2.inner.retryAt = _
        ∨ _ ≤ ((s.run es).unlockSync a).2.now
      obtain ⟨e, now, herror, hnow, -⟩ | ⟨hopen, hunlocked⟩ := unlockSync_cases (s.run es) a
      · rw [herror]
        exact ih.imp_right fun h => h.trans hnow
      · right
        have htime : t ≤ (s.run es).now := by
          obtain hclosed | htime := ih
          · rw [hclosed] at hopen
            simpa using hopen
          · exact htime
        obtain hwrong | ⟨hash, hok⟩ := hunlocked
        · rw [hwrong]
          unfold fail
          dsimp only
          split
          · exact htime.trans (Nat.le_add_right ..)
          · exact htime.trans (Nat.le_add_right ..)
        · rw [hok, (issue_failures _ a).2]
          exact htime.trans ((Nat.le_add_right ..).trans (Nat.le_add_right ..))
    · obtain ⟨-, hretry, hnow⟩ := failures_after (s := s.run es) fun a heq => hunlock ⟨a, heq⟩
      rw [hretry]
      exact ih.imp_right fun h => h.trans hnow

theorem closed_until {t : Instant} (hretry : s.inner.retryAt = some t) {b : Attempt}
    (hok : ((s.run es).unlockSync b).1 = .ok token) :
  t ≤ (s.run es).now
  := by
  obtain hclosed | htime := retryAt_run hretry es
  · obtain ⟨e, now, herror, -, -⟩ | ⟨hopen, -⟩ := unlockSync_cases _ b
    · rw [herror] at hok
      cases hok
    · rw [hclosed] at hopen
      exact of_decide_eq_true hopen
  · exact htime

theorem fail_closes (hzero : s.fail.inner.failures = 0) :
  s.fail.inner.retryAt = some (s.fail.now + seconds 30)
  := by
  unfold fail at hzero ⊢
  generalize seconds 30 = t at hzero ⊢
  dsimp only at hzero ⊢
  split
  · rfl
  · rename_i hfew
    rw [if_neg hfew] at hzero
    cases hzero

theorem locked_out (hzero : s.inner.failures = 0) {pre mid : List OpticalEvent} {a b : Attempt}
    (hwrong : ((s.run pre).unlockSync a).1 = .error "optical.wrongPassphrase")
    (hfive : 5 ∣ wrongInARow s (pre ++ [.unlock a]))
    (hok : ((s.run (pre ++ .unlock a :: mid)).unlockSync b).1 = .ok token) :
  (s.run (pre ++ [.unlock a])).now + seconds 30 ≤ (s.run (pre ++ .unlock a :: mid)).now
  := by
  have hstate : s.run (pre ++ [.unlock a]) = ((s.run pre).unlockSync a).2 := run_snoc ..
  have hretry : (s.run (pre ++ [.unlock a])).inner.retryAt
      = some ((s.run (pre ++ [.unlock a])).now + seconds 30) := by
    have hzero := failures_run hzero (pre ++ [.unlock a])
    rw [Nat.mod_eq_zero_of_dvd hfive, hstate] at hzero
    rw [hstate]
    obtain ⟨e, now, herror, -, hne⟩ | ⟨-, hfail | ⟨hash, hissue⟩⟩ :=
      unlockSync_cases (s.run pre) a
    · rw [herror, Except.error.injEq] at hwrong
      exact absurd hwrong hne
    · rw [hfail] at hzero ⊢
      exact fail_closes hzero
    · rw [hissue] at hwrong
      cases hwrong
  have hwhole : s.run (pre ++ .unlock a :: mid) = (s.run (pre ++ [.unlock a])).run mid := by
    rw [List.append_cons, run_append]
  rw [hwhole] at hok ⊢
  exact closed_until hretry hok

end OpticalState

/-! ### Together -/

open OpticalState

/-- In every run in which no token is issued twice: a read returns data only if its grant was open
when it began and when it returned, and its request was not cancelled (with fewer than 64 others
since); a grant has one read at most; a scope has eight grants at most; and after five wrong
passphrases nobody gets in for 30 seconds. -/
theorem grants_guard_reads {start : OpticalState} {enabled configError : Bool} {hash : Option Text}
    (hstart : start = init enabled hash configError) (es : List OpticalEvent)
    (hissued : (start.run es).issued.Nodup) :
  (∀ k r file, (start.run es).reads[k]? = some r → r.returned = some (.ok file) →
    ∃ pre mid post,
      es = pre ++ .beginRead r.scope r.token r.requestId :: (mid ++ .finish k :: post)
      ∧ (start.run pre).reads.length = k
      ∧ (start.run pre).Open r.scope r.token
      ∧ (start.run (pre ++ .beginRead r.scope r.token r.requestId :: mid)).Open r.scope r.token
      ∧ .cancel r.scope r.token r.requestId ∉ mid
      ∧ ∀ before between g, pre = before ++ .cancel r.scope r.token r.requestId :: between →
        (start.run before).grant r.token = some g →
        64 ≤ (cancelsOf r.scope r.token between).length)
    ∧ (∀ (j k : ℕ) (r r' : ReadLease), (start.run es).reads[j]? = some r →
      (start.run es).reads[k]? = some r' → r.dropped = false → r'.dropped = false →
      r.token = r'.token → j = k)
    ∧ (∀ scope, (start.run es).inner.grants.count (fun _ g => g.scope = scope) ≤ 8)
    ∧ ∀ pre a mid b token,
      ((start.run pre).unlockSync a).1 = .error "optical.wrongPassphrase" →
      5 ∣ wrongInARow start (pre ++ [.unlock a]) →
      ((start.run (pre ++ .unlock a :: mid)).unlockSync b).1 = .ok token →
      (start.run (pre ++ [.unlock a])).now + seconds 30
        ≤ (start.run (pre ++ .unlock a :: mid)).now
  := by
  subst hstart
  have hstart := sound_init enabled hash configError
  have hsound := hstart.run hissued
  refine ⟨?_, hsound.single, hsound.scopes, ?_⟩
  · intro k r file hr hfile
    exact hstart.read rfl hissued hr hfile
  · intro pre a mid b token hwrong hfive hok
    exact locked_out rfl hwrong hfive hok

/-- A passphrase is set up, and a file is read under the grant. -/
def setUpAndRead : List OpticalEvent :=
  [.unlock
      ⟨"desktop", "passphrase", true, true, some "hash", true, true, 5, fun _ => 0, 0, [], "t"⟩,
    .beginRead "desktop" "t" "1", .select 0 (.ok ⟨"notes", "ZGF0YQ=="⟩), .finish 0, .drop 0]

theorem grants_guard_reads_setUpAndRead :
  ∃ (r : ReadLease) (pre mid post : List OpticalEvent),
    r.returned = some (.ok ⟨"notes", "ZGF0YQ=="⟩)
    ∧ setUpAndRead = pre ++ .beginRead r.scope r.token r.requestId :: (mid ++ .finish 0 :: post)
    ∧ ((init true none false).run pre).Open r.scope r.token
  := by
  have hreturned : (((init true none false).run setUpAndRead).reads[0]?.map
      fun r => r.returned.bind Except.toOption) = some (some ⟨"notes", "ZGF0YQ=="⟩) := by
    decide +kernel
  obtain ⟨r, hr, hdata⟩ := Option.map_eq_some_iff.mp hreturned
  obtain ⟨result, hresult, hok⟩ := Option.bind_eq_some_iff.mp hdata
  cases result with
  | error e => cases hok
  | ok file =>
    cases hok
    have hissued : ((init true none false).run setUpAndRead).issued.Nodup := by
      decide +kernel
    obtain ⟨hread, -⟩ := grants_guard_reads rfl setUpAndRead hissued
    obtain ⟨pre, mid, post, hes, -, hopen, -⟩ := hread 0 r _ hr hresult
    exact ⟨r, pre, mid, post, hresult, hes, hopen⟩

end Optical
