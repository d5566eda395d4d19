import Catio.Ssh.Reconnect

/-!
# The end of a session

When a disconnect of the user is final.  It is in every run in which no stop falls between a
check of the supervisor that has not found the session stopped and the stores behind that
check; and each stop that falls there can be followed by steps after which the session is
connected or reconnecting again (`disconnect_final`).
-/

namespace Ssh

/-- The supervisor has not found the session stopped and is about to act on that. -/
def Supervising.Committed : Supervising → Prop
  | .locking => True
  | .marking => True
  | .installing _ => True
  | .installed => True
  | _ => False

namespace LogicalSession

/-- The disconnect has stored the stopped phase. -/
def Stopped (s : LogicalSession) : Prop :=
  s.disconnect ≠ .start ∧ s.disconnect ≠ .stopping

/-- No lookup that starts after the disconnect has returned finds the session, the stopped phase
stays, no open connection is installed, and with the supervisor ended none is left open. -/
structure Final (s : LogicalSession) : Prop where
  notFound : ∀ i, s.lookups i ≠ some ⟨true, .returned true⟩
  stopped : s.Stopped → s.phase = .stopped
  notInstalled : s.disconnect = .returned → s.handle ∉ s.live
  notLeft : s.disconnect = .returned → s.supervisor = .ended → s.live = []

/-- A step that is no stop between a check of the supervisor and the stores behind it. -/
def CalmStep (s : LogicalSession) (party : Party) (s' : LogicalSession) : Prop :=
  Step s party s' ∧ (party = .stop → ¬ s.supervisor.Committed)

variable {s s' : LogicalSession} {party : Party} {i : ℕ}

/-! ### What the steps of a party leave as it is -/

theorem dropHeld_frame (s : LogicalSession) :
  s.dropHeld = { s with live := s.dropHeld.live }
  := by
  unfold dropHeld
  split
  · rfl
  · rfl

theorem mem_dropHeld {c : ℕ} :
  c ∈ s.dropHeld.live ↔ c ∈ s.live ∧ s.supervisor.held ≠ some c
  := by
  unfold dropHeld
  split
  · rename_i hnone
    simp [hnone]
  · rename_i c' hsome
    rw [hsome, close, List.mem_filter, decide_eq_true_eq, ne_eq, ne_eq, Option.some.injEq,
      @eq_comm _ c c']

theorem Supervise.frame (h : Supervise s s') :
  s'.disconnect = s.disconnect ∧ s'.listed = s.listed ∧ s'.registered = s.registered
    ∧ s'.lookups = s.lookups ∧ s'.lock = s.lock
  := by
  cases h with
  | looked => split <;> exact ⟨rfl, rfl, rfl, rfl, rfl⟩
  | failed => rw [dropHeld_frame]; exact ⟨rfl, rfl, rfl, rfl, rfl⟩
  | disconnected => rw [dropHeld_frame]; exact ⟨rfl, rfl, rfl, rfl, rfl⟩
  | abort => rw [dropHeld_frame]; exact ⟨rfl, rfl, rfl, rfl, rfl⟩
  | _ => exact ⟨rfl, rfl, rfl, rfl, rfl⟩

theorem Supervise.aborted (h : Supervise s s') :
  s'.aborted = s.aborted
  := by
  cases h with
  | looked => split <;> rfl
  | failed => rw [dropHeld_frame]; rfl
  | disconnected => rw [dropHeld_frame]; rfl
  | abort => rw [dropHeld_frame]; rfl
  | _ => rfl

theorem Look.frame (h : Look i s s') :
  ∃ lookup, s' = s.look i lookup
  := by
  cases h with
  | _ => exact ⟨_, rfl⟩

@[simp]
theorem lookups_look (i : ℕ) (lookup : Lookup) (s : LogicalSession) :
  (s.look i lookup).lookups i = some lookup
  := Function.update_self i _ s.lookups

@[simp]
theorem lookups_look_ne {i j : ℕ} (h : j ≠ i) (lookup : Lookup) (s : LogicalSession) :
  (s.look i lookup).lookups j = s.lookups j
  := Function.update_of_ne h _ s.lookups

/-! ### The phase -/

/-- The phase is stopped once the disconnect has stored that, and the supervisor is not about to
overwrite it. -/
structure Halts (s : LogicalSession) : Prop where
  registered : s.disconnect = .start → s.registered = true
  stopped : s.Stopped → s.phase = .stopped
  idle : s.phase = .stopped → ¬ s.supervisor.Committed

theorem halts_connected :
  connected.Halts
  where
  registered _ := rfl
  stopped h := absurd rfl h.1
  idle h := nomatch h

theorem Supervise.halts (h : Supervise s s') (hs : s.Halts) :
  (s.phase = .stopped → s'.phase = .stopped) ∧ (s'.phase = .stopped → ¬ s'.supervisor.Committed)
  := by
  have hidle := hs.idle
  cases h with
  | checked at_ =>
    simp only [supervise]
    split <;> simp_all [Supervising.Committed]
  | attempt at_ =>
    simp only [supervise]
    split <;> simp_all [Supervising.Committed]
  | verified at_ =>
    simp only [supervise]
    split <;> simp_all [Supervising.Committed]
  | looked at_ =>
    split <;> simp_all [supervise, await, Supervising.Committed]
  | failed =>
    rw [dropHeld_frame]
    simp [await, Supervising.Committed]
  | disconnected =>
    rw [dropHeld_frame]
    simp [supervise, Supervising.Committed]
  | abort =>
    rw [dropHeld_frame]
    simp [supervise, Supervising.Committed]
  | _ => simp_all [supervise, await, close, Supervising.Committed]

theorem Disconnect.halts (h : Disconnect s s') (hs : s.Halts) :
  s'.Halts
  := by
  obtain ⟨hregistered, hstopped, hidle⟩ := hs
  cases h with
  | take at_ =>
    constructor
    · simp [hregistered at_]
    · simp [Stopped, hregistered at_]
    · exact hidle
  | abort at_ =>
    have hphase := hstopped (by simp [Stopped, at_])
    exact ⟨by simp, fun _ => hphase, hidle⟩
  | remove at_ =>
    have hphase := hstopped (by simp [Stopped, at_])
    constructor
    · split <;> simp
    · exact fun _ => hphase
    · exact hidle
  | lock at_ =>
    have hphase := hstopped (by simp [Stopped, at_])
    exact ⟨by simp, fun _ => hphase, hidle⟩
  | disconnect at_ =>
    have hphase := hstopped (by simp [Stopped, at_])
    exact ⟨by simp, fun _ => hphase, hidle⟩

theorem CalmStep.halts (h : CalmStep s party s') (hs : s.Halts) :
  s'.Halts
  := by
  obtain ⟨hstep, hcalm⟩ := h
  cases hstep with
  | supervisor h =>
    obtain ⟨hdisconnect, -, hregistered, -, -⟩ := h.frame
    obtain ⟨hphase, hidle⟩ := h.halts hs
    constructor
    · rw [hdisconnect, hregistered]
      exact hs.registered
    · intro hstopped
      rw [Stopped, hdisconnect] at hstopped
      exact hphase (hs.stopped hstopped)
    · exact hidle
  | stop h =>
    obtain ⟨at_⟩ := h
    exact ⟨by simp, fun _ => rfl, fun _ => hcalm rfl⟩
  | disconnect h => exact h.halts hs
  | lookup h =>
    obtain ⟨lookup, rfl⟩ := h.frame
    exact ⟨hs.registered, hs.stopped, hs.idle⟩
  | outside h =>
    cases h with
    | _ => exact ⟨hs.registered, hs.stopped, hs.idle⟩

/-! ### The lookups -/

/-- The session is listed until the disconnect has removed it, and a later lookup does not get it.
-/
structure Hides (s : LogicalSession) : Prop where
  listed : s.disconnect ∈ [.start, .stopping, .aborting, .removing] → s.listed = true
  removed : s.disconnect ∉ [.start, .stopping, .aborting, .removing] → s.listed = false
  late : ∀ i point, s.lookups i = some ⟨true, point⟩ →
    s.disconnect = .returned ∧ (point = .getting ∨ point = .returned false)

theorem hides_connected :
  connected.Hides
  where
  listed _ := rfl
  removed h := absurd (by simp [connected]) h
  late _ _ h := nomatch h

theorem Look.late (h : Look i s s') (hs : s.Hides) {point : Looking}
    (hpoint : s'.lookups i = some ⟨true, point⟩) :
  s.disconnect = .returned ∧ (point = .getting ∨ point = .returned false)
  := by
  cases h with
  | start new =>
    simp only [lookups_look, Option.some.injEq, Lookup.mk.injEq, decide_eq_true_eq] at hpoint
    exact ⟨hpoint.1, .inl hpoint.2.symm⟩
  | cancelled at_ =>
    simp only [lookups_look, Option.some.injEq, Lookup.mk.injEq] at hpoint
    obtain ⟨rfl, rfl⟩ := hpoint
    exact ⟨(hs.late i _ at_).1, .inr rfl⟩
  | get at_ =>
    simp only [lookups_look, Option.some.injEq, Lookup.mk.injEq] at hpoint
    obtain ⟨rfl, rfl⟩ := hpoint
    obtain ⟨hreturned, -⟩ := hs.late i _ at_
    rw [hs.removed (by simp [hreturned])]
    exact ⟨hreturned, .inr rfl⟩
  | _ at_ =>
    simp only [lookups_look, Option.some.injEq, Lookup.mk.injEq] at hpoint
    obtain ⟨rfl, rfl⟩ := hpoint
    simpa using (hs.late i _ at_).2

theorem Disconnect.hides (h : Disconnect s s') (hs : s.Hides) (hhalts : s.Halts) :
  s'.Hides
  := by
  obtain ⟨hlisted, hremoved, hlate⟩ := hs
  have hnone : s.disconnect ≠ .returned → ∀ i point, s.lookups i ≠ some ⟨true, point⟩ :=
    fun hne i point hpoint => hne (hlate i point hpoint).1
  cases h with
  | take at_ =>
    constructor
    · intro _
      exact hlisted (by simp [at_])
    · simp [hhalts.registered at_]
    · intro i point hpoint
      exact absurd hpoint (hnone (by simp [at_]) i point)
  | abort at_ =>
    constructor
    · intro _
      exact hlisted (by simp [at_])
    · simp
    · intro i point hpoint
      exact absurd hpoint (hnone (by simp [at_]) i point)
  | remove at_ =>
    constructor
    · simp [hlisted (by simp [at_])]
    · intro _
      rfl
    · intro i point hpoint
      exact absurd hpoint (hnone (by simp [at_]) i point)
  | lock at_ =>
    constructor
    · simp
    · intro _
      exact hremoved (by simp [at_])
    · intro i point hpoint
      exact absurd hpoint (hnone (by simp [at_]) i point)
  | disconnect at_ =>
    constructor
    · simp
    · intro _
      exact hremoved (by simp [at_])
    · intro i point hpoint
      exact absurd hpoint (hnone (by simp [at_]) i point)

theorem Step.hides (h : Step s party s') (hs : s.Hides) (hhalts : s.Halts) :
  s'.Hides
  := by
  cases h with
  | supervisor h =>
    obtain ⟨hdisconnect, hlisted, -, hlookups, -⟩ := h.frame
    constructor
    · rw [hdisconnect, hlisted]
      exact hs.listed
    · rw [hdisconnect, hlisted]
      exact hs.removed
    · rw [hdisconnect, hlookups]
      exact hs.late
  | stop h =>
    obtain ⟨at_⟩ := h
    constructor
    · intro _
      exact hs.listed (by simp [at_])
    · simp
    · intro i point hpoint
      have hreturned := (hs.late i point hpoint).1
      simp [at_] at hreturned
  | disconnect h => exact h.hides hs hhalts
  | @lookup i _ _ h =>
    obtain ⟨lookup, hlookup⟩ := h.frame
    constructor
    · rw [hlookup]
      exact hs.listed
    · rw [hlookup]
      exact hs.removed
    · intro j point hpoint
      by_cases hj : j = i
      · subst hj
        have hlate := h.late hs hpoint
        rw [hlookup]
        exact hlate
      · rw [hlookup, lookups_look_ne hj] at hpoint
        rw [hlookup]
        exact hs.late j point hpoint
  | outside h =>
    cases h with
    | _ => exact ⟨hs.listed, hs.removed, hs.late⟩

/-! ### The connections -/

/-- The open connections are the installed one and the one in the supervisor's hand, and the
installed one is closed once the disconnect has returned. -/
structure Accounts (s : LogicalSession) : Prop where
  live : ∀ c ∈ s.live, c = s.handle ∨ s.supervisor.held = some c
  handle : s.handle < s.next
  held : ∀ c, s.supervisor.held = some c → c < s.next
  closed : s.disconnect = .returned → s.handle ∉ s.live

theorem accounts_connected :
  connected.Accounts
  where
  live := by simp [connected]
  handle := by simp [connected]
  held := by simp [connected, Supervising.held]
  closed h := nomatch h

theorem Accounts.of_closed (hs : s.Accounts) (live : ∀ c ∈ s'.live, c ∈ s.live)
    (handle : s'.handle = s.handle) (next : s'.next = s.next)
    (held : s'.supervisor.held = s.supervisor.held
      ∨ s'.supervisor.held = none ∧ ∀ c ∈ s'.live, s.supervisor.held ≠ some c)
    (disconnect : s'.disconnect = .returned → s.disconnect = .returned ∨ s.handle ∉ s'.live) :
  s'.Accounts
  where
  live c hc := by
    rw [handle]
    rcases hs.live c (live c hc) with heq | hheld
    · exact .inl heq
    · rcases held with hsame | ⟨-, hdropped⟩
      · rw [hsame]
        exact .inr hheld
      · exact absurd hheld (hdropped c hc)
  handle := by
    rw [handle, next]
    exact hs.handle
  held c hc := by
    rw [next]
    rcases held with hsame | ⟨hnone, -⟩
    · rw [hsame] at hc
      exact hs.held c hc
    · rw [hnone] at hc
      cases hc
  closed hreturned := by
    rw [handle]
    rcases disconnect hreturned with hbefore | hclosed
    · exact fun hmem => hs.closed hbefore (live _ hmem)
    · exact hclosed

theorem Accounts.dropHeld (hs : s.Accounts) (live : s'.live = s.dropHeld.live)
    (handle : s'.handle = s.handle) (next : s'.next = s.next) (held : s'.supervisor.held = none)
    (disconnect : s'.disconnect = s.disconnect) :
  s'.Accounts
  := by
  apply hs.of_closed _ handle next (.inr ⟨held, _⟩)
  · rw [disconnect]
    exact .inl
  · intro c hc
    rw [live] at hc
    exact (mem_dropHeld.mp hc).1
  · intro c hc
    rw [live] at hc
    exact (mem_dropHeld.mp hc).2

theorem Accounts.keeps (hs : s.Accounts) (live : s'.live = s.live) (handle : s'.handle = s.handle)
    (next : s'.next = s.next) (held : s'.supervisor.held = s.supervisor.held)
    (disconnect : s'.disconnect = s.disconnect) :
  s'.Accounts
  := by
  apply hs.of_closed _ handle next (.inl held)
  · rw [disconnect]
    exact .inl
  · intro c hc
    rw [live] at hc
    exact hc

theorem Supervise.accounts (h : Supervise s s') (hs : s.Accounts) (hhalts : s.Halts) :
  s'.Accounts
  := by
  cases h with
  | open_ at_ =>
    constructor
    · intro c hc
      rcases List.mem_cons.mp hc with rfl | hc
      · exact .inr rfl
      · rcases hs.live c hc with heq | hheld
        · exact .inl heq
        · simp [at_, Supervising.held] at hheld
    · exact Nat.lt_succ_of_lt hs.handle
    · rintro c ⟨⟩
      exact Nat.lt_succ_self _
    · intro hreturned hmem
      rcases List.mem_cons.mp hmem with heq | hmem
      · exact absurd heq (Nat.ne_of_lt hs.handle)
      · exact hs.closed hreturned hmem
  | failed =>
    rw [dropHeld_frame]
    exact hs.dropHeld rfl rfl rfl rfl rfl
  | disconnected =>
    rw [dropHeld_frame]
    exact hs.dropHeld rfl rfl rfl rfl rfl
  | abort =>
    rw [dropHeld_frame]
    exact hs.dropHeld rfl rfl rfl rfl rfl
  | @install c at_ =>
    have hheld : s.supervisor.held = some c := by rw [at_]; rfl
    constructor
    · intro c' hc'
      obtain ⟨hmem, hne⟩ := List.mem_filter.mp hc'
      rcases hs.live c' hmem with heq | hc
      · simp [heq] at hne
      · rw [hheld] at hc
        exact .inl (Option.some.inj hc).symm
    · exact hs.held c hheld
    · rintro c' ⟨⟩
    · intro hreturned
      have hdisconnect : s.disconnect = .returned := hreturned
      have hstopped := hhalts.stopped (by simp [Stopped, hdisconnect])
      exact absurd (by rw [at_]; trivial) (hhalts.idle hstopped)
  | looked at_ =>
    split
    · exact hs.keeps rfl rfl rfl (by rw [at_]; rfl) rfl
    · exact hs.keeps rfl rfl rfl (by rw [at_]; rfl) rfl
  | checked at_ =>
    refine hs.keeps rfl rfl rfl ?_ rfl
    rw [at_, supervise]
    split <;> rfl
  | attempt at_ =>
    refine hs.keeps rfl rfl rfl ?_ rfl
    rw [at_, supervise]
    split <;> rfl
  | verified at_ =>
    refine hs.keeps rfl rfl rfl ?_ rfl
    rw [at_, supervise]
    split <;> rfl
  | yield => exact hs.keeps rfl rfl rfl rfl rfl
  | _ at_ => exact hs.keeps rfl rfl rfl (by rw [at_]; rfl) rfl

theorem Step.accounts (h : Step s party s') (hs : s.Accounts) (hhalts : s.Halts)
    (hhides : s.Hides) :
  s'.Accounts
  := by
  cases h with
  | supervisor h => exact h.accounts hs hhalts
  | stop h =>
    obtain ⟨at_⟩ := h
    exact hs.of_closed (fun _ hc => hc) rfl rfl (.inl rfl) nofun
  | disconnect h =>
    cases h with
    | take at_ =>
      refine hs.of_closed (fun _ hc => hc) rfl rfl (.inl rfl) ?_
      simp [hhalts.registered at_]
    | abort at_ => exact hs.of_closed (fun _ hc => hc) rfl rfl (.inl rfl) nofun
    | remove at_ =>
      refine hs.of_closed (fun _ hc => hc) rfl rfl (.inl rfl) ?_
      simp [hhides.listed (by simp [at_])]
    | lock at_ => exact hs.of_closed (fun _ hc => hc) rfl rfl (.inl rfl) nofun
    | disconnect at_ =>
      refine hs.of_closed ?_ rfl rfl (.inl rfl) ?_
      · intro c hc
        exact (List.mem_filter.mp hc).1
      · intro _
        exact .inr (by simp [close])
  | lookup h =>
    obtain ⟨lookup, rfl⟩ := h.frame
    exact hs.keeps rfl rfl rfl rfl rfl
  | outside h =>
    cases h with
    | break_ c =>
      refine hs.of_closed ?_ rfl rfl (.inl rfl) .inl
      intro c' hc'
      exact (List.mem_filter.mp hc').1
    | _ => exact hs.keeps rfl rfl rfl rfl rfl

/-! ### Runs -/

/-- What holds in all states of a calm run. -/
structure Calm (s : LogicalSession) : Prop where
  halts : s.Halts
  hides : s.Hides
  accounts : s.Accounts

theorem calm_of_run {parties : List Party} (h : Runs CalmStep connected parties s) :
  s.Calm
  := by
  apply h.invariant ⟨halts_connected, hides_connected, accounts_connected⟩
  intro s party s' hs hstep
  constructor
  · exact hstep.halts hs.halts
  · exact hstep.1.hides hs.hides hs.halts
  · exact hstep.1.accounts hs.accounts hs.halts hs.hides

theorem Calm.final (hs : s.Calm) :
  s.Final
  where
  notFound i hfound := by
    obtain ⟨-, hpoint⟩ := hs.hides.late i _ hfound
    simp at hpoint
  stopped := hs.halts.stopped
  notInstalled := hs.accounts.closed
  notLeft hreturned hended := by
    apply List.eq_nil_iff_forall_not_mem.mpr
    intro c hc
    rcases hs.accounts.live c hc with rfl | hheld
    · exact hs.accounts.closed hreturned hc
    · simp [hended, Supervising.held] at hheld

/-! ### A stop that falls behind a check -/

/-- Before the stop the supervisor is not aborted, and the disconnect holds the lock only while it
disconnects the handle. -/
structure Ordered (s : LogicalSession) : Prop where
  aborted : s.disconnect ∈ [.start, .stopping, .aborting] → s.aborted = false
  lock : s.lock = some .disconnect → s.disconnect = .disconnecting

theorem Step.ordered (h : Step s party s') (hs : s.Ordered) :
  s'.Ordered
  := by
  obtain ⟨haborted, hlock⟩ := hs
  cases h with
  | supervisor h =>
    obtain ⟨hdisconnect, -, -, -, hsame⟩ := h.frame
    constructor
    · rw [hdisconnect, h.aborted]
      exact haborted
    · rw [hdisconnect, hsame]
      exact hlock
  | stop h =>
    obtain ⟨at_⟩ := h
    constructor
    · intro _
      exact haborted (by simp [at_])
    · intro hheld
      simp [at_] at hlock
      exact absurd hheld hlock
  | disconnect h =>
    cases h with
    | take at_ =>
      constructor
      · intro _
        exact haborted (by simp [at_])
      · intro hheld
        simp [at_] at hlock
        exact absurd hheld hlock
    | abort at_ =>
      constructor
      · simp
      · intro hheld
        simp [at_] at hlock
        exact absurd hheld hlock
    | remove at_ =>
      constructor
      · dsimp only
        split <;> simp
      · intro hheld
        simp [at_] at hlock
        exact absurd hheld hlock
    | lock => exact ⟨by simp, fun _ => rfl⟩
    | disconnect => exact ⟨by simp, nofun⟩
  | lookup h =>
    obtain ⟨lookup, rfl⟩ := h.frame
    exact ⟨haborted, hlock⟩
  | outside h =>
    cases h with
    | break_ => exact ⟨haborted, hlock⟩
    | lock => exact ⟨haborted, nofun⟩
    | unlock => exact ⟨haborted, nofun⟩

theorem ordered_of_run {parties : List Party} (h : Runs Step connected parties s) :
  s.Ordered
  := by
  apply h.invariant ⟨fun _ => rfl, nofun⟩
  intro s party s' hs hstep
  exact hstep.ordered hs

theorem runs_unlock (h : s.lock ≠ some .disconnect) :
  ∃ parties, Runs Step s parties { s with lock := none }
  := by
  match hlock : s.lock with
  | none =>
    use []
    have hsame : { s with lock := none } = s := by rw [← hlock]
    rw [hsame]
    exact .start
  | some .operation =>
    use [.outside]
    exact Runs.start.snoc (.outside (.unlock hlock))
  | some .disconnect => exact absurd hlock h

theorem not_final_of_phase (hstopped : s.Stopped) (hphase : s.phase ≠ .stopped) :
  ¬ s.Final
  := fun hfinal => hphase (hfinal.stopped hstopped)

theorem exposed (hstopped : s.Stopped) (haborted : s.aborted = false)
    (hlock : s.lock ≠ some .disconnect) (hcommitted : s.supervisor.Committed) :
  ∃ parties s', Runs Step s parties s' ∧ ¬ s'.Final
  := by
  obtain ⟨parties, hrun⟩ := runs_unlock hlock
  match hpoint : s.supervisor with
  | .marking =>
    have hrun := hrun.snoc (.supervisor (.markReconnecting hpoint))
    exact ⟨_, _, hrun, not_final_of_phase hstopped nofun⟩
  | .installed =>
    have hrun := hrun.snoc (.supervisor (.markConnected hpoint))
    exact ⟨_, _, hrun, not_final_of_phase hstopped nofun⟩
  | .installing c =>
    have hrun := hrun.snoc (.supervisor (.install hpoint (fun _ => haborted) rfl))
    have hrun := hrun.snoc (.supervisor (.markConnected rfl))
    exact ⟨_, _, hrun, not_final_of_phase hstopped nofun⟩
  | .locking =>
    have hrun := hrun.snoc (.outside (.break_ s.handle _))
    have hrun := hrun.snoc (.supervisor (.looked hpoint (fun _ => haborted) rfl))
    rw [if_neg (by simp [close])] at hrun
    have hrun := hrun.snoc (.supervisor (.markReconnecting rfl))
    exact ⟨_, _, hrun, not_final_of_phase hstopped nofun⟩
  | .sleeping | .checking | .attempting | .lockingRoutes | .connecting _ | .connected _
  | .disconnecting _ | .backingOff | .ended =>
    rw [hpoint] at hcommitted
    exact hcommitted.elim

theorem Stop.exposed (h : Stop s s') (hs : s.Ordered) (hcommitted : s.supervisor.Committed) :
  ∃ parties s'', Runs Step s' parties s'' ∧ ¬ s''.Final
  := by
  obtain ⟨at_⟩ := h
  apply LogicalSession.exposed
  · exact ⟨nofun, nofun⟩
  · exact hs.aborted (by simp [at_])
  · intro hheld
    have hdisconnecting := hs.lock hheld
    simp [at_] at hdisconnecting
  · exact hcommitted

/-! ### Disconnects -/

/-- A disconnect is final if no stop falls between a check of the supervisor and the stores behind
it; and one that falls there can be followed by steps after which it is not final. -/
theorem disconnect_final (parties : List Party) (s : LogicalSession) :
  (Runs CalmStep connected parties s → s.Final)
    ∧ ∀ s', Runs Step connected parties s → Stop s s' → s.supervisor.Committed →
        ∃ parties' s'', Runs Step s' parties' s'' ∧ ¬ s''.Final
  := by
  constructor
  · intro h
    exact (calm_of_run h).final
  · intro s' h hstop hcommitted
    exact hstop.exposed (ordered_of_run h) hcommitted

/-- The session is disconnected during an attempt to reconnect: the disconnect is final. -/
theorem disconnect_final_attempt :
  ∃ parties s, Runs CalmStep connected parties s ∧ s.disconnect = .returned
    ∧ s.supervisor = .ended ∧ s.next = 2 ∧ s.Final
  := by
  have hrun : Runs CalmStep connected [] connected := .start
  have hrun := hrun.snoc ⟨.outside (.break_ 0 _), nofun⟩
  have hrun := hrun.snoc ⟨.supervisor (.wake rfl (fun _ => rfl)), nofun⟩
  have hrun := hrun.snoc ⟨.supervisor (.checked rfl), nofun⟩
  have hrun := hrun.snoc ⟨.supervisor (.looked rfl nofun rfl), nofun⟩
  have hrun := hrun.snoc ⟨.supervisor (.markReconnecting rfl), nofun⟩
  have hrun := hrun.snoc ⟨.supervisor (.attempt rfl), nofun⟩
  have hrun := hrun.snoc ⟨.supervisor (.takeRoutes rfl nofun rfl), nofun⟩
  have hrun := hrun.snoc ⟨.supervisor (.open_ rfl (fun _ => rfl)), nofun⟩
  have hrun := hrun.snoc ⟨.disconnect (.take rfl), nofun⟩
  have hrun := hrun.snoc ⟨.stop (.stop rfl), fun _ => id⟩
  have hrun := hrun.snoc ⟨.disconnect (.abort rfl), nofun⟩
  have hrun := hrun.snoc ⟨.disconnect (.remove rfl), nofun⟩
  have hrun := hrun.snoc ⟨.disconnect (.lock rfl rfl), nofun⟩
  have hrun := hrun.snoc ⟨.disconnect (.disconnect rfl), nofun⟩
  have hrun := hrun.snoc ⟨.supervisor (.abort nofun rfl rfl), nofun⟩
  exact ⟨_, _, hrun, rfl, rfl, rfl, (disconnect_final _ _).1 hrun⟩

/-- The supervisor has found the session not stopped; the disconnect runs; then the supervisor
installs its connection. -/
theorem disconnect_overtaken :
  ¬ ∀ parties s, Runs Step connected parties s → s.Final
  := by
  intro hall
  have hrun : Runs Step connected [] connected := .start
  have hrun := hrun.snoc (.outside (.break_ 0 _))
  have hrun := hrun.snoc (.supervisor (.wake rfl (fun _ => rfl)))
  have hrun := hrun.snoc (.supervisor (.checked rfl))
  have hrun := hrun.snoc (.supervisor (.looked rfl nofun rfl))
  have hrun := hrun.snoc (.supervisor (.markReconnecting rfl))
  have hrun := hrun.snoc (.supervisor (.attempt rfl))
  have hrun := hrun.snoc (.supervisor (.takeRoutes rfl nofun rfl))
  have hrun := hrun.snoc (.supervisor (.open_ rfl (fun _ => rfl)))
  have hrun := hrun.snoc (.supervisor (.connected rfl (fun _ => rfl)))
  have hrun := hrun.snoc (.supervisor (.verified rfl))
  have hrun := hrun.snoc (.disconnect (.take rfl))
  have hrun := hrun.snoc (.stop (.stop rfl))
  have hrun := hrun.snoc (.disconnect (.abort rfl))
  have hrun := hrun.snoc (.disconnect (.remove rfl))
  have hrun := hrun.snoc (.disconnect (.lock rfl rfl))
  have hrun := hrun.snoc (.disconnect (.disconnect rfl))
  have hrun := hrun.snoc (.supervisor (.install rfl nofun rfl))
  have hrun := hrun.snoc (.supervisor (.markConnected rfl))
  have hfinal := hall _ _ hrun
  exact absurd (hfinal.stopped ⟨nofun, nofun⟩) nofun

end LogicalSession

end Ssh
