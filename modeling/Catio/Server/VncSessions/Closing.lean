import Catio.Server.VncSessions.Registry

/-!
# Closing sessions

How sessions are known is kept by all that closes them, if the events come in order.  Then a session
whose reader has ended, or that was closed, is known nowhere once nothing is under way.
-/

namespace Server

section

variable {manager : List ℕ} {owners : List (ℕ × ℤ)} {conns conns' : List VncConn}
  {closers closers' : List (ℕ × CloseStep)} {i c : ℕ} {s : VncSession}

theorem VncSession.Fine.erased (h : s.Fine manager owners conns closers i)
    (hkeep : ∀ step, (i, step) ∈ closers →
      (i, step) ∈ closers' ∨ (step = .core ∧ i ∉ manager)) :
  s.Fine manager owners conns closers' i
  := by
  obtain ⟨_, _, _, _, _, _, _, _, _, _, _, _, _, _⟩ := h
  constructor <;> grind -linarith

theorem VncSession.Fine.other (h : s.Fine manager owners conns closers i)
    (hpath : ¬ ∃ user, s.path = .web c user)
    (hcounted : ∀ c', Vnc.Counted conns' c' i ↔ Vnc.Counted conns c' i)
    (hcleaning : ∀ c', Vnc.Cleaning conns' c' i
      ↔ Vnc.Cleaning conns c' i ∨ (c' = c ∧ Vnc.Counted conns c i))
    (hopen : ∀ c', Vnc.Open conns' c' ↔ Vnc.Open conns c' ∧ c' ≠ c) :
  s.Fine manager owners conns' closers i
  := by
  obtain ⟨_, _, _, _, _, _, _, _, _, _, _, _, _, _⟩ := h
  constructor <;> grind -linarith

theorem VncSession.Fine.hangUp (h : s.Fine manager owners conns closers i)
    (hpath : ∃ user, s.path = .web c user) (hsetup : s.setup = .done)
    (hcleaning : ∀ c', Vnc.Cleaning conns' c' i
      ↔ Vnc.Cleaning conns c' i ∨ (c' = c ∧ Vnc.Counted conns c i))
    (hopen : ∀ c', Vnc.Open conns' c' ↔ Vnc.Open conns c' ∧ c' ≠ c) :
  ({ s with closed := true } : VncSession).Fine manager owners conns' closers i
  := by
  obtain ⟨user, hpath⟩ := hpath
  obtain ⟨_, _, _, _, _, _, _, _, _, _, _, _, _, _⟩ := h
  constructor <;> grind -linarith

end

namespace Vnc

variable {m : Vnc}

theorem Kept.ask (h : m.Kept) {i : ℕ} {s : VncSession} {step : CloseStep}
    (hs : m.sessions[i]? = some s) (hsetup : s.setup = .done)
    (hstep : (s.path = .desktop ∧ step = .core)
      ∨ ∃ c user, s.path = .web c user ∧ step = .retain c) :
  ({ m.setSession i fun s => { s with closed := true } with
    closers := m.closers ++ [(i, step)] } : Vnc).Kept
  := by
  obtain ⟨hfine, hclosers, hcounted, howned, hknown, hshut, hcleaning⟩ := h
  obtain ⟨_, _, _, _, _, _, _, _, _, _, _, _, _, _⟩ := hfine i s hs
  constructor
  · dsimp only
    apply setSession_fine hs
    · constructor <;> grind -linarith [Vnc.setSession]
    · intro j s' hij hs'
      apply (hfine j s' hs').congr <;> grind -linarith [Vnc.setSession]
  · intro j step' hmem
    obtain hold | hnew := List.mem_append.mp hmem
    · exact exists_setSession (hclosers j step' hold) fun _ _ h => ⟨rfl, h.2⟩
    · obtain ⟨rfl, rfl⟩ := Prod.mk.inj (List.mem_singleton.mp hnew)
      refine ⟨_, setSession_self hs _, rfl, ?_⟩
      grind -linarith
  · intro c' j hcount
    exact exists_setSession (hcounted c' j hcount) fun _ _ h => h
  · intro j hj
    exact exists_setSession (howned j hj) fun _ _ h => h
  · intro j hj
    obtain ⟨s', hs'⟩ := hknown j hj
    obtain ⟨s', hs', _⟩ := @exists_setSession m i j (fun s => { s with closed := true })
      (fun _ => True) ⟨s', hs', trivial⟩ fun _ _ _ => trivial
    exact ⟨s', hs'⟩
  · exact hshut
  · exact hcleaning

theorem Kept.retain (h : m.Kept) {i c k : ℕ} (hk : m.closers[k]? = some (i, .retain c)) :
  ({ m.setConn c fun conn => { conn with opened := conn.opened.filter (· ≠ i) } with
    closers := m.closers.set k (i, .disown) } : Vnc).Kept
  := by
  generalize hm' : (m.setConn c fun conn =>
    { conn with opened := conn.opened.filter (· ≠ i) }) = m'
  have hcounts : ∀ c' j, Counted m'.conns c' j ↔ Counted m.conns c' j ∧ ¬(c' = c ∧ j = i) := by
    intro c' j
    rw [← hm', counted_setConn]
    unfold Counted
    grind -linarith
  have hcleans : ∀ c' j, Cleaning m'.conns c' j ↔ Cleaning m.conns c' j ∧ ¬(c' = c ∧ j = i) := by
    intro c' j
    rw [← hm', cleaning_setConn]
    unfold Cleaning
    grind -linarith
  have hopens : ∀ c', Open m'.conns c' ↔ Open m.conns c' := by
    intro c'
    rw [← hm']
    apply open_setConn_iff
    exact fun _ => rfl
  have hconns := @getElem?_setConn m c
  obtain ⟨hmanager', howners', hsessions'⟩ : m'.manager = m.manager ∧ m'.owners = m.owners
      ∧ m'.sessions = m.sessions := by
    subst hm'
    exact ⟨rfl, rfl, rfl⟩
  have hset : ∀ p ∈ m.closers.set k (i, .disown), p ∈ m.closers ∨ p = (i, .disown) :=
    fun p => List.mem_or_eq_of_mem_set
  have hold : ∀ p ∈ m.closers, p = (i, .retain c) ∨ p ∈ m.closers.set k (i, .disown) :=
    fun p => Places.mem_set_of_mem hk _
  have hnew : (i, .disown) ∈ m.closers.set k (i, .disown) :=
    List.mem_set (List.getElem?_eq_some_iff.mp hk).1 _
  have hmem := List.mem_of_getElem? hk
  obtain ⟨hfine, hclosers, hcounted, howned, hknown, hshut, hcleaning⟩ := h
  constructor
  · intro j s hs
    rw [hsessions'] at hs
    obtain ⟨_, _, _, _, _, _, _, _, _, _, _, _, _, _⟩ := hfine j s hs
    constructor <;> grind -linarith
  all_goals grind -linarith

theorem Kept.disown (h : m.Kept) {i k : ℕ} (hk : m.closers[k]? = some (i, .disown)) :
  ({ m with
    owners := m.owners.filter (·.1 ≠ i)
    closers := m.closers.set k (i, .core) } : Vnc).Kept
  := by
  have hset : ∀ p ∈ m.closers.set k (i, .core), p ∈ m.closers ∨ p = (i, .core) :=
    fun p => List.mem_or_eq_of_mem_set
  have hold : ∀ p ∈ m.closers, p = (i, .disown) ∨ p ∈ m.closers.set k (i, .core) :=
    fun p => Places.mem_set_of_mem hk _
  have hnew : (i, .core) ∈ m.closers.set k (i, .core) :=
    List.mem_set (List.getElem?_eq_some_iff.mp hk).1 _
  have hmem := List.mem_of_getElem? hk
  have howns : ∀ j, Owned (m.owners.filter (·.1 ≠ i)) j ↔ Owned m.owners j ∧ j ≠ i := by
    intro j
    unfold Owned
    grind -linarith
  obtain ⟨hfine, hclosers, hcounted, howned, hknown, hshut, hcleaning⟩ := h
  constructor
  · intro j s hs
    obtain ⟨_, _, _, _, _, _, _, _, _, _, _, _, _, _⟩ := hfine j s hs
    constructor <;> grind -linarith
  all_goals grind -linarith

theorem Kept.core (h : m.Kept) {i k : ℕ} (hk : m.closers[k]? = some (i, .core)) :
  ({ m with closers := m.closers.eraseIdx k }.closeCore i).Kept
  := by
  have hold : ∀ p ∈ m.closers, p = (i, .core) ∨ p ∈ m.closers.eraseIdx k :=
    fun p => Places.mem_eraseIdx_of_mem hk
  have hless : ∀ p ∈ m.closers.eraseIdx k, p ∈ m.closers := fun p => List.mem_of_mem_eraseIdx
  have hmem := List.mem_of_getElem? hk
  obtain ⟨hfine, hclosers, hcounted, howned, hknown, hshut, hcleaning⟩ := h
  obtain ⟨s, hs, hclosed, _⟩ := hclosers i .core hmem
  unfold Vnc.closeCore
  dsimp only
  split
  · rename_i hin
    obtain ⟨_, _, _, _, _, _, _, _, _, _, _, _, _, _⟩ := hfine i s hs
    constructor
    · dsimp only
      apply setSession_fine hs
      · constructor <;> grind -linarith [Vnc.setSession, VncSession.stopSiblings]
      · intro j s' hij hs'
        apply (hfine j s' hs').congr <;> grind -linarith [Vnc.setSession]
    · intro j step hstep
      exact exists_setSession (hclosers j step (hless _ hstep)) fun _ _ h => h
    · intro c' j hcount
      exact exists_setSession (hcounted c' j hcount) fun _ _ h => h
    · intro j hj
      exact exists_setSession (howned j hj) fun _ _ h => h
    · intro j hj
      obtain ⟨s', hs'⟩ := hknown j (List.mem_of_mem_filter hj)
      obtain ⟨s', hs', _⟩ := @exists_setSession m i j
        (fun s => { s.stopSiblings with readerAborted := true })
        (fun _ => True) ⟨s', hs', trivial⟩ fun _ _ _ => trivial
      exact ⟨s', hs'⟩
    · exact hshut
    · exact hcleaning
  · constructor
    · intro j s' hs'
      apply (hfine j s' hs').erased
      grind -linarith
    all_goals grind -linarith

theorem Kept.closeStep (h : m.Kept) (k : ℕ) :
  (m.closeStep k).Kept
  := by
  unfold Vnc.closeStep
  split
  · exact h
  · rename_i hk
    exact h.retain hk
  · rename_i hk
    exact h.disown hk
  · rename_i hk
    exact h.core hk

/-- A connection is over once all of its connects are done. -/
theorem Kept.closeConn (h : m.Kept) {c : ℕ}
    (hconnecting : ∀ conn : VncConn, m.conns[c]? = some conn → conn.connecting = [])
    (hdone : ∀ s ∈ m.sessions, s.path.on c → s.setup = .done) :
  (m.closeConn c).Kept
  := by
  unfold Vnc.closeConn
  split
  · exact h
  rename_i conn hconn
  split
  · rename_i hopen
    generalize hm' : (m.setConn c fun conn => { conn with isOpen := false, cleaning := true }) = m'
    have hcounts : ∀ c' j, Counted m'.conns c' j ↔ Counted m.conns c' j := by
      intro c' j
      rw [← hm']
      apply counted_setConn_iff
      exact fun _ => rfl
    have hcleans : ∀ c' j, Cleaning m'.conns c' j
        ↔ Cleaning m.conns c' j ∨ (c' = c ∧ Counted m.conns c j) := by
      intro c' j
      rw [← hm', cleaning_setConn]
      unfold Cleaning Counted
      grind -linarith
    have hopens : ∀ c', Open m'.conns c' ↔ Open m.conns c' ∧ c' ≠ c := by
      intro c'
      rw [← hm', open_setConn]
      unfold Open
      grind -linarith
    have hconns := @getElem?_setConn m c
    obtain ⟨hmanager', howners', hclosers'⟩ : m'.manager = m.manager ∧ m'.owners = m.owners
        ∧ m'.closers = m.closers := by
      subst hm'
      exact ⟨rfl, rfl, rfl⟩
    obtain ⟨hfine, hclosers, hcounted, howned, hknown, hshut, hcleaning⟩ := h
    generalize hmap : (m.sessions.map fun s =>
      if s.path.on c then { s with closed := true } else s) = sessions
    have hget : ∀ (j : ℕ) (s' : VncSession), sessions[j]? = some s' → ∃ s, m.sessions[j]? = some s
        ∧ ((∃ user, s.path = .web c user) ∧ s' = { s with closed := true }
          ∨ (¬ ∃ user, s.path = .web c user) ∧ s' = s) := by
      intro j s' hs'
      rw [← hmap, List.getElem?_map] at hs'
      obtain ⟨s, hs, rfl⟩ := Option.map_eq_some_iff.mp hs'
      refine ⟨s, hs, ?_⟩
      rw [← VncPath.on_iff]
      grind -linarith
    have hput : ∀ (j : ℕ) (s : VncSession), m.sessions[j]? = some s → ∃ s', sessions[j]? = some s'
        ∧ s'.path = s.path ∧ s'.setup = s.setup ∧ (s.closed → s'.closed) := by
      intro j s hs
      rw [← hmap, List.getElem?_map, hs]
      grind -linarith
    constructor
    · intro j s' hs'
      obtain ⟨s, hs, ⟨⟨user, hpath⟩, rfl⟩ | ⟨hpath, rfl⟩⟩ := hget j s' hs'
      · have hsetup := hdone s (List.mem_of_getElem? hs) (VncPath.on_iff.mpr ⟨user, hpath⟩)
        dsimp only
        rw [hmanager', howners', hclosers']
        apply (hfine j s hs).hangUp ⟨user, hpath⟩ hsetup (hcleans · j) hopens
      · dsimp only
        rw [hmanager', howners', hclosers']
        apply (hfine j s' hs).other hpath (hcounts · j) (hcleans · j) hopens
    all_goals grind -linarith
  · exact h

theorem Kept.cleanup (h : m.Kept) (c : ℕ) :
  (m.cleanup c).Kept
  := by
  unfold Vnc.cleanup
  split
  · exact h
  rename_i conn hconn
  split
  · rename_i hclean
    generalize hm' : (m.setConn c fun conn => { conn with cleaning := false }) = m'
    have hcounts : ∀ c' j, Counted m'.conns c' j ↔ Counted m.conns c' j := by
      intro c' j
      rw [← hm']
      apply counted_setConn_iff
      exact fun _ => rfl
    have hcleans : ∀ c' j, Cleaning m.conns c' j → Cleaning m'.conns c' j
        ∨ (c' = c ∧ j ∈ conn.opened) := by
      intro c' j
      rw [← hm', cleaning_setConn]
      unfold Cleaning
      grind -linarith
    have hopens : ∀ c', Open m'.conns c' ↔ Open m.conns c' := by
      intro c'
      rw [← hm']
      apply open_setConn_iff
      exact fun _ => rfl
    have hconns := @getElem?_setConn m c
    obtain ⟨hmanager', howners', hsessions'⟩ : m'.manager = m.manager ∧ m'.owners = m.owners
        ∧ m'.sessions = m.sessions := by
      subst hm'
      exact ⟨rfl, rfl, rfl⟩
    have hadd : ∀ j step, (j, step) ∈ m.closers ++ conn.opened.map (fun i => (i, .disown))
        ↔ (j, step) ∈ m.closers ∨ (j ∈ conn.opened ∧ step = .disown) := by
      intro j step
      rw [List.mem_append, List.mem_map]
      grind -linarith
    obtain ⟨hfine, hclosers, hcounted, howned, hknown, hshut, hcleaning⟩ := h
    have hclosed : ∀ j ∈ conn.opened, ∃ s : VncSession, m.sessions[j]? = some s ∧ s.closed := by
      intro j hj
      obtain ⟨s, hs, ⟨user, hpath⟩, _⟩ := hcounted c j ⟨conn, hconn, hj⟩
      refine ⟨s, hs, (hfine j s hs).hung c user hpath ?_⟩
      rintro ⟨conn', hconn', hopen⟩
      rw [hconn] at hconn'
      obtain rfl := Option.some.inj hconn'
      rw [hcleaning c conn hconn hclean] at hopen
      cases hopen
    constructor
    · intro j s hs
      dsimp only at hs ⊢
      rw [hsessions'] at hs
      apply (hfine j s hs).congr
      all_goals grind -linarith
    all_goals grind -linarith
  · exact h

theorem Kept.register (h : m.Kept) :
  ({ m with conns := m.conns ++ [{}] } : Vnc).Kept
  := by
  have hget : ∀ (c : ℕ) (conn : VncConn), (m.conns ++ [({} : VncConn)])[c]? = some conn
      → m.conns[c]? = some conn ∨ (c = m.conns.length ∧ conn = {}) :=
    fun c conn hconn => (Places.getElem?_snoc hconn).symm
  have hkeep : ∀ (c : ℕ) (conn : VncConn), m.conns[c]? = some conn →
      (m.conns ++ [({} : VncConn)])[c]? = some conn := by
    grind -linarith
  have hcounts : ∀ c j, Counted (m.conns ++ [({} : VncConn)]) c j ↔ Counted m.conns c j := by
    intro c j
    unfold Counted
    grind -linarith
  have hcleans : ∀ c j, Cleaning (m.conns ++ [({} : VncConn)]) c j ↔ Cleaning m.conns c j := by
    intro c j
    unfold Cleaning
    grind -linarith
  have hopens : ∀ c, Open (m.conns ++ [({} : VncConn)]) c → Open m.conns c
      ∨ ∀ j, ¬ Counted m.conns c j := by
    intro c
    unfold Open Counted
    grind -linarith
  have hopened : ∀ c, Open m.conns c → Open (m.conns ++ [({} : VncConn)]) c := by
    intro c
    unfold Open
    grind -linarith
  obtain ⟨hfine, hclosers, hcounted, howned, hknown, hshut, hcleaning⟩ := h
  constructor
  · intro j s hs
    obtain ⟨_, _, _, _, _, _, _, _, _, _, _, _, _, _⟩ := hfine j s hs
    constructor <;> grind -linarith
  all_goals grind -linarith

/-- A reader removes its session only once it is in the manager; reading from a session of a
connection ends only once its closing was asked for, which is only after its connect, and where it
was connected; and a connection is over only once its connects are done. -/
def orderly : VncEvent → Vnc → Bool
  | .remove i, m => m.sessions[i]?.all fun s => s.setup ≠ .spawned
  | .pumpEnds i, m => m.sessions[i]?.all fun s => s.path = .desktop || s.closed
  | .closeDesktop i, m => m.sessions[i]?.any fun s => s.setup = .done && s.path = .desktop
  | .closeWeb c _ _ i, m => m.sessions[i]?.any fun s => s.setup = .done && s.path.on c
  | .closeConn c, m => m.conns[c]?.all (fun conn => conn.connecting = [])
      && m.sessions.all fun s => !s.path.on c || s.setup = .done
  | _, _ => true

theorem Kept.after (h : m.Kept) {event : VncEvent} (horderly : orderly event m) :
  (m.after event).Kept
  := by
  cases event with
  | register => exact h.register
  | openDesktop => exact h.openDesktop
  | connectWeb c user => exact h.connectWeb c user
  | failWeb c k => exact h.failWeb c k
  | openWeb c k => exact h.openWeb c k
  | proceed i => exact h.proceed i
  | pumpEnds i =>
    apply h.pumpEnds
    intro s hs c user hpath
    rw [orderly, hs, Option.all_some, hpath] at horderly
    simpa using horderly
  | stopSiblings i => exact h.stopSiblings i
  | remove i =>
    apply h.remove
    intro s hs
    rw [orderly, hs, Option.all_some, decide_eq_true_iff] at horderly
    exact horderly
  | cancelReader i => exact h.cancelReader i
  | stopWriter i => exact h.stopWriter i
  | stopTicker i => exact h.stopTicker i
  | closeDesktop i =>
    obtain ⟨s, hs, hdone⟩ := (Option.any_eq_true _ _).mp horderly
    rw [Bool.and_eq_true, decide_eq_true_iff, decide_eq_true_iff] at hdone
    exact h.ask hs hdone.1 (.inl ⟨hdone.2, rfl⟩)
  | closeWeb c user admin i =>
    obtain ⟨s, hs, hdone⟩ := (Option.any_eq_true _ _).mp horderly
    rw [Bool.and_eq_true, decide_eq_true_iff, VncPath.on_iff] at hdone
    obtain ⟨hsetup, owner, hpath⟩ := hdone
    unfold Vnc.after Vnc.closeWeb
    dsimp only
    split
    · exact h.ask hs hsetup (.inr ⟨c, owner, hpath, rfl⟩)
    · exact h
  | closeStep k => exact h.closeStep k
  | closeConn c =>
    obtain ⟨hconnecting, hdone⟩ := Bool.and_eq_true_iff.mp horderly
    apply h.closeConn
    · intro conn hconn
      rw [hconn, Option.all_some, decide_eq_true_iff] at hconnecting
      exact hconnecting
    · intro s hs hpath
      have hs' := List.all_eq_true.mp hdone s hs
      rw [hpath] at hs'
      simpa using hs'
  | cleanup c => exact h.cleanup c

theorem kept_start :
  ({} : Vnc).Kept
  := by
  constructor <;> simp [Counted, Owned]

/-! ### Every run -/

/-- No task has anything left to do but to read, and nothing is under way. -/
def Quiescent (m : Vnc) : Prop :=
  m.closers = [] ∧ (∀ conn ∈ m.conns, conn.connecting = [] ∧ conn.cleaning = false)
    ∧ ∀ s ∈ m.sessions, s.setup = .done
      ∧ (s.reader = .reading ∧ s.readerAborted = false ∨ s.reader = .removed
        ∨ s.reader = .cancelled)
      ∧ s.writer ≠ .aborted ∧ s.ticker ≠ .aborted

instance (m : Vnc) : Decidable m.Quiescent :=
  inferInstanceAs (Decidable (_ ∧ _ ∧ _))

/-- A session that was closed or whose reader ended is in no map, has no tasks, and does not count
against the limit. -/
def Exact (m : Vnc) : Prop :=
  m.Quiescent → ∀ i s, m.sessions[i]? = some s →
    s.reader = .removed ∨ s.reader = .cancelled ∨ s.closed →
    i ∉ m.manager ∧ s.writer = .stopped ∧ s.ticker = .stopped
      ∧ ∀ c user, s.path = .web c user →
        (∀ conn, m.conns[c]? = some conn → conn.isOpen → i ∉ conn.opened)
          ∧ ∀ owner, (i, owner) ∉ m.owners

theorem stopped_of {t : VncTask} (hrunning : t ≠ .running) (haborted : t ≠ .aborted) :
  t = .stopped
  := by
  cases t with
  | running => exact absurd rfl hrunning
  | aborted => exact absurd rfl haborted
  | stopped => rfl

theorem Kept.exact (h : m.Kept) :
  m.Exact
  := by
  rintro ⟨hclosers, hconns, hsessions⟩ i s hs hend
  obtain ⟨hsetup, hreader, hwriter, hticker⟩ := hsessions s (List.mem_of_getElem? hs)
  have hfine := h.fine i s hs
  have hcleaning : ∀ c, ¬ Cleaning m.conns c i := by
    rintro c ⟨conn, hconn, hclean, _⟩
    rw [(hconns conn (List.mem_of_getElem? hconn)).2] at hclean
    cases hclean
  have hnone : ∀ step, (i, step) ∉ m.closers := by
    simp [hclosers]
  have hmanager : i ∉ m.manager := by
    intro hin
    obtain hremoved | hcancelled | hclosed := hend
    · exact (hfine.gone hremoved).2 hin
    · exact (hfine.aborted (hfine.cancelled hcancelled)).2 hin
    · obtain ⟨step, hstep⟩ | ⟨c, user, _, hclean⟩ := hfine.closing hclosed hin
      · exact hnone step hstep
      · exact hcleaning c hclean
  have hstops : s.writer ≠ .running ∧ s.ticker ≠ .running := by
    apply hfine.siblings
    obtain haborted | hremoved := hfine.left (by rw [hsetup]; simp) hmanager
    · exact .inr (.inr haborted)
    · exact .inr (.inl hremoved)
  refine ⟨hmanager, stopped_of hstops.1 hwriter, stopped_of hstops.2 hticker, ?_⟩
  intro c user hpath
  have hclosed : s.closed := by
    obtain hremoved | hcancelled | hclosed := hend
    · exact hfine.natural c user hpath (.inr (.inr hremoved))
    · exact (hfine.aborted (hfine.cancelled hcancelled)).1
    · exact hclosed
  constructor
  · intro conn hconn hopen hin
    exact hnone _ (hfine.counted c user hpath hclosed ⟨conn, hconn, hopen⟩ ⟨conn, hconn, hin⟩)
  · intro owner howner
    obtain hretain | hdisown | hclean := hfine.owned c user hpath hclosed ⟨owner, howner⟩
    · exact hnone _ hretain
    · exact hnone _ hdisown
    · exact hcleaning c hclean

/-- The registry of sessions is exact in every run whose events are in order. -/
theorem registry_exact (events : List VncEvent)
    (h : Steps.Throughout Vnc.after (fun event m => orderly event m) events {}) :
  (events.foldl Vnc.after {}).Exact
  := (Steps.invariant kept_start (fun _ _ hkept hevent => hkept.after hevent) h).exact

/-- A run in which the server of a session of the desktop application goes away, and a session of a
connection is closed. -/
theorem registry_exact_closed :
  Vnc.Exact ([.openDesktop, .proceed 0, .pumpEnds 0, .stopSiblings 0, .remove 0, .stopWriter 0,
    .stopTicker 0, .register, .connectWeb 0 7, .openWeb 0 0, .proceed 1, .proceed 1, .proceed 1,
    .proceed 1, .closeWeb 0 7 false 1, .closeStep 0, .closeStep 0, .closeStep 0, .cancelReader 1,
    .stopWriter 1, .stopTicker 1].foldl Vnc.after {})
  := registry_exact _ (by decide)

/-- A session whose server goes away before it is in the manager stays there, and one of a
connection in its list. -/
theorem registry_stale :
  ¬ Vnc.Exact ([.openDesktop, .pumpEnds 0, .stopSiblings 0, .remove 0, .proceed 0, .stopWriter 0,
      .stopTicker 0].foldl Vnc.after {})
    ∧ ¬ Vnc.Exact ([.register, .connectWeb 0 7, .openWeb 0 0, .proceed 0, .proceed 0, .proceed 0,
      .proceed 0, .pumpEnds 0, .stopSiblings 0, .remove 0, .stopWriter 0,
      .stopTicker 0].foldl Vnc.after {})
  := by
  constructor
  · intro h
    obtain ⟨hmanager, _⟩ := h (by decide) 0
      ⟨.desktop, .done, .removed, false, .stopped, .stopped, false⟩ rfl (.inl rfl)
    exact hmanager (by decide)
  · intro h
    obtain ⟨_, _, _, hweb⟩ := h (by decide) 0
      ⟨.web 0 7, .done, .removed, false, .stopped, .stopped, false⟩ rfl (.inl rfl)
    exact (hweb 0 7 rfl).2 7 (by decide)

end Vnc

end Server
