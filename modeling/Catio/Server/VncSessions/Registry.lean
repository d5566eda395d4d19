import Catio.Lib.Places
import Catio.Lib.Steps
import Catio.Server.VncSessions

/-!
# How sessions are known

A session that has come into the manager is there until it is closed or its reader has come to its
end; one that is to be closed is taken from the list of its connection and from the owners on the
way.  This is kept by the steps of connects and of tasks.
-/

namespace Server

namespace Vnc

section

variable (conns : List VncConn) (owners : List (ℕ × ℤ))

/-- A session is in the list of a connection. -/
def Counted (c i : ℕ) : Prop :=
  ∃ conn, conns[c]? = some conn ∧ i ∈ conn.opened

/-- A session is about to be closed with its connection. -/
def Cleaning (c i : ℕ) : Prop :=
  ∃ conn, conns[c]? = some conn ∧ conn.cleaning ∧ i ∈ conn.opened

def Open (c : ℕ) : Prop :=
  ∃ conn, conns[c]? = some conn ∧ conn.isOpen

/-- A session has an owner. -/
def Owned (i : ℕ) : Prop :=
  ∃ user, (i, user) ∈ owners

end

end Vnc

theorem VncPath.on_iff {path : VncPath} {c : ℕ} :
  path.on c ↔ ∃ user, path = .web c user
  := by
  cases path with
  | desktop => simp [VncPath.on]
  | web c' user =>
    simp only [VncPath.on, decide_eq_true_iff, VncPath.web.injEq]
    exact ⟨fun h => ⟨user, h, rfl⟩, fun ⟨_, h, _⟩ => h⟩

structure VncSession.Fine (manager : List ℕ) (owners : List (ℕ × ℤ)) (conns : List VncConn)
    (closers : List (ℕ × CloseStep)) (i : ℕ) (s : VncSession) : Prop where
  kept : i ∈ manager → s.setup ≠ .spawned
  left : s.setup ≠ .spawned → i ∉ manager → s.readerAborted ∨ s.reader = .removed
  gone : s.reader = .removed → s.setup ≠ .spawned ∧ i ∉ manager
  siblings : s.reader = .stopping ∨ s.reader = .removed ∨ s.readerAborted →
    s.writer ≠ .running ∧ s.ticker ≠ .running
  aborted : s.readerAborted → s.closed ∧ i ∉ manager
  cancelled : s.reader = .cancelled → s.readerAborted
  gated : s.reader = .gated → (s.setup = .spawned ∨ s.setup = .inserted) ∧ s.path ≠ .desktop
  closed : s.closed → s.setup = .done
  closing : s.closed → i ∈ manager → (∃ step, (i, step) ∈ closers)
    ∨ ∃ c user, s.path = .web c user ∧ Vnc.Cleaning conns c i
  counted : ∀ c user, s.path = .web c user → s.closed → Vnc.Open conns c → Vnc.Counted conns c i →
    (i, .retain c) ∈ closers
  owned : ∀ c user, s.path = .web c user → s.closed → Vnc.Owned owners i →
    (i, .retain c) ∈ closers ∨ (i, .disown) ∈ closers ∨ Vnc.Cleaning conns c i
  live : ∀ c user, s.path = .web c user → s.setup = .pushed ∨ s.setup = .done →
    s.closed = false → Vnc.Counted conns c i
  natural : ∀ c user, s.path = .web c user →
    s.reader = .ended ∨ s.reader = .stopping ∨ s.reader = .removed → s.closed
  hung : ∀ c user, s.path = .web c user → ¬ Vnc.Open conns c → s.closed

section

variable {manager manager' : List ℕ} {owners owners' : List (ℕ × ℤ)} {conns conns' : List VncConn}
  {closers closers' : List (ℕ × CloseStep)} {i : ℕ} {s : VncSession}

theorem VncSession.Fine.congr (h : s.Fine manager owners conns closers i)
    (hmanager : i ∈ manager' ↔ i ∈ manager) (howned : Vnc.Owned owners' i → Vnc.Owned owners i)
    (hclosers : ∀ step, (i, step) ∈ closers → (i, step) ∈ closers')
    (hcounted : ∀ c, Vnc.Counted conns' c i ↔ Vnc.Counted conns c i)
    (hcleaning : ∀ c, Vnc.Cleaning conns c i → Vnc.Cleaning conns' c i ∨ (i, .disown) ∈ closers')
    (hopen : ∀ c, Vnc.Open conns' c ↔ Vnc.Open conns c) :
  s.Fine manager' owners' conns' closers' i
  := by
  obtain ⟨_, _, _, _, _, _, _, _, _, _, _, _, _, _⟩ := h
  constructor <;> grind -linarith

end

namespace Vnc

/-- How all sessions are known. -/
structure Kept (m : Vnc) : Prop where
  fine : ∀ (i : ℕ) (s : VncSession), m.sessions[i]? = some s →
    s.Fine m.manager m.owners m.conns m.closers i
  closers : ∀ i step, (i, step) ∈ m.closers → ∃ s : VncSession, m.sessions[i]? = some s ∧ s.closed
    ∧ ∀ c, step = .retain c → ∃ user, s.path = .web c user
  counted : ∀ c i, Counted m.conns c i → ∃ s : VncSession, m.sessions[i]? = some s
    ∧ (∃ user, s.path = .web c user) ∧ (s.setup = .pushed ∨ s.setup = .done)
  owned : ∀ i, Owned m.owners i → ∃ s : VncSession, m.sessions[i]? = some s ∧ s.setup = .done
  known : ∀ i ∈ m.manager, ∃ s : VncSession, m.sessions[i]? = some s
  shut : ∀ (c : ℕ) (conn : VncConn), m.conns[c]? = some conn → conn.isOpen = false →
    conn.connecting = []
  cleaning : ∀ (c : ℕ) (conn : VncConn), m.conns[c]? = some conn → conn.cleaning →
    conn.isOpen = false

variable {m : Vnc}

@[grind .]
theorem abort_ne_running (t : VncTask) :
  t.abort ≠ .running
  := by
  cases t <;> simp [VncTask.abort]

theorem getElem?_setSession (i j : ℕ) (f : VncSession → VncSession) :
  (m.setSession i f).sessions[j]? = (m.sessions[j]?).map fun s => if j = i then f s else s
  := by
  unfold setSession
  rw [List.getElem?_modify]
  by_cases h : j = i
  · simp [h]
  · simp [h, Ne.symm h]

variable {s : VncSession} {i : ℕ}

theorem setSession_self (hs : m.sessions[i]? = some s) (f : VncSession → VncSession) :
  (m.setSession i f).sessions[i]? = some (f s)
  := by
  rw [getElem?_setSession, hs, Option.map_some, if_pos rfl]

theorem setSession_ne {i j : ℕ} (h : j ≠ i) (f : VncSession → VncSession) :
  (m.setSession i f).sessions[j]? = m.sessions[j]?
  := by
  rw [getElem?_setSession]
  simp [h]

theorem exists_setSession {i j : ℕ} {f : VncSession → VncSession} {P : VncSession → Prop}
    (h : ∃ s : VncSession, m.sessions[j]? = some s ∧ P s)
    (hf : ∀ s : VncSession, m.sessions[i]? = some s → P s → P (f s)) :
  ∃ s : VncSession, (m.setSession i f).sessions[j]? = some s ∧ P s
  := by
  obtain ⟨s, hs, hP⟩ := h
  by_cases hij : j = i
  · subst hij
    exact ⟨f s, setSession_self hs f, hf s hs hP⟩
  · exact ⟨s, (setSession_ne hij f).trans hs, hP⟩

theorem getElem?_setConn (i j : ℕ) (f : VncConn → VncConn) :
  (m.setConn i f).conns[j]? = (m.conns[j]?).map fun s => if j = i then f s else s
  := by
  unfold setConn
  rw [List.getElem?_modify]
  by_cases h : j = i
  · simp [h]
  · simp [h, Ne.symm h]

theorem setSession_fine {f : VncSession → VncSession} {manager : List ℕ} {owners : List (ℕ × ℤ)}
    {conns : List VncConn} {closers : List (ℕ × CloseStep)} (hs : m.sessions[i]? = some s)
    (hself : (f s).Fine manager owners conns closers i)
    (hother : ∀ (j : ℕ) (s : VncSession), j ≠ i → m.sessions[j]? = some s →
      s.Fine manager owners conns closers j) (j : ℕ) (s' : VncSession)
    (hs' : (m.setSession i f).sessions[j]? = some s') :
  s'.Fine manager owners conns closers j
  := by
  rw [getElem?_setSession] at hs'
  obtain ⟨s₀, hs₀, rfl⟩ := Option.map_eq_some_iff.mp hs'
  by_cases hij : j = i
  · subst hij
    rw [hs] at hs₀
    obtain rfl := Option.some.inj hs₀
    rw [if_pos rfl]
    exact hself
  · rw [if_neg hij]
    exact hother j s₀ hij hs₀

theorem Kept.setSession (h : m.Kept) {f : VncSession → VncSession}
    (hf : ∀ s : VncSession, m.sessions[i]? = some s →
      s.Fine m.manager m.owners m.conns m.closers i →
      (f s).Fine m.manager m.owners m.conns m.closers i)
    (hsame : ∀ s : VncSession, (f s).path = s.path ∧ (f s).setup = s.setup
      ∧ (s.closed → (f s).closed)) :
  (m.setSession i f).Kept
  := by
  obtain ⟨hfine, hclosers, hcounted, howned, hknown, hshut, hcleaning⟩ := h
  have hget := @getElem?_setSession m i
  constructor <;> dsimp only [Vnc.setSession] at hget ⊢
  all_goals grind -linarith

theorem Kept.pumpEnds (h : m.Kept)
    (hclosed : ∀ s : VncSession, m.sessions[i]? = some s →
      ∀ c user, s.path = .web c user → s.closed) :
  (m.pumpEnds i).Kept
  := by
  apply h.setSession
  · intro s hs hfine
    have := hclosed s hs
    obtain ⟨_, _, _, _, _, _, _, _, _, _, _, _, _, _⟩ := hfine
    constructor <;> grind -linarith
  · intro s
    split <;> simp

theorem Kept.stopSiblings (h : m.Kept) (i : ℕ) :
  (m.stopSiblings i).Kept
  := by
  apply h.setSession
  · intro s hs hfine
    obtain ⟨_, _, _, _, _, _, _, _, _, _, _, _, _, _⟩ := hfine
    constructor <;> grind -linarith [VncSession.stopSiblings]
  · intro s
    split <;> simp [VncSession.stopSiblings]

theorem Kept.cancelReader (h : m.Kept) (i : ℕ) :
  (m.cancelReader i).Kept
  := by
  apply h.setSession
  · intro s hs hfine
    obtain ⟨_, _, _, _, _, _, _, _, _, _, _, _, _, _⟩ := hfine
    constructor <;> grind -linarith
  · intro s
    split <;> simp

theorem Kept.stopWriter (h : m.Kept) (i : ℕ) :
  (m.stopWriter i).Kept
  := by
  apply h.setSession
  · intro s hs hfine
    obtain ⟨_, _, _, _, _, _, _, _, _, _, _, _, _, _⟩ := hfine
    constructor <;> grind -linarith
  · intro s
    simp

theorem Kept.stopTicker (h : m.Kept) (i : ℕ) :
  (m.stopTicker i).Kept
  := by
  apply h.setSession
  · intro s hs hfine
    obtain ⟨_, _, _, _, _, _, _, _, _, _, _, _, _, _⟩ := hfine
    constructor <;> grind -linarith
  · intro s
    simp

theorem Kept.remove (h : m.Kept)
    (hinserted : ∀ s : VncSession, m.sessions[i]? = some s → s.setup ≠ .spawned) :
  (m.remove i).Kept
  := by
  unfold Vnc.remove
  split
  · exact h
  split
  · obtain ⟨hfine, hclosers, hcounted, howned, hknown, hshut, hcleaning⟩ := h
    have hget := @getElem?_setSession m i
    rename_i s hs _
    obtain ⟨_, _, _, _, _, _, _, _, _, _, _, _, _, _⟩ := hfine i s hs
    constructor
    · dsimp only
      apply setSession_fine hs
      · constructor <;> grind -linarith [Vnc.setSession]
      · intro j s' hij hs'
        apply (hfine j s' hs').congr <;> grind -linarith [Vnc.setSession]
    all_goals grind -linarith [Vnc.setSession]
  · exact h

theorem counted_setConn (c c' i : ℕ) (f : VncConn → VncConn) :
  Counted (m.setConn c f).conns c' i
    ↔ ∃ conn, m.conns[c']? = some conn ∧ i ∈ (if c' = c then f conn else conn).opened
  := by
  unfold Counted
  rw [getElem?_setConn]
  simp

theorem cleaning_setConn (c c' i : ℕ) (f : VncConn → VncConn) :
  Cleaning (m.setConn c f).conns c' i
    ↔ ∃ conn, m.conns[c']? = some conn ∧ (if c' = c then f conn else conn).cleaning
      ∧ i ∈ (if c' = c then f conn else conn).opened
  := by
  unfold Cleaning
  rw [getElem?_setConn]
  simp

theorem open_setConn (c c' : ℕ) (f : VncConn → VncConn) :
  Open (m.setConn c f).conns c'
    ↔ ∃ conn, m.conns[c']? = some conn ∧ (if c' = c then f conn else conn).isOpen
  := by
  unfold Open
  rw [getElem?_setConn]
  simp

theorem counted_setConn_iff {f : VncConn → VncConn} (hf : ∀ conn, (f conn).opened = conn.opened)
    (c c' i : ℕ) :
  Counted (m.setConn c f).conns c' i ↔ Counted m.conns c' i
  := by
  rw [counted_setConn, Counted]
  simp only [apply_ite VncConn.opened, hf, ite_self]

theorem open_setConn_iff {f : VncConn → VncConn} (hf : ∀ conn, (f conn).isOpen = conn.isOpen)
    (c c' : ℕ) :
  Open (m.setConn c f).conns c' ↔ Open m.conns c'
  := by
  rw [open_setConn, Open]
  simp only [apply_ite VncConn.isOpen, hf, ite_self]

theorem Kept.connecting (h : m.Kept) {c : ℕ} {f : VncConn → List ℤ}
    (hf : ∀ conn : VncConn, m.conns[c]? = some conn → conn.isOpen = false → f conn = []) :
  (m.setConn c fun conn => { conn with connecting := f conn }).Kept
  := by
  have hcounted' : ∀ c' i, Counted (m.setConn c fun conn =>
      { conn with connecting := f conn }).conns c' i ↔ Counted m.conns c' i := by
    intro c' i
    apply counted_setConn_iff
    exact fun _ => rfl
  have hcleaning' : ∀ c' i, Cleaning (m.setConn c fun conn =>
      { conn with connecting := f conn }).conns c' i ↔ Cleaning m.conns c' i := by
    intro c' i
    rw [cleaning_setConn]
    unfold Cleaning
    grind -linarith
  have hopen' : ∀ c', Open (m.setConn c fun conn =>
      { conn with connecting := f conn }).conns c' ↔ Open m.conns c' := by
    intro c'
    apply open_setConn_iff
    exact fun _ => rfl
  have hget := @getElem?_setConn m c
  obtain ⟨hfine, hclosers, hcounted, howned, hknown, hshut, hcleaning⟩ := h
  constructor
  · intro i s hs
    obtain ⟨_, _, _, _, _, _, _, _, _, _, _, _, _, _⟩ := hfine i s hs
    constructor <;> grind -linarith [Vnc.setConn]
  all_goals grind -linarith [Vnc.setConn]

theorem Kept.connectWeb (h : m.Kept) (c : ℕ) (user : ℤ) :
  (m.connectWeb c user).Kept
  := by
  unfold Vnc.connectWeb
  split
  · exact h
  rename_i conn hconn
  split
  · rename_i hopen
    apply h.connecting
    intro conn' hconn' hclosed
    rw [hconn] at hconn'
    obtain rfl := Option.some.inj hconn'
    rw [hclosed] at hopen
    cases hopen
  · exact h

theorem Kept.failWeb (h : m.Kept) (c k : ℕ) :
  (m.failWeb c k).Kept
  := by
  apply h.connecting
  intro conn hconn hclosed
  rw [h.shut c conn hconn hclosed]
  rfl

theorem Kept.spawn (h : m.Kept) (hsetup : s.setup = .spawned) (haborted : s.readerAborted = false)
    (hclosed : s.closed = false)
    (hreader : s.reader = .gated ∧ s.path ≠ .desktop ∨ s.reader = .reading)
    (hopen : ∀ c user, s.path = .web c user → Open m.conns c) :
  ({ m with sessions := m.sessions ++ [s] } : Vnc).Kept
  := by
  obtain ⟨hfine, hclosers, hcounted, howned, hknown, hshut, hcleaning⟩ := h
  have hget : ∀ (i : ℕ) (s' : VncSession), (m.sessions ++ [s])[i]? = some s' →
      m.sessions[i]? = some s' ∨ (i = m.sessions.length ∧ s' = s) := by
    intro i s' hs'
    exact (Places.getElem?_snoc hs').symm
  have hkeep : ∀ (i : ℕ) (s' : VncSession), m.sessions[i]? = some s' →
      (m.sessions ++ [s])[i]? = some s' := by
    grind -linarith
  constructor
  · intro i s' hs'
    obtain hold | ⟨rfl, rfl⟩ := hget i s' hs'
    · exact hfine i s' hold
    · have hnew : m.sessions[m.sessions.length]? = none := by simp
      constructor <;> grind -linarith
  all_goals grind -linarith

theorem Kept.openWeb (h : m.Kept) (c k : ℕ) :
  (m.openWeb c k).Kept
  := by
  unfold Vnc.openWeb
  split
  · exact h
  rename_i conn hconn
  split
  · exact h
  rename_i user huser
  apply (h.failWeb c k).spawn rfl rfl rfl (.inl ⟨rfl, by simp⟩)
  intro c' user' hpath
  obtain ⟨rfl, rfl⟩ := VncPath.web.inj hpath
  unfold Vnc.failWeb
  rw [open_setConn]
  refine ⟨conn, hconn, ?_⟩
  rw [if_pos rfl]
  by_contra hclosed
  rw [h.shut c conn hconn (eq_false_of_ne_true hclosed)] at huser
  cases huser

theorem Kept.openDesktop (h : m.Kept) :
  m.openDesktop.Kept
  := by
  apply h.spawn rfl rfl rfl (.inr rfl)
  intro c user hpath
  cases hpath

theorem Kept.insert (h : m.Kept) {setup : Setup} (hs : m.sessions[i]? = some s)
    (hsetup : s.setup = .spawned)
    (hnext : (s.path = .desktop ∧ setup = .done) ∨ (s.path ≠ .desktop ∧ setup = .inserted)) :
  ({ m.setSession i fun s => { s with setup := setup } with
    manager := m.manager ++ [i] } : Vnc).Kept
  := by
  have hget := @getElem?_setSession m i
  obtain ⟨hfine, hclosers, hcounted, howned, hknown, hshut, hcleaning⟩ := h
  obtain ⟨_, _, _, _, _, _, _, _, _, _, _, _, _, _⟩ := hfine i s hs
  constructor
  · dsimp only
    apply setSession_fine hs
    · constructor <;> grind -linarith [Vnc.setSession]
    · intro j s' hij hs'
      apply (hfine j s' hs').congr <;> grind -linarith [Vnc.setSession]
  all_goals grind -linarith [Vnc.setSession]

theorem Kept.start (h : m.Kept) {i : ℕ} {s : VncSession} (hs : m.sessions[i]? = some s)
    (hsetup : s.setup = .inserted) :
  (m.setSession i fun s => { s with
    setup := .started
    reader := if s.reader = .gated then .reading else s.reader }).Kept
  := by
  have hget := @getElem?_setSession m i
  obtain ⟨hfine, hclosers, hcounted, howned, hknown, hshut, hcleaning⟩ := h
  obtain ⟨_, _, _, _, _, _, _, _, _, _, _, _, _, _⟩ := hfine i s hs
  constructor
  · apply setSession_fine hs
    · constructor <;> grind -linarith [Vnc.setSession]
    · intro j s' hij hs'
      apply (hfine j s' hs').congr <;> grind -linarith [Vnc.setSession]
  all_goals grind -linarith [Vnc.setSession]

theorem Kept.push (h : m.Kept) {i c : ℕ} {user : ℤ} (hs : m.sessions[i]? = some s)
    (hsetup : s.setup = .started) (hpath : s.path = .web c user) :
  ((m.setSession i fun s => { s with setup := .pushed }).setConn c fun conn =>
    { conn with opened := conn.opened ++ [i] }).Kept
  := by
  have hself := setSession_self hs fun s => { s with setup := .pushed }
  have hothers : ∀ j, j ≠ i → (m.setSession i fun s => { s with setup := .pushed }).sessions[j]?
      = m.sessions[j]? := fun j hij => setSession_ne hij _
  have hconns := @getElem?_setConn (m.setSession i fun s => { s with setup := .pushed }) c
  obtain ⟨hfine, hclosers, hcounted, howned, hknown, hshut, hcleaning⟩ := h
  have hthis := hfine i s hs
  have hopen : Open m.conns c := by
    by_contra hover
    rw [hthis.closed (hthis.hung c user hpath hover)] at hsetup
    cases hsetup
  generalize hm' : ((m.setSession i fun s => { s with setup := .pushed }).setConn c fun conn =>
    { conn with opened := conn.opened ++ [i] }) = m'
  have hcounts : ∀ c' j, Counted m'.conns c' j ↔ Counted m.conns c' j ∨ (c' = c ∧ j = i) := by
    intro c' j
    rw [← hm', counted_setConn]
    unfold Counted
    unfold Open at hopen
    grind -linarith [Vnc.setSession]
  have hcleans : ∀ c' j, Cleaning m.conns c' j → Cleaning m'.conns c' j := by
    intro c' j
    rw [← hm', cleaning_setConn]
    unfold Cleaning
    grind -linarith [Vnc.setSession]
  have hopens : ∀ c', Open m'.conns c' ↔ Open m.conns c' := by
    intro c'
    rw [← hm']
    apply open_setConn_iff
    exact fun _ => rfl
  have hsame : m'.manager = m.manager ∧ m'.owners = m.owners ∧ m'.closers = m.closers
      ∧ m'.sessions = (m.setSession i fun s => { s with setup := .pushed }).sessions := by
    subst hm'
    exact ⟨rfl, rfl, rfl, rfl⟩
  obtain ⟨hmanager', howners', hclosers', hsessions'⟩ := hsame
  constructor
  · rw [hsessions', hmanager', howners', hclosers']
    apply setSession_fine hs
    · clear hfine hclosers hcounted howned hknown hshut hcleaning hself hothers hconns
      obtain ⟨_, _, _, _, _, _, _, _, _, _, _, _, _, _⟩ := hthis
      constructor <;> grind -linarith
    · intro j s' hij hs'
      apply (hfine j s' hs').congr <;> grind -linarith
  · grind -linarith
  · intro c' j hcount
    obtain hold | ⟨rfl, rfl⟩ := (hcounts c' j).mp hcount
    · grind -linarith
    · rw [hsessions']
      exact ⟨_, hself, ⟨user, hpath⟩, .inl rfl⟩
  all_goals grind -linarith [Vnc.setSession]

theorem Kept.own (h : m.Kept) {i c : ℕ} {user : ℤ} (hs : m.sessions[i]? = some s)
    (hsetup : s.setup = .pushed) (hpath : s.path = .web c user) :
  ({ m.setSession i fun s => { s with setup := .done } with
    owners := m.owners ++ [(i, user)] } : Vnc).Kept
  := by
  have howns : ∀ j, Owned (m.owners ++ [(i, user)]) j ↔ Owned m.owners j ∨ j = i := by
    intro j
    unfold Owned
    grind -linarith
  obtain ⟨hfine, hclosers, hcounted, howned, hknown, hshut, hcleaning⟩ := h
  obtain ⟨_, _, _, _, _, _, _, _, _, _, _, _, _, _⟩ := hfine i s hs
  constructor
  · dsimp only
    apply setSession_fine hs
    · constructor <;> grind -linarith [Vnc.setSession]
    · intro j s' hij hs'
      apply (hfine j s' hs').congr <;> grind -linarith [Vnc.setSession]
  · intro j step hstep
    exact exists_setSession (hclosers j step hstep) fun _ _ h => h
  · intro c' j hcount
    apply exists_setSession (hcounted c' j hcount)
    exact fun _ _ h => ⟨h.1, .inr rfl⟩
  · intro j hj
    obtain hold | rfl := (howns j).mp hj
    · exact exists_setSession (howned j hold) fun _ _ _ => rfl
    · exact ⟨_, setSession_self hs _, rfl⟩
  · intro j hj
    obtain ⟨s', hs'⟩ := hknown j hj
    obtain ⟨s', hs', _⟩ := @exists_setSession m i j (fun s => { s with setup := .done })
      (fun _ => True) ⟨s', hs', trivial⟩ fun _ _ _ => trivial
    exact ⟨s', hs'⟩
  · exact hshut
  · exact hcleaning

theorem Kept.proceed (h : m.Kept) (i : ℕ) :
  (m.proceed i).Kept
  := by
  unfold Vnc.proceed
  split
  · exact h
  rename_i s hs
  split
  · rename_i hsetup hpath
    exact h.insert hs hsetup (.inl ⟨hpath, rfl⟩)
  · rename_i hsetup hpath
    exact h.insert hs hsetup (.inr ⟨by rw [hpath]; simp, rfl⟩)
  · rename_i hsetup
    exact h.start hs hsetup
  · rename_i hsetup hpath
    exact h.push hs hsetup hpath
  · rename_i hsetup hpath
    exact h.own hs hsetup hpath
  · exact h

end Vnc

end Server
