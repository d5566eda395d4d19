import Catio.Lib.Runs
import Catio.Lib.Table
import Catio.Lib.Text

/-!
# Tunnels of a session

The model of the remote forwards of one session: the route map of the client handler
(`ssh/conn.rs`), the halves of `open_remote_forward` before and after the server answers
(`ssh/tunnel.rs`), the registry of tunnels (`ssh/manager.rs`), and the reconnect that replaces the
physical connection.  A receiver stands for the channel of a tunnel.  The answer of the server and
the registration of the tunnel are one step.
-/

namespace Ssh

/-- A remote forward: the address at which the server listens, and the receiver. -/
structure RemoteForward where
  host : Text
  port : ℕ
  receiver : ℕ
  deriving DecidableEq

def RemoteForward.route (forward : RemoteForward) : Σ _ : ℕ, ℕ :=
  ⟨forward.port, forward.receiver⟩

inductive TunnelEntry where
  | local
  | remote (forward : RemoteForward)
  | dynamic
  deriving DecidableEq

def TunnelEntry.forward : TunnelEntry → Option RemoteForward
  | .remote forward => some forward
  | _ => none

/-- A session with its tunnels: the routes by port, the forward that is being opened, the tunnels by
id, the connection, the addresses at which servers listen on which connection, and the next id and
receiver. -/
structure SessionTunnels where
  routes : Table ℕ ℕ
  opening : Option RemoteForward
  tunnels : List (ℕ × TunnelEntry)
  connection : ℕ
  listening : List (ℕ × Text × ℕ)
  nextId : ℕ
  nextReceiver : ℕ

namespace SessionTunnels

def start : SessionTunnels :=
  ⟨∅, none, [], 0, [], 0, 0⟩

/-- `server_channel_open_forwarded_tcpip`: the receiver of a connection to a remote port. -/
def receiverOf (connectedPort : ℕ) (m : SessionTunnels) : Option ℕ :=
  m.routes.lookup connectedPort

/-- The first half of `open_remote_forward`: the route is there before the server is asked. -/
def openRemoteForward (host : Text) (port : ℕ) (m : SessionTunnels) : SessionTunnels :=
  { m with
    routes := m.routes.insert port m.nextReceiver
    opening := some ⟨host, port, m.nextReceiver⟩
    nextReceiver := m.nextReceiver + 1 }

/-- The server rejects the forward: the route is taken back. -/
def rejected (forward : RemoteForward) (m : SessionTunnels) : SessionTunnels :=
  { m with routes := m.routes.erase forward.port, opening := none }

/-- The forward at its actual port, which the server picks if it was asked for port zero. -/
def actual (forward : RemoteForward) (allocated : ℕ) : RemoteForward :=
  { forward with port := if forward.port = 0 then allocated else forward.port }

/-- The server accepts the forward: its route moves to the actual port, and the tunnel is
registered. -/
def accepted (forward : RemoteForward) (allocated : ℕ) (m : SessionTunnels) : SessionTunnels :=
  { m with
    routes :=
      if (actual forward allocated).port ≠ forward.port then
        (m.routes.erase forward.port).insert (actual forward allocated).port forward.receiver
      else m.routes
    opening := none
    tunnels := (m.nextId, .remote (actual forward allocated)) :: m.tunnels
    listening := (m.connection, forward.host, (actual forward allocated).port) :: m.listening
    nextId := m.nextId + 1 }

def openOther (entry : TunnelEntry) (m : SessionTunnels) : SessionTunnels :=
  { m with tunnels := (m.nextId, entry) :: m.tunnels, nextId := m.nextId + 1 }

/-- `remove_tunnel`: the tunnel is taken out of the registry, and its task is aborted. -/
def removeTunnel (id : ℕ) (m : SessionTunnels) : SessionTunnels :=
  { m with tunnels := m.tunnels.filter fun tunnel => tunnel.1 ≠ id }

/-- `supervise_reconnect`: the session goes on over another physical connection, with the same
routes. -/
def reconnect (m : SessionTunnels) : SessionTunnels :=
  { m with connection := m.connection + 1 }

/-- What happens to a session and its tunnels. -/
inductive Event where
  | openRemoteForward (host : Text) (port : ℕ)
  | rejected
  | accepted (allocated : ℕ)
  | openOther
  | removeTunnel (id : ℕ)
  | reconnect
  deriving DecidableEq

/-- The steps of a session.  A forward is opened, and a connection replaced, under the lock of
the session. -/
inductive Step : SessionTunnels → Event → SessionTunnels → Prop where
  | openRemoteForward (host : Text) (port : ℕ) {m : SessionTunnels} (unlocked : m.opening = none) :
      Step m (.openRemoteForward host port) (m.openRemoteForward host port)
  | rejected {forward : RemoteForward} {m : SessionTunnels} (opening : m.opening = some forward) :
      Step m .rejected (m.rejected forward)
  | accepted {forward : RemoteForward} (allocated : ℕ) {m : SessionTunnels}
      (opening : m.opening = some forward) :
      Step m (.accepted allocated) (m.accepted forward allocated)
  | openOther {entry : TunnelEntry} (m : SessionTunnels) (other : entry.forward = none) :
      Step m .openOther (m.openOther entry)
  | removeTunnel (id : ℕ) (m : SessionTunnels) : Step m (.removeTunnel id) (m.removeTunnel id)
  | reconnect {m : SessionTunnels} (unlocked : m.opening = none) :
      Step m .reconnect m.reconnect

end SessionTunnels

end Ssh

/-!
## Routes and tunnels

When the routes of a session are those of its live remote tunnels.  They are as long as no
forward is opened at a port that has a route, no port that has a route is allocated, no remote
tunnel is closed, and the connection is not replaced while there are remote tunnels
(`routes_match`).
-/

namespace Ssh

namespace SessionTunnels

def live (m : SessionTunnels) : List RemoteForward :=
  m.tunnels.filterMap fun tunnel => tunnel.2.forward

/-- The routes are those of the live remote tunnels, one for each, and the server listens for each
on this connection. -/
structure Matches (m : SessionTunnels) : Prop where
  routes : m.routes.entries.Perm (m.live.map RemoteForward.route)
  listening : ∀ forward ∈ m.live, (m.connection, forward.host, forward.port) ∈ m.listening

/-- What a step must not do. -/
def Keeps (m : SessionTunnels) : Event → Prop
  | .openRemoteForward _ port => port ∉ m.routes
  | .rejected => True
  | .accepted allocated =>
      ∀ forward, m.opening = some forward → forward.port = 0 → allocated ≠ 0 →
        allocated ∉ m.routes
  | .openOther => True
  | .removeTunnel id => ∀ forward, (id, .remote forward) ∉ m.tunnels
  | .reconnect => m.live = []

/-- A step that does none of what breaks the correspondence. -/
def SteadyStep (m : SessionTunnels) (e : Event) (m' : SessionTunnels) : Prop :=
  Step m e m' ∧ m.Keeps e

/-- The forwards with a route: the live ones and the one that is being opened. -/
def routed (m : SessionTunnels) : List RemoteForward :=
  m.opening.toList ++ m.live

/-- What holds between the routes and the forwards at any time. -/
structure Corresponds (m : SessionTunnels) : Prop where
  routes : m.routes.entries.Perm (m.routed.map RemoteForward.route)
  listening : ∀ forward ∈ m.live, (m.connection, forward.host, forward.port) ∈ m.listening
  asked : ∀ request ∈ m.listening, request.1 ≤ m.connection

variable {m m' : SessionTunnels} {e : Event} {forward : RemoteForward}

theorem corresponds_start :
  start.Corresponds
  where
  routes := List.Perm.refl _
  listening := by simp [start, live]
  asked := by simp [start]

theorem Corresponds.matches_ (hm : m.Corresponds) (unlocked : m.opening = none) :
  m.Matches
  where
  routes := by
    have hroutes := hm.routes
    rw [routed, unlocked] at hroutes
    exact hroutes
  listening := hm.listening

theorem Corresponds.lookup_opening (hm : m.Corresponds) (opening : m.opening = some forward) :
  m.routes.lookup forward.port = some forward.receiver
  := by
  rw [Table.lookup_eq_some]
  apply hm.routes.mem_iff.mpr
  rw [routed, opening]
  exact List.mem_cons_self

theorem Corresponds.erase_opening (hm : m.Corresponds) (opening : m.opening = some forward) :
  (m.routes.erase forward.port).entries.Perm (m.live.map RemoteForward.route)
  := by
  have hsplit := Table.entries_perm_erase (hm.lookup_opening opening)
  have hroutes := hm.routes
  rw [routed, opening] at hroutes
  exact (hsplit.symm.trans hroutes).cons_inv

theorem live_openOther {entry : TunnelEntry} (other : entry.forward = none) :
  (m.openOther entry).live = m.live
  := by
  simp [live, openOther, other]

theorem live_removeTunnel {id : ℕ} (h : ∀ forward, (id, .remote forward) ∉ m.tunnels) :
  (m.removeTunnel id).live = m.live
  := by
  unfold live removeTunnel
  rw [List.filterMap_filter]
  apply List.filterMap_congr
  rintro ⟨id', entry⟩ hmem
  dsimp only
  split
  · rfl
  · rename_i heq
    simp only [ne_eq, decide_not, Bool.not_eq_eq_eq_not, Bool.not_true, decide_eq_false_iff_not,
      not_not] at heq
    subst heq
    cases entry with
    | remote forward => exact absurd hmem (h forward)
    | _ => rfl

theorem live_accepted (allocated : ℕ) :
  (m.accepted forward allocated).live = actual forward allocated :: m.live
  := by
  rw [live, accepted, List.filterMap_cons]
  rfl

theorem Corresponds.routes_accepted (hm : m.Corresponds) {allocated : ℕ}
    (opening : m.opening = some forward)
    (hfree : forward.port = 0 → allocated ≠ 0 → allocated ∉ m.routes) :
  (m.accepted forward allocated).routes.entries.Perm
    ((actual forward allocated).route :: m.live.map RemoteForward.route)
  := by
  have herase := hm.erase_opening opening
  simp only [accepted]
  split
  · rename_i hmoved
    have hport : forward.port = 0 := by
      by_contra hport
      simp [actual, hport] at hmoved
    have hactual : (actual forward allocated).port = allocated := by
      simp [actual, hport]
    rw [hactual, hport] at hmoved
    have hnot : allocated ∉ m.routes.erase forward.port := by
      rw [AList.mem_erase]
      intro hmem
      exact hfree hport hmoved hmem.2
    have hentries := Table.entries_insert_of_notMem (v := forward.receiver) hnot
    rw [hactual, hentries, RemoteForward.route, hactual]
    apply herase.cons
  · rename_i hsame
    rw [not_not] at hsame
    have hsplit := Table.entries_perm_erase (hm.lookup_opening opening)
    rw [RemoteForward.route, hsame]
    exact hsplit.trans (herase.cons _)

/-- A step that does none of what breaks the correspondence keeps it. -/
theorem Corresponds.step (hm : m.Corresponds) (h : SteadyStep m e m') :
  m'.Corresponds
  := by
  obtain ⟨hstep, hkeeps⟩ := h
  cases hstep with
  | openRemoteForward host port unlocked =>
    exact {
      routes := by
        have hroutes := hm.routes
        rw [routed, unlocked] at hroutes
        have hentries : (m.routes.insert port m.nextReceiver).entries
            = ⟨port, m.nextReceiver⟩ :: m.routes.entries :=
          Table.entries_insert_of_notMem hkeeps
        change (m.routes.insert port m.nextReceiver).entries.Perm _
        rw [hentries]
        apply hroutes.cons
      listening := hm.listening
      asked := hm.asked }
  | rejected opening =>
    exact {
      routes := hm.erase_opening opening
      listening := hm.listening
      asked := hm.asked }
  | @accepted forward allocated _ opening =>
    exact {
      routes := by
        rw [routed, live_accepted]
        apply hm.routes_accepted opening (hkeeps forward opening)
      listening := by
        rw [live_accepted, List.forall_mem_cons]
        constructor
        · apply List.mem_cons_self
        · intro other hmem
          apply List.mem_cons_of_mem
          apply hm.listening other hmem
      asked := by
        simp only [accepted, List.forall_mem_cons]
        exact ⟨le_refl _, hm.asked⟩ }
  | openOther _ other =>
    exact {
      routes := by
        rw [routed, live_openOther other]
        exact hm.routes
      listening := by
        rw [live_openOther other]
        exact hm.listening
      asked := hm.asked }
  | removeTunnel id =>
    exact {
      routes := by
        rw [routed, live_removeTunnel hkeeps]
        exact hm.routes
      listening := by
        rw [live_removeTunnel hkeeps]
        exact hm.listening
      asked := hm.asked }
  | reconnect unlocked =>
    exact {
      routes := hm.routes
      listening := by
        intro forward hmem
        have hlive : m.live = [] := hkeeps
        change forward ∈ m.live at hmem
        rw [hlive] at hmem
        cases hmem
      asked := by
        intro request hmem
        exact (hm.asked request hmem).trans (Nat.le_succ _) }

theorem corresponds_of_runs {es : List Event} (h : Runs SteadyStep start es m) :
  m.Corresponds
  := h.invariant corresponds_start fun _ _ _ hm hstep => hm.step hstep

/-! ### The steps that break the correspondence -/

/-! ### Runs -/

/-- What may happen while a forward is being opened. -/
def Event.aside : Event → Prop
  | .openOther => True
  | .removeTunnel _ => True
  | _ => False

theorem live_of_runs {es : List Event} (h : Runs SteadyStep m es m') (hes : ∀ e ∈ es, e.aside) :
  m'.live = m.live
  := by
  induction h with
  | start => rfl
  | snoc _ last ih =>
    rw [List.forall_mem_append] at hes
    rw [← ih hes.1]
    have haside := hes.2 _ List.mem_cons_self
    obtain ⟨hstep, hkeeps⟩ := last
    cases hstep with
    | openOther _ other => apply live_openOther other
    | removeTunnel id => apply live_removeTunnel hkeeps
    | _ => exact haside.elim

/-- In every run whose steps do none of what breaks the correspondence, the routes are, when no
forward is being opened, exactly those of the live remote tunnels, for each of which the current
server was asked to listen; and a rejected open leaves the routes as they were. -/
theorem routes_match {es : List Event} (h : Runs SteadyStep start es m) :
  (m.opening = none → m.Matches)
    ∧ ∀ host port aside m₁ m₂ m₃, SteadyStep m (.openRemoteForward host port) m₁ →
      Runs SteadyStep m₁ aside m₂ → (∀ e ∈ aside, e.aside) → Step m₂ .rejected m₃ →
      m₃.routes.entries.Perm m.routes.entries
  := by
  have hm := corresponds_of_runs h
  constructor
  · intro unlocked
    apply hm.matches_ unlocked
  · intro host port aside m₁ m₂ m₃ hopens haside hquiet hrejects
    have hm₂ : m₂.Corresponds :=
      haside.invariant (hm.step hopens) fun _ _ _ hm hstep => hm.step hstep
    have hm₃ := hm₂.step ⟨hrejects, trivial⟩
    have hlive₂ : m₂.live = m₁.live := live_of_runs haside hquiet
    have hlive₁ : m₁.live = m.live := by
      cases hopens.1
      rfl
    have hlive₃ : m₃.live = m₂.live := by
      cases hrejects
      rfl
    have hunlocked : m.opening = none := by
      cases hopens.1 with
      | openRemoteForward _ _ unlocked => exact unlocked
    have hunlocked₃ : m₃.opening = none := by
      cases hrejects
      rfl
    have hafter := (hm₃.matches_ hunlocked₃).routes
    rw [hlive₃, hlive₂, hlive₁] at hafter
    exact hafter.trans (hm.matches_ hunlocked).routes.symm

/-- The events of two opens of a forward at port 8080. -/
def opensTwice : List Event :=
  [.openRemoteForward "h" 8080, .accepted 0, .openRemoteForward "h" 8080, .rejected]

def oneForward : SessionTunnels :=
  (start.openRemoteForward "h" 8080).accepted ⟨"h", 8080, 0⟩ 0

/-- The routes of the session with one forward are its own. -/
theorem routes_match_oneForward :
  (oneForward.opening = none → oneForward.Matches)
    ∧ ∀ host port aside m₁ m₂ m₃, SteadyStep oneForward (.openRemoteForward host port) m₁ →
      Runs SteadyStep m₁ aside m₂ → (∀ e ∈ aside, e.aside) → Step m₂ .rejected m₃ →
      m₃.routes.entries.Perm oneForward.routes.entries
  := by
  have hopens : SteadyStep start (.openRemoteForward "h" 8080) _ :=
    ⟨.openRemoteForward _ _ rfl, AList.notMem_empty 8080⟩
  have haccepted : SteadyStep (start.openRemoteForward "h" 8080) (.accepted 0) oneForward := by
    refine ⟨.accepted 0 rfl, ?_⟩
    intro forward _ _ hne
    exact absurd rfl hne
  exact routes_match ((Runs.start.snoc hopens).snoc haccepted)

/-- The second open of a forward is rejected, and the first forward has no route any more. -/
theorem opensTwice_unrouted :
  ∃ m, Runs Step start opensTwice m ∧ m.opening = none ∧ ¬ m.Matches
  := by
  have haccepted : Runs Step start [.openRemoteForward "h" 8080, .accepted 0] oneForward :=
    (Runs.start.snoc (.openRemoteForward _ _ rfl)).snoc (.accepted 0 rfl)
  refine ⟨_, (haccepted.snoc (.openRemoteForward "h" 8080 rfl)).snoc (.rejected rfl), rfl, ?_⟩
  intro hmatches
  have hlength := hmatches.routes.length_eq
  revert hlength
  decide

end SessionTunnels

end Ssh
