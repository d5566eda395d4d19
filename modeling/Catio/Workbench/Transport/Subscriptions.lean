import Catio.Lib.Places
import Catio.Workbench.Transport

/-!
# Subscriptions and requests

A server that has taken all frames of the open socket has the subscriptions of the topics with
handlers, as long as no topic loses its last handler while its subscription waits for the socket.
A request is settled once, and by a reply only on the socket that it was issued on.
-/

namespace Workbench

/-- The topics that the server will have subscriptions of. -/
def Socket.topics (k : Socket) : List Text :=
  k.inFlight.foldl receive k.subscribed

theorem mem_receive_sub {topics : List Text} {topic t : Text} :
  t ∈ receive topics (.sub topic) ↔ t = topic ∨ t ∈ topics
  := List.mem_insert_iff

theorem mem_receive_unsub {topics : List Text} {topic t : Text} :
  t ∈ receive topics (.unsub topic) ↔ t ∈ topics ∧ t ≠ topic
  := by
  rw [receive, List.mem_filter, decide_eq_true_iff]

namespace Transport

/-! ### What changes -/

section

variable {m m' : Transport} {s s' : ℕ} {topic : Text} {topics : List Text}

theorem handled_iff :
  m.handled topic ↔ ∃ handler, (topic, handler) ∈ m.topicHandlers
  := by
  unfold handled
  simp

theorem handled_congr (h : m'.topicHandlers = m.topicHandlers) (topic : Text) :
  m'.handled topic = m.handled topic
  := by
  rw [handled, handled, h]

theorem mem_topics :
  topic ∈ m.topics ↔ m.handled topic
  := by
  rw [handled_iff, Transport.topics, List.mem_dedup, List.mem_map]
  simp

theorem getElem?_setSocket (m : Transport) (s s' : ℕ) (f : Socket → Socket) :
  (m.setSocket s f).sockets[s']? = (m.sockets[s']?).map fun k => if s' = s then f k else k
  := by
  unfold setSocket
  rw [List.getElem?_modify]
  by_cases h : s' = s
  · simp [h]
  · simp [h, Ne.symm h]

variable (m) in
/-- The shared socket is open, and these are the topics that the server will have subscriptions
of. -/
def Opened (s : ℕ) (topics : List Text) : Prop :=
  m.sock = some s ∧ ∃ k, m.sockets[s]? = some k ∧ k.readyState = .open_ ∧ k.topics = topics

theorem openSock_eq_some :
  m.openSock = some s ↔ ∃ topics, m.Opened s topics
  := by
  unfold openSock Opened readyState
  rw [Option.filter_eq_some_iff, decide_eq_true_iff, Option.map_eq_some_iff]
  simp

theorem opened_send (s : ℕ) (frame : Frame) :
  (m.send s frame).Opened s' topics
    ↔ ∃ before, m.Opened s' before ∧ topics = if s' = s then receive before frame else before
  := by
  unfold Opened send
  rw [getElem?_setSocket]
  constructor
  · rintro ⟨hsock, k, hk, hopen, rfl⟩
    obtain ⟨k, hk', rfl⟩ := Option.map_eq_some_iff.mp hk
    by_cases hs : s' = s
    · rw [if_pos hs] at hopen ⊢
      have hopen' : k.readyState = .open_ := by
        split at hopen
        · assumption
        · exact hopen
      refine ⟨k.topics, ⟨hsock, k, hk', hopen', rfl⟩, ?_⟩
      rw [if_pos hopen', if_pos hs, Socket.topics, List.foldl_append]
      rfl
    · rw [if_neg hs] at hopen ⊢
      exact ⟨k.topics, ⟨hsock, k, hk', hopen, rfl⟩, by rw [if_neg hs]⟩
  · rintro ⟨before, ⟨hsock, k, hk, hopen, rfl⟩, rfl⟩
    refine ⟨hsock, _, Option.map_eq_some_iff.mpr ⟨k, hk, rfl⟩, ?_⟩
    by_cases hs : s' = s
    · rw [if_pos hs, if_pos hopen, if_pos hs]
      refine ⟨hopen, ?_⟩
      rw [Socket.topics, List.foldl_append]
      rfl
    · rw [if_neg hs, if_neg hs]
      exact ⟨hopen, rfl⟩

end

/-! ### Subscriptions -/

/-- Nothing is sent on a socket before it opens. -/
def Fresh (m : Transport) : Prop :=
  ∀ (s : ℕ) (k : Socket), m.sockets[s]? = some k → k.readyState = .connecting →
    k.inFlight = [] ∧ k.subscribed = []

/-- Nothing is sent before a socket opens, and the server will have the subscriptions of the topics
with handlers only. -/
structure Agrees (m : Transport) : Prop where
  fresh : m.Fresh
  kept : ∀ s topics, m.Opened s topics → ∀ topic ∈ topics, m.handled topic
  sent : ∀ s topics, m.Opened s topics → ∀ topic, m.handled topic →
    topic ∈ topics ∨ (s, Continuation.sub topic) ∈ m.ready

section

variable {m m' : Transport}

theorem Agrees.congr (h : m.Agrees) (hhandlers : m'.topicHandlers = m.topicHandlers)
    (hfresh : m'.Fresh) (hopened : ∀ s topics, m'.Opened s topics → m.Opened s topics)
    (hready : ∀ s topic, (s, Continuation.sub topic) ∈ m.ready →
      (s, Continuation.sub topic) ∈ m'.ready) :
  m'.Agrees
  := by
  constructor
  · exact hfresh
  · intro s topics hopen topic htopic
    rw [handled_congr hhandlers]
    exact h.kept s topics (hopened s topics hopen) topic htopic
  · intro s topics hopen topic htopic
    rw [handled_congr hhandlers] at htopic
    exact (h.sent s topics (hopened s topics hopen) topic htopic).imp_right (hready s topic)

theorem Fresh.send (h : m.Fresh) (s : ℕ) (frame : Frame) :
  (m.send s frame).Fresh
  := by
  intro s' k hk hconnecting
  rw [Transport.send, getElem?_setSocket] at hk
  obtain ⟨k, hk', rfl⟩ := Option.map_eq_some_iff.mp hk
  split at hconnecting
  · split at hconnecting
    · rename_i hopen
      rw [hopen] at hconnecting
      cases hconnecting
    · rename_i hs hclosed
      rw [if_pos hs, if_neg hclosed]
      exact h s' k hk' hconnecting
  · rename_i hs
    rw [if_neg hs]
    exact h s' k hk' hconnecting

theorem Agrees.send (h : m.Agrees) (s : ℕ) {frame : Frame}
    (hframe : ∀ before topic, topic ∈ receive before frame ↔ topic ∈ before
      ∨ frame = .sub topic)
    (hwanted : ∀ topic, frame = .sub topic → m.handled topic) :
  (m.send s frame).Agrees
  := by
  constructor
  · exact h.fresh.send s frame
  · intro s' topics hopen topic htopic
    obtain ⟨before, hbefore, rfl⟩ := (opened_send s frame).mp hopen
    split at htopic
    · obtain hold | hnew := (hframe before topic).mp htopic
      · exact h.kept s' before hbefore topic hold
      · exact hwanted topic hnew
    · exact h.kept s' before hbefore topic htopic
  · intro s' topics hopen topic htopic
    obtain ⟨before, hbefore, rfl⟩ := (opened_send s frame).mp hopen
    apply (h.sent s' before hbefore topic htopic).imp_left
    intro hold
    split
    · exact (hframe before topic).mpr (.inl hold)
    · exact hold

theorem Agrees.send_sub (h : m.Agrees) (s : ℕ) {topic : Text} (hwanted : m.handled topic) :
  (m.send s (.sub topic)).Agrees
  := by
  apply h.send s
  · intro before t
    rw [mem_receive_sub, or_comm, Frame.sub.injEq, eq_comm]
  · rintro _ ⟨⟩
    exact hwanted

theorem Agrees.send_cmd (h : m.Agrees) (s : ℕ) :
  (m.send s .cmd).Agrees
  := by
  apply h.send s
  · intro before t
    simp [receive]
  · rintro _ ⟨⟩

theorem ensureSocket_spec {s : ℕ} {resolved : Bool} (h : m.ensureSocket = (m', s, resolved)) :
  m'.topicHandlers = m.topicHandlers ∧ m'.ready = m.ready
    ∧ (m'.sockets = m.sockets ∨ m'.sockets = m.sockets ++ [⟨.connecting, [], []⟩])
    ∧ m'.sock = m.sock
    ∧ (if resolved then m.openSock = some s else m.openSock = none)
  := by
  unfold ensureSocket at h
  split at h
  · rename_i hopen
    obtain ⟨rfl, rfl, rfl⟩ := h
    exact ⟨rfl, rfl, .inl rfl, rfl, hopen⟩
  · rename_i hclosed
    split at h
    · obtain ⟨rfl, rfl, rfl⟩ := h
      exact ⟨rfl, rfl, .inl rfl, rfl, hclosed⟩
    · obtain ⟨rfl, rfl, rfl⟩ := h
      exact ⟨rfl, rfl, .inr rfl, rfl, hclosed⟩

theorem whenOpen_spec (m : Transport) (task : Continuation) :
  (m.whenOpen task).topicHandlers = m.topicHandlers
    ∧ ((m.whenOpen task).sockets = m.sockets
      ∨ (m.whenOpen task).sockets = m.sockets ++ [⟨.connecting, [], []⟩])
    ∧ (m.whenOpen task).sock = m.sock
    ∧ (∀ entry ∈ m.ready, entry ∈ (m.whenOpen task).ready)
    ∧ ∀ s, m.openSock = some s → (s, task) ∈ (m.whenOpen task).ready
  := by
  unfold Transport.whenOpen
  split
  · rename_i m' s hsocket
    obtain ⟨hhandlers, hready, hsockets, hsock, hresolved⟩ := ensureSocket_spec hsocket
    refine ⟨hhandlers, hsockets, hsock, ?_, ?_⟩
    · intro entry hentry
      dsimp only
      rw [hready]
      exact List.mem_append_left _ hentry
    · intro s' hopen
      rw [if_pos rfl, hopen] at hresolved
      obtain rfl := Option.some.inj hresolved
      exact List.mem_append_right _ (List.mem_singleton_self _)
  · rename_i m' s hsocket
    obtain ⟨hhandlers, hready, hsockets, hsock, hresolved⟩ := ensureSocket_spec hsocket
    refine ⟨hhandlers, hsockets, hsock, ?_, ?_⟩
    · intro entry hentry
      dsimp only
      rwa [hready]
    · intro s' hopen
      rw [if_neg Bool.false_ne_true, hopen] at hresolved
      cases hresolved

theorem new_socket (h : m.Agrees)
    (hsockets : m'.sockets = m.sockets ∨ m'.sockets = m.sockets ++ [⟨.connecting, [], []⟩])
    (hsock : m'.sock = m.sock) :
  m'.Fresh ∧ ∀ s topics, m'.Opened s topics → m.Opened s topics
  := by
  have hcases : ∀ (s : ℕ) (k : Socket), m'.sockets[s]? = some k →
      m.sockets[s]? = some k ∨ k = ⟨.connecting, [], []⟩ := by
    intro s k hk
    obtain hsame | hnew := hsockets
    · rw [hsame] at hk
      exact .inl hk
    · rw [hnew] at hk
      obtain ⟨_, hlast⟩ | hold := Places.getElem?_snoc hk
      · exact .inr hlast
      · exact .inl hold
  constructor
  · intro s k hk hconnecting
    obtain hold | rfl := hcases s k hk
    · exact h.fresh s k hold hconnecting
    · exact ⟨rfl, rfl⟩
  · rintro s topics ⟨hs, k, hk, hopen, rfl⟩
    rw [hsock] at hs
    obtain hold | rfl := hcases s k hk
    · exact ⟨hs, k, hold, hopen, rfl⟩
    · cases hopen

theorem Agrees.whenOpen (h : m.Agrees) (task : Continuation) :
  (m.whenOpen task).Agrees
  := by
  obtain ⟨hhandlers, hsockets, hsock, hready, -⟩ := whenOpen_spec m task
  obtain ⟨hfresh, hopened⟩ := new_socket h hsockets hsock
  exact h.congr hhandlers hfresh hopened fun s topic hold => hready (s, .sub topic) hold

theorem Agrees.register (h : m.Agrees) (topic : Text)
    (hhandled : ∀ t, m'.handled t ↔ t = topic ∨ m.handled t) (hfresh : m'.Fresh)
    (hopened : ∀ s topics, m'.Opened s topics → m.Opened s topics)
    (hready : ∀ s t, (s, Continuation.sub t) ∈ m.ready → (s, Continuation.sub t) ∈ m'.ready)
    (hsends : ∀ s topics, m'.Opened s topics → (s, Continuation.sub topic) ∈ m'.ready) :
  m'.Agrees
  := by
  constructor
  · exact hfresh
  · intro s topics hopen t ht
    rw [hhandled]
    exact .inr (h.kept s topics (hopened s topics hopen) t ht)
  · intro s topics hopen t ht
    obtain rfl | hold := (hhandled t).mp ht
    · exact .inr (hsends s topics hopen)
    · exact (h.sent s topics (hopened s topics hopen) t hold).imp_right (hready s t)

theorem Agrees.subscribe (h : m.Agrees) (topic : Text) (handler : ℕ) :
  (m.subscribe topic handler).Agrees
  := by
  unfold Transport.subscribe
  generalize hregistered : ({ m with
    topicHandlers := m.topicHandlers.insert (topic, handler) } : Transport) = n
  have hhandled : ∀ t, n.handled t ↔ t = topic ∨ m.handled t := by
    intro t
    subst hregistered
    rw [handled_iff, handled_iff]
    simp only [List.mem_insert_iff, Prod.mk.injEq]
    constructor
    · rintro ⟨other, ⟨rfl, _⟩ | hold⟩
      · exact .inl rfl
      · exact .inr ⟨other, hold⟩
    · rintro (rfl | ⟨other, hold⟩)
      · exact ⟨handler, .inl ⟨rfl, rfl⟩⟩
      · exact ⟨other, .inr hold⟩
  have hopen : ∀ s topics, m.Opened s topics → n.openSock = some s := by
    intro s topics hopen
    subst hregistered
    exact openSock_eq_some.mpr ⟨topics, hopen⟩
  obtain ⟨hnready, hnsockets, hnsock⟩ : n.ready = m.ready ∧ n.sockets = m.sockets
      ∧ n.sock = m.sock := by
    subst hregistered
    exact ⟨rfl, rfl, rfl⟩
  obtain ⟨hhandlers, hsockets, hsock, hready, hfound⟩ := whenOpen_spec n (.sub topic)
  rw [hnsockets] at hsockets
  rw [hnready] at hready
  obtain ⟨hfresh, hopened⟩ := new_socket h hsockets (hsock.trans hnsock)
  apply h.register topic _ hfresh hopened
  · intro s t hold
    exact hready (s, .sub t) hold
  · intro s topics hopen'
    exact hfound s (hopen s topics (hopened s topics hopen'))
  · intro t
    rw [← hhandled t]
    exact Bool.coe_iff_coe.mpr (handled_congr hhandlers t)

theorem Agrees.unsubscribe (h : m.Agrees) (topic : Text) (handler : ℕ) :
  (m.unsubscribe topic handler).Agrees
  := by
  unfold Transport.unsubscribe
  split
  · exact h
  generalize hremoved : ({ m with
    topicHandlers := m.topicHandlers.filter (· ≠ (topic, handler)) } : Transport) = n
  have hmem : ∀ t other, (t, other) ∈ n.topicHandlers
      ↔ (t, other) ∈ m.topicHandlers ∧ ¬(t = topic ∧ other = handler) := by
    intro t other
    subst hremoved
    rw [List.mem_filter, decide_eq_true_iff, Ne, Prod.mk.injEq]
  have hopen : ∀ s topics, n.Opened s topics ↔ m.Opened s topics := by
    intro s topics
    subst hremoved
    rfl
  obtain ⟨hnready, hnsockets⟩ : n.ready = m.ready ∧ n.sockets = m.sockets := by
    subst hremoved
    exact ⟨rfl, rfl⟩
  have hother : ∀ t, t ≠ topic → (n.handled t ↔ m.handled t) := by
    intro t ht
    rw [handled_iff, handled_iff]
    simp [hmem, ht]
  dsimp only
  split
  · rename_i hleft
    -- there is another handler
    have hsame : ∀ t, n.handled t ↔ m.handled t := by
      intro t
      by_cases ht : t = topic
      · subst ht
        obtain ⟨other, hmore⟩ := handled_iff.mp hleft
        apply iff_of_true hleft
        exact handled_iff.mpr ⟨other, ((hmem t other).mp hmore).1⟩
      · exact hother t ht
    constructor
    · unfold Fresh
      rw [hnsockets]
      exact h.fresh
    · intro s topics hs t ht
      rw [hsame]
      exact h.kept s topics ((hopen s topics).mp hs) t ht
    · intro s topics hs t ht
      rw [hnready]
      exact h.sent s topics ((hopen s topics).mp hs) t ((hsame t).mp ht)
  · rename_i hgone
    split
    · rename_i s hs
      have hsame : ∀ s' topics, n.Opened s' topics → s' = s := by
        intro s' topics hs'
        have hboth := openSock_eq_some.mpr ⟨topics, hs'⟩
        rw [hs] at hboth
        exact (Option.some.inj hboth).symm
      constructor
      · apply Fresh.send
        unfold Fresh
        rw [hnsockets]
        exact h.fresh
      · intro s' topics hs' t ht
        obtain ⟨before, hbefore, rfl⟩ := (opened_send s _).mp hs'
        rw [if_pos (hsame s' before hbefore), mem_receive_unsub] at ht
        exact (hother t ht.2).mpr (h.kept s' before ((hopen s' before).mp hbefore) t ht.1)
      · intro s' topics hs' t ht
        obtain ⟨before, hbefore, rfl⟩ := (opened_send s _).mp hs'
        have hne : t ≠ topic := by
          rintro rfl
          exact hgone ht
        rw [if_pos (hsame s' before hbefore), mem_receive_unsub]
        have hsent := h.sent s' before ((hopen s' before).mp hbefore) t ((hother t hne).mp ht)
        rw [← hnready] at hsent
        exact hsent.imp_left fun hold => ⟨hold, hne⟩
    · rename_i hclosed
      constructor
      · unfold Fresh
        rw [hnsockets]
        exact h.fresh
      · intro s topics hs
        exact absurd (openSock_eq_some.mpr ⟨topics, hs⟩) (by rw [hclosed]; simp)
      · intro s topics hs
        exact absurd (openSock_eq_some.mpr ⟨topics, hs⟩) (by rw [hclosed]; simp)

theorem Agrees.setSocket (h : m.Agrees) (s : ℕ) {f : Socket → Socket}
    (hopen : ∀ k, (f k).readyState = .open_ → k.readyState = .open_ ∧ (f k).topics = k.topics)
    (hfresh : ∀ k, (f k).readyState = .connecting → k.readyState = .connecting
      ∧ (k.inFlight = [] ∧ k.subscribed = [] → (f k).inFlight = [] ∧ (f k).subscribed = [])) :
  (m.setSocket s f).Agrees
  := by
  refine h.congr rfl ?_ ?_ fun _ _ => id
  · intro s' k hk hconnecting
    rw [getElem?_setSocket] at hk
    obtain ⟨k, hk', rfl⟩ := Option.map_eq_some_iff.mp hk
    split at hconnecting
    · rename_i hs
      obtain ⟨hbefore, hkeeps⟩ := hfresh k hconnecting
      rw [if_pos hs]
      exact hkeeps (h.fresh s' k hk' hbefore)
    · rename_i hs
      rw [if_neg hs]
      exact h.fresh s' k hk' hconnecting
  · rintro s' topics ⟨hsock, k, hk, hopen', rfl⟩
    rw [getElem?_setSocket] at hk
    obtain ⟨k, hk', rfl⟩ := Option.map_eq_some_iff.mp hk
    split at hopen'
    · rename_i hs
      obtain ⟨hbefore, hsame⟩ := hopen k hopen'
      rw [if_pos hs, hsame]
      exact ⟨hsock, k, hk', hbefore, rfl⟩
    · rename_i hs
      rw [if_neg hs]
      exact ⟨hsock, k, hk', hopen', rfl⟩

theorem Agrees.leave (h : m.Agrees) (s : ℕ) {state : ReadyState}
    (hstate : state = .closing ∨ state = .closed) :
  (m.setSocket s fun socket => { socket with readyState := state }).Agrees
  := by
  apply h.setSocket s
  · rintro k hopen
    obtain rfl | rfl := hstate <;> cases hopen
  · rintro k hconnecting
    obtain rfl | rfl := hstate <;> cases hconnecting

theorem Agrees.settle (h : m.Agrees) (ids : List ℕ) (how : Settlement) :
  (m.settle ids how).Agrees
  := h.congr rfl h.fresh (fun _ _ => id) fun _ _ => id

theorem Agrees.waiting (h : m.Agrees) (waiting : List (ℕ × Continuation)) :
  ({ m with waiting := waiting } : Transport).Agrees
  := h.congr rfl h.fresh (fun _ _ => id) fun _ _ => id

theorem Agrees.close (h : m.Agrees) (s : ℕ) :
  (m.close s).Agrees
  := by
  apply h.setSocket s
  · intro k hopen
    split at hopen
    · rename_i hclosed
      rw [hclosed] at hopen
      cases hopen
    · cases hopen
  · intro k hconnecting
    split at hconnecting
    · rename_i hclosed
      rw [hclosed] at hconnecting
      cases hconnecting
    · cases hconnecting

theorem Agrees.take (h : m.Agrees) (s : ℕ) :
  (m.take s).Agrees
  := by
  apply h.setSocket s
  · intro k hopen
    split at hopen
    · exact ⟨hopen, rfl⟩
    · rename_i frame frames hframes
      refine ⟨hopen, ?_⟩
      rw [Socket.topics, Socket.topics, hframes]
      rfl
  · intro k hconnecting
    split at hconnecting
    · exact ⟨hconnecting, id⟩
    · rename_i frame frames hframes
      refine ⟨hconnecting, ?_⟩
      rintro ⟨hnone, _⟩
      rw [hframes] at hnone
      cases hnone

theorem Agrees.onerror (h : m.Agrees) (s : ℕ) :
  (m.onerror s).Agrees
  := by
  unfold Transport.onerror
  split
  · exact h
  have hleft := h.leave s (.inl rfl)
  dsimp only
  split
  · exact hleft.congr rfl hleft.fresh (fun _ _ => id) fun _ _ => id
  · exact hleft

theorem Agrees.onclose (h : m.Agrees) (s : ℕ) :
  (m.onclose s).Agrees
  := by
  unfold Transport.onclose
  split
  · exact h
  have hleft := ((h.leave s (.inr rfl)).settle
    ((m.setSocket s fun socket => { socket with readyState := .closed }).requestsOf s)
    (.closed s)).waiting (m.waiting.filter (·.1 ≠ s))
  dsimp only
  split
  · exact hleft
  · refine hleft.congr rfl hleft.fresh ?_ fun _ _ => id
    rintro s' topics ⟨hsock, hsocket⟩
    dsimp only at hsock
    split at hsock
    · cases hsock
    · exact ⟨hsock, hsocket⟩

theorem Agrees.reconnect (h : m.Agrees) :
  m.reconnect.Agrees
  := by
  unfold Transport.reconnect
  split
  · exact h
  generalize hn : ({ m with reconnects := m.reconnects - 1 } : Transport) = n
  have hagrees : n.Agrees := by
    subst hn
    exact h.congr rfl h.fresh (fun _ _ => id) fun _ _ => id
  dsimp only
  split
  · generalize hsocket : n.ensureSocket = r
    obtain ⟨m', s, resolved⟩ := r
    obtain ⟨hhandlers, hready, hsockets, hsock, _⟩ := ensureSocket_spec hsocket
    obtain ⟨hfresh, hopened⟩ := new_socket hagrees hsockets hsock
    refine hagrees.congr hhandlers hfresh hopened fun s' topic => ?_
    rw [hready]
    exact id
  · exact hagrees

theorem Agrees.onReply (h : m.Agrees) (s id : ℕ) :
  (m.onReply s id).Agrees
  := by
  unfold Transport.onReply
  split
  · exact h.settle [id] (.reply s)
  · exact h

theorem Agrees.onTimeout (h : m.Agrees) (id : ℕ) :
  (m.onTimeout id).Agrees
  := by
  unfold Transport.onTimeout
  split
  · exact h.settle [id] .timeout
  · exact h

theorem Agrees.giveUp (h : m.Agrees) (i : ℕ) :
  (m.giveUp i).Agrees
  := by
  unfold Transport.giveUp
  split
  · exact h.waiting _
  · exact h

theorem Agrees.socketRequest (h : m.Agrees) (s : ℕ) {frame : Frame}
    (hsend : ∀ {n : Transport}, n.Agrees → n.topicHandlers = m.topicHandlers →
      (n.send s frame).Agrees) :
  (m.socketRequest s frame).Agrees
  := by
  have hissued : ({ m with
      cmdSeq := m.cmdSeq + 1
      issued := m.issued ++ [(m.cmdSeq + 1, s)]
      pendingReplies := m.pendingReplies ++ [(m.cmdSeq + 1, s)] } : Transport).Agrees :=
    h.congr rfl h.fresh (fun _ _ => id) fun _ _ => id
  unfold Transport.socketRequest
  dsimp only
  split
  · exact hissued.settle _ _
  · exact hsend hissued rfl

theorem Agrees.perform (h : m.Agrees) (s : ℕ) {task : Continuation}
    (htask : ∀ topic, task ≠ .sub topic) :
  (m.perform s task).Agrees
  := by
  cases task with
  | sub topic => exact absurd rfl (htask topic)
  | confirm topic =>
    unfold Transport.perform
    dsimp only
    split
    · rename_i hwanted
      apply h.socketRequest s
      intro n hn hhandlers
      apply hn.send_sub s
      rw [handled_congr hhandlers]
      exact hwanted
    · exact h
  | command =>
    apply h.socketRequest s
    intro n hn _
    exact hn.send_cmd s
  | notify => exact h.send_cmd s

theorem Agrees.run (h : m.Agrees) {i : ℕ}
    (hwanted : ∀ s topic, m.ready[i]? = some (s, .sub topic) → m.openSock = some s →
      m.handled topic) :
  (m.run i).Agrees
  := by
  unfold Transport.run
  split
  · exact h
  rename_i s task htask
  have hrest : ∀ p ∈ m.ready, p = (s, task) ∨ p ∈ m.ready.eraseIdx i :=
    fun p => Places.mem_eraseIdx_of_mem htask
  have hother : (∀ topic, task ≠ .sub topic) →
      ({ m with ready := m.ready.eraseIdx i } : Transport).Agrees := by
    intro hno
    refine h.congr rfl h.fresh (fun _ _ => id) fun s' t hpending => ?_
    obtain heq | hleft := hrest _ hpending
    · exact absurd (Prod.mk.inj heq).2.symm (hno t)
    · exact hleft
  cases task with
  | sub topic =>
    constructor
    · apply Fresh.send
      exact h.fresh
    · intro s' topics hopen t ht
      obtain ⟨before, hbefore, rfl⟩ := (opened_send s _).mp hopen
      split at ht
      · rename_i hs
        subst hs
        obtain rfl | hold := mem_receive_sub.mp ht
        · exact hwanted s' t htask (openSock_eq_some.mpr ⟨before, hbefore⟩)
        · exact h.kept s' before hbefore t hold
      · exact h.kept s' before hbefore t ht
    · intro s' topics hopen t ht
      obtain ⟨before, hbefore, rfl⟩ := (opened_send s _).mp hopen
      obtain hold | hready := h.sent s' before hbefore t ht
      · apply Or.inl
        split
        · exact mem_receive_sub.mpr (.inr hold)
        · exact hold
      · obtain heq | hleft := hrest _ hready
        · obtain ⟨rfl, htopic⟩ := Prod.mk.inj heq
          rw [if_pos rfl, mem_receive_sub]
          exact .inl (.inl (Continuation.sub.inj htopic))
        · exact .inr hleft
  | confirm topic => exact (hother fun _ => by simp).perform s fun _ => by simp
  | command => exact (hother fun _ => by simp).perform s fun _ => by simp
  | notify => exact (hother fun _ => by simp).perform s fun _ => by simp

theorem send_subs (ts : List Text) (m : Transport) (s : ℕ) :
  (ts.foldl (fun m topic => m.send s (.sub topic)) m).topicHandlers = m.topicHandlers
    ∧ (m.Fresh → (ts.foldl (fun m topic => m.send s (.sub topic)) m).Fresh)
    ∧ ∀ s' topics, (ts.foldl (fun m topic => m.send s (.sub topic)) m).Opened s' topics →
        ∃ before, m.Opened s' before
          ∧ (s' = s → ∀ topic, topic ∈ topics ↔ topic ∈ ts ∨ topic ∈ before)
  := by
  induction ts generalizing m with
  | nil =>
    refine ⟨rfl, id, fun s' topics hopen => ⟨topics, hopen, fun _ topic => ?_⟩⟩
    simp
  | cons t ts ih =>
    obtain ⟨hhandlers, hfresh, hopened⟩ := ih (m.send s (.sub t))
    rw [List.foldl_cons]
    refine ⟨hhandlers, fun h => hfresh (h.send s _), ?_⟩
    intro s' topics hopen
    obtain ⟨between, hbetween, hmem⟩ := hopened s' topics hopen
    obtain ⟨before, hbefore, rfl⟩ := (opened_send s _).mp hbetween
    refine ⟨before, hbefore, ?_⟩
    rintro rfl topic
    rw [hmem rfl, if_pos rfl, mem_receive_sub, List.mem_cons, or_left_comm, or_assoc]

theorem Agrees.onopen (h : m.Agrees) (s : ℕ) :
  (m.onopen s).Agrees
  := by
  unfold Transport.onopen
  split
  · exact h
  rename_i hconnecting
  split
  · exact h.leave s (.inl rfl)
  generalize hopens : ({ m.setSocket s fun socket => { socket with readyState := .open_ } with
    openingSocket := none
    sock := some s
    connecting := none } : Transport) = n
  have hhandled : ∀ t, n.handled t = m.handled t := by
    subst hopens
    exact handled_congr rfl
  have hnsock : n.sock = some s := by
    subst hopens
    rfl
  have hsockets : ∀ s' k, n.sockets[s']? = some k → ∃ old, m.sockets[s']? = some old
      ∧ k = if s' = s then { old with readyState := .open_ } else old := by
    intro s' k hk
    subst hopens
    dsimp only at hk
    rw [getElem?_setSocket] at hk
    obtain ⟨old, hold, rfl⟩ := Option.map_eq_some_iff.mp hk
    exact ⟨old, hold, rfl⟩
  have hfresh : n.Fresh := by
    intro s' k hk hstate
    obtain ⟨old, hold, rfl⟩ := hsockets s' k hk
    split at hstate
    · cases hstate
    · rename_i hs
      rw [if_neg hs]
      exact h.fresh s' old hold hstate
  -- nothing was sent on the socket so far
  have hnew : ∀ s' topics, n.Opened s' topics → s' = s ∧ topics = [] := by
    rintro s' topics ⟨hs, k, hk, _, rfl⟩
    rw [hnsock] at hs
    obtain rfl := Option.some.inj hs
    refine ⟨rfl, ?_⟩
    obtain ⟨old, hold, rfl⟩ := hsockets s k hk
    rw [readyState, hold, Option.map_some, Ne, not_not, Option.some.injEq] at hconnecting
    obtain ⟨hflight, hsubscribed⟩ := h.fresh s old hold hconnecting
    rw [if_pos rfl, Socket.topics, hflight, hsubscribed]
    rfl
  obtain ⟨hhandlers, hkeeps, hopened⟩ := send_subs n.topics n s
  have hsame : ∀ t, (n.topics.foldl (fun m topic => m.send s (.sub topic)) n).handled t
      = m.handled t := fun t => (handled_congr hhandlers t).trans (hhandled t)
  have hall : ∀ s' topics, (n.topics.foldl (fun m topic => m.send s (.sub topic)) n).Opened s'
      topics → ∀ t, t ∈ topics ↔ m.handled t := by
    intro s' topics hopen t
    obtain ⟨before, hbefore, hmem⟩ := hopened s' topics hopen
    obtain ⟨rfl, rfl⟩ := hnew s' before hbefore
    rw [hmem rfl, or_iff_left List.not_mem_nil, mem_topics, hhandled]
  dsimp only
  constructor
  · exact hkeeps hfresh
  · intro s' topics hopen t ht
    apply (Bool.coe_iff_coe.mpr (hsame t)).mpr
    exact (hall s' topics hopen t).mp ht
  · intro s' topics hopen t ht
    left
    apply (hall s' topics hopen t).mpr
    exact (Bool.coe_iff_coe.mpr (hsame t)).mp ht

/-- A subscription is sent on the open socket only if its topic has a handler then. -/
def Wanted : SocketEvent → Transport → Prop
  | .run i, m => ∀ s topic, m.ready[i]? = some (s, .sub topic) → m.openSock = some s →
      m.handled topic
  | _, _ => True

theorem Agrees.after (h : m.Agrees) {event : SocketEvent} (hwanted : Wanted event m) :
  (m.after event).Agrees
  := by
  cases event with
  | subscribe topic handler => exact h.subscribe topic handler
  | unsubscribe topic handler => exact h.unsubscribe topic handler
  | ensureSubscription topic =>
    unfold Transport.after
    dsimp only
    split
    · exact h.whenOpen _
    · exact h
  | wsCmd => exact h.whenOpen _
  | wsNotify => exact h.whenOpen _
  | run i => exact h.run hwanted
  | giveUp i => exact h.giveUp i
  | onopen s => exact h.onopen s
  | onerror s => exact h.onerror s
  | onclose s => exact h.onclose s
  | close s => exact h.close s
  | reconnect => exact h.reconnect
  | take s => exact h.take s
  | reply s id => exact h.onReply s id
  | timeout id => exact h.onTimeout id

theorem agrees_start :
  ({} : Transport).Agrees
  := by
  constructor
  · intro s k hk
    simp at hk
  · rintro s topics ⟨hsock, _⟩
    cases hsock
  · rintro s topics ⟨hsock, _⟩
    cases hsock

end

/-! ### Requests -/

section

variable {m m' : Transport}

/-- Each request has its own number and its socket; those that wait are not settled, and the others
once, by a reply on their socket only. -/
structure Accounted (m : Transport) : Prop where
  issuedOnce : (m.issued.map Prod.fst).Nodup
  counted : ∀ p ∈ m.issued, p.1 ≤ m.cmdSeq
  pending : m.pendingReplies.Sublist m.issued
  unsettled : ∀ p ∈ m.pendingReplies, p.1 ∉ m.settled.map Prod.fst
  settledOnce : (m.settled.map Prod.fst).Nodup
  known : ∀ p ∈ m.settled, p.1 ∈ m.issued.map Prod.fst
  replied : ∀ id s, (id, Settlement.reply s) ∈ m.settled → (id, s) ∈ m.issued

variable (m) in
def requests : ℕ × List (ℕ × ℕ) × List (ℕ × ℕ) × List (ℕ × Settlement) :=
  (m.cmdSeq, m.issued, m.pendingReplies, m.settled)

theorem Accounted.congr (h : m.Accounted) (hsame : m'.requests = m.requests) :
  m'.Accounted
  := by
  simp only [requests, Prod.mk.injEq] at hsame
  obtain ⟨hseq, hissued, hpending, hsettled⟩ := hsame
  constructor
  · rw [hissued]
    exact h.issuedOnce
  · rw [hissued, hseq]
    exact h.counted
  · rw [hissued, hpending]
    exact h.pending
  · rw [hpending, hsettled]
    exact h.unsettled
  · rw [hsettled]
    exact h.settledOnce
  · rw [hsettled, hissued]
    exact h.known
  · rw [hsettled, hissued]
    exact h.replied

theorem Accounted.settle (h : m.Accounted) {ids : List ℕ} {how : Settlement} (hnodup : ids.Nodup)
    (hids : ∀ id ∈ ids, ∃ s, (id, s) ∈ m.pendingReplies ∧ ∀ s', how = .reply s' → s' = s) :
  (m.settle ids how).Accounted
  := by
  have hsettled : (m.settle ids how).settled.map Prod.fst = m.settled.map Prod.fst ++ ids := by
    rw [Transport.settle, List.map_append, List.map_map]
    congr 1
    exact List.map_id ids
  constructor
  · exact h.issuedOnce
  · exact h.counted
  · exact (List.filter_sublist).trans h.pending
  · intro p hp
    rw [Transport.settle, List.mem_filter, decide_eq_true_iff] at hp
    rw [hsettled, List.mem_append, not_or]
    exact ⟨h.unsettled p hp.1, hp.2⟩
  · rw [hsettled, List.nodup_append]
    refine ⟨h.settledOnce, hnodup, ?_⟩
    rintro id hold _ hid rfl
    obtain ⟨s, hpending, _⟩ := hids id hid
    exact h.unsettled _ hpending hold
  · intro p hp
    obtain hold | hnew := List.mem_append.mp hp
    · exact h.known p hold
    · obtain ⟨id, hid, rfl⟩ := List.mem_map.mp hnew
      obtain ⟨s, hpending, _⟩ := hids id hid
      exact List.mem_map.mpr ⟨_, h.pending.subset hpending, rfl⟩
  · intro id s hp
    obtain hold | hnew := List.mem_append.mp hp
    · exact h.replied id s hold
    · obtain ⟨id, hid, heq⟩ := List.mem_map.mp hnew
      obtain ⟨rfl, rfl⟩ := Prod.mk.inj heq
      obtain ⟨s', hpending, hsocket⟩ := hids id hid
      rw [hsocket s rfl]
      exact h.pending.subset hpending

theorem Accounted.socketRequest (h : m.Accounted) (s : ℕ) (frame : Frame) :
  (m.socketRequest s frame).Accounted
  := by
  have hfresh : m.cmdSeq + 1 ∉ m.issued.map Prod.fst := by
    intro hold
    obtain ⟨p, hp, heq⟩ := List.mem_map.mp hold
    have := h.counted p hp
    omega
  have hissued : ({ m with
      cmdSeq := m.cmdSeq + 1
      issued := m.issued ++ [(m.cmdSeq + 1, s)]
      pendingReplies := m.pendingReplies ++ [(m.cmdSeq + 1, s)] } : Transport).Accounted := by
    constructor
    · dsimp only
      rw [List.map_append, List.nodup_append]
      refine ⟨h.issuedOnce, List.nodup_singleton _, ?_⟩
      rintro id hold _ hnew rfl
      rw [List.map_singleton, List.mem_singleton] at hnew
      rw [hnew] at hold
      exact hfresh hold
    · intro p hp
      obtain hold | hnew := List.mem_append.mp hp
      · exact (h.counted p hold).trans (Nat.le_succ _)
      · rw [List.mem_singleton.mp hnew]
    · exact h.pending.append_right _
    · intro p hp
      obtain hold | hnew := List.mem_append.mp hp
      · exact h.unsettled p hold
      · rw [List.mem_singleton.mp hnew]
        intro hsettled
        obtain ⟨q, hq, heq⟩ := List.mem_map.mp hsettled
        have hknown := h.known q hq
        rw [heq] at hknown
        exact hfresh hknown
    · exact h.settledOnce
    · intro p hp
      dsimp only
      rw [List.map_append]
      exact List.mem_append_left _ (h.known p hp)
    · intro id s hp
      exact List.mem_append_left _ (h.replied id s hp)
  unfold Transport.socketRequest
  dsimp only
  split
  · apply hissued.settle (List.nodup_singleton _)
    intro id hid
    rw [List.mem_singleton] at hid
    refine ⟨s, ?_, fun _ hreply => by cases hreply⟩
    rw [hid]
    exact List.mem_append_right _ (List.mem_singleton_self _)
  · exact hissued.congr rfl

theorem requests_whenOpen (m : Transport) (task : Continuation) :
  (m.whenOpen task).requests = m.requests
  := by
  unfold whenOpen ensureSocket
  cases m.openSock with
  | some s => rfl
  | none =>
    cases m.connecting with
    | some s => rfl
    | none => rfl

theorem requests_sends (ts : List Text) (m : Transport) (s : ℕ) :
  (ts.foldl (fun m topic => m.send s (.sub topic)) m).requests = m.requests
  := by
  induction ts generalizing m with
  | nil => rfl
  | cons t ts ih => exact ih (m.send s (.sub t))

theorem Accounted.perform (h : m.Accounted) (s : ℕ) (task : Continuation) :
  (m.perform s task).Accounted
  := by
  cases task with
  | sub topic => exact h.congr rfl
  | confirm topic =>
    unfold Transport.perform
    dsimp only
    split
    · exact h.socketRequest s _
    · exact h
  | command => exact h.socketRequest s _
  | notify => exact h.congr rfl

theorem Accounted.onclose (h : m.Accounted) (s : ℕ) :
  (m.onclose s).Accounted
  := by
  unfold Transport.onclose
  split
  · exact h
  have hsocket : (m.setSocket s fun socket => { socket with readyState := .closed }).Accounted :=
    h.congr rfl
  have hsettled : ((m.setSocket s fun socket => { socket with readyState := .closed }).settle
      (m.requestsOf s) (.closed s)).Accounted := by
    apply hsocket.settle
    · exact (h.issuedOnce.sublist (h.pending.map Prod.fst)).sublist (List.filter_sublist.map _)
    · intro id hid
      obtain ⟨p, hp, rfl⟩ := List.mem_map.mp hid
      exact ⟨p.2, List.mem_of_mem_filter hp, fun _ hreply => by cases hreply⟩
  dsimp only
  split
  · exact hsettled.congr rfl
  · exact hsettled.congr rfl

theorem mem_of_lookup {id s : ℕ} (h : m.pendingReplies.lookup id = some s) :
  (id, s) ∈ m.pendingReplies
  := by
  obtain ⟨before, after, heq, _⟩ := List.lookup_eq_some_iff.mp h
  rw [heq]
  exact List.mem_append_right _ List.mem_cons_self

theorem Accounted.onReply (h : m.Accounted) (s id : ℕ) :
  (m.onReply s id).Accounted
  := by
  unfold Transport.onReply
  split
  · rename_i hreply
    apply h.settle (List.nodup_singleton _)
    intro id' hid
    rw [List.mem_singleton] at hid
    refine ⟨s, hid ▸ mem_of_lookup hreply.2, fun s' heq => ?_⟩
    exact (Settlement.reply.inj heq).symm
  · exact h

theorem Accounted.onTimeout (h : m.Accounted) (id : ℕ) :
  (m.onTimeout id).Accounted
  := by
  unfold Transport.onTimeout
  split
  · rename_i hwaits
    obtain ⟨s, hs⟩ := Option.isSome_iff_exists.mp hwaits
    apply h.settle (List.nodup_singleton _)
    intro id' hid
    rw [List.mem_singleton] at hid
    exact ⟨s, hid ▸ mem_of_lookup hs, fun _ hreply => by cases hreply⟩
  · exact h

theorem Accounted.after (h : m.Accounted) (event : SocketEvent) :
  (m.after event).Accounted
  := by
  cases event with
  | subscribe topic handler =>
    exact (h.congr rfl).congr (requests_whenOpen _ _)
  | unsubscribe topic handler =>
    apply h.congr
    unfold Transport.after Transport.unsubscribe
    dsimp only
    split
    · rfl
    split
    · rfl
    split <;> rfl
  | ensureSubscription topic =>
    unfold Transport.after
    dsimp only
    split
    · exact h.congr (requests_whenOpen _ _)
    · exact h
  | wsCmd => exact h.congr (requests_whenOpen _ _)
  | wsNotify => exact h.congr (requests_whenOpen _ _)
  | run i =>
    unfold Transport.after Transport.run
    dsimp only
    split
    · exact h
    · rename_i s task _
      have hrest : ({ m with ready := m.ready.eraseIdx i } : Transport).Accounted := h.congr rfl
      exact hrest.perform s task
  | giveUp i =>
    apply h.congr
    unfold Transport.after Transport.giveUp
    dsimp only
    split <;> rfl
  | onopen s =>
    apply h.congr
    unfold Transport.after Transport.onopen
    dsimp only
    split
    · rfl
    split
    · rfl
    · exact requests_sends _ _ s
  | onerror s =>
    apply h.congr
    unfold Transport.after Transport.onerror
    dsimp only
    split
    · rfl
    split <;> rfl
  | onclose s => exact h.onclose s
  | close s => exact h.congr rfl
  | reconnect =>
    apply h.congr
    unfold Transport.after Transport.reconnect
    dsimp only
    split
    · rfl
    split
    · unfold ensureSocket
      cases Transport.openSock _ with
      | some s => rfl
      | none => cases m.connecting <;> rfl
    · rfl
  | take s => exact h.congr rfl
  | reply s id => exact h.onReply s id
  | timeout id => exact h.onTimeout id

theorem accounted_start :
  ({} : Transport).Accounted
  := by
  constructor <;> simp

end

end Transport

/-! ### Every run -/

/-- The server has the subscriptions of the topics with handlers, if the shared socket is open and
nothing is pending. -/
def Transport.Agreed (m : Transport) : Prop :=
  ∀ s k, m.sock = some s → m.sockets[s]? = some k → k.readyState = .open_ → k.inFlight = [] →
    m.waiting = [] → m.ready = [] → ∀ topic, topic ∈ k.subscribed ↔ m.handled topic

/-- Each request is settled at most once, and by a reply only if the reply came in on the socket
that the request was issued on. -/
def Transport.Settled (m : Transport) : Prop :=
  (m.issued.map Prod.fst).Nodup ∧ (m.settled.map Prod.fst).Nodup
    ∧ ∀ id s, (id, Settlement.reply s) ∈ m.settled → (id, s) ∈ m.issued

/-- In every run requests are settled as they should be; and subscriptions agree if none is sent for
a topic that has lost its last handler. -/
theorem subscriptions_agree (events : List SocketEvent) :
  (events.foldl Transport.after {}).Settled
    ∧ (Steps.Throughout Transport.after Transport.Wanted events {} →
        (events.foldl Transport.after {}).Agreed)
  := by
  constructor
  · have haccounted : (events.foldl Transport.after {}).Accounted := by
      apply Steps.invariant (P := fun _ _ => True) Transport.accounted_start
      · intro m event h _
        exact h.after event
      · intro _ _ _ _
        trivial
    exact ⟨haccounted.issuedOnce, haccounted.settledOnce, haccounted.replied⟩
  · intro hwanted s k hsock hk hopen hflight hwaiting hready topic
    have hagrees := Steps.invariant Transport.agrees_start
      (fun _ _ h hevent => Transport.Agrees.after h hevent) hwanted
    have hopened : (events.foldl Transport.after {}).Opened s k.subscribed := by
      refine ⟨hsock, k, hk, hopen, ?_⟩
      rw [Socket.topics, hflight]
      rfl
    constructor
    · exact hagrees.kept s _ hopened topic
    · intro hhandled
      obtain hsent | hpending := hagrees.sent s _ hopened topic hhandled
      · exact hsent
      · rw [hready] at hpending
        cases hpending

/-- The run in which a handler is registered while the socket opens, and removed once the server has
its subscription. -/
theorem subscriptions_agree_ended :
  Transport.Agreed ([.subscribe ['t'] 0, .onopen 0, .run 0, .take 0, .take 0,
    .unsubscribe ['t'] 0, .take 0].foldl Transport.after {})
  := by
  apply (subscriptions_agree _).2
  refine Steps.throughout_cons.mpr ⟨trivial, Steps.throughout_cons.mpr ⟨trivial,
    Steps.throughout_cons.mpr ⟨?_, ?_⟩⟩⟩
  · intro s topic htask _
    obtain ⟨rfl, rfl⟩ : 0 = s ∧ ['t'] = topic := by
      simpa using (show some (0, Continuation.sub ['t']) = some (s, .sub topic) from htask)
    decide
  · intro pre event post heq
    have hevent : event ∈ [SocketEvent.take 0, .take 0, .unsubscribe ['t'] 0, .take 0] := by
      rw [heq]
      exact List.mem_append_right _ List.mem_cons_self
    simp only [List.mem_cons, List.not_mem_nil, or_false] at hevent
    obtain rfl | rfl | rfl | rfl := hevent <;> trivial

/-- A handler that is removed while the socket opens leaves a subscription behind. -/
theorem subscriptions_leak :
  ¬ ∀ events : List SocketEvent, (events.foldl Transport.after {}).Settled
    ∧ (events.foldl Transport.after {}).Agreed
  := by
  intro h
  have hagreed := (h [.subscribe ['t'] 0, .unsubscribe ['t'] 0, .onopen 0, .run 0, .take 0]).2
  have hhandled := (hagreed 0 ⟨.open_, [], [['t']]⟩ (by decide) (by decide) rfl rfl (by decide)
    (by decide) ['t']).mp (by decide)
  exact absurd hhandled (by decide)

end Workbench
