import Catio.Server.WsHub

/-!
# Honest subscriptions

What a client may rely on: it gets the events on the topics for which it has an ok receipt, and none
on others, and its connection does not stay open once it is out of the hub.  This is kept as long as
there is room for the events, and for the topics.
-/

namespace Server

open Text Json

/-- The events that a client has or is to get. -/
def WsConn.events (conn : WsConn) : List (Text × Value) :=
  (conn.delivered ++ conn.queue).filterMap WsFrame.event?

/-- A client gets every event that it is due, in order and once, none that it may not see, and its
connection is over once it is out of the hub. -/
structure WsConn.Honest (conn : WsConn) : Prop where
  complete : conn.client.due.Sublist conn.events
  clean : conn.events.Sublist conn.client.allowed
  ended : conn.registered = false → conn.isOpen = false

/-- What is kept of a connection. -/
structure WsConn.Fine (conn : WsConn) : Prop where
  honest : conn.Honest
  known : conn.registered → ∀ topic ∈ conn.topics, topic ∈ conn.client.wanted
  live : conn.isOpen → conn.registered ∧ conn.writing
  acked : conn.isOpen → ∀ topic ∈ conn.client.acked, topic ∈ conn.topics
  receipt : conn.isOpen → ∀ r, conn.receipt = some r → r.denied = none → r.topic ∈ conn.topics

namespace WsConn

variable {conn : WsConn}

theorem Fine.congr (h : conn.Fine) {conn' : WsConn} (hevents : conn'.events = conn.events)
    (hdue : conn'.client.due = conn.client.due)
    (hallowed : conn'.client.allowed = conn.client.allowed)
    (hended : conn'.registered = false → conn'.isOpen = false)
    (hknown : conn'.registered → ∀ topic ∈ conn'.topics, topic ∈ conn'.client.wanted)
    (hlive : conn'.isOpen → conn'.registered ∧ conn'.writing)
    (hacked : conn'.isOpen → ∀ topic ∈ conn'.client.acked, topic ∈ conn'.topics)
    (hreceipt : conn'.isOpen → ∀ r, conn'.receipt = some r → r.denied = none →
      r.topic ∈ conn'.topics) :
  conn'.Fine
  := by
  refine ⟨⟨?_, ?_, hended⟩, hknown, hlive, hacked, hreceipt⟩
  · rw [hevents, hdue]
    exact h.honest.complete
  · rw [hevents, hallowed]
    exact h.honest.clean

theorem Fine.ended (h : conn.Fine) {conn' : WsConn} (hevents : conn'.events = conn.events)
    (hclient : conn'.client = conn.client) (htopics : conn'.topics = conn.topics)
    (hregistered : conn'.registered → conn.registered) (hopen : conn'.isOpen = false) :
  conn'.Fine
  := by
  have hknown := h.known
  apply h.congr hevents
  · rw [hclient]
  · rw [hclient]
  · intro _
    exact hopen
  · intro hin
    rw [htopics, hclient]
    exact hknown (hregistered hin)
  · simp [hopen]
  · simp [hopen]
  · simp [hopen]

theorem fine_new (owner : Option Text) :
  ({ owner } : WsConn).Fine
  := by
  constructor
  · constructor <;> simp [events]
  all_goals simp

theorem events_trySend (frame : WsFrame) :
  (conn.trySend frame).events
    = conn.events ++ if conn.ready then frame.event?.toList else []
  := by
  unfold trySend events
  split
  · rename_i hready
    cases hframe : frame.event? <;> simp [hframe]
  · simp

theorem Fine.trySend (h : conn.Fine) {frame : WsFrame} (hframe : frame.event? = none) :
  (conn.trySend frame).Fine
  := by
  have hevents : (conn.trySend frame).events = conn.events := by
    rw [events_trySend, hframe]
    simp
  obtain ⟨hhonest, hknown, hlive, hacked, hreceipt⟩ := h
  apply Fine.congr ⟨hhonest, hknown, hlive, hacked, hreceipt⟩ hevents <;>
    (unfold WsConn.trySend; split)
  all_goals first | rfl | assumption | exact hhonest.ended

theorem Fine.subscribe (h : conn.Fine) (topic : Text) :
  (conn.subscribe topic).Fine
  := by
  have hended := h.honest.ended
  obtain ⟨hhonest, hknown, hlive, hacked, hreceipt⟩ := h
  unfold WsConn.subscribe
  apply Fine.congr ⟨hhonest, hknown, hlive, hacked, hreceipt⟩ <;> grind -linarith [WsConn.events]

theorem Fine.unsubscribe (h : conn.Fine) (hnone : conn.receipt = none) (topic : Text) :
  (conn.unsubscribe topic).Fine
  := by
  have hended := h.honest.ended
  obtain ⟨hhonest, hknown, hlive, hacked, hreceipt⟩ := h
  unfold WsConn.unsubscribe
  apply Fine.congr ⟨hhonest, hknown, hlive, hacked, hreceipt⟩ <;> grind -linarith [WsConn.events]

theorem Fine.withReceipt (h : conn.Fine) {receipt : Option WsReceipt}
    (hreceipt : conn.isOpen → ∀ r, receipt = some r → r.denied = none → r.topic ∈ conn.topics) :
  ({ conn with receipt := receipt } : WsConn).Fine
  := h.congr rfl rfl rfl h.honest.ended h.known h.live h.acked hreceipt

theorem Fine.sub (h : conn.Fine) (actor : Option User) (topic : Text) (id : Option Value)
    (hroom : id.isSome → denial actor topic = none →
      topic ∈ conn.topics ∨ conn.topics.length < MAX_TOPICS_PER_CONN) :
  (conn.sub actor topic id).Fine
  := by
  have hlive := h.live
  unfold WsConn.sub
  dsimp only
  split
  · rename_i hdenied
    apply (h.subscribe topic).withReceipt
    intro hopen r hr _
    obtain ⟨_, hid, rfl⟩ := Option.map_eq_some_iff.mp hr
    have hcap := hroom (by rw [hid]; rfl) hdenied
    unfold WsConn.subscribe at hopen ⊢
    grind -linarith
  · rename_i hdenied
    apply h.withReceipt
    intro _ r hr hnone
    obtain ⟨_, _, rfl⟩ := Option.map_eq_some_iff.mp hr
    exact absurd hnone hdenied

theorem trySend_same (frame : WsFrame) :
  (conn.trySend frame).topics = conn.topics ∧ (conn.trySend frame).isOpen = conn.isOpen
    ∧ (conn.trySend frame).registered = conn.registered
    ∧ (conn.trySend frame).writing = conn.writing
    ∧ (conn.trySend frame).client = conn.client
    ∧ (conn.trySend frame).receipt = conn.receipt
  := by
  unfold WsConn.trySend
  split <;> exact ⟨rfl, rfl, rfl, rfl, rfl, rfl⟩

theorem Fine.sendReceipt (h : conn.Fine) :
  conn.sendReceipt.Fine
  := by
  unfold WsConn.sendReceipt
  split
  · exact h
  · rename_i r hr
    dsimp only
    generalize hframe : WsFrame.reply r.id _ = frame
    have hsent : (conn.trySend frame).Fine := by
      apply h.trySend
      rw [← hframe]
      rfl
    obtain ⟨htopics, hopen, hregistered, hwriting, hclient, -⟩ := @trySend_same conn frame
    have hacked := h.acked
    have hreceipt := h.receipt
    apply hsent.congr
    · rfl
    · dsimp only
      rw [hclient]
    · dsimp only
      rw [hclient]
    · exact hsent.honest.ended
    · intro hin
      dsimp only
      rw [← hclient]
      exact hsent.known hin
    · exact hsent.live
    · intro ho topic htopic
      dsimp only at ho htopic ⊢
      rw [hopen] at ho
      rw [htopics]
      split at htopic
      · rename_i hok
        obtain rfl | hold := List.mem_insert_iff.mp htopic
        · exact hreceipt ho r hr hok.2
        · exact hacked ho topic hold
      · exact hacked ho topic htopic
    · rintro _ r' ⟨⟩

theorem Fine.write (h : conn.Fine) :
  conn.write.Fine
  := by
  have hended := h.honest.ended
  obtain ⟨hhonest, hknown, hlive, hacked, hreceipt⟩ := h
  unfold WsConn.write
  split
  · rename_i frame queue hqueue
    split
    · apply Fine.congr ⟨hhonest, hknown, hlive, hacked, hreceipt⟩
      · simp [WsConn.events, hqueue]
      all_goals first | rfl | assumption
    · exact ⟨hhonest, hknown, hlive, hacked, hreceipt⟩
  · exact ⟨hhonest, hknown, hlive, hacked, hreceipt⟩

/-- An event is sent to a connection, which has room for it if it is open and hears it. -/
theorem Fine.offer (h : conn.Fine) (scope : Option Text) (topic : Text) (payload : Value)
    (hroom : conn.isOpen → conn.hears scope topic → conn.queue.length < WRITER_CAPACITY) :
  (conn.offer scope topic payload).Fine
  := by
  have hevents : (conn.offer scope topic payload).events
      = conn.events ++ if conn.hears scope topic ∧ conn.ready then [(topic, payload)] else [] := by
    unfold WsConn.offer
    dsimp only
    by_cases hhears : conn.hears scope topic
    · simp only [hhears, if_true, true_and]
      exact events_trySend _
    · simp [hhears, WsConn.events]
  have hsame : (conn.offer scope topic payload).topics = conn.topics
      ∧ (conn.offer scope topic payload).isOpen = conn.isOpen
      ∧ (conn.offer scope topic payload).registered = conn.registered
      ∧ (conn.offer scope topic payload).writing = conn.writing
      ∧ (conn.offer scope topic payload).receipt = conn.receipt := by
    obtain ⟨htopics, hopen, hregistered, hwriting, -, hreceipt⟩ :=
      @trySend_same conn (.event topic payload)
    unfold WsConn.offer
    dsimp only
    split
    · exact ⟨htopics, hopen, hregistered, hwriting, hreceipt⟩
    · exact ⟨rfl, rfl, rfl, rfl, rfl⟩
  obtain ⟨htopics, hopen, hregistered, hwriting, hreceipt'⟩ := hsame
  obtain ⟨⟨hcomplete, hclean, hended⟩, hknown, hlive, hacked, hreceipt⟩ := h
  constructor
  · constructor
    · rw [hevents]
      by_cases hdue : conn.isOpen ∧ conn.inScope scope ∧ topic ∈ conn.client.acked
      · -- what is due is subscribed to, and there is room for it
        obtain ⟨ho, hscope, htopic⟩ := hdue
        have hhears : conn.hears scope topic := by
          simp [WsConn.hears, (hlive ho).1, hscope, hacked ho topic htopic]
        have hready : conn.ready := by
          simp [WsConn.ready, (hlive ho).2, hroom ho hhears]
        have hnew : (conn.offer scope topic payload).client.due
            = conn.client.due ++ [(topic, payload)] := by
          simp [WsConn.offer, ho, hscope, htopic]
        rw [hnew, if_pos ⟨hhears, hready⟩]
        exact hcomplete.append (List.Sublist.refl _)
      · have hold : (conn.offer scope topic payload).client.due = conn.client.due := by
          simp only [WsConn.offer, if_neg hdue]
        rw [hold]
        exact hcomplete.trans (List.sublist_append_left _ _)
    · rw [hevents]
      by_cases hallowed : conn.inScope scope ∧ topic ∈ conn.client.wanted
      · have hnew : (conn.offer scope topic payload).client.allowed
            = conn.client.allowed ++ [(topic, payload)] := by
          simp only [WsConn.offer, if_pos hallowed]
        rw [hnew]
        apply hclean.append
        split
        · exact List.Sublist.refl _
        · exact List.nil_sublist _
      · have hold : (conn.offer scope topic payload).client.allowed = conn.client.allowed := by
          simp only [WsConn.offer, if_neg hallowed]
        have hdeaf : ¬ (conn.hears scope topic ∧ conn.ready) := by
          rintro ⟨hhears, -⟩
          simp only [WsConn.hears, Bool.and_eq_true, decide_eq_true_iff] at hhears
          exact hallowed ⟨hhears.1.2, hknown hhears.1.1 topic hhears.2⟩
        rw [hold, if_neg hdeaf, List.append_nil]
        exact hclean
    · rw [hregistered, hopen]
      exact hended
  · rw [hregistered, htopics]
    exact hknown
  · rw [hopen, hregistered, hwriting]
    exact hlive
  · rw [hopen, htopics]
    exact hacked
  · rw [hopen, htopics, hreceipt']
    exact hreceipt

end WsConn

namespace WsHub

variable {m : WsHub}

/-- Whether a connection has room for an event, if it is open and hears it. -/
def roomFor (scope : Option Text) (topic : Text) (conn : WsConn) : Bool :=
  !conn.isOpen || !conn.hears scope topic || conn.queue.length < WRITER_CAPACITY

/-- No event is sent to an open connection whose writer is full, and no receipt is for a topic over
the cap. -/
def spacious : WsEvent → WsHub → Bool
  | .sub c actor topic id, m => (m.conns[c]?).all fun conn =>
      id.isNone || (denial actor topic).isSome || topic ∈ conn.topics
        || conn.topics.length < MAX_TOPICS_PER_CONN
  | .emit topic _, m => m.conns.all (roomFor none topic)
  | .emitToOwner owner topic _, m => m.conns.all (roomFor (some owner) topic)
  | _, _ => true

/-- What is kept of all connections: those that are to be evicted are over. -/
structure Kept (m : WsHub) : Prop where
  fine : ∀ conn ∈ m.conns, conn.Fine
  doomed : ∀ c ∈ m.dead, ∃ conn, m.conns[c]? = some conn ∧ conn.isOpen = false

theorem Kept.setConn (h : m.Kept) {c : ℕ} {f : WsConn → WsConn}
    (hf : ∀ conn, m.conns[c]? = some conn → conn.Fine →
      (f conn).Fine ∧ ((f conn).isOpen → conn.isOpen)) :
  (m.setConn c f).Kept
  := by
  constructor
  · intro conn hconn
    obtain ⟨k, hk⟩ := List.mem_iff_getElem?.mp hconn
    rw [WsHub.setConn, List.getElem?_modify] at hk
    obtain ⟨conn', hconn', rfl⟩ := Option.map_eq_some_iff.mp hk
    have hfine := h.fine conn' (List.mem_of_getElem? hconn')
    split
    · rename_i hck
      subst hck
      exact (hf conn' hconn' hfine).1
    · exact hfine
  · intro k hk
    obtain ⟨conn, hconn, hover⟩ := h.doomed k hk
    rw [WsHub.setConn, List.getElem?_modify, hconn]
    refine ⟨_, rfl, ?_⟩
    split
    · rename_i hck
      subst hck
      by_contra hopen
      have hthis := (hf conn hconn (h.fine conn (List.mem_of_getElem? hconn))).2
        (by simpa using hopen)
      rw [hover] at hthis
      cases hthis
    · exact hover

theorem Kept.onFrame (h : m.Kept) {c : ℕ} {f : WsConn → WsConn}
    (hf : ∀ conn, m.conns[c]? = some conn → conn.receipt = none → conn.Fine →
      (f conn).Fine ∧ ((f conn).isOpen → conn.isOpen)) :
  (m.onFrame c f).Kept
  := by
  apply h.setConn
  intro conn hconn hfine
  split
  · rename_i hframe
    exact hf conn hconn (Option.isNone_iff_eq_none.mp hframe.2) hfine
  · exact ⟨hfine, id⟩

theorem Kept.send (h : m.Kept) (scope : Option Text) (topic : Text) (payload : Value)
    (hroom : m.conns.all (roomFor scope topic)) :
  (m.send scope topic payload).Kept
  := by
  have hroom' : ∀ conn ∈ m.conns, conn.isOpen → conn.hears scope topic →
      conn.queue.length < WRITER_CAPACITY := by
    intro conn hconn hopen hhears
    have hthis := List.all_eq_true.mp hroom conn hconn
    simpa [roomFor, hopen, hhears] using hthis
  have hopen : ∀ conn : WsConn, (conn.offer scope topic payload).isOpen = conn.isOpen := by
    intro conn
    unfold WsConn.offer
    dsimp only
    split
    · exact (WsConn.trySend_same _).2.1
    · rfl
  constructor
  · intro conn hconn
    obtain ⟨conn', hconn', rfl⟩ := List.mem_map.mp hconn
    exact (h.fine conn' hconn').offer scope topic payload (hroom' conn' hconn')
  · intro c hc
    obtain hold | hnew := List.mem_append.mp hc
    · obtain ⟨conn, hconn, hover⟩ := h.doomed c hold
      refine ⟨conn.offer scope topic payload, ?_, (hopen conn).trans hover⟩
      simp [WsHub.send, hconn]
    · -- there would be room for the event in an open connection
      obtain ⟨-, hany⟩ := List.mem_filter.mp hnew
      obtain ⟨conn, hconn, hfull⟩ := (Option.any_eq_true _ _).mp hany
      rw [Bool.and_eq_true, Bool.not_eq_true'] at hfull
      refine ⟨conn.offer scope topic payload, by simp [WsHub.send, hconn], (hopen conn).trans ?_⟩
      by_contra hopen'
      have hopen' : conn.isOpen := by simpa using hopen'
      have hmem := List.mem_of_getElem? hconn
      have hready : conn.ready := by
        simp [WsConn.ready, ((h.fine conn hmem).live hopen').2, hroom' conn hmem hopen' hfull.1]
      rw [hready] at hfull
      cases hfull.2

theorem Kept.evict (h : m.Kept) (k : ℕ) :
  (m.evict k).Kept
  := by
  unfold WsHub.evict
  split
  · rename_i c hk
    obtain ⟨conn, hconn, hover⟩ := h.doomed c (List.mem_of_getElem? hk)
    have hset : (m.setConn c fun conn => { conn with registered := false }).Kept := by
      apply h.setConn
      intro conn' hconn' hfine
      rw [hconn] at hconn'
      obtain rfl := Option.some.inj hconn'
      exact ⟨hfine.ended rfl rfl rfl (by simp) hover, id⟩
    constructor
    · exact hset.fine
    · intro c' hc'
      apply hset.doomed c' (List.mem_of_mem_eraseIdx hc')
  · exact h

theorem Kept.register (h : m.Kept) (owner : Option Text) :
  ({ m with conns := m.conns ++ [{ owner }] } : WsHub).Kept
  := by
  constructor
  · intro conn hconn
    obtain hold | hnew := List.mem_append.mp hconn
    · exact h.fine conn hold
    · rw [List.mem_singleton.mp hnew]
      exact WsConn.fine_new owner
  · intro c hc
    obtain ⟨conn, hconn, hover⟩ := h.doomed c hc
    refine ⟨conn, ?_, hover⟩
    rw [List.getElem?_append_left (List.getElem?_eq_some_iff.mp hconn).1, hconn]

theorem Kept.after (h : m.Kept) {event : WsEvent} (hspacious : spacious event m) :
  (m.after event).Kept
  := by
  cases event with
  | register owner => exact h.register owner
  | sub c actor topic id =>
    apply h.onFrame
    intro conn hconn _ hfine
    constructor
    · apply hfine.sub
      intro hid hdenied
      rw [spacious, hconn, Option.all_some, hdenied] at hspacious
      simpa [Option.isNone_iff_eq_none, Option.isSome_iff_ne_none.mp hid] using hspacious
    · rw [WsConn.sub]
      split <;> exact fun hopen => hopen
  | receipt c =>
    apply h.setConn
    intro conn _ hfine
    refine ⟨hfine.sendReceipt, ?_⟩
    unfold WsConn.sendReceipt
    split
    · exact id
    · dsimp only
      rw [(WsConn.trySend_same _).2.1]
      exact id
  | unsub c topic =>
    apply h.onFrame
    intro conn _ hnone hfine
    exact ⟨hfine.unsubscribe hnone topic, id⟩
  | serve c topic =>
    apply h.setConn
    intro conn _ hfine
    exact ⟨hfine.subscribe topic, id⟩
  | reply c id result =>
    apply h.setConn
    intro conn _ hfine
    refine ⟨hfine.trySend rfl, ?_⟩
    rw [(WsConn.trySend_same _).2.1]
    exact fun hopen => hopen
  | ping c =>
    apply h.onFrame
    intro conn _ _ hfine
    refine ⟨hfine.trySend rfl, ?_⟩
    rw [(WsConn.trySend_same _).2.1]
    exact id
  | emit topic payload => exact h.send none topic payload hspacious
  | emitToOwner owner topic payload => exact h.send (some owner) topic payload hspacious
  | evict k => exact h.evict k
  | write c =>
    apply h.setConn
    intro conn _ hfine
    refine ⟨hfine.write, ?_⟩
    unfold WsConn.write
    split
    · split <;> exact id
    · exact id
  | writerFails c =>
    apply h.setConn
    intro conn _ hfine
    exact ⟨hfine.ended rfl rfl rfl id rfl, by simp⟩
  | close c =>
    apply h.setConn
    intro conn _ hfine
    exact ⟨hfine.ended rfl rfl rfl id rfl, by simp⟩
  | abortWriter c =>
    apply h.setConn
    intro conn _ hfine
    split
    · exact ⟨hfine, id⟩
    · rename_i hopen
      exact ⟨hfine.ended rfl rfl rfl id (by simpa using hopen), id⟩
  | unregister c =>
    apply h.setConn
    intro conn _ hfine
    split
    · exact ⟨hfine, id⟩
    · rename_i hopen
      exact ⟨hfine.ended rfl rfl rfl (by simp) (by simpa using hopen), id⟩

theorem kept_start :
  ({} : WsHub).Kept
  := by
  constructor <;> simp

/-- If no event finds the writer of an open connection full, and no receipt is for a topic over the
cap, subscriptions are honest. -/
theorem honest_throughout {es : List WsEvent}
    (h : Steps.Throughout after (fun e m => spacious e m) es {}) :
  ∀ conn ∈ (es.foldl after {}).conns, conn.Honest
  := by
  have hkept : (es.foldl after {}).Kept := by
    apply Steps.invariant kept_start _ h
    intro m event hm hspacious
    exact hm.after hspacious
  intro conn hconn
  exact (hkept.fine conn hconn).honest

theorem honest_throughout_one :
  ∃ conn, ([.register none, .sub 0 (some ⟨1, "root", true, 0⟩) "t" (some .null), .receipt 0,
    .emit "t" .null, .write 0, .write 0].foldl after {}).conns[0]? = some conn ∧ conn.Honest
  := by
  refine ⟨_, rfl, ?_⟩
  have h : Steps.Throughout after (fun e m => spacious e m) [.register none,
      .sub 0 (some ⟨1, "root", true, 0⟩) "t" (some .null), .receipt 0, .emit "t" .null, .write 0,
      .write 0] {} := by
    simp only [Steps.throughout_cons, Steps.throughout_nil, and_true]
    refine ⟨rfl, rfl, rfl, rfl, rfl, rfl⟩
  apply honest_throughout h
  exact List.mem_of_getElem? (i := 0) rfl

/-- A client with an ok receipt for a topic, that reads none of the events on it. -/
def slow (topic : Text) (n : ℕ) : WsConn where
  owner := none
  topics := [topic]
  queue := .reply .null (.ok (.object [("topic", .string topic)]))
    :: List.replicate n (.event topic .null)
  client := {
    acked := [topic]
    wanted := [topic]
    due := List.replicate n (topic, .null)
    allowed := List.replicate n (topic, .null) }

section

variable {topic : Text} {n : ℕ}

theorem ready_slow :
  (slow topic n).ready = decide (n + 1 < WRITER_CAPACITY)
  := by
  simp [WsConn.ready, slow]

theorem hears_slow :
  (slow topic n).hears none topic = true
  := by
  simp [WsConn.hears, WsConn.inScope, slow]

theorem offer_slow (h : n + 1 < WRITER_CAPACITY) :
  (slow topic n).offer none topic .null = slow topic (n + 1)
  := by
  have hqueue : (slow topic n).queue ++ [.event topic .null] = (slow topic (n + 1)).queue := by
    simp [slow, List.replicate_succ']
  unfold WsConn.offer WsConn.trySend
  rw [hears_slow, ready_slow, if_pos rfl, if_pos (by simpa using h), hqueue]
  simp [slow, WsConn.inScope, List.replicate_succ']

theorem after_slow (h : n + 1 < WRITER_CAPACITY) :
  after { conns := [slow topic n] } (.emit topic .null) = { conns := [slow topic (n + 1)] }
  := by
  simp [after, send, offer_slow h, ready_slow, h]

theorem after_slow_full (h : ¬ n + 1 < WRITER_CAPACITY) :
  after { conns := [slow topic n] } (.emit topic .null)
    = { conns := [{ slow topic n with client := (slow topic (n + 1)).client }], dead := [0] }
  := by
  have hoffer : (slow topic n).offer none topic .null
      = { slow topic n with client := (slow topic (n + 1)).client } := by
    unfold WsConn.offer WsConn.trySend
    rw [hears_slow, ready_slow, if_pos rfl, if_neg (by simpa using h)]
    simp [slow, WsConn.inScope, List.replicate_succ']
  simp [after, send, hoffer, hears_slow, ready_slow, h]

theorem events_slow :
  (slow topic n).events = List.replicate n (topic, .null)
  := by
  change (List.replicate n (WsFrame.event topic .null)).filterMap WsFrame.event? = _
  induction n with
  | zero => rfl
  | succ n ih =>
    rw [List.replicate_succ, List.filterMap_cons, ih]
    rfl

end

theorem exists_slow {n : ℕ} (h : n < WRITER_CAPACITY) :
  ∃ es : List WsEvent, es.foldl after {} = { conns := [slow "t" n] }
  := by
  induction n with
  | zero =>
    use [.register none, .sub 0 (some ⟨1, "root", true, 0⟩) "t" (some .null), .receipt 0]
    rfl
  | succ n ih =>
    obtain ⟨es, hes⟩ := ih (by omega)
    use es ++ [.emit "t" .null]
    rw [List.foldl_concat, hes, after_slow h]

/-- The first event for which there is no room is lost, and the connection is evicted, but it stays
open. -/
theorem not_honest_slow :
  ∃ (es : List WsEvent) (conn : WsConn), (es.foldl after {}).conns[0]? = some conn ∧ conn.isOpen
    ∧ conn.registered = false ∧ ¬ conn.client.due.Sublist conn.events
  := by
  obtain ⟨es, hes⟩ := @exists_slow 2047 (by decide)
  use es ++ [.emit "t" .null] ++ [.evict 0], { slow "t" 2047 with
    client := (slow "t" 2048).client, registered := false }
  rw [List.foldl_concat, List.foldl_concat, hes, after_slow_full (by decide)]
  refine ⟨rfl, rfl, rfl, ?_⟩
  intro hsublist
  have hlength := hsublist.length_le
  have hevents : (({ slow "t" 2047 with
      client := (slow "t" 2048).client, registered := false } : WsConn).events).length = 2047 := by
    change (slow "t" 2047).events.length = 2047
    rw [events_slow, List.length_replicate]
  have hdue : (slow "t" 2048).client.due.length = 2048 := List.length_replicate
  rw [hevents] at hlength
  dsimp only at hlength
  rw [hdue] at hlength
  omega

end WsHub

end Server
