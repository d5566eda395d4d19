import Catio.Lib.Places
import Catio.Workbench.TerminalCapture

/-!
# Captures

What holds in every run of captures: one call holds a channel at a time, each call is settled once,
and a released call does not listen.  A capture is completed by the end of its own command if no
end with the same text comes before the command was seen to start.
-/

namespace Workbench

/-! ### What is recorded -/

def Entry.outcome : Entry → Option Outcome
  | .settled outcome => some outcome
  | _ => none

def Entry.completed : Entry → Bool
  | .settled (.result .completed _ _) => true
  | _ => false

/-- The entry of a command that is seen to start. -/
def Entry.isStart : Entry → Bool
  | .event report => report.execStart
  | _ => false

/-- A command was seen to start after the call wrote its own. -/
def startedSinceWrite (log : List Entry) : Bool :=
  (log.dropWhile (· ≠ .wrote)).any Entry.isStart

/-- A capture is completed only by an end of the command that follows a start after the command was
written. -/
def OwnEnds (command : List ℕ) (log : List Entry) : Prop :=
  ∀ pre e post, log = pre ++ e :: post → e.completed →
    ∃ before event, pre = before ++ [.event event] ∧ event.ends command
      ∧ startedSinceWrite before

section

variable {command : List ℕ} {log new : List Entry} {e : Entry}

theorem OwnEnds.concat (h : OwnEnds command log)
    (he : e.completed → ∃ before event, log = before ++ [.event event] ∧ event.ends command
      ∧ startedSinceWrite before) :
  OwnEnds command (log ++ [e])
  := by
  intro pre e' post heq hcompleted
  obtain ⟨rfl, rfl⟩ | ⟨post', rfl⟩ := Steps.snoc_cases heq
  · exact he hcompleted
  · exact h pre e' post' rfl hcompleted

theorem OwnEnds.append (h : OwnEnds command log) (hnew : ∀ e ∈ new, e.completed = false) :
  OwnEnds command (log ++ new)
  := by
  induction new using List.reverseRecOn with
  | nil =>
    rw [List.append_nil]
    exact h
  | append_singleton new e ih =>
    rw [← List.append_assoc]
    apply (ih fun e' he' => hnew e' (List.mem_append_left _ he')).concat
    intro hcompleted
    rw [hnew e (List.mem_append_right _ (List.mem_singleton_self e))] at hcompleted
    cases hcompleted

end

namespace Call

/-- What a call was settled with. -/
def settlements (a : Call) : List Outcome :=
  a.log.filterMap Entry.outcome

/-! ### One call -/

/-- How the parts of a call fit together. -/
structure Fine (a : Call) : Prop where
  settled : a.settlements.length = if a.resultDelivered then 1 else 0
  returned : a.phase = .returned → a.resultDelivered
  released : a.released → a.resultDelivered
  lingers : a.lingering → a.resultDelivered
  holds : a.resultDelivered → a.lingering = false → a.released
  listens : a.phase = .listening → a.unlisten = false
  pending : a.phase = .listening → a.released → a.unlistenPending
  detaches : a.phase ≠ .listening → a.attached → a.unlisten
  removed : a.unlisten → a.released = false
  spent : a.completionTimer = .spent → a.resultDelivered
  waits : a.phase = .writing ∨ a.phase = .awaiting → a.resultDelivered = false →
    a.startTimer = .running ∨ a.completionTimer = .running

/-- What something that happens to a call keeps: a channel is given back only by the call that held
it until then. -/
structure Keeps (a : Call) (running : List Text) (r : List Text × Call) : Prop where
  fine : r.2.Fine
  chanId : r.2.chanId = a.chanId
  command : r.2.command = a.command
  held : (r.1 = running ∧ r.2.released = a.released)
    ∨ (r.1 = running.filter (· ≠ a.chanId) ∧ r.2.released ∧ a.released = false)

/-- Nothing is recorded to be completed. -/
def Quiet (a b : Call) : Prop :=
  ∃ new, b.log = a.log ++ new ∧ ∀ e ∈ new, e.completed = false

section

variable {a b c : Call} {running : List Text} {r r' : List Text × Call}

theorem Keeps.trans (h : a.Keeps running r) (h' : r.2.Keeps r.1 r') :
  a.Keeps running r'
  := by
  constructor
  · exact h'.fine
  · exact h'.chanId.trans h.chanId
  · exact h'.command.trans h.command
  · obtain ⟨hrunning, hreleased⟩ | ⟨hrunning, hreleased, hheld⟩ := h.held
    · rw [← hrunning, ← hreleased, ← h.chanId]
      exact h'.held
    · obtain ⟨hrunning', hreleased'⟩ | ⟨_, _, hheld'⟩ := h'.held
      · exact .inr ⟨hrunning'.trans hrunning, hreleased'.trans hreleased, hheld⟩
      · rw [hreleased] at hheld'
        cases hheld'

theorem Quiet.refl (a : Call) :
  a.Quiet a
  := ⟨[], (List.append_nil _).symm, by simp⟩

theorem Quiet.of_eq (h : b.log = a.log) :
  a.Quiet b
  := ⟨[], h.trans (List.append_nil _).symm, by simp⟩

theorem Quiet.of_concat {e : Entry} (h : b.log = a.log ++ [e]) (he : e.completed = false) :
  a.Quiet b
  := by
  refine ⟨[e], h, ?_⟩
  intro e' he'
  rw [List.mem_singleton.mp he', he]

theorem Quiet.trans (h : a.Quiet b) (h' : b.Quiet c) :
  a.Quiet c
  := by
  obtain ⟨new, hnew, hquiet⟩ := h
  obtain ⟨new', hnew', hquiet'⟩ := h'
  refine ⟨new ++ new', by rw [hnew', hnew, List.append_assoc], ?_⟩
  intro e he
  exact (List.mem_append.mp he).elim (hquiet e) (hquiet' e)

theorem keeps_refl (h : a.Fine) :
  a.Keeps running (running, a)
  := ⟨h, rfl, rfl, .inl ⟨rfl, rfl⟩⟩

theorem keeps_finish (h : a.Fine) (status : CaptureStatus) (exitCode : Option ℤ) :
  a.Keeps running (a.finish running status exitCode)
  := by
  unfold finish release
  obtain ⟨_, _, _, _, _, _, _, _, _, _, _⟩ := h
  split
  · constructor
    · constructor <;> assumption
    · rfl
    · rfl
    · exact .inl ⟨rfl, rfl⟩
  · constructor
    · constructor <;> grind -linarith [clearWaiters, deliver, settlements, Entry.outcome]
    all_goals grind -linarith [clearWaiters, deliver, settlements, Entry.outcome]

theorem keeps_fail (h : a.Fine) :
  a.Keeps running (a.fail running)
  := by
  unfold fail release
  obtain ⟨_, _, _, _, _, _, _, _, _, _, _⟩ := h
  constructor
  · constructor <;> grind -linarith [clearWaiters, deliver, settlements, Entry.outcome]
  all_goals grind -linarith [clearWaiters, deliver]

theorem keeps_release (h : a.Fine) (hlingers : a.lingering) :
  a.Keeps running (a.release running)
  := by
  unfold release
  obtain ⟨_, _, _, _, _, _, _, _, _, _, _⟩ := h
  constructor
  · constructor <;> grind -linarith [clearWaiters, deliver, settlements, Entry.outcome]
  all_goals grind -linarith [clearWaiters, deliver]

theorem keeps_ended (h : a.Fine) (status : CaptureStatus) (exitCode : Option ℤ) :
  a.Keeps running (a.ended running status exitCode)
  := by
  unfold ended
  split
  · rename_i hlingers
    exact keeps_release h hlingers
  · exact keeps_finish h status exitCode

theorem Fine.event (h : a.Fine) (event : TermEvent) :
  ({ a with log := a.log ++ [.event event] } : Call).Fine
  := by
  obtain ⟨_, _, _, _, _, _, _, _, _, _, _⟩ := h
  constructor <;> grind -linarith [settlements, Entry.outcome]

theorem Fine.capture (h : a.Fine) (event : TermEvent) :
  (a.capture event).Fine
  := by
  unfold Call.capture
  obtain ⟨_, _, _, _, _, _, _, _, _, _, _⟩ := h
  split
  · split <;> constructor <;> assumption
  · constructor <;> assumption

theorem Fine.started (h : a.Fine) (event : TermEvent) :
  (a.started event).Fine
  := by
  unfold Call.started
  obtain ⟨_, _, _, _, _, _, _, _, _, _, _⟩ := h
  constructor <;> grind -linarith [settlements, Entry.outcome]

theorem keeps_onEvent (h : a.Fine) (event : TermEvent) :
  a.Keeps running (a.onEvent running event)
  := by
  unfold onEvent
  split
  · exact keeps_refl h
  generalize hcapture : ({ a with log := a.log ++ [Entry.event event] }.capture event) = b
  have hb : a.Keeps running (running, b) := by
    subst hcapture
    refine ⟨(h.event event).capture event, ?_, ?_, .inl ⟨rfl, ?_⟩⟩ <;>
      (unfold Call.capture; grind -linarith)
  have hc : a.Keeps running (running, b.started event) := by
    apply hb.trans
    refine ⟨hb.fine.started event, ?_, ?_, .inl ⟨rfl, ?_⟩⟩ <;> (unfold Call.started; grind -linarith)
  dsimp only
  split
  · exact hb.trans (keeps_ended hb.fine _ _)
  split
  · exact hc.trans (keeps_ended hc.fine _ _)
  · exact hc

theorem keeps_onListening (h : a.Fine) :
  a.Keeps running (a.onListening running)
  := by
  unfold onListening fail release
  obtain ⟨_, _, _, _, _, _, _, _, _, _, _⟩ := h
  constructor
  · constructor <;> grind -linarith [clearWaiters, deliver, settlements, Entry.outcome]
  all_goals grind -linarith [clearWaiters, deliver]

theorem keeps_onListenError (h : a.Fine) :
  a.Keeps running (a.onListenError running)
  := by
  unfold onListenError fail release
  obtain ⟨_, _, _, _, _, _, _, _, _, _, _⟩ := h
  constructor
  · constructor <;> grind -linarith [clearWaiters, deliver, settlements, Entry.outcome]
  all_goals grind -linarith [clearWaiters, deliver]

theorem keeps_onWritten (h : a.Fine) :
  a.Keeps running (running, a.onWritten)
  := by
  unfold onWritten
  obtain ⟨_, _, _, _, _, _, _, _, _, _, _⟩ := h
  constructor
  · constructor <;> grind -linarith [settlements]
  all_goals grind -linarith

theorem keeps_onWriteError (h : a.Fine) :
  a.Keeps running (a.onWriteError running)
  := by
  unfold onWriteError fail release
  obtain ⟨_, _, _, _, _, _, _, _, _, _, _⟩ := h
  constructor
  · constructor <;> grind -linarith [clearWaiters, deliver, settlements, Entry.outcome]
  all_goals grind -linarith [clearWaiters, deliver]

theorem keeps_onAbort (h : a.Fine) :
  a.Keeps running (a.onAbort running)
  := by
  have haborted : ({ a with aborted := true } : Call).Fine := by
    obtain ⟨_, _, _, _, _, _, _, _, _, _, _⟩ := h
    constructor <;> assumption
  obtain ⟨hfine, hchan, hcommand, hheld⟩ := @keeps_fail _ running haborted
  exact ⟨hfine, hchan, hcommand, hheld⟩

theorem keeps_onStartTimer (h : a.Fine) :
  a.Keeps running (a.onStartTimer running)
  := by
  unfold onStartTimer finish release
  obtain ⟨_, _, _, _, _, _, _, _, _, _, _⟩ := h
  constructor
  · constructor <;> grind -linarith [clearWaiters, deliver, settlements, Entry.outcome]
  all_goals grind -linarith [clearWaiters, deliver]

theorem keeps_onCompletionTimer (h : a.Fine) :
  a.Keeps running (running, a.onCompletionTimer)
  := by
  unfold onCompletionTimer snapshotAndMonitor
  obtain ⟨_, _, _, _, _, _, _, _, _, _, _⟩ := h
  constructor
  · constructor <;> grind -linarith [clearWaiters, deliver, settlements, Entry.outcome, Timer.clear]
  all_goals grind -linarith [clearWaiters, deliver]

theorem keeps_attach (h : a.Fine) :
  a.Keeps running (running, if a.phase = .listening then { a with attached := true } else a)
  := by
  obtain ⟨_, _, _, _, _, _, _, _, _, _, _⟩ := h
  constructor
  · constructor <;> grind -linarith [settlements]
  all_goals grind -linarith

theorem fine_onResult (h : a.Fine) :
  (a.onResult running).2.Fine
  := by
  unfold onResult
  obtain ⟨_, _, _, _, _, _, _, _, _, _, _⟩ := h
  constructor <;> grind -linarith [settlements]

/-! ### What is recorded to be completed -/

theorem log_release :
  (a.release running).2.log = a.log
  := by
  unfold release
  grind -linarith [clearWaiters]

theorem quiet_release :
  a.Quiet (a.release running).2
  := Quiet.of_eq log_release

theorem quiet_finish {status : CaptureStatus} (hstatus : status ≠ .completed)
    (exitCode : Option ℤ) :
  a.Quiet (a.finish running status exitCode).2
  := by
  unfold finish
  split
  · exact Quiet.refl a
  · refine (@quiet_release { a with resultDelivered := true } running).trans ?_
    apply @Quiet.of_concat _ _ (.settled (.result status exitCode _)) rfl
    cases status with
    | completed => exact absurd rfl hstatus
    | closed => rfl
    | streaming => rfl
    | timeout => rfl
    | unsupported => rfl

theorem quiet_fail :
  a.Quiet (a.fail running).2
  := by
  unfold fail
  split
  · exact Quiet.refl a
  dsimp only
  split
  · exact Quiet.of_concat rfl rfl
  · exact (@quiet_release { a with resultDelivered := true } running).trans
      (Quiet.of_concat rfl rfl)

theorem quiet_snapshot (status : CaptureStatus) (hstatus : status ≠ .completed) :
  a.Quiet (a.snapshotAndMonitor status)
  := by
  unfold snapshotAndMonitor
  split
  · exact Quiet.refl a
  · apply @Quiet.of_concat _ _ (.settled (.result status none _)) rfl
    cases status with
    | completed => exact absurd rfl hstatus
    | closed => rfl
    | streaming => rfl
    | timeout => rfl
    | unsupported => rfl

theorem quiet_onListening :
  a.Quiet (a.onListening running).2
  := by
  unfold onListening
  split
  · exact Quiet.refl a
  generalize hlisten : (if a.unlistenPending then
      { { a with attached := true, unlisten := true } with attached := false, unlisten := false }
    else { a with attached := true, unlisten := true } : Call) = b
  have hb : b.log = a.log := by
    subst hlisten
    split <;> rfl
  have hquiet : a.Quiet b := Quiet.of_eq hb
  dsimp only
  rw [hlisten]
  split
  · exact Quiet.of_eq hb
  split
  · exact hquiet.trans (quiet_fail.trans (Quiet.of_eq rfl))
  · exact hquiet.trans (Quiet.of_concat rfl rfl)

theorem quiet_onListenError :
  a.Quiet (a.onListenError running).2
  := by
  unfold onListenError
  split
  · exact Quiet.refl a
  · exact quiet_fail.trans (Quiet.of_eq rfl)

theorem quiet_onWriteError :
  a.Quiet (a.onWriteError running).2
  := by
  unfold onWriteError
  split
  · exact Quiet.refl a
  · exact quiet_fail.trans (Quiet.of_eq rfl)

theorem quiet_onWritten :
  a.Quiet a.onWritten
  := by
  unfold onWritten
  split
  · exact Quiet.refl a
  · exact Quiet.of_eq rfl

theorem quiet_onAbort :
  a.Quiet (a.onAbort running).2
  := (@Quiet.of_eq a { a with aborted := true } rfl).trans quiet_fail

theorem quiet_onStartTimer :
  a.Quiet (a.onStartTimer running).2
  := by
  unfold onStartTimer
  split
  · exact Quiet.refl a
  · apply (@Quiet.of_eq a { a with startTimer := .spent } rfl).trans
    exact quiet_finish (by simp) none

theorem quiet_onCompletionTimer :
  a.Quiet a.onCompletionTimer
  := by
  unfold onCompletionTimer
  split
  · exact Quiet.refl a
  · apply (@Quiet.of_eq a { a with completionTimer := .spent } rfl).trans
    apply quiet_snapshot
    split <;> simp

/-- The listener is to be told the end of its own command: the one that starts after the command was
written. -/
def EndsOwn (a : Call) (event : TermEvent) : Prop :=
  a.attached → a.resultDelivered = false → event.closed = false → event.ends a.command →
    startedSinceWrite a.log

instance (a : Call) (event : TermEvent) : Decidable (a.EndsOwn event) :=
  inferInstanceAs (Decidable (_ → _))

theorem ownEnds_onEvent (h : OwnEnds a.command a.log) {event : TermEvent} (hown : a.EndsOwn event) :
  OwnEnds a.command (a.onEvent running event).2.log
  := by
  unfold onEvent
  split
  · exact h
  rename_i hattached
  rw [Bool.not_eq_true, Bool.not_eq_false'] at hattached
  generalize hcapture : ({ a with log := a.log ++ [Entry.event event] }.capture event) = b
  have hlog : b.log = a.log ++ [.event event] := by
    subst hcapture
    unfold Call.capture
    grind -linarith
  have hdelivered : b.resultDelivered = a.resultDelivered := by
    subst hcapture
    unfold Call.capture
    grind -linarith
  have hevent : OwnEnds a.command b.log := by
    rw [hlog]
    apply h.append
    simp [Entry.completed]
  have hquiet : ∀ {c : Call}, b.Quiet c → OwnEnds a.command c.log := by
    rintro c ⟨new, hnew, hsilent⟩
    rw [hnew]
    exact hevent.append hsilent
  have hstarted : (b.started event).log = b.log := by
    unfold Call.started
    split <;> rfl
  dsimp only
  split
  · apply hquiet
    unfold ended
    split
    · exact quiet_release
    · exact quiet_finish (by simp) none
  rename_i hopen
  split
  · rename_i hends
    unfold ended
    split
    · exact hquiet ((Quiet.of_eq hstarted).trans quiet_release)
    · unfold finish
      split
      · exact hquiet (Quiet.of_eq hstarted)
      · rename_i hnone
        have hrest : (b.started event).resultDelivered = b.resultDelivered
            ∧ (b.started event).command = a.command := by
          subst hcapture
          unfold Call.started Call.capture
          grind -linarith
        have hends' : event.ends a.command := hrest.2 ▸ hends
        unfold deliver
        dsimp only
        rw [log_release]
        dsimp only
        rw [hstarted]
        apply hevent.concat
        intro _
        refine ⟨a.log, event, hlog, hends', hown hattached ?_ ?_ hends'⟩
        · rw [← hdelivered, ← hrest.1]
          exact eq_false_of_ne_true hnone
        · exact eq_false_of_ne_true hopen
  · exact hquiet (Quiet.of_eq hstarted)

end
end Call

/-! ### All calls -/

namespace Captures

section

variable {m : Captures} {i : ℕ} {f : Call → List Text → List Text × Call}

/-- How calls and channels fit together. -/
structure Held (m : Captures) : Prop where
  fine : ∀ a ∈ m.calls, a.Fine
  one : ∀ (i j : ℕ) (a b : Call), m.calls[i]? = some a → m.calls[j]? = some b →
    a.chanId = b.chanId → a.released = false → b.released = false → i = j
  running : ∀ chanId, chanId ∈ m.runningChannels
    ↔ ∃ a ∈ m.calls, a.chanId = chanId ∧ a.released = false
  own : ∀ a ∈ m.calls, OwnEnds a.command a.log

theorem Held.set (h : m.Held) {a b : Call} {running : List Text} (ha : m.calls[i]? = some a)
    (hfine : b.Fine) (hchan : b.chanId = a.chanId) (hown : OwnEnds b.command b.log)
    (hheld : (running = m.runningChannels ∧ b.released = a.released)
      ∨ (running = m.runningChannels.filter (· ≠ a.chanId) ∧ b.released
        ∧ ∀ j c, m.calls[j]? = some c → c.chanId = a.chanId → c.released = false → j = i)) :
  (⟨running, m.calls.set i b⟩ : Captures).Held
  := by
  have hless : b.released = false → a.released = false := by
    intro hb
    obtain ⟨_, hsame⟩ | ⟨_, hreleased, _⟩ := hheld
    · exact hsame ▸ hb
    · rw [hb] at hreleased
      cases hreleased
  have hmem : ∀ c, c ∈ m.calls.set i b ↔ c = b ∨ ∃ j, j ≠ i ∧ m.calls[j]? = some c := by
    intro c
    rw [List.mem_iff_getElem?]
    constructor
    · rintro ⟨j, hj⟩
      obtain ⟨rfl, hb⟩ | ⟨hne, hc⟩ := Places.getElem?_set hj
      · exact .inl hb
      · exact .inr ⟨j, hne, hc⟩
    · rintro (rfl | ⟨j, hne, hj⟩)
      · refine ⟨i, ?_⟩
        rw [List.getElem?_set_self (List.getElem?_eq_some_iff.mp ha).1]
      · exact ⟨j, by rw [List.getElem?_set_ne hne.symm, hj]⟩
  constructor
  · intro c hc
    obtain rfl | ⟨j, _, hj⟩ := (hmem c).mp hc
    · exact hfine
    · exact h.fine c (List.mem_of_getElem? hj)
  · intro j k c d hj hk hsame hc hd
    obtain ⟨rfl, rfl⟩ | ⟨hj', hc'⟩ := Places.getElem?_set hj
    · obtain ⟨rfl, rfl⟩ | ⟨hk', hd'⟩ := Places.getElem?_set hk
      · rfl
      · exact h.one j k a d ha hd' (hchan.symm.trans hsame) (hless hc) hd
    · obtain ⟨rfl, rfl⟩ | ⟨hk', hd'⟩ := Places.getElem?_set hk
      · exact h.one j k c a hc' ha (hsame.trans hchan) hc (hless hd)
      · exact h.one j k c d hc' hd' hsame hc hd
  · intro chanId
    dsimp only
    obtain ⟨rfl, hsame⟩ | ⟨rfl, hreleased, hnone⟩ := hheld
    · rw [h.running]
      constructor
      · rintro ⟨c, hc, rfl, hopen⟩
        obtain ⟨j, hj⟩ := List.mem_iff_getElem?.mp hc
        by_cases hij : j = i
        · subst hij
          rw [ha] at hj
          obtain rfl := Option.some.inj hj
          exact ⟨b, (hmem b).mpr (.inl rfl), hchan, hsame.trans hopen⟩
        · exact ⟨c, (hmem c).mpr (.inr ⟨j, hij, hj⟩), rfl, hopen⟩
      · rintro ⟨c, hc, rfl, hopen⟩
        obtain rfl | ⟨j, _, hj⟩ := (hmem c).mp hc
        · exact ⟨a, List.mem_of_getElem? ha, hchan.symm, hless hopen⟩
        · exact ⟨c, List.mem_of_getElem? hj, rfl, hopen⟩
    · rw [List.mem_filter, decide_eq_true_iff, h.running]
      constructor
      · rintro ⟨⟨c, hc, rfl, hopen⟩, hne⟩
        obtain ⟨j, hj⟩ := List.mem_iff_getElem?.mp hc
        have hij : j ≠ i := by
          rintro rfl
          rw [ha] at hj
          exact hne (congrArg Call.chanId (Option.some.inj hj).symm)
        exact ⟨c, (hmem c).mpr (.inr ⟨j, hij, hj⟩), rfl, hopen⟩
      · rintro ⟨c, hc, rfl, hopen⟩
        obtain rfl | ⟨j, hij, hj⟩ := (hmem c).mp hc
        · rw [hreleased] at hopen
          cases hopen
        · refine ⟨⟨c, List.mem_of_getElem? hj, rfl, hopen⟩, fun hsame => ?_⟩
          exact hij (hnone j c hj hsame hopen)
  · intro c hc
    obtain rfl | ⟨j, _, hj⟩ := (hmem c).mp hc
    · exact hown
    · exact h.own c (List.mem_of_getElem? hj)

theorem Held.update (h : m.Held)
    (hf : ∀ a, m.calls[i]? = some a → a.Fine → a.Keeps m.runningChannels (f a m.runningChannels)
      ∧ OwnEnds a.command (f a m.runningChannels).2.log) :
  (m.update i f).Held
  := by
  unfold Captures.update
  split
  · exact h
  rename_i a ha
  obtain ⟨hkeeps, hown⟩ := hf a ha (h.fine a (List.mem_of_getElem? ha))
  apply h.set ha hkeeps.fine hkeeps.chanId
  · rw [hkeeps.command]
    exact hown
  · apply hkeeps.held.imp_right
    rintro ⟨hrunning, hreleased, hopen⟩
    refine ⟨hrunning, hreleased, fun j c hj hsame hc => ?_⟩
    exact h.one j i c a hj ha hsame hc hopen

theorem Held.quiet (h : m.Held)
    (hf : ∀ a : Call, a.Fine → a.Keeps m.runningChannels (f a m.runningChannels))
    (hquiet : ∀ a : Call, a.Quiet (f a m.runningChannels).2) :
  (m.update i f).Held
  := by
  apply h.update
  intro a ha hfine
  refine ⟨hf a hfine, ?_⟩
  obtain ⟨new, hnew, hsilent⟩ := hquiet a
  rw [hnew]
  exact (h.own a (List.mem_of_getElem? ha)).append hsilent

theorem Held.call (h : m.Held) (chanId : Text) (command : List ℕ) (aborted : Bool) :
  (m.call chanId command aborted).Held
  := by
  unfold Captures.call
  split
  · exact h
  rename_i hfree
  obtain ⟨hnone, _⟩ := not_or.mp hfree
  have hother : ∀ c ∈ m.calls, c.chanId = chanId → c.released = false → False := by
    intro c hc hsame hopen
    exact hnone ((h.running chanId).mpr ⟨c, hc, hsame, hopen⟩)
  constructor
  · intro c hc
    obtain hold | hnew := List.mem_append.mp hc
    · exact h.fine c hold
    · rw [List.mem_singleton.mp hnew]
      constructor <;> simp [Call.settlements]
  · intro i j c d hi hj hsame hc hd
    obtain ⟨rfl, rfl⟩ | hi' := Places.getElem?_snoc hi
    · obtain ⟨rfl, rfl⟩ | hj' := Places.getElem?_snoc hj
      · rfl
      · exact (hother d (List.mem_of_getElem? hj') hsame.symm hd).elim
    · obtain ⟨rfl, rfl⟩ | hj' := Places.getElem?_snoc hj
      · exact (hother c (List.mem_of_getElem? hi') hsame hc).elim
      · exact h.one i j c d hi' hj' hsame hc hd
  · intro c
    dsimp only
    rw [List.mem_append, List.mem_singleton, h.running]
    constructor
    · rintro (⟨a, ha, hsame, hopen⟩ | rfl)
      · exact ⟨a, List.mem_append_left _ ha, hsame, hopen⟩
      · exact ⟨_, List.mem_append_right _ (List.mem_singleton_self _), rfl, rfl⟩
    · rintro ⟨a, ha, rfl, hopen⟩
      obtain hold | hnew := List.mem_append.mp ha
      · exact .inl ⟨a, hold, rfl, hopen⟩
      · rw [List.mem_singleton.mp hnew]
        exact .inr rfl
  · intro c hc
    obtain hold | hnew := List.mem_append.mp hc
    · exact h.own c hold
    · rw [List.mem_singleton.mp hnew]
      intro pre e post heq
      simp at heq

/-- An end with the command's text comes to a call only after its command started; and no call
returns, unless it lingers, while another one holds its channel. -/
def Apart : CaptureEvent → Captures → Prop
  | .term i event, m => ∀ a ∈ m.calls[i]?, a.EndsOwn event
  | .result i, m => ∀ a ∈ m.calls[i]?, a.phase = .awaiting → a.resultDelivered →
      a.lingering = false → ∀ j < m.calls.length, ∀ b ∈ m.calls[j]?, j ≠ i →
        b.chanId = a.chanId → b.released
  | _, _ => True

instance (i : ℕ) (m : Captures) : Decidable (Apart (.result i) m) :=
  decidable_of_iff (∀ a ∈ m.calls[i]?, ¬(a.phase = .awaiting ∧ a.resultDelivered
      ∧ a.lingering = false) ∨ ∀ j < m.calls.length, ∀ b ∈ m.calls[j]?,
        j = i ∨ b.chanId ≠ a.chanId ∨ b.released) (by
    simp only [Apart]
    grind)

instance (event : CaptureEvent) (m : Captures) : Decidable (Apart event m) := by
  cases event with
  | result i => infer_instance
  | _ =>
    unfold Apart
    infer_instance

theorem Held.after (h : m.Held) {event : CaptureEvent} (hapart : Apart event m) :
  (m.after event).Held
  := by
  unfold Captures.after
  cases event with
  | call chanId command aborted => exact h.call chanId command aborted
  | attach i =>
    apply h.quiet
    · intro a hfine
      exact Call.keeps_attach hfine
    · intro a
      apply Call.Quiet.of_eq
      dsimp only
      split <;> rfl
  | listening i => exact h.quiet (fun _ => Call.keeps_onListening) fun _ => Call.quiet_onListening
  | listenError i =>
    exact h.quiet (fun _ => Call.keeps_onListenError) fun _ => Call.quiet_onListenError
  | written i =>
    apply h.quiet
    · exact fun _ => Call.keeps_onWritten
    · exact fun _ => Call.quiet_onWritten
  | writeError i =>
    exact h.quiet (fun _ => Call.keeps_onWriteError) fun _ => Call.quiet_onWriteError
  | term i event =>
    apply h.update
    intro a ha hfine
    refine ⟨Call.keeps_onEvent hfine event, ?_⟩
    exact Call.ownEnds_onEvent (h.own a (List.mem_of_getElem? ha)) (hapart a ha)
  | startTimer i =>
    exact h.quiet (fun _ => Call.keeps_onStartTimer) fun _ => Call.quiet_onStartTimer
  | completionTimer i =>
    apply h.quiet
    · exact fun _ => Call.keeps_onCompletionTimer
    · exact fun _ => Call.quiet_onCompletionTimer
  | abort i => exact h.quiet (fun _ => Call.keeps_onAbort) fun _ => Call.quiet_onAbort
  | result i =>
    unfold Captures.update
    dsimp only
    split
    · exact h
    rename_i a ha
    have hfine := h.fine a (List.mem_of_getElem? ha)
    have hlog : (a.onResult m.runningChannels).2.log = a.log
        ∧ (a.onResult m.runningChannels).2.command = a.command
        ∧ (a.onResult m.runningChannels).2.chanId = a.chanId
        ∧ (a.onResult m.runningChannels).2.released = a.released := by
      unfold Call.onResult
      grind -linarith
    apply h.set ha (Call.fine_onResult hfine) hlog.2.2.1
    · rw [hlog.1, hlog.2.1]
      exact h.own a (List.mem_of_getElem? ha)
    · rw [hlog.2.2.2]
      unfold Call.onResult
      split
      · exact .inl ⟨rfl, rfl⟩
      rename_i hdone
      obtain ⟨hphase, hdelivered⟩ := not_or.mp hdone
      rw [not_not] at hphase
      rw [Bool.not_eq_true, Bool.not_eq_false'] at hdelivered
      dsimp only
      split
      · exact .inl ⟨rfl, rfl⟩
      · rename_i hlingers
        rw [Bool.not_eq_true] at hlingers
        refine .inr ⟨rfl, hfine.holds hdelivered hlingers, ?_⟩
        intro j b hj hsame hopen
        by_contra hne
        have hlt := (List.getElem?_eq_some_iff.mp hj).1
        have hreleased := hapart a ha hphase hdelivered hlingers j hlt b hj hne hsame
        rw [hopen] at hreleased
        cases hreleased

theorem held_start :
  ({} : Captures).Held
  := by
  constructor <;> simp

end

/-! ### Every run -/

/-- One call holds a channel at a time; a call is settled once, and before it returns, and while
only the result is awaited a timer runs; a released call does not listen; and a capture is completed
by the end of its own command. -/
structure Exact (m : Captures) : Prop where
  one : ∀ (i j : ℕ) (a b : Call), m.calls[i]? = some a → m.calls[j]? = some b →
    a.chanId = b.chanId → a.released = false → b.released = false → i = j
  refused : ∀ chanId command, m.call chanId command false = m
    ↔ ∃ a ∈ m.calls, a.chanId = chanId ∧ a.released = false
  once : ∀ a ∈ m.calls, a.settlements.length ≤ 1
  settled : ∀ a ∈ m.calls, a.phase = .returned → a.settlements.length = 1
  awaited : ∀ a ∈ m.calls, a.phase = .awaiting → a.settlements = [] →
    a.startTimer = .running ∨ a.completionTimer = .running
  unlistened : ∀ a ∈ m.calls, a.released → a.phase ≠ .listening → a.attached = false
  own : ∀ a ∈ m.calls, OwnEnds a.command a.log

theorem Held.exact {m : Captures} (h : m.Held) :
  m.Exact
  := by
  constructor
  · exact h.one
  · intro chanId command
    rw [← h.running]
    unfold Captures.call
    split
    · rename_i hrunning
      exact iff_of_true rfl (hrunning.resolve_right Bool.false_ne_true)
    · rename_i hfree
      refine iff_of_false (fun hsame => ?_) fun hrunning => hfree (.inl hrunning)
      have hlength := congrArg (fun m => m.calls.length) hsame
      simp at hlength
  · intro a ha
    rw [(h.fine a ha).settled]
    split <;> omega
  · intro a ha hreturned
    rw [(h.fine a ha).settled, if_pos ((h.fine a ha).returned hreturned)]
  · intro a ha hphase hnone
    apply (h.fine a ha).waits (.inr hphase)
    have hsettled := (h.fine a ha).settled
    rw [hnone] at hsettled
    by_contra hdelivered
    rw [if_pos (eq_true_of_ne_false hdelivered)] at hsettled
    cases hsettled
  · intro a ha hreleased hphase
    by_contra hattached
    have hopen := (h.fine a ha).removed ((h.fine a ha).detaches hphase
      (eq_true_of_ne_false hattached))
    rw [hreleased] at hopen
    cases hopen
  · exact h.own

/-- Captures are as they are to be in every run that keeps them apart. -/
theorem captures_exact (events : List CaptureEvent)
    (h : Steps.Throughout Captures.after Apart events {}) :
  (events.foldl Captures.after {}).Exact
  := (Steps.invariant held_start (fun _ _ hheld hevent => hheld.after hevent) h).exact

/-- The run of a capture that is completed. -/
theorem captures_exact_completed :
  Captures.Exact ([.call ['c'] [108, 115] false, .attach 0, .listening 0, .written 0,
    .term 0 { execStart := true }, .term 0 { bytes := some [120] },
    .term 0 { execEnd := true, command := some [108, 115], exitCode := some 0 },
    .result 0].foldl Captures.after {})
  := captures_exact _ (by decide)

/-- A call that is aborted before it listens gives away the next one's channel; and an end with its
text before its start completes the capture. -/
theorem captures_mixed :
  ¬ ([.call ['c'] [108, 115] false, .abort 0, .call ['c'] [105, 100] false, .listening 0, .result 0,
      .call ['c'] [112, 119, 100] false].foldl Captures.after {}).Exact
    ∧ ¬ ([.call ['c'] [108, 115] false, .attach 0, .listening 0,
      .term 0 { execEnd := true, command := some [108, 115], exitCode := some 0 }].foldl
        Captures.after {}).Exact
  := by
  constructor
  · intro h
    have hone := h.one 1 2 _ _ rfl rfl rfl rfl rfl
    cases hone
  · intro h
    obtain ⟨before, event, heq, _, hstarted⟩ := h.own _ List.mem_cons_self
      [.wrote, .event { execEnd := true, command := some [108, 115], exitCode := some 0 }]
      (.settled (.result .completed (some 0) [])) [] rfl rfl
    have hbefore : before = [.wrote] :=
      (List.append_inj' (show before ++ [Entry.event event] = [.wrote] ++ [_] from heq.symm) rfl).1
    subst hbefore
    cases hstarted

end Captures
end Workbench
