import Mathlib.Data.Rat.Defs
import Mathlib.Logic.Function.Basic
import Catio.Lib.Text
import Catio.Lib.Runs

/-!
# Tracked transfers

The model of `track`, `startUpload`, `startDownload` and `cancelTransfer` of `state/transfers.ts`.
The listeners of a transfer are registered one after the other: each is called from some time on,
and later its registration resolves.  An event without a listener is lost, and one not resolved at
the end stays.  Where each transfer ends behind its registrations, none gets stuck
(`settled_of_runs`).
-/

namespace Workbench.Transfers

open Text

/-- The events of a transfer, in the order in which their listeners are registered. -/
inductive Channel where
  | progress
  | complete
  | cancelled
  | error
  deriving DecidableEq

/-- The listeners that `track` registers. -/
def channels : List Channel :=
  [.progress, .complete, .cancelled, .error]

/-- The state of a row. -/
inductive Status where
  | active
  | error
  deriving DecidableEq

/-- Whether a file is sent or fetched. -/
inductive Kind where
  | up
  | down

/-- A row of the list of transfers. -/
structure Transfer where
  id : Text
  filename : Text
  percent : ℚ
  speed : ℚ
  status : Status
  kind : Kind
  dir : Text

/-- How much was transferred at a time, in milliseconds. -/
structure Sample where
  bytes : ℕ
  time : ℕ

/-- What `track` has done: how many of the listeners it has asked for are called, those that can be
removed, and those that are called. -/
structure Tracking where
  listening : ℕ := 0
  offs : List Channel := []
  listeners : List Channel := []

/-- The state of the module, with the calls of `track` and the rows that a timer will remove. -/
structure State where
  transfers : List Transfer := []
  sample : Text → Option Sample := fun _ => none
  cleanups : Text → Bool := fun _ => false
  tracked : Text → Option Tracking := fun _ => none
  timers : List Text := []

/-- What happens.  The rate of a transfer is measured by the clock. -/
inductive Event where
  | started (id filename : Text) (kind : Kind) (dir : Text)
  | listening (id : Text)
  | resolved (id : Text)
  | emitted (id : Text) (channel : Channel) (bytes : ℕ) (percent : ℚ) (now : ℕ)
  | cancel (id : Text)
  | expired (id : Text)

namespace State

/-- Show a row, and make ready to register listeners. -/
def track (s : State) (id filename : Text) (kind : Kind) (dir : Text) : State :=
  { s with
    transfers := s.transfers ++ [⟨id, filename, 0, 0, .active, kind, dir⟩]
    cleanups := Function.update s.cleanups id true
    tracked := Function.update s.tracked id (some {}) }

/-- Remove the listeners that can be removed. -/
def cleanup (s : State) (id : Text) : State :=
  { s with
    tracked := Function.update s.tracked id ((s.tracked id).map fun t =>
      { t with listeners := t.listeners.filter (· ∉ t.offs) })
    sample := Function.update s.sample id none
    cleanups := Function.update s.cleanups id false }

/-- Drop the row of a transfer. -/
def drop (s : State) (id : Text) : State :=
  { s with transfers := s.transfers.filter (·.id ≠ id) }

/-- Show how far a transfer is, and how fast. -/
def show' (s : State) (id : Text) (percent : ℚ) (speed : ℚ → ℚ) (sample : Sample) : State :=
  { s with
    transfers := s.transfers.map fun x =>
      if x.id = id then { x with percent := percent, speed := speed x.speed } else x
    sample := Function.update s.sample id (some sample) }

/-- The rate is measured again after a second. -/
def progress (s : State) (id : Text) (bytes : ℕ) (percent : ℚ) (now : ℕ) : State :=
  match s.sample id with
  | none => s.show' id percent (fun speed => speed) ⟨bytes, now⟩
  | some prev =>
      if 1000 ≤ now - prev.time then
        let speed : ℚ := (bytes - prev.bytes) / ((now - prev.time) / 1000)
        s.show' id percent (fun _ => speed) ⟨bytes, now⟩
      else s.show' id percent (fun speed => speed) prev

/-- What a listener does. -/
def handle (s : State) (id : Text) (channel : Channel) (bytes : ℕ) (percent : ℚ) (now : ℕ) :
    State :=
  match channel with
  | .progress => s.progress id bytes percent now
  | .complete | .cancelled => (s.cleanup id).drop id
  | .error =>
      let s := s.cleanup id
      { s with
        transfers := s.transfers.map fun x =>
          if x.id = id then { x with status := .error } else x
        timers := id :: s.timers }

/-- Stop listening, and drop the row. -/
def cancelTransfer (s : State) (id : Text) : State :=
  (if s.cleanups id then s.cleanup id else s).drop id

end State

/-- A step.  The id of a transfer is a new one. -/
inductive Step (s : State) : Event → State → Prop where
  | started {id : Text} (hnew : s.tracked id = none) (filename : Text) (kind : Kind) (dir : Text) :
      Step s (.started id filename kind dir) (s.track id filename kind dir)
  | listening {id : Text} {t : Tracking} {c : Channel} (ht : s.tracked id = some t)
      (hresolved : t.listening = t.offs.length) (hc : channels[t.listening]? = some c) :
      Step s (.listening id) { s with
        tracked := Function.update s.tracked id (some { t with
          listening := t.listening + 1, listeners := c :: t.listeners }) }
  | resolved {id : Text} {t : Tracking} {c : Channel} (ht : s.tracked id = some t)
      (hlistening : t.offs.length < t.listening) (hc : channels[t.offs.length]? = some c) :
      Step s (.resolved id) { s with
        tracked := Function.update s.tracked id (some { t with offs := t.offs ++ [c] }) }
  | heard {id : Text} {t : Tracking} {c : Channel} (ht : s.tracked id = some t)
      (hc : c ∈ t.listeners) (bytes : ℕ) (percent : ℚ) (now : ℕ) :
      Step s (.emitted id c bytes percent now) (s.handle id c bytes percent now)
  | lost {id : Text} {c : Channel} (hc : ∀ t, s.tracked id = some t → c ∉ t.listeners)
      (bytes : ℕ) (percent : ℚ) (now : ℕ) :
      Step s (.emitted id c bytes percent now) s
  | cancel (id : Text) : Step s (.cancel id) (s.cancelTransfer id)
  | expired {id : Text} (htimer : id ∈ s.timers) :
      Step s (.expired id) { s.drop id with timers := s.timers.erase id }

/-- The transfer has ended for the backend or for the user. -/
def Event.Ends (id : Text) : Event → Prop
  | .emitted id' c _ _ _ => id' = id ∧ c ≠ .progress
  | .cancel id' => id' = id
  | _ => False

/-- All registrations of a transfer have resolved. -/
def State.Registered (s : State) (id : Text) : Prop :=
  ∃ t, s.tracked id = some t ∧ t.offs.length = channels.length

/-- The row of a transfer is active. -/
def State.Active (s : State) (id : Text) : Prop :=
  ∃ x ∈ s.transfers, x.id = id ∧ x.status = .active

/-- A transfer that has ended is not stuck when its registrations have resolved. -/
def Settled (es : List Event) (s : State) : Prop :=
  ∀ id, (∃ e ∈ es, e.Ends id) → s.Registered id →
    ¬ s.Active id ∧ ∀ t, s.tracked id = some t → t.listeners = []

/-- The step ends a transfer only behind its registrations. -/
def Timely (s : State) (e : Event) : Prop :=
  ∀ id, e.Ends id → s.Registered id

/-! ### What a step does to a transfer -/

/-- A transfer that goes on: what can be removed is called, and what is asked for is. -/
structure Tracking.Open (t : Tracking) : Prop where
  offs : t.offs = channels.take t.offs.length
  le : t.offs.length ≤ t.listening
  listeners : ∀ c ∈ channels.take t.listening, c ∈ t.listeners

/-- What holds of a transfer: as long as it goes on, it can be cleaned up; once it has ended,
nothing is left of it. -/
structure Fine (ended : Prop) (s : State) (id : Text) : Prop where
  goes_on : ¬ ended → ∀ t, s.tracked id = some t → s.cleanups id = true ∧ t.Open
  settled : ended →
    s.Registered id ∧ ¬ s.Active id ∧ ∀ t, s.tracked id = some t → t.listeners = []

/-- What is known of a transfer is left as it was, and no row of it becomes active. -/
structure Leaves (id : Text) (s s' : State) : Prop where
  tracked : s'.tracked id = s.tracked id
  cleanups : s'.cleanups id = s.cleanups id
  active : s'.Active id → s.Active id

section

variable {s s' : State} {id id' : Text} {ended : Prop}

theorem Fine.leaves (h : Fine ended s id) (hs : Leaves id s s') :
  Fine ended s' id
  := by
  obtain ⟨htracked, hcleanups, hactive⟩ := hs
  constructor
  · rw [htracked, hcleanups]
    exact h.goes_on
  · intro hended
    obtain ⟨hregistered, hnone, hlisteners⟩ := h.settled hended
    rw [State.Registered, htracked]
    exact ⟨hregistered, hnone ∘ hactive, hlisteners⟩

theorem leaves_drop (s : State) (id id' : Text) :
  Leaves id s (s.drop id')
  := by
  refine ⟨rfl, rfl, ?_⟩
  rintro ⟨x, hx, hactive⟩
  exact ⟨x, List.mem_of_mem_filter hx, hactive⟩

theorem leaves_cleanup (s : State) (hne : id ≠ id') :
  Leaves id s (s.cleanup id')
  := ⟨Function.update_of_ne hne _ _, Function.update_of_ne hne _ _, fun h => h⟩

theorem leaves_show (s : State) (id id' : Text) (percent : ℚ) (speed : ℚ → ℚ) (sample : Sample) :
  Leaves id s (s.show' id' percent speed sample)
  := by
  refine ⟨rfl, rfl, ?_⟩
  rintro ⟨y, hy, hid, hactive⟩
  obtain ⟨x, hx, rfl⟩ := List.mem_map.mp hy
  split at hid
  · rename_i heq
    rw [if_pos heq] at hactive
    exact ⟨x, hx, hid, hactive⟩
  · rename_i hne
    rw [if_neg hne] at hactive
    exact ⟨x, hx, hid, hactive⟩

theorem leaves_progress (s : State) (id id' : Text) (bytes : ℕ) (percent : ℚ) (now : ℕ) :
  Leaves id s (s.progress id' bytes percent now)
  := by
  unfold State.progress
  split
  · apply leaves_show
  · split
    · apply leaves_show
    · apply leaves_show

theorem not_active_drop (s : State) (id : Text) :
  ¬ (s.drop id).Active id
  := by
  rintro ⟨x, hx, hid, -⟩
  simpa [hid] using List.of_mem_filter hx

theorem cleaned (h : Fine ended s id) (hregistered : s.Registered id) :
  (s.cleanup id).Registered id
    ∧ ∀ t, (s.cleanup id).tracked id = some t → t.listeners = []
  := by
  obtain ⟨t, ht, hlength⟩ := hregistered
  have hcleaned : (s.cleanup id).tracked id
      = some { t with listeners := t.listeners.filter (· ∉ t.offs) } := by
    simp [State.cleanup, ht]
  refine ⟨⟨_, hcleaned, hlength⟩, ?_⟩
  rw [hcleaned]
  rintro _ ⟨⟩
  by_cases hended : ended
  · simp [(h.settled hended).2.2 t ht]
  · have hoffs : t.offs = channels := by
      rw [((h.goes_on hended t ht).2).offs, hlength]
      rfl
    rw [List.filter_eq_nil_iff]
    intro c _
    cases c <;> simp [hoffs, channels]

theorem handle_settled (h : Fine ended s id) (hregistered : s.Registered id) {c : Channel}
    (hc : c ≠ .progress) (bytes : ℕ) (percent : ℚ) (now : ℕ) :
  Fine True (s.handle id c bytes percent now) id
  := by
  obtain ⟨hkept, hlisteners⟩ := cleaned h hregistered
  refine ⟨fun hnot => absurd trivial hnot, fun _ => ?_⟩
  cases c with
  | progress => exact absurd rfl hc
  | complete | cancelled => exact ⟨hkept, not_active_drop _ id, hlisteners⟩
  | error =>
    refine ⟨hkept, ?_, hlisteners⟩
    rintro ⟨y, hy, hid, hactive⟩
    obtain ⟨x, -, rfl⟩ := List.mem_map.mp hy
    split at hid
    · rename_i heq
      simp [heq] at hactive
    · rename_i hne
      exact hne hid

theorem handle_other (hne : id ≠ id') (c : Channel) (bytes : ℕ) (percent : ℚ) (now : ℕ) :
  Leaves id s (s.handle id' c bytes percent now)
  := by
  have hcleanup := leaves_cleanup s hne
  cases c with
  | progress => apply leaves_progress
  | complete | cancelled =>
    exact ⟨hcleanup.tracked, hcleanup.cleanups, (leaves_drop _ id id').active⟩
  | error =>
    refine ⟨hcleanup.tracked, hcleanup.cleanups, ?_⟩
    rintro ⟨y, hy, hid, hactive⟩
    obtain ⟨x, hx, rfl⟩ := List.mem_map.mp hy
    split at hactive
    · cases hactive
    · rename_i hx'
      rw [if_neg hx'] at hid
      exact ⟨x, hx, hid, hactive⟩

/-- A step keeps what holds of a transfer, if it ends none too early. -/
theorem Fine.step (hid : Fine ended s id) {e : Event} (hstep : Step s e s') (htimely : Timely s e) :
  Fine (ended ∨ e.Ends id) s' id
  := by
  have quiet : ∀ {s'}, ¬ e.Ends id → Leaves id s s' → Fine (ended ∨ e.Ends id) s' id := by
    intro s' hends hs'
    rw [or_iff_left hends]
    exact hid.leaves hs'
  -- a registration that has not resolved belongs to a transfer that goes on
  have goes_on : ∀ {t c}, s.tracked id = some t → channels[t.offs.length]? = some c → ¬ ended := by
    intro t c ht hc hended
    obtain ⟨t', ht', hlength⟩ := (hid.settled hended).1
    rw [ht] at ht'
    cases ht'
    simp [hlength] at hc
  have registering : ∀ {id' t t'}, ¬ e.Ends id → s.tracked id' = some t →
      (id = id' → ¬ ended ∧ (t.Open → t'.Open)) →
      Fine (ended ∨ e.Ends id) { s with tracked := Function.update s.tracked id' (some t') } id := by
    intro id' t t' hends ht hopen
    by_cases hne : id = id'
    · subst hne
      obtain ⟨hgoes, hopen⟩ := hopen rfl
      obtain ⟨hcleanups, hold⟩ := hid.goes_on hgoes t ht
      refine ⟨fun _ t'' ht'' => ?_, fun h => absurd (h.resolve_right hends) hgoes⟩
      cases (Function.update_self ..).symm.trans ht''
      exact ⟨hcleanups, hopen hold⟩
    · exact quiet hends ⟨Function.update_of_ne hne _ _, rfl, fun h => h⟩
  cases hstep with
  | @started id' hnew filename kind dir =>
    by_cases hne : id = id'
    · subst hne
      have hgoes : ¬ ended := by
        intro hended
        obtain ⟨t, ht, -⟩ := (hid.settled hended).1
        rw [hnew] at ht
        cases ht
      refine ⟨fun _ t ht => ?_, fun h => absurd (h.resolve_right fun h => h) hgoes⟩
      cases (Function.update_self ..).symm.trans ht
      exact ⟨Function.update_self .., rfl, le_rfl, by simp⟩
    · refine quiet (fun h => h) ⟨Function.update_of_ne hne _ _, Function.update_of_ne hne _ _, ?_⟩
      rintro ⟨x, hx, hxid, hactive⟩
      rcases List.mem_append.mp hx with hx | hx
      · exact ⟨x, hx, hxid, hactive⟩
      · rw [List.mem_singleton] at hx
        subst hx
        exact absurd hxid.symm hne
  | @listening id' t c ht hresolved hc =>
    apply registering (fun h => h) ht
    rintro rfl
    refine ⟨goes_on ht (hresolved ▸ hc), fun hold => ⟨hold.offs, Nat.le_succ_of_le hold.le, ?_⟩⟩
    intro d hd
    rw [List.take_add_one, hc] at hd
    rcases List.mem_append.mp hd with hd | hd
    · exact List.mem_cons_of_mem _ (hold.listeners d hd)
    · simpa using .inl (Option.mem_some_iff.mp (Option.mem_toList.mp hd)).symm
  | @resolved id' t c ht hlistening hc =>
    apply registering (fun h => h) ht
    rintro rfl
    refine ⟨goes_on ht hc, fun hold => ⟨?_, ?_, hold.listeners⟩⟩
    · rw [List.length_append, List.length_singleton, List.take_add_one, ← hold.offs, hc]
      rfl
    · rw [List.length_append]
      exact hlistening
  | @heard id' t c ht hc bytes percent now =>
    by_cases hne : id = id'
    · subst hne
      by_cases hprogress : c = .progress
      · subst hprogress
        exact quiet (fun h => h.2 rfl) (leaves_progress ..)
      · have hends : Event.Ends id (.emitted id c bytes percent now) := ⟨rfl, hprogress⟩
        rw [eq_true hends, or_true]
        exact handle_settled hid (htimely id hends) hprogress bytes percent now
    · exact quiet (fun h => hne h.1.symm) (handle_other hne c bytes percent now)
  | @lost id' c hc bytes percent now =>
    by_cases hends : Event.Ends id (.emitted id' c bytes percent now)
    · -- its listeners are called as long as it goes on
      have hsame : id' = id := hends.1
      subst hsame
      obtain ⟨t, ht, hlength⟩ := htimely id' hends
      have hended : ended := by
        by_contra hgoes
        obtain ⟨-, hold⟩ := hid.goes_on hgoes t ht
        apply hc t ht
        apply hold.listeners
        rw [List.take_of_length_le (hlength ▸ hold.le)]
        cases c <;> simp [channels]
      simp only [hended, true_or]
      exact ⟨fun h => absurd trivial h, fun _ => hid.settled hended⟩
    · exact quiet hends ⟨rfl, rfl, fun h => h⟩
  | cancel id' =>
    by_cases hne : id = id'
    · subst hne
      have hregistered := htimely id rfl
      refine ⟨fun h => absurd (.inr rfl) h, fun _ => ?_⟩
      unfold State.cancelTransfer
      split
      · obtain ⟨hkept, hlisteners⟩ := cleaned hid hregistered
        exact ⟨hkept, not_active_drop _ id, hlisteners⟩
      · rename_i hcleanups
        obtain ⟨t, ht, -⟩ := hregistered
        have hended : ended := by
          by_contra hgoes
          exact hcleanups (hid.goes_on hgoes t ht).1
        exact ⟨htimely id rfl, not_active_drop _ id, (hid.settled hended).2.2⟩
    · refine quiet (fun h => hne h.symm) ?_
      unfold State.cancelTransfer
      split
      · have hcleanup := leaves_cleanup s hne
        exact ⟨hcleanup.tracked, hcleanup.cleanups, (leaves_drop _ id id').active⟩
      · apply leaves_drop
  | expired htimer =>
    obtain ⟨htracked, hcleanups, hactive⟩ := leaves_drop s id _
    exact quiet (fun h => h) ⟨htracked, hcleanups, hactive⟩

end

/-- Where each transfer ends behind its registrations, for the backend and for the user, no
transfer that has ended is stuck. -/
theorem settled_of_runs {es : List Event} {s : State}
    (h : Runs (fun s e s' => Step s e s' ∧ Timely s e) {} es s) :
  Settled es s
  := by
  have hfine : ∀ id, Fine (∃ e ∈ es, e.Ends id) s id := by
    intro id
    apply Runs.history (P := fun es s => Fine (∃ e ∈ es, e.Ends id) s id) _ _ h
    · refine ⟨fun _ t ht => ?_, fun h => ?_⟩
      · cases ht
      · obtain ⟨e, he, -⟩ := h
        cases he
    · intro es s e s' hold hstep
      have hends : (∃ e' ∈ es ++ [e], e'.Ends id) ↔ (∃ e' ∈ es, e'.Ends id) ∨ e.Ends id := by
        simp [or_and_right, exists_or]
      rw [hends]
      exact hold.step hstep.1 hstep.2
  intro id hended _
  exact ((hfine id).settled hended).2

theorem registers {step : State → Event → State → Prop} {start s : State} {es : List Event}
    {id : Text} (hstep : ∀ s e s', Step s e s' → (∀ id, ¬ e.Ends id) → step s e s')
    (h : Runs step start es s) (ht : s.tracked id = some {}) :
  ∃ es' s', Runs step start (es ++ es') s' ∧ s'.Registered id ∧ s'.transfers = s.transfers
  := by
  have one : ∀ {s : State} {es : List Event} {t : Tracking} {c : Channel},
      Runs step start es s → s.tracked id = some t → t.listening = t.offs.length →
      channels[t.offs.length]? = some c →
      ∃ s', Runs step start (es ++ [.listening id] ++ [.resolved id]) s'
        ∧ s'.tracked id = some ⟨t.listening + 1, t.offs ++ [c], c :: t.listeners⟩
        ∧ s'.transfers = s.transfers := by
    intro s es t c h ht heq hc
    have first := h.snoc (hstep _ _ _ (.listening ht heq (heq ▸ hc)) fun _ h => h)
    have second := first.snoc (hstep _ _ _
      (.resolved (Function.update_self ..) (heq ▸ Nat.lt_succ_self _) hc) fun _ h => h)
    exact ⟨_, second, Function.update_self .., rfl⟩
  obtain ⟨s₁, h₁, ht₁, hs₁⟩ := one h ht rfl rfl
  obtain ⟨s₂, h₂, ht₂, hs₂⟩ := one h₁ ht₁ rfl rfl
  obtain ⟨s₃, h₃, ht₃, hs₃⟩ := one h₂ ht₂ rfl rfl
  obtain ⟨s₄, h₄, ht₄, hs₄⟩ := one h₃ ht₃ rfl rfl
  simp only [List.append_assoc] at h₄
  exact ⟨_, s₄, h₄, ⟨_, ht₄, rfl⟩, by rw [hs₄, hs₃, hs₂, hs₁]⟩

/-- The upload of an empty file is complete before it is tracked, and its row stays. -/
theorem settled_emptyFile :
  ∃ es s, Runs Step {} es s ∧ ¬ Settled es s
  := by
  have complete : Runs Step {} [.emitted "1" .complete 0 0 0] {} :=
    Runs.start.snoc (.lost (fun t ht => by cases ht) ..)
  have started := complete.snoc (@Step.started _ "1" rfl "a" .up "/")
  obtain ⟨es, s, h, hregistered, hrows⟩ :=
    registers (fun _ _ _ h _ => h) started (Function.update_self ..)
  refine ⟨_, s, h, fun hsettled => ?_⟩
  apply (hsettled "1" ⟨.emitted "1" .complete 0 0 0, by simp, rfl, by decide⟩
    hregistered).1
  rw [State.Active, hrows]
  exact ⟨_, List.mem_singleton_self _, rfl, rfl⟩

/-- An upload that is cancelled behind its registrations is over. -/
theorem settled_cancelled :
  ∃ es s, .cancel "1" ∈ es ∧ Settled es s
  := by
  have started : Runs (fun s e s' => Step s e s' ∧ Timely s e) {} _ _ :=
    Runs.start.snoc ⟨@Step.started _ "1" rfl "a" .up "/", fun _ h => h.elim⟩
  obtain ⟨es, s, h, hregistered, -⟩ := registers (fun _ _ _ h hends => ⟨h, fun id hid =>
    absurd hid (hends id)⟩) started (Function.update_self ..)
  have hcancel := h.snoc ⟨.cancel "1", fun id hid => hid ▸ hregistered⟩
  exact ⟨_, _, by simp, settled_of_runs hcancel⟩

end Workbench.Transfers
