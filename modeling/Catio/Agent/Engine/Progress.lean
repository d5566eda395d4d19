import Catio.Agent.Engine.Steps
import Catio.Lib.Runs

/-!
# The protocol of a turn

In which order a turn sends its events and dispatches its tool uses.  `TurnProtocol` says it of
a whole history, and `Progress` as a transition system that looks at one step after the other.
The history of a run of that system to its end follows the protocol (`Progress.protocol`).
-/

namespace Agent

open Text Program

/-! ### Events -/

def sent (e : TurnStep) : Option AgentEventEnvelope :=
  match e.1 with
  | .emit envelope => some envelope
  | _ => none

/-- The envelopes that have been sent. -/
def envelopes (h : List TurnStep) : List AgentEventEnvelope :=
  h.filterMap sent

/-- The events that have been sent. -/
def events (h : List TurnStep) : List AgentEvent :=
  (envelopes h).map AgentEventEnvelope.event

theorem emitted_eq (e : TurnStep) :
  emitted e = (sent e).map AgentEventEnvelope.event
  := by
  obtain ⟨c, answer⟩ := e
  cases c with
  | _ => rfl

theorem envelopes_snoc (h : List TurnStep) (e : TurnStep) :
  envelopes (h ++ [e]) = envelopes h ++ (sent e).toList
  := by
  unfold envelopes
  rw [List.filterMap_append]
  congr 1

theorem events_snoc (h : List TurnStep) (e : TurnStep) :
  events (h ++ [e]) = events h ++ (emitted e).toList
  := by
  unfold events
  rw [envelopes_snoc, List.map_append, emitted_eq]
  cases sent e with
  | none => rfl
  | some envelope => rfl

namespace AgentEvent

/-- The event begins or ends a tool use, or it ends the turn. -/
def frames : AgentEvent → Bool
  | .toolProposed _ _ _ _ => true
  | .toolFinished _ _ => true
  | event => event.terminal

def round : AgentEvent → Option ℕ
  | .assistantMessageStarted _ round => some round
  | _ => none

/-- The tool use that an event belongs to, between its proposal and its end. -/
def within : AgentEvent → Option Text
  | .approvalRequested toolUseId _ => some toolUseId
  | .toolExecutionRequested toolUseId _ _ => some toolUseId
  | .toolStarted toolUseId => some toolUseId
  | _ => none

/-- The event tells about the message of the assistant. -/
def aside : AgentEvent → Bool
  | .textDelta _ _ => true
  | .thinkingDelta _ _ => true
  | .assistantMessageFinished _ => true
  | .usageUpdated _ _ => true
  | .compatibilityFallbackActivated _ _ => true
  | _ => false

variable {event : AgentEvent}

theorem quiet_of_within {toolUseId : Text} (h : event.within = some toolUseId) :
  event.frames = false ∧ event.round = none
  := by
  cases event with
  | approvalRequested => exact ⟨rfl, rfl⟩
  | toolExecutionRequested => exact ⟨rfl, rfl⟩
  | toolStarted => exact ⟨rfl, rfl⟩
  | _ => cases h

theorem quiet_of_aside (h : event.aside) :
  event.frames = false ∧ event.round = none
  := by
  cases event with
  | textDelta => exact ⟨rfl, rfl⟩
  | thinkingDelta => exact ⟨rfl, rfl⟩
  | assistantMessageFinished => exact ⟨rfl, rfl⟩
  | usageUpdated => exact ⟨rfl, rfl⟩
  | compatibilityFallbackActivated => exact ⟨rfl, rfl⟩
  | _ => cases h

theorem frames_of_terminal (h : event.terminal) :
  event.frames ∧ event.round = none
  := by
  cases event with
  | turnFinished => exact ⟨rfl, rfl⟩
  | turnCancelled => exact ⟨rfl, rfl⟩
  | turnFailed => exact ⟨rfl, rfl⟩
  | _ => cases h

theorem not_terminal_of_frames (h : event.frames = false) :
  event.terminal = false
  := by
  rw [← Bool.not_eq_true]
  intro hterminal
  rw [(frames_of_terminal hterminal).1] at h
  cases h

end AgentEvent

/-! ### The protocol -/

/-- Proposals, each with the end of the same tool use right behind it. -/
inductive Pairs : List AgentEvent → Prop where
  | nil : Pairs []
  | snoc {events : List AgentEvent} (before : Pairs events) (toolUseId name : Text)
      (input : Json.Value) (risk : List Text) (result : ToolResult) :
      Pairs (events ++ [.toolProposed toolUseId name input risk]
        ++ [.toolFinished toolUseId result])

/-- The step ends a tool use that has been denied. -/
def Denies (e : TurnStep) : Prop :=
  ∃ toolUseId result, emitted e = some (.toolFinished toolUseId result)
    ∧ result.status = .denied

/-- What holds of a whole turn with at most `cap` rounds of tools. -/
structure TurnProtocol (cap : ℕ) (h : List TurnStep) : Prop where
  started : ∃ rest, events h = .turnStarted :: rest
  numbered : (envelopes h).map AgentEventEnvelope.sequence
    = List.range' 1 (envelopes h).length
  ended : ∃ front last, events h = front ++ [last] ∧ last.terminal
    ∧ ∀ event ∈ front, event.terminal = false
  paired : ∃ tools last, (events h).filter AgentEvent.frames = tools ++ [last] ∧ Pairs tools
    ∧ last.terminal
  rounds : ∃ n ≤ cap + 1, (events h).filterMap AgentEvent.round = List.range n
  closed : ∀ pre e post messageId round, h = pre ++ e :: post →
    emitted e = some (.assistantMessageStarted messageId round) →
      cap ≤ round ∨ (∃ d ∈ pre, Denies d) → ∀ d ∈ post, dispatched d = none

/-! ### Progress -/

inductive Stage where
  | fresh
  | idle
  | proposed (toolUseId : Text)
  | ended
  deriving DecidableEq

/-- How far a turn is: the number of its rounds, whether a tool use has been denied, and whether
it is closed for tools. -/
structure Progress where
  stage : Stage
  rounds : ℕ
  denied : Bool
  closed : Bool
  deriving DecidableEq

namespace Progress

def start : Progress :=
  ⟨.fresh, 0, false, false⟩

/-- A round is started; it is closed for tools if it is beyond the cap or behind a denial. -/
def count (cap : ℕ) (p : Progress) : Progress :=
  { p with rounds := p.rounds + 1, closed := p.denied || cap ≤ p.rounds }

def propose (p : Progress) (toolUseId : Text) : Progress :=
  { p with stage := .proposed toolUseId }

def finish (p : Progress) (status : ToolResultStatus) : Progress :=
  { p with stage := .idle, denied := p.denied || status = .denied }

/-- The events that may come next, and what is after them. -/
inductive Moves (cap : ℕ) (p : Progress) : AgentEvent → Progress → Prop where
  | started (hstage : p.stage = .fresh) : Moves cap p .turnStarted { p with stage := .idle }
  | counted (messageId : Text) (hstage : p.stage = .idle) (hopen : p.closed = false) :
      Moves cap p (.assistantMessageStarted messageId p.rounds) (p.count cap)
  | proposed (toolUseId name : Text) (input : Json.Value) (risk : List Text)
      (hstage : p.stage = .idle) (hopen : p.closed = false) :
      Moves cap p (.toolProposed toolUseId name input risk) (p.propose toolUseId)
  | finished (toolUseId : Text) (result : ToolResult) (hstage : p.stage = .proposed toolUseId) :
      Moves cap p (.toolFinished toolUseId result) (p.finish result.status)
  | within (event : AgentEvent) (toolUseId : Text) (hstage : p.stage = .proposed toolUseId)
      (hevent : event.within = some toolUseId) : Moves cap p event p
  | aside (event : AgentEvent) (hstage : p.stage = .idle) (hevent : event.aside) :
      Moves cap p event p
  | ended (event : AgentEvent) (hstage : p.stage = .idle) (hevent : event.terminal) :
      Moves cap p event { p with stage := .ended }

/-- The steps that may come next: an event, or a call, which dispatches a tool use only when one
has been proposed. -/
inductive Takes (cap : ℕ) (p : Progress) (e : TurnStep) (p' : Progress) : Prop where
  | event (event : AgentEvent) (he : emitted e = some event) (hmoves : Moves cap p event p')
  | call (he : emitted e = none)
      (hproposed : (dispatched e).isSome → ∃ toolUseId, p.stage = .proposed toolUseId)
      (hp : p' = p)

section

variable {cap : ℕ} {p p' : Progress} {h : List TurnStep} {e : TurnStep} {event : AgentEvent}

theorem Takes.dispatched (he : Takes cap p e p') (hsome : (dispatched e).isSome) :
  ∃ toolUseId, p.stage = .proposed toolUseId
  := by
  cases he with
  | call _ hproposed _ => exact hproposed hsome
  | event event he hmoves =>
    obtain ⟨envelope, answer, rfl, rfl⟩ := emitted_eq_some he
    change envelope.event.dispatched.isSome at hsome
    generalize envelope.event = event at hmoves hsome
    cases hmoves with
    | within _ toolUseId hstage _ => exact ⟨toolUseId, hstage⟩
    | started | counted | proposed | finished => cases hsome
    | aside _ _ hevent =>
      cases event with
      | toolExecutionRequested => cases hevent
      | _ => cases hsome
    | ended _ _ hevent =>
      cases event with
      | toolExecutionRequested => cases hevent
      | _ => cases hsome

theorem history {P : List AgentEvent → Progress → Prop} (init : P [] start)
    (keeps : ∀ es p event p', P es p → Moves cap p event p' → P (es ++ [event]) p')
    (hruns : Runs (Takes cap) start h p) :
  P (events h) p
  := by
  apply Runs.history (P := fun h p => P (events h) p) init _ hruns
  intro h p e p' hP htakes
  rw [events_snoc]
  cases htakes with
  | event event he hmoves =>
    rw [he]
    exact keeps _ _ _ _ hP hmoves
  | call he _ hp =>
    rw [he, hp]
    simpa using hP

/-! ### What a run has sent -/

theorem Moves.not_ended (hmoves : Moves cap p event p') :
  p.stage ≠ .ended
  := by
  cases hmoves with
  | started hstage => simp [hstage]
  | counted _ hstage => simp [hstage]
  | proposed _ _ _ _ hstage => simp [hstage]
  | finished _ _ hstage => simp [hstage]
  | within _ _ hstage => simp [hstage]
  | aside _ hstage => simp [hstage]
  | ended _ hstage => simp [hstage]

theorem Moves.fresh (hmoves : Moves cap p event p') :
  p'.stage ≠ .fresh ∧ (p.stage = .fresh → event = .turnStarted)
  := by
  cases hmoves with
  | started hstage => simp
  | counted _ hstage => simp [count, hstage]
  | proposed _ _ _ _ hstage => simp [propose, hstage]
  | finished _ _ hstage => simp [finish, hstage]
  | within _ _ hstage => simp [hstage]
  | aside _ hstage => simp [hstage]
  | ended _ hstage => simp [hstage]

theorem starts (hruns : Runs (Takes cap) start h p) :
  (p.stage = .fresh ∧ events h = [])
    ∨ (p.stage ≠ .fresh ∧ ∃ rest, events h = .turnStarted :: rest)
  := by
  apply history (P := fun es p => (p.stage = .fresh ∧ es = [])
    ∨ (p.stage ≠ .fresh ∧ ∃ rest, es = .turnStarted :: rest)) _ _ hruns
  · left
    exact ⟨rfl, rfl⟩
  · intro es p event p' hP hmoves
    right
    obtain ⟨hlater, hfirst⟩ := hmoves.fresh
    use hlater
    obtain ⟨hstage, rfl⟩ | ⟨-, rest, rfl⟩ := hP
    · rw [hfirst hstage]
      exact ⟨[], rfl⟩
    · exact ⟨rest ++ [event], rfl⟩

theorem Moves.terminal (hmoves : Moves cap p event p') :
  event.terminal = true ↔ p'.stage = .ended
  := by
  have hne := hmoves.not_ended
  cases hmoves with
  | started => simp [AgentEvent.terminal]
  | counted => simpa [AgentEvent.terminal, count] using hne
  | proposed => simp [AgentEvent.terminal, propose]
  | finished => simp [AgentEvent.terminal, finish]
  | within _ _ _ hevent =>
    simpa [AgentEvent.not_terminal_of_frames (AgentEvent.quiet_of_within hevent).1] using hne
  | aside _ _ hevent =>
    simpa [AgentEvent.not_terminal_of_frames (AgentEvent.quiet_of_aside hevent).1] using hne
  | ended _ _ hevent => simp [hevent]

theorem ends (hruns : Runs (Takes cap) start h p) :
  (p.stage ≠ .ended ∧ ∀ event ∈ events h, event.terminal = false)
    ∨ (p.stage = .ended ∧ ∃ front last, events h = front ++ [last] ∧ last.terminal
      ∧ ∀ event ∈ front, event.terminal = false)
  := by
  apply history (P := fun es p => (p.stage ≠ .ended ∧ ∀ event ∈ es, event.terminal = false)
    ∨ (p.stage = .ended ∧ ∃ (front : List AgentEvent) (last : AgentEvent), es = front ++ [last]
      ∧ last.terminal ∧ ∀ event ∈ front, event.terminal = false)) _ _ hruns
  · left
    exact ⟨nofun, nofun⟩
  · intro es p event p' hP hmoves
    obtain ⟨-, hfront⟩ | ⟨hended, -⟩ := hP
    · by_cases hterminal : event.terminal
      · right
        exact ⟨hmoves.terminal.mp hterminal, es, event, rfl, hterminal, hfront⟩
      · left
        constructor
        · rw [ne_eq, ← hmoves.terminal]
          exact hterminal
        · rw [Bool.not_eq_true] at hterminal
          simp only [List.mem_append, List.mem_singleton]
          rintro event' (hmem | rfl)
          · exact hfront event' hmem
          · exact hterminal
    · exact absurd hended hmoves.not_ended

/-- The events that frame tool uses and the turn, as far as the turn is. -/
def Framed (frames : List AgentEvent) : Stage → Prop
  | .proposed toolUseId => ∃ tools name input risk,
      frames = tools ++ [.toolProposed toolUseId name input risk] ∧ Pairs tools
  | .ended => ∃ tools last, frames = tools ++ [last] ∧ Pairs tools ∧ last.terminal
  | _ => Pairs frames

theorem framed (hruns : Runs (Takes cap) start h p) :
  Framed ((events h).filter AgentEvent.frames) p.stage
  := by
  apply history (P := fun es p => Framed (es.filter AgentEvent.frames) p.stage) _ _ hruns
  · exact .nil
  · intro es p event p' hP hmoves
    rw [List.filter_append]
    cases hmoves with
    | started hstage =>
      rw [hstage] at hP
      simpa [AgentEvent.frames, AgentEvent.terminal, Framed] using hP
    | counted _ hstage =>
      rw [hstage] at hP
      simpa [AgentEvent.frames, AgentEvent.terminal, count, hstage] using hP
    | proposed toolUseId name input risk hstage =>
      rw [hstage] at hP
      exact ⟨_, name, input, risk, rfl, hP⟩
    | finished toolUseId result hstage =>
      rw [hstage] at hP
      obtain ⟨tools, name, input, risk, hframes, hpairs⟩ := hP
      rw [hframes]
      exact hpairs.snoc toolUseId name input risk result
    | within _ _ _ hevent => simpa [(AgentEvent.quiet_of_within hevent).1] using hP
    | aside _ _ hevent => simpa [(AgentEvent.quiet_of_aside hevent).1] using hP
    | ended event hstage hevent =>
      rw [hstage] at hP
      rw [List.filter_singleton, (AgentEvent.frames_of_terminal hevent).1]
      exact ⟨_, event, rfl, hP, hevent⟩

theorem numbers (hruns : Runs (Takes cap) start h p) :
  (events h).filterMap AgentEvent.round = List.range p.rounds
    ∧ p.rounds ≤ cap + 1 ∧ (p.closed = false → p.rounds ≤ cap)
  := by
  apply history (P := fun es p => es.filterMap AgentEvent.round = List.range p.rounds
    ∧ p.rounds ≤ cap + 1 ∧ (p.closed = false → p.rounds ≤ cap)) _ _ hruns
  · exact ⟨rfl, Nat.zero_le _, fun _ => Nat.zero_le _⟩
  · intro es p event p' hP hmoves
    obtain ⟨hrounds, hle, hcap⟩ := hP
    rw [List.filterMap_append, hrounds]
    cases hmoves with
    | counted messageId hstage hopen =>
      refine ⟨?_, ?_, ?_⟩
      · rw [count, List.range_succ]
        rfl
      · have hbefore := hcap hopen
        simpa [count] using hbefore
      · simp only [count, Bool.or_eq_false_iff, decide_eq_false_iff_not]
        omega
    | started => simpa [AgentEvent.round] using ⟨hle, hcap⟩
    | proposed => simpa [AgentEvent.round, propose] using ⟨hle, hcap⟩
    | finished => simpa [AgentEvent.round, finish] using ⟨hle, hcap⟩
    | within _ _ _ hevent => simpa [(AgentEvent.quiet_of_within hevent).2] using ⟨hle, hcap⟩
    | aside _ _ hevent => simpa [(AgentEvent.quiet_of_aside hevent).2] using ⟨hle, hcap⟩
    | ended _ _ hevent => simpa [(AgentEvent.frames_of_terminal hevent).2] using ⟨hle, hcap⟩

/-! ### Denials -/

theorem Moves.denied (hmoves : Moves cap p event p') (hdenied : p.denied) :
  p'.denied
  := by
  cases hmoves with
  | finished => simp [finish, hdenied]
  | _ => exact hdenied

theorem denied_of_denies (hruns : Runs (Takes cap) start h p) (hdenies : ∃ d ∈ h, Denies d) :
  p.denied
  := by
  revert hdenies
  apply Runs.history (P := fun h p => (∃ d ∈ h, Denies d) → p.denied) _ _ hruns
  · rintro ⟨d, hd, -⟩
    cases hd
  · rintro h p e p' hP htakes ⟨d, hd, hdenies⟩
    rw [List.mem_append, List.mem_singleton] at hd
    cases htakes with
    | event event he hmoves =>
      obtain hd | rfl := hd
      · exact hmoves.denied (hP ⟨d, hd, hdenies⟩)
      · obtain ⟨toolUseId, result, hfinished, hstatus⟩ := hdenies
        rw [he] at hfinished
        cases hfinished
        cases hmoves with
        | finished => simp [finish, hstatus]
        | within _ _ _ hevent => cases hevent
        | aside _ _ hevent => cases hevent
        | ended _ _ hevent => cases hevent
    | call he _ hp =>
      subst hp
      obtain hd | rfl := hd
      · exact hP ⟨d, hd, hdenies⟩
      · obtain ⟨toolUseId, result, hfinished, -⟩ := hdenies
        rw [he] at hfinished
        cases hfinished

/-! ### Closed rounds -/

/-- The turn is closed for tools, and none is proposed. -/
structure Closed (p : Progress) : Prop where
  closed : p.closed
  quiet : ∀ toolUseId, p.stage ≠ .proposed toolUseId

theorem Closed.moves (hc : Closed p) (hmoves : Moves cap p event p') :
  Closed p'
  := by
  cases hmoves with
  | started hstage => exact ⟨hc.closed, nofun⟩
  | counted _ _ hopen =>
    rw [hc.closed] at hopen
    cases hopen
  | proposed _ _ _ _ _ hopen =>
    rw [hc.closed] at hopen
    cases hopen
  | finished _ _ hstage => exact absurd hstage (hc.quiet _)
  | within => exact hc
  | aside => exact hc
  | ended => exact ⟨hc.closed, nofun⟩

theorem Closed.dispatches_none (hc : Closed p) (hruns : Runs (Takes cap) p h p') :
  ∀ d ∈ h, dispatched d = none
  := by
  have hboth : Closed p' ∧ ∀ d ∈ h, dispatched d = none := by
    apply Runs.history (P := fun h p' => Closed p' ∧ ∀ d ∈ h, dispatched d = none) _ _ hruns
    · exact ⟨hc, nofun⟩
    · rintro h p e p' ⟨hp, hnone⟩ htakes
      constructor
      · cases htakes with
        | event _ _ hmoves => exact hp.moves hmoves
        | call _ _ heq =>
          rw [heq]
          exact hp
      · simp only [List.mem_append, List.mem_singleton]
        rintro d (hd | rfl)
        · exact hnone d hd
        · rw [← Option.not_isSome_iff_eq_none]
          intro hsome
          obtain ⟨toolUseId, hstage⟩ := htakes.dispatched hsome
          exact hp.quiet toolUseId hstage
  exact hboth.2

theorem Moves.closes {messageId : Text} {r : ℕ}
    (hmoves : Moves cap p (.assistantMessageStarted messageId r) p') (hlast : cap ≤ r ∨ p.denied) :
  Closed p'
  := by
  cases hmoves with
  | counted _ hstage hopen =>
    constructor
    · simpa [count, or_comm] using hlast
    · simp [count, hstage]
  | within _ _ _ hevent => cases hevent
  | aside _ _ hevent => cases hevent
  | ended _ _ hevent => cases hevent

theorem protocol (hruns : Runs (Takes cap) start h p) (hended : p.stage = .ended)
    (hnumbered : (envelopes h).map AgentEventEnvelope.sequence
      = List.range' 1 (envelopes h).length) :
  TurnProtocol cap h
  where
  started := by
    obtain ⟨hfresh, -⟩ | ⟨-, hstarted⟩ := starts hruns
    · rw [hended] at hfresh
      cases hfresh
    · exact hstarted
  numbered := hnumbered
  ended := by
    obtain ⟨hopen, -⟩ | ⟨-, hends⟩ := ends hruns
    · exact absurd hended hopen
    · exact hends
  paired := by
    have hframed := framed hruns
    rw [hended] at hframed
    exact hframed
  rounds := by
    obtain ⟨hrounds, hle, -⟩ := numbers hruns
    exact ⟨p.rounds, hle, hrounds⟩
  closed pre e post messageId r heq he hlast := by
    subst heq
    obtain ⟨p₁, hpre, hrest⟩ := hruns.of_append
    obtain ⟨p₂, htakes, hpost⟩ := hrest.of_cons
    cases htakes with
    | event event he' hmoves =>
      rw [he] at he'
      cases he'
      apply Closed.dispatches_none (hmoves.closes _) hpost
      exact hlast.imp_right (denied_of_denies hpre)
    | call he' =>
      rw [he] at he'
      cases he'

end

end Progress

end Agent
