import Catio.Agent.Engine
import Catio.Lib.Result

/-!
# The steps of the engine

What the history of a turn tells: what has been emitted, proposed and dispatched, and the last
exchange with the provider.  From these the properties of turns are stated.
-/

namespace Agent

open Text Program TurnEngine

/-! ### Steps -/

def emitted (e : TurnStep) : Option AgentEvent :=
  match e.1 with
  | .emit envelope => some envelope.event
  | _ => none

def AgentEvent.dispatched : AgentEvent → Option ToolUse
  | .toolExecutionRequested toolUseId _ input => some ⟨toolUseId, TERMINAL_EXEC, input⟩
  | _ => none

/-- The tool use that a step dispatches: to the terminal, to the router, or to the local
files. -/
def dispatched (e : TurnStep) : Option ToolUse :=
  match e.1 with
  | .emit envelope => envelope.event.dispatched
  | .dispatch toolUseId _ name input => some ⟨toolUseId, name, input⟩
  | .execute toolUseId name input => some ⟨toolUseId, name, input⟩
  | _ => none

/-- A step proposes a tool use; the input that is shown may have a preview. -/
def Proposes (e : TurnStep) (toolUse : ToolUse) : Prop :=
  ∃ input risk, emitted e = some (.toolProposed toolUse.id toolUse.name input risk)

/-- The step proposes some tool use. -/
def proposesAny (e : TurnStep) : Bool :=
  match emitted e with
  | some (.toolProposed _ _ _ _) => true
  | _ => false

def received : TurnStep → Option (ExpectedResponse × ClientTurnResponse)
  | ⟨.recvMatching expected, _, .received _ response⟩ => some (expected, response)
  | _ => none

def findsAlive : TurnStep → Bool
  | ⟨.isCancelled, _, answer⟩ => !answer
  | _ => false

/-! ### The last exchange with the provider -/

/-- What the history tells about the last exchange and the local files. -/
structure Seen where
  active : Bool
  legacy : Bool
  retry : Bool
  request : Option ProviderRequest
  answer : Option ProviderRound

namespace Seen

/-- Before anything has happened. -/
def start : Seen :=
  ⟨false, false, false, none, none⟩

def observeEvent (x : Seen) : AgentEvent → Seen
  | .compatibilityFallbackActivated _ _ => { x with legacy := true }
  | _ => x

/-- What an answered call tells.  The request that follows the activation of the fallback,
before any answer, is the retry. -/
def observeCall (x : Seen) : (c : TurnCall) → c.Answer → Seen
  | .isActive, answer => { x with active := answer }
  | .emit envelope, _ => x.observeEvent envelope.event
  | .startRound request, _ =>
      { x with retry := x.legacy && x.answer.isNone, request := some request, answer := none }
  | .endRound, .completed (.ok answer) => { x with answer := some answer }
  | _, _ => x

/-- What one step tells. -/
def observe (x : Seen) (e : TurnStep) : Seen :=
  x.observeCall e.1 e.2.2

/-- The local files of the turn are there and were selected. -/
def files (ctx : TurnContext) (x : Seen) : Bool :=
  ctx.localFiles.isSome && x.active

end Seen

/-- What a history tells. -/
def seen (h : List TurnStep) : Seen :=
  h.foldl Seen.observe .start

@[simp]
theorem seen_snoc (h : List TurnStep) (e : TurnStep) :
  seen (h ++ [e]) = (seen h).observe e
  := List.foldl_concat ..

/-! ### Plain steps -/

/-- The event neither dispatches a tool nor activates the fallback. -/
def AgentEvent.plain : AgentEvent → Bool
  | .toolExecutionRequested _ _ _ => false
  | .compatibilityFallbackActivated _ _ => false
  | _ => true

/-- The call neither dispatches a tool, nor waits, nor tells about an exchange. -/
def TurnCall.plain : TurnCall → Bool
  | .isCancelled => true
  | .toolSpecs => true
  | .setExpected _ => true
  | .preview _ => true
  | _ => false

variable {event : AgentEvent} {e : TurnStep} {c : TurnCall} {h : List TurnStep} {x : Seen}
  {s : SequenceEmitter}

theorem emitted_eq_some (he : emitted e = some event) :
  ∃ envelope answer, e = ⟨.emit envelope, answer⟩ ∧ envelope.event = event
  := by
  obtain ⟨c, answer⟩ := e
  cases c with
  | emit envelope => exact ⟨envelope, answer, rfl, Option.some.inj he⟩
  | _ => cases he

theorem not_proposesAny_of_call (hcall : ∀ envelope, e.1 ≠ .emit envelope) :
  proposesAny e = false
  := by
  obtain ⟨c, answer⟩ := e
  cases c with
  | emit envelope => exact absurd rfl (hcall envelope)
  | _ => rfl

theorem observe_of_emitted (he : emitted e = some event) (hplain : event.plain) :
  x.observe e = x
  := by
  obtain ⟨envelope, answer, rfl, rfl⟩ := emitted_eq_some he
  change x.observeEvent envelope.event = x
  cases hevent : envelope.event with
  | compatibilityFallbackActivated =>
    rw [hevent] at hplain
    cases hplain
  | _ => rfl

theorem dispatched_of_emitted (he : emitted e = some event) (hplain : event.plain) :
  dispatched e = none
  := by
  obtain ⟨envelope, answer, rfl, rfl⟩ := emitted_eq_some he
  change envelope.event.dispatched = none
  cases hevent : envelope.event with
  | toolExecutionRequested =>
    rw [hevent] at hplain
    cases hplain
  | _ => rfl

theorem observe_of_plain (hplain : e.1.plain) :
  x.observe e = x
  := by
  obtain ⟨c, answer⟩ := e
  cases c with
  | isCancelled => rfl
  | toolSpecs => rfl
  | setExpected => rfl
  | preview => rfl
  | _ => cases hplain

theorem dispatched_of_plain (hplain : e.1.plain) :
  dispatched e = none
  := by
  obtain ⟨c, answer⟩ := e
  cases c with
  | isCancelled => rfl
  | toolSpecs => rfl
  | setExpected => rfl
  | preview => rfl
  | _ => cases hplain

/-! ### Inputs -/

theorem validateInput_ok {ctx : TurnContext} {toolUse : ToolUse} {fileInput : Option FileInput}
    (hvalid : validateInput ctx toolUse = .ok fileInput) :
  fileInput.isSome = isFileTool toolUse.name
  := by
  unfold validateInput at hvalid
  split at hvalid
  · rename_i hfile
    obtain ⟨input, -, rfl⟩ := Result.map_ok.mp hvalid
    exact hfile.symm
  · rename_i hfile
    obtain ⟨command, -, rfl⟩ := Result.map_ok.mp hvalid
    rw [Bool.not_eq_true] at hfile
    exact hfile.symm

theorem firstShellTool_name {toolUse : ToolUse} {markdown id : Text} {singleLine : Bool}
    (h : firstShellTool markdown singleLine id = .ok (some toolUse)) :
  toolUse.name = TERMINAL_EXEC
  := by
  unfold firstShellTool at h
  split at h
  · cases h
  · dsimp only at h
    split_ifs at h
    cases h
    rfl

theorem validateInput_terminal {ctx : TurnContext} {toolUse : ToolUse}
    (hname : toolUse.name = TERMINAL_EXEC) (hvalid : validateInput ctx toolUse = .ok none) :
  ∃ command, validateTerminalInput toolUse.input ctx.request.singleLineCommands = .ok command
  := by
  unfold validateInput at hvalid
  rw [if_neg (by rw [hname]; decide)] at hvalid
  obtain ⟨command, hcommand, -⟩ := Result.map_ok.mp hvalid
  exact ⟨command, hcommand⟩

theorem not_isBackendTool_terminal (active : Bool) :
  isBackendTool active TERMINAL_EXEC = false
  := by
  cases active with
  | false => rfl
  | true => rfl

/-! ### The tool uses of a round -/

section

variable {ctx : TurnContext} {l : Loop} {legacyMode : Bool} {message : AgentMessage}
  {uses : List ToolUse} {toolUse : ToolUse}

theorem syntheticTool_eq_some (hsome : syntheticTool ctx l legacyMode message = some toolUse) :
  legacyMode ∧ toolUses message = [] ∧
    firstShellTool (messageText message) ctx.request.singleLineCommands (syntheticId ctx l)
      = .ok (some toolUse)
  := by
  unfold syntheticTool at hsome
  split at hsome
  · rename_i hlegacy
    refine ⟨hlegacy.1, hlegacy.2, ?_⟩
    cases hfirst : firstShellTool (messageText message) ctx.request.singleLineCommands
        (syntheticId ctx l) with
    | ok found =>
      rw [hfirst] at hsome
      simp only [Except.toOption, Option.join_some] at hsome
      rw [hsome]
    | error e =>
      rw [hfirst] at hsome
      cases hsome
  · cases hsome

theorem toolsToProcess_ok (hok : toolsToProcess ctx l legacyMode message = .ok uses) :
  (l.finalSynthesis ∧ uses = []) ∨
    (l.finalSynthesis = false
      ∧ uses = toolUses message ++ (syntheticTool ctx l legacyMode message).toList
      ∧ (toolUses message ≠ [] → toolsDisabled ctx l = false))
  := by
  unfold toolsToProcess at hok
  dsimp only at hok
  split_ifs at hok with hfinal hsynthetic hnative hviolates
  · cases hok
    exact .inl ⟨hfinal, rfl⟩
  · cases hok
    rw [Bool.not_eq_true] at hfinal
    refine .inr ⟨hfinal, rfl, ?_⟩
    intro hne
    have hnone : syntheticTool ctx l legacyMode message = none := by
      simp [syntheticTool, hne]
    simpa [hne, hnone] using hviolates

end

/-! ### Rules -/

section

variable {α : Type} {E : AgentError → SequenceEmitter → List TurnStep → Prop}

theorem wp_callOut {Q : c.Answer → SequenceEmitter → List TurnStep → Prop} :
  wp Q E (callOut c) s h ↔ ∀ r : c.Answered, Q r.2 s (h ++ [⟨c, r⟩])
  := Iff.rfl

theorem wp_emit {Q : Unit → SequenceEmitter → List TurnStep → Prop}
    (hrefused : s.terminalEmitted → E (.internal "emit after terminal event") s h)
    (hsent : ∀ r : TurnCall.Answered (.emit (s.envelope event)), s.terminalEmitted = false →
      r.2 = none →
        Q () ⟨s.ownerId, s.conversationId, s.turnId, s.sequence + 1, event.terminal⟩
          (h ++ [⟨.emit (s.envelope event), r⟩]))
    (hfailed : ∀ (r : TurnCall.Answered (.emit (s.envelope event))) (e : AgentError),
      s.terminalEmitted = false → r.2 = some e →
        E (.eventSink e.message) { s with sequence := s.sequence + 1 }
          (h ++ [⟨.emit (s.envelope event), r⟩])) :
  wp Q E (emit event) s h
  := by
  unfold emit
  rw [wp_load_bind, wp_ite]
  constructor
  · exact hrefused
  · intro halive
    rw [Bool.not_eq_true] at halive
    rw [wp_update_bind, wp_bind, wp_callOut]
    intro r
    split
    · rename_i e hr
      exact hfailed r e halive hr
    · rename_i hr
      exact hsent r halive hr

theorem wp_emit_step :
  wp (fun _ _ h' => ∃ e, emitted e = some event ∧ h' = h ++ [e])
    (fun _ _ h' => h' = h ∨ ∃ e, emitted e = some event ∧ h' = h ++ [e]) (emit event) s h
  := by
  apply wp_emit
  · intro _
    left
    rfl
  · intro r _ _
    exact ⟨_, rfl, rfl⟩
  · intro r _ _ _
    right
    exact ⟨_, rfl, rfl⟩

end

end Agent
