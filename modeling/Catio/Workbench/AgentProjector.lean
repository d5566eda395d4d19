import Catio.Agent.Types
import Catio.Lib.Table

/-!
# Projection of agent events

The model of `services/agentProjector.ts`, with the events of a turn as the frontend knows them and
the check of their fields (`services/agentRuntime.ts`): each envelope that is delivered changes the
state and has at most one effect.
-/

namespace Workbench

open Agent (ToolResult)

/-! ### Events -/

inductive AgentEvent where
  | turnStarted
  | assistantMessageStarted (messageId : Text) (round : ℕ)
  | textDelta (messageId delta : Text)
  | thinkingDelta (messageId delta : Text)
  | assistantMessageFinished (messageId : Text)
  | toolProposed (toolUseId name : Text) (input : Json.Value) (risk : List Text)
  | approvalRequested (toolUseId reason : Text)
  | toolExecutionRequested (toolUseId target : Text) (input : Json.Value)
  | toolStarted (toolUseId : Text)
  | toolOutputDelta (toolUseId delta : Text)
  | toolFinished (toolUseId : Text) (result : ToolResult)
  | usageUpdated (inputTokens outputTokens : ℕ)
  | compatibilityFallbackActivated (provider reason : Text)
  | turnFinished
  | turnCancelled
  | turnFailed (code message : Text)

structure AgentEventEnvelope where
  ownerId : Text
  conversationId : Text
  turnId : Text
  sequence : ℕ
  event : AgentEvent

/-- What is delivered: something that has not the fields of an envelope, or has them. -/
inductive Delivery where
  | other
  | envelope (e : AgentEventEnvelope)

def isNonEmptyString (v : Text) : Bool :=
  v ≠ []

def isPairedToolResult (v : ToolResult) (outerToolUseId : Text) : Bool :=
  isNonEmptyString v.toolUseId && v.toolUseId = outerToolUseId

def EVENT_FIELD_GUARDS : AgentEvent → Bool
  | .turnStarted => true
  | .assistantMessageStarted messageId _ => isNonEmptyString messageId
  | .textDelta messageId _ => isNonEmptyString messageId
  | .thinkingDelta messageId _ => isNonEmptyString messageId
  | .assistantMessageFinished messageId => isNonEmptyString messageId
  | .toolProposed toolUseId name _ risk =>
      isNonEmptyString toolUseId && isNonEmptyString name && risk.all isNonEmptyString
  | .approvalRequested toolUseId reason => isNonEmptyString toolUseId && isNonEmptyString reason
  | .toolExecutionRequested toolUseId target _ =>
      isNonEmptyString toolUseId && isNonEmptyString target
  | .toolStarted toolUseId => isNonEmptyString toolUseId
  | .toolOutputDelta toolUseId _ => isNonEmptyString toolUseId
  | .toolFinished toolUseId result =>
      isNonEmptyString toolUseId && isPairedToolResult result toolUseId
  | .usageUpdated _ _ => true
  | .compatibilityFallbackActivated provider reason =>
      isNonEmptyString provider && isNonEmptyString reason
  | .turnFinished => true
  | .turnCancelled => true
  | .turnFailed code message => isNonEmptyString code && isNonEmptyString message

def isAgentEventEnvelope (e : AgentEventEnvelope) : Bool :=
  isNonEmptyString e.ownerId && isNonEmptyString e.conversationId && isNonEmptyString e.turnId
    && e.sequence ≠ 0 && EVENT_FIELD_GUARDS e.event

/-- True when the event terminates its turn. -/
def isTerminalEvent : AgentEvent → Bool
  | .turnFinished => true
  | .turnCancelled => true
  | .turnFailed _ _ => true
  | _ => false

/-- The id of a tool use of Ollama, which has none of its own. -/
def syntheticToolId (round index : ℕ) : Text :=
  ("ollama-" : Text) ++ Text.ofNat round ++ ("-" : Text) ++ Text.ofNat index

/-! ### The projector -/

structure AgentProjectorState where
  lastSequenceByTurn : Table Text ℕ
  handledApprovalIds : List Text
  handledExecutionIds : List Text
  activeMessageByTurn : Table Text (Text × ℕ)
  textByMessageId : Table Text Text
  busyByTurn : Table Text Bool

def initialProjectorState : AgentProjectorState :=
  ⟨∅, [], [], ∅, ∅, ∅⟩

inductive AgentProjectionEffect where
  | requestApproval (turnId toolUseId reason : Text)
  | executeTool (turnId toolUseId target : Text) (input : Json.Value)
  | showWarning (code : Text)
  | turnSettled (turnId : Text)

structure AgentProjection where
  state : AgentProjectorState
  effects : List AgentProjectionEffect
  accepted : Bool

namespace AgentProjectorState

def lastSequence (s : AgentProjectorState) (turnId : Text) : ℕ :=
  (s.lastSequenceByTurn.lookup turnId).getD 0

def setSequence (s : AgentProjectorState) (turnId : Text) (sequence : ℕ) : AgentProjectorState :=
  { s with lastSequenceByTurn := s.lastSequenceByTurn.insert turnId sequence }

/-- What an accepted event does. -/
def apply (next : AgentProjectorState) (turnId : Text) :
    AgentEvent → AgentProjectorState × List AgentProjectionEffect
  | .turnStarted => ({ next with busyByTurn := next.busyByTurn.insert turnId true }, [])
  | .assistantMessageStarted messageId round =>
      ({ next with
        activeMessageByTurn := next.activeMessageByTurn.insert turnId (messageId, round) }, [])
  | .textDelta messageId delta =>
      ({ next with
        textByMessageId := next.textByMessageId.insert messageId
          ((next.textByMessageId.lookup messageId).getD [] ++ delta) }, [])
  | .approvalRequested toolUseId reason =>
      if toolUseId ∈ next.handledApprovalIds then (next, [])
      else
        ({ next with handledApprovalIds := next.handledApprovalIds ++ [toolUseId] },
          [.requestApproval turnId toolUseId reason])
  | .toolExecutionRequested toolUseId target input =>
      if toolUseId ∈ next.handledExecutionIds then (next, [])
      else
        ({ next with handledExecutionIds := next.handledExecutionIds ++ [toolUseId] },
          [.executeTool turnId toolUseId target input])
  | .turnFinished =>
      ({ next with busyByTurn := next.busyByTurn.insert turnId false }, [.turnSettled turnId])
  | .turnCancelled =>
      ({ next with busyByTurn := next.busyByTurn.insert turnId false }, [.turnSettled turnId])
  | .turnFailed _ _ =>
      ({ next with busyByTurn := next.busyByTurn.insert turnId false }, [.turnSettled turnId])
  | _ => (next, [])

end AgentProjectorState

/-- Project what is delivered.  What is malformed, a duplicate or after a gap is not accepted. -/
def projectAgentEvent (state : AgentProjectorState) : Delivery → AgentProjection
  | .other => ⟨state, [], false⟩
  | .envelope e =>
      if !isAgentEventEnvelope e then ⟨state, [], false⟩
      else
        let last := state.lastSequence e.turnId
        if e.sequence ≤ last then ⟨state, [], false⟩
        else if last + 1 < e.sequence then
          ⟨state.setSequence e.turnId e.sequence, [.showWarning "agentEventOrder"], false⟩
        else
          let (next, effects) := (state.setSequence e.turnId e.sequence).apply e.turnId e.event
          ⟨next, effects, true⟩

/-- The state after one delivery, with all effects so far. -/
def projectNext (p : AgentProjectorState × List AgentProjectionEffect) (d : Delivery) :
    AgentProjectorState × List AgentProjectionEffect :=
  let projection := projectAgentEvent p.1 d
  (projection.state, p.2 ++ projection.effects)

def projectAll (ds : List Delivery) : AgentProjectorState × List AgentProjectionEffect :=
  ds.foldl projectNext (initialProjectorState, [])

end Workbench
