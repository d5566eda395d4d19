import Catio.Lib.Json

/-!
# Turns of the agent

The data of the agent runtime (`agent/types.rs`): messages with their content blocks, tools and
their results, the responses of clients, the events of a turn, and errors.
-/

namespace Agent

open Text

structure ApiCredential where
  secret : Text
  deriving DecidableEq

def ApiCredential.expose (c : ApiCredential) : Text :=
  c.secret

/-- The owner of a turn, or who wants to be. -/
structure ActorContext where
  ownerId : Text
  deriving DecidableEq

inductive AgentRole where
  | user
  | assistant
  deriving DecidableEq

/-! ### Tools -/

/-- The final status of a tool result as the engine sees it. -/
inductive ToolResultStatus where
  | succeeded
  | failed
  | denied
  | blocked
  | cancelled
  | outcomeUnknown
  | unsupported
  deriving DecidableEq

/-- The status of an execution as the client reports it. -/
inductive ToolExecutionStatus where
  | succeeded
  | failed
  | blocked
  | cancelled
  | outcomeUnknown
  | unsupported
  deriving DecidableEq

/-- The outcome of an execution that the client reports. -/
structure ToolExecutionOutcome where
  content : Text
  status : ToolExecutionStatus
  deriving DecidableEq

/-- A tool that the provider wants to use. -/
structure ToolUse where
  id : Text
  name : Text
  input : Json.Value

structure ToolResult where
  toolUseId : Text
  content : Text
  status : ToolResultStatus
  deriving DecidableEq

/-- A tool that is advertised to the provider. -/
structure ToolSpec where
  name : Text
  description : Text
  inputSchema : Json.Value

/-! ### Messages -/

inductive ContentBlock where
  | text (text : Text)
  | thinking (thinking : Text)
  | toolUse (id name : Text) (input : Json.Value)
  | toolResult (toolUseId content : Text) (status : ToolResultStatus)

structure AgentMessage where
  role : AgentRole
  content : List ContentBlock

/-! ### Responses of clients -/

inductive ApprovalDecision where
  | allow
  | deny
  deriving DecidableEq

/-- What a client submits to a turn that waits. -/
inductive ClientTurnResponse where
  | approvalDecision (toolUseId : Text) (decision : ApprovalDecision)
  | toolExecutionResult (toolUseId : Text) (outcome : ToolExecutionOutcome)
  deriving DecidableEq

/-- The response that a turn waits for. -/
inductive ExpectedResponse where
  | none
  | approval (toolUseId : Text)
  | toolResult (toolUseId : Text)
  deriving DecidableEq

def ExpectedResponse.matches_ : ExpectedResponse → ClientTurnResponse → Bool
  | .approval toolUseId, .approvalDecision id _ => toolUseId = id
  | .toolResult toolUseId, .toolExecutionResult id _ => toolUseId = id
  | _, _ => false

/-! ### Requests -/

inductive ProviderProtocol where
  | openai
  | anthropic
  | ollama
  deriving DecidableEq

inductive ExecutionMode where
  | manual
  | ask
  | auto
  deriving DecidableEq

/-- How a turn without a human resolves what would need an approval. -/
inductive UnattendedPolicy where
  | auto
  | rejectSensitive
  | whitelist (commands : List Text)
  deriving DecidableEq

structure ProviderConfig where
  protocol : ProviderProtocol
  baseUrl : Text
  model : Text
  credential : ApiCredential
  deriving DecidableEq

/-- What a user submits. -/
structure StartTurnRequest where
  conversationId : Text
  messages : List AgentMessage
  systemPrompt : Text
  targetRef : Text
  provider : ProviderConfig
  executionMode : ExecutionMode
  singleLineCommands : Bool
  roundCap : ℕ

/-! ### Events -/

inductive AgentEvent where
  | turnStarted
  | assistantMessageStarted (messageId : Text) (round : ℕ)
  | textDelta (messageId delta : Text)
  | thinkingDelta (messageId delta : Text)
  | assistantMessageFinished (messageId : Text)
  | toolProposed (toolUseId name : Text) (input : Json.Value) (risk : List Text)
  | approvalRequested (toolUseId reason : Text)
  | toolExecutionRequested (toolUseId target : Text) (input : Json.Value)
  | toolStarted (toolUseId : Text)
  | toolFinished (toolUseId : Text) (result : ToolResult)
  | usageUpdated (inputTokens outputTokens : ℕ)
  | compatibilityFallbackActivated (provider reason : Text)
  | turnFinished
  | turnCancelled
  | turnFailed (code message : Text)

/-- The event ends a turn. -/
def AgentEvent.terminal : AgentEvent → Bool
  | .turnFinished => true
  | .turnCancelled => true
  | .turnFailed _ _ => true
  | _ => false

/-- An event of a turn as it is delivered. -/
structure AgentEventEnvelope where
  ownerId : Text
  conversationId : Text
  turnId : Text
  sequence : ℕ
  event : AgentEvent

/-! ### Errors -/

inductive AgentError where
  | invalidRequest (m : Text)
  | ownerMismatch
  | turnNotFound
  | responseConflict
  | turnStateConflict (m : Text)
  | providerAuth
  | providerRateLimit
  | providerHttp (m : Text)
  | providerProtocol (m : Text)
  | providerUnexpectedEof
  | toolsUnsupported
  | approvalTimeout
  | toolBridgeTimeout
  | turnCancelled
  | toolsDisabledSynthesisViolated (m : Text)
  | eventSink (m : Text)
  | internal (m : Text)
  deriving DecidableEq

def AgentError.code : AgentError → Text
  | .invalidRequest _ => "invalidRequest"
  | .ownerMismatch => "ownerMismatch"
  | .turnNotFound => "turnNotFound"
  | .responseConflict => "responseConflict"
  | .turnStateConflict _ => "turnStateConflict"
  | .providerAuth => "providerAuth"
  | .providerRateLimit => "providerRateLimit"
  | .providerHttp _ => "providerHttp"
  | .providerProtocol _ => "providerProtocol"
  | .providerUnexpectedEof => "providerUnexpectedEof"
  | .toolsUnsupported => "toolsUnsupported"
  | .approvalTimeout => "approvalTimeout"
  | .toolBridgeTimeout => "toolBridgeTimeout"
  | .turnCancelled => "turnCancelled"
  | .toolsDisabledSynthesisViolated _ => "toolsDisabledSynthesisViolated"
  | .eventSink _ => "eventSink"
  | .internal _ => "internal"

def AgentError.message : AgentError → Text
  | .invalidRequest m => "invalid request: " ++ m
  | .ownerMismatch => "owner mismatch for turn"
  | .turnNotFound => "turn not found"
  | .responseConflict => "response conflicts with already-consumed response"
  | .turnStateConflict m => "turn state conflict: " ++ m
  | .providerAuth => "provider authentication failed"
  | .providerRateLimit => "provider rate limited"
  | .providerHttp m => "provider http error: " ++ m
  | .providerProtocol m => "provider protocol error: " ++ m
  | .providerUnexpectedEof => "provider stream ended unexpectedly"
  | .toolsUnsupported => "provider does not support tools"
  | .approvalTimeout => "approval timed out"
  | .toolBridgeTimeout => "tool bridge timed out"
  | .turnCancelled => "turn cancelled"
  | .toolsDisabledSynthesisViolated m => "tools-disabled synthesis violated: " ++ m
  | .eventSink m => "event sink failed: " ++ m
  | .internal m => "internal engine error: " ++ m

/-- Reject a request that lacks what a turn needs. -/
def StartTurnRequest.validate (request : StartTurnRequest) : Except AgentError Unit :=
  if request.conversationId = [] then
    .error (.invalidRequest "conversation_id is required")
  else if request.provider.model = [] then
    .error (.invalidRequest "provider.model is required")
  else if request.provider.baseUrl = [] then
    .error (.invalidRequest "provider.base_url is required")
  else if ¬ (1 ≤ request.roundCap ∧ request.roundCap ≤ 20) then
    .error (.invalidRequest "round_cap must be in 1..=20")
  else .ok ()

end Agent
