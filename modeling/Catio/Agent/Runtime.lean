import Catio.Agent.Types
import Mathlib.Logic.Function.Basic

/-!
# The runtime of turns

The model of `agent/runtime.rs`: the active turns, and how the responses of clients are routed
to them.  A turn shares with its engine what it waits for, a channel of responses, and a
cancel token.
-/

namespace Agent

open Text

/-- An active turn. `receiving` holds as long as the engine keeps its end of the channel. -/
structure ActiveTurn where
  ownerId : Text
  expected : ExpectedResponse
  consumed : List (Text × Text)
  channel : List ClientTurnResponse
  cancelled : Bool
  receiving : Bool
  finished : Bool
  deriving DecidableEq

def ActiveTurn.start (ownerId : Text) : ActiveTurn :=
  ⟨ownerId, .none, [], [], false, true, false⟩

/-! ### Keys and digests -/

def responseKey : ClientTurnResponse → Text
  | .approvalDecision toolUseId _ => "approval:" ++ toolUseId
  | .toolExecutionResult toolUseId _ => "toolResult:" ++ toolUseId

def ApprovalDecision.toText : ApprovalDecision → Text
  | .allow => "allow"
  | .deny => "deny"

def ToolExecutionStatus.toText : ToolExecutionStatus → Text
  | .succeeded => "succeeded"
  | .failed => "failed"
  | .blocked => "blocked"
  | .cancelled => "cancelled"
  | .outcomeUnknown => "outcomeUnknown"
  | .unsupported => "unsupported"

def ClientTurnResponse.toJson : ClientTurnResponse → Json.Value
  | .approvalDecision toolUseId decision => .object [("type", .string "approvalDecision"),
      ("toolUseId", .string toolUseId), ("decision", .string decision.toText)]
  | .toolExecutionResult toolUseId outcome => .object [("type", .string "toolExecutionResult"),
      ("toolUseId", .string toolUseId), ("outcome", .object [("content", .string outcome.content),
        ("status", .string outcome.status.toText)])]

def digest (response : ClientTurnResponse) : Text :=
  response.toJson.toText

/-- A character of a text that is shown for debugging; those beyond ASCII are shown as they
are. -/
def debugChar (c : Char) : Text :=
  if c = '"' then "\\\""
  else if c = '\\' then "\\\\"
  else if c = '\t' then "\\t"
  else if c = '\r' then "\\r"
  else if c = '\n' then "\\n"
  else if c = '\x00' then "\\0"
  else if c.toNat < 0x20 ∨ c = '\x7f' then "\\u\x7b" ++ Nat.toDigits 16 c.toNat ++ "\x7d"
  else [c]

/-- The key of what is expected, as it is shown for debugging. -/
def ExpectedResponse.debugKey : ExpectedResponse → Text
  | .none => "(\"none\", None)"
  | .approval toolUseId => "(\"approval\", Some(\"" ++ toolUseId.flatMap debugChar ++ "\"))"
  | .toolResult toolUseId => "(\"toolResult\", Some(\"" ++ toolUseId.flatMap debugChar ++ "\"))"

/-! ### Calls of clients to a turn -/

namespace ActiveTurn

def respond (t : ActiveTurn) (actor : ActorContext) (response : ClientTurnResponse) :
    Except AgentError Unit × ActiveTurn :=
  if t.ownerId ≠ actor.ownerId then (.error .ownerMismatch, t)
  else
    let key := responseKey response
    match t.consumed.lookup key with
    | some existing =>
        if existing = digest response then (.ok (), t) else (.error .responseConflict, t)
    | none =>
        if ¬ t.expected.matches_ response then
          (.error (.turnStateConflict ("expected " ++ t.expected.debugKey ++ ", got " ++ key)), t)
        else
          let consumed := (key, digest response) :: t.consumed
          if t.receiving then
            (.ok (), { t with consumed := consumed, channel := t.channel ++ [response] })
          else (.error .turnNotFound, { t with consumed := consumed })

/-- A client cancels a turn that has not finished. -/
def cancel (t : ActiveTurn) (actor : ActorContext) : Except AgentError Unit × ActiveTurn :=
  if t.ownerId ≠ actor.ownerId then (.error .ownerMismatch, t)
  else (.ok (), { t with cancelled := true })

end ActiveTurn

inductive ClientCall where
  | respond (actor : ActorContext) (response : ClientTurnResponse)
  | cancel (actor : ActorContext)
  deriving DecidableEq

def ActiveTurn.call (t : ActiveTurn) : ClientCall → Except AgentError Unit × ActiveTurn
  | .respond actor response => t.respond actor response
  | .cancel actor => t.cancel actor

/-! ### The active turns -/

abbrev Turns := Text → Option ActiveTurn

def Turns.call (turns : Turns) (turnId : Text) (c : ClientCall) :
    Except AgentError Unit × Turns :=
  match turns turnId with
  | none => (.error .turnNotFound, turns)
  | some t =>
      if t.finished then (.error .turnNotFound, Function.update turns turnId none)
      else ((t.call c).1, Function.update turns turnId (some (t.call c).2))

end Agent
