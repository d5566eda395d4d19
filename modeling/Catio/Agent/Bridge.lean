import Catio.Agent.LocalFiles
import Catio.Agent.Provider
import Catio.Agent.Runtime
import Catio.Lib.Program
import Mathlib.Data.List.Induction

/-!
# What the engine of a turn talks to

The calls of the engine to the provider, the sink of the events, the router of the tools, the local
files and the runtime.  Clients call the turn at any time; each answer comes with their calls since
the call before it.  `RuntimeBridge` (`agent/bridge.rs`) waits on the channel of responses.
-/

namespace Agent

open Text Program

/-! ### Calls and answers -/

/-- A part of an answer of a provider that is shown before the answer is complete. -/
inductive Delta where
  | text (delta : Text)
  | thinking (delta : Text)
  deriving DecidableEq

inductive RoundEnd where
  | completed (result : Except ProviderError ProviderRound)
  | closed
  | cancelled

/-- How a wait for a response ends, after responses that do not match have been skipped. -/
inductive Wait where
  | received (skipped : ℕ) (response : ClientTurnResponse)
  | closed (skipped : ℕ)
  | cancelled (skipped : ℕ)
  | elapsed (skipped : ℕ)
  deriving DecidableEq

/-- What becomes of a file operation. -/
inductive FileOutcome where
  | done (value : Json.Value)
  | failed (error : Text)
  | interrupted

/-- The calls of the engine.  A round at the provider is started, which answers the deltas that
come before it ends, and ended. -/
inductive TurnCall where
  | isCancelled
  | isActive
  | toolSpecs
  | startRound (request : ProviderRequest)
  | endRound
  | emit (envelope : AgentEventEnvelope)
  | setExpected (expected : ExpectedResponse)
  | recvMatching (expected : ExpectedResponse)
  | dispatch (toolUseId ownerId name : Text) (input : Json.Value)
  | preview (input : FileInput)
  | execute (toolUseId name : Text) (input : Json.Value)

@[reducible]
def TurnCall.Answer : TurnCall → Type
  | .isCancelled => Bool
  | .isActive => Bool
  | .toolSpecs => List ToolSpec
  | .startRound _ => List Delta
  | .endRound => RoundEnd
  | .emit _ => Option AgentError
  | .setExpected _ => Unit
  | .recvMatching _ => Wait
  | .dispatch _ _ _ _ => Option ToolResult
  | .preview _ => Option Json.Value
  | .execute _ _ _ => FileOutcome

/-- An answer, with what clients have called before it. -/
@[reducible]
def TurnCall.Answered (c : TurnCall) : Type :=
  List ClientCall × c.Answer

/-- A call of the engine with its answer. -/
abbrev TurnStep :=
  Event TurnCall.Answered

/-- Sends the events of a turn with increasing numbers, and none after a terminal one. -/
structure SequenceEmitter where
  ownerId : Text
  conversationId : Text
  turnId : Text
  sequence : ℕ
  terminalEmitted : Bool
  deriving DecidableEq

abbrev TurnProgram :=
  Program TurnCall TurnCall.Answered SequenceEmitter AgentError

/-- Call the outside; the calls of clients are not seen. -/
def callOut (c : TurnCall) : TurnProgram c.Answer := do
  let answer ← ask c
  return answer.2

/-! ### Waiting for responses -/

namespace RuntimeBridge

def requestApproval (toolUseId : Text) : TurnProgram ApprovalDecision := do
  match ← callOut (.recvMatching (.approval toolUseId)) with
  | .received _ (.approvalDecision _ decision) => return decision
  | .received _ _ => fail (.turnStateConflict "wrong response kind")
  | .closed _ => fail .turnNotFound
  | .cancelled _ => fail .turnCancelled
  | .elapsed _ => fail .approvalTimeout

def executeTool (toolUseId : Text) : TurnProgram ToolExecutionOutcome := do
  match ← callOut (.recvMatching (.toolResult toolUseId)) with
  | .received _ (.toolExecutionResult _ outcome) => return outcome
  | .received _ _ => fail (.turnStateConflict "wrong response kind")
  | .closed _ => fail .turnNotFound
  | .cancelled _ => return ⟨"cancelled; outcome unknown", .outcomeUnknown⟩
  | .elapsed _ => fail .toolBridgeTimeout

end RuntimeBridge

/-! ### What the turn shares with the runtime -/

namespace ActiveTurn

def calls (t : ActiveTurn) (cs : List ClientCall) : ActiveTurn :=
  cs.foldl (fun t c => (t.call c).2) t

def did (t : ActiveTurn) : (c : TurnCall) → c.Answer → ActiveTurn
  | .setExpected expected, _ => { t with expected := expected }
  | .recvMatching _, .received skipped _ => { t with channel := t.channel.drop (skipped + 1) }
  | .recvMatching _, .closed skipped => { t with channel := t.channel.drop skipped }
  | .recvMatching _, .cancelled skipped => { t with channel := t.channel.drop skipped }
  | .recvMatching _, .elapsed skipped => { t with channel := t.channel.drop skipped }
  | _, _ => t

/-- The turn after calls of clients and an answered call of its engine. -/
def after (t : ActiveTurn) (e : TurnStep) : ActiveTurn :=
  (t.calls e.2.1).did e.1 e.2.2

def afterAll (t : ActiveTurn) (h : List TurnStep) : ActiveTurn :=
  h.foldl after t

/-- So many responses at the front of the channel do not match. -/
def Skips (t : ActiveTurn) (expected : ExpectedResponse) (skipped : ℕ) : Prop :=
  ∀ r ∈ t.channel.take skipped, ¬ expected.matches_ r

/-- What a call may answer, as far as the turn decides it. A wait skips what does not match and
receives the first response that does; the channels stay open as long as the engine runs. -/
def Explains (t : ActiveTurn) : (c : TurnCall) → c.Answer → Prop
  | .isCancelled, answer => answer = t.cancelled
  | .endRound, .cancelled => t.cancelled
  | .endRound, .closed => False
  | .recvMatching expected, .received skipped response =>
      t.Skips expected skipped ∧ t.channel[skipped]? = some response
        ∧ expected.matches_ response
  | .recvMatching expected, .cancelled skipped => t.Skips expected skipped ∧ t.cancelled
  | .recvMatching expected, .elapsed skipped => t.Skips expected skipped
  | .recvMatching _, .closed _ => False
  | _, _ => True

/-- The answers agree with what the turn shares with the runtime. -/
def Consistent (t : ActiveTurn) (before : List TurnStep) (e : TurnStep) : Prop :=
  ((t.afterAll before).calls e.2.1).Explains e.1 e.2.2

end ActiveTurn

end Agent

/-!
## Calls of clients

What a call of a client does to a turn, case by case (`responded`), and what calls and the steps
of the engine keep: the owner, the cancel token once it is set, and the responses that have been
consumed.
-/

namespace Agent

open Text

/-! ### Digests -/

theorem digest_approvalDecision (id : Text) (d : ApprovalDecision) :
  digest (.approvalDecision id d)
    = "\x7b\"type\":\"approvalDecision\",\"toolUseId\":"
      ++ (Json.quote id ++ (",\"decision\":" ++ (Json.quote d.toText ++ "\x7d")))
  := by
  simp only [digest, ClientTurnResponse.toJson, Json.Value.toText, Json.fieldTexts, Text.join]
  simp [Json.quote, Json.escapeChar]

theorem digest_toolExecutionResult (id : Text) (outcome : ToolExecutionOutcome) :
  digest (.toolExecutionResult id outcome)
    = "\x7b\"type\":\"toolExecutionResult\",\"toolUseId\":"
      ++ (Json.quote id ++ (",\"outcome\":\x7b\"content\":" ++ (Json.quote outcome.content
        ++ (",\"status\":" ++ (Json.quote outcome.status.toText ++ "\x7d\x7d")))))
  := by
  simp only [digest, ClientTurnResponse.toJson, Json.Value.toText, Json.fieldTexts, Text.join]
  simp [Json.quote, Json.escapeChar]

theorem ApprovalDecision.toText_inj {d d' : ApprovalDecision} (h : d.toText = d'.toText) :
  d = d'
  := by
  cases d <;> cases d' <;> first | rfl | exact absurd h (by decide)

theorem ToolExecutionStatus.toText_inj {d d' : ToolExecutionStatus} (h : d.toText = d'.toText) :
  d = d'
  := by
  cases d <;> cases d' <;> first | rfl | exact absurd h (by decide)

theorem digest_ne (id id' : Text) (d : ApprovalDecision) (outcome : ToolExecutionOutcome) :
  digest (.approvalDecision id d) ≠ digest (.toolExecutionResult id' outcome)
  := by
  rw [digest_approvalDecision, digest_toolExecutionResult]
  intro h
  have htake := congrArg (List.take 10) h
  rw [List.take_append_of_le_length (by decide), List.take_append_of_le_length (by decide)]
    at htake
  exact absurd htake (by decide)

theorem digest_inj {r r' : ClientTurnResponse} (h : digest r = digest r') :
  r = r'
  := by
  cases r with
  | approvalDecision id d =>
    cases r' with
    | approvalDecision id' d' =>
      rw [digest_approvalDecision, digest_approvalDecision] at h
      obtain ⟨hid, h₁⟩ := Json.quote_append_inj (List.append_cancel_left h)
      obtain ⟨hd, -⟩ := Json.quote_append_inj (List.append_cancel_left h₁)
      rw [hid, ApprovalDecision.toText_inj hd]
    | toolExecutionResult id' outcome => exact absurd h (digest_ne id id' d outcome)
  | toolExecutionResult id outcome =>
    cases r' with
    | approvalDecision id' d => exact absurd h.symm (digest_ne id' id d outcome)
    | toolExecutionResult id' outcome' =>
      rw [digest_toolExecutionResult, digest_toolExecutionResult] at h
      obtain ⟨hid, h₁⟩ := Json.quote_append_inj (List.append_cancel_left h)
      obtain ⟨hcontent, h₂⟩ := Json.quote_append_inj (List.append_cancel_left h₁)
      obtain ⟨hstatus, -⟩ := Json.quote_append_inj (List.append_cancel_left h₂)
      obtain ⟨content, status⟩ := outcome
      obtain ⟨content', status'⟩ := outcome'
      simp only at hcontent hstatus
      rw [hid, hcontent, ToolExecutionStatus.toText_inj hstatus]

namespace ActiveTurn

variable {t : ActiveTurn} {actor : ActorContext} {response r : ClientTurnResponse}
  {c : ClientCall} {cs : List ClientCall}

/-! ### Responses -/

def accept (t : ActiveTurn) (response : ClientTurnResponse) : ActiveTurn :=
  { t with
    consumed := (responseKey response, digest response) :: t.consumed
    channel := t.channel ++ [response] }

/-- What becomes of a response, and the turn after it. -/
inductive Responded (t : ActiveTurn) (actor : ActorContext) (response : ClientTurnResponse) :
    Except AgentError Unit → ActiveTurn → Prop where
  | stranger (howner : t.ownerId ≠ actor.ownerId) :
      Responded t actor response (.error .ownerMismatch) t
  | replayed (howner : t.ownerId = actor.ownerId)
      (hdone : t.consumed.lookup (responseKey response) = some (digest response)) :
      Responded t actor response (.ok ()) t
  | conflict (howner : t.ownerId = actor.ownerId) (other : Text) (hother : other ≠ digest response)
      (hdone : t.consumed.lookup (responseKey response) = some other) :
      Responded t actor response (.error .responseConflict) t
  | unexpected (howner : t.ownerId = actor.ownerId) (m : Text)
      (hnew : t.consumed.lookup (responseKey response) = none)
      (hmatches : t.expected.matches_ response = false) :
      Responded t actor response (.error (.turnStateConflict m)) t
  | accepted (howner : t.ownerId = actor.ownerId)
      (hnew : t.consumed.lookup (responseKey response) = none)
      (hmatches : t.expected.matches_ response) (hreceiving : t.receiving) :
      Responded t actor response (.ok ()) (t.accept response)
  | gone (howner : t.ownerId = actor.ownerId)
      (hnew : t.consumed.lookup (responseKey response) = none)
      (hmatches : t.expected.matches_ response) (hreceiving : t.receiving = false) :
      Responded t actor response (.error .turnNotFound)
        { t with consumed := (responseKey response, digest response) :: t.consumed }

theorem responded (t : ActiveTurn) (actor : ActorContext) (response : ClientTurnResponse) :
  Responded t actor response (t.respond actor response).1 (t.respond actor response).2
  := by
  unfold respond
  dsimp only
  split
  · rename_i howner
    exact .stranger howner
  · rename_i howner
    rw [not_not] at howner
    split
    · rename_i other hdone
      split_ifs with hsame
      · rw [hsame] at hdone
        exact .replayed howner hdone
      · exact .conflict howner other hsame hdone
    · rename_i hnew
      split_ifs with hmatches hreceiving
      · exact .accepted howner hnew hmatches hreceiving
      · rw [Bool.not_eq_true] at hreceiving
        exact .gone howner hnew hmatches hreceiving
      · rw [Bool.not_eq_true] at hmatches
        exact .unexpected howner _ hnew hmatches

/-! ### What is kept -/

/-- What no call of a client and no step of the engine takes back. -/
structure Grows (t t' : ActiveTurn) : Prop where
  owner : t'.ownerId = t.ownerId
  cancelled : t.cancelled → t'.cancelled
  receiving : t'.receiving = t.receiving
  consumed : ∀ key d, t.consumed.lookup key = some d → t'.consumed.lookup key = some d

theorem Grows.refl (t : ActiveTurn) :
  Grows t t
  := ⟨rfl, id, rfl, fun _ _ h => h⟩

theorem Grows.trans {t₁ t₂ t₃ : ActiveTurn} (h : Grows t₁ t₂) (h' : Grows t₂ t₃) :
  Grows t₁ t₃
  where
  owner := h'.owner.trans h.owner
  cancelled := h'.cancelled ∘ h.cancelled
  receiving := h'.receiving.trans h.receiving
  consumed key d hd := h'.consumed key d (h.consumed key d hd)

theorem lookup_consumed {consumed : List (Text × Text)} {key key' d d' : Text}
    (hnew : consumed.lookup key = none) (h : consumed.lookup key' = some d') :
  ((key, d) :: consumed).lookup key' = some d'
  := by
  have hne : key' ≠ key := by
    rintro rfl
    rw [hnew] at h
    cases h
  rw [List.lookup_cons, beq_false_of_ne hne]
  exact h

theorem grows_respond (t : ActiveTurn) (actor : ActorContext) (response : ClientTurnResponse) :
  Grows t (t.respond actor response).2
  := by
  have hcases := t.responded actor response
  generalize (t.respond actor response).1 = result at hcases
  generalize (t.respond actor response).2 = t' at hcases
  cases hcases with
  | accepted _ hnew => exact ⟨rfl, id, rfl, fun _ _ h => lookup_consumed hnew h⟩
  | gone _ hnew => exact ⟨rfl, id, rfl, fun _ _ h => lookup_consumed hnew h⟩
  | _ => exact .refl t

theorem consumed_of_ok (h : (t.respond actor response).1 = .ok ()) :
  (t.respond actor response).2.consumed.lookup (responseKey response) = some (digest response)
  := by
  have hcases := t.responded actor response
  generalize (t.respond actor response).1 = result at hcases h
  generalize (t.respond actor response).2 = t' at hcases
  cases hcases with
  | replayed _ hdone => exact hdone
  | accepted => exact List.lookup_cons_self
  | _ => cases h

theorem eq_of_ok {t' : ActiveTurn} {actor' : ActorContext}
    (h : (t.respond actor response).1 = .ok ()) (hlater : Grows (t.respond actor response).2 t')
    (h' : (t'.respond actor' r).1 = .ok ()) (hkey : responseKey response = responseKey r) :
  response = r
  := by
  have hdone := hlater.consumed _ _ (consumed_of_ok h)
  have hdone' := (t'.grows_respond actor' r).consumed _ _ hdone
  rw [hkey, consumed_of_ok h'] at hdone'
  exact (digest_inj (Option.some.inj hdone')).symm

theorem grows_call (t : ActiveTurn) (c : ClientCall) :
  Grows t (t.call c).2
  := by
  cases c with
  | respond actor response => exact t.grows_respond actor response
  | cancel actor =>
    rw [call, cancel]
    split
    · exact .refl t
    · exact ⟨rfl, fun _ => rfl, rfl, fun _ _ h => h⟩

theorem grows_calls (t : ActiveTurn) (cs : List ClientCall) :
  Grows t (t.calls cs)
  := by
  induction cs generalizing t with
  | nil => exact .refl t
  | cons c cs ih => exact (t.grows_call c).trans (ih _)

theorem grows_did (t : ActiveTurn) (c : TurnCall) (answer : c.Answer) :
  Grows t (t.did c answer)
  := by
  cases c with
  | setExpected expected => exact ⟨rfl, id, rfl, fun _ _ h => h⟩
  | recvMatching expected =>
    cases answer with
    | _ => exact ⟨rfl, id, rfl, fun _ _ h => h⟩
  | _ => exact .refl t

theorem grows_after (t : ActiveTurn) (e : TurnStep) :
  Grows t (t.after e)
  := (t.grows_calls e.2.1).trans (grows_did _ e.1 e.2.2)

theorem grows_afterAll (t : ActiveTurn) (h : List TurnStep) :
  Grows t (t.afterAll h)
  := by
  induction h generalizing t with
  | nil => exact .refl t
  | cons e h ih => exact (t.grows_after e).trans (ih _)

/-! ### Histories -/

@[simp]
theorem afterAll_append (t : ActiveTurn) (h h' : List TurnStep) :
  t.afterAll (h ++ h') = (t.afterAll h).afterAll h'
  := List.foldl_append

@[simp]
theorem afterAll_nil (t : ActiveTurn) : t.afterAll [] = t := rfl

@[simp]
theorem afterAll_cons (t : ActiveTurn) (e : TurnStep) (h : List TurnStep) :
  t.afterAll (e :: h) = (t.after e).afterAll h
  := rfl

theorem calls_append (t : ActiveTurn) (cs cs' : List ClientCall) :
  t.calls (cs ++ cs') = (t.calls cs).calls cs'
  := List.foldl_append

/-! ### The channel -/

/-- What is in the channel after calls was there before, or has been accepted from the owner
by one of the calls. -/
theorem mem_channel_calls (hr : r ∈ (t.calls cs).channel) :
  r ∈ t.channel ∨ ∃ cs₁ actor cs₂, cs = cs₁ ++ .respond actor r :: cs₂
    ∧ actor.ownerId = t.ownerId ∧ (t.calls cs₁).respond actor r = (.ok (), (t.calls cs₁).accept r)
    ∧ (t.calls cs₁).consumed.lookup (responseKey r) = none
  := by
  induction cs using List.reverseRecOn with
  | nil => exact .inl hr
  | append_singleton cs c ih =>
    rw [calls_append] at hr
    have hearlier : r ∈ (t.calls cs).channel → r ∈ t.channel ∨ ∃ cs₁ actor cs₂,
        cs ++ [c] = cs₁ ++ .respond actor r :: cs₂ ∧ actor.ownerId = t.ownerId
        ∧ (t.calls cs₁).respond actor r = (.ok (), (t.calls cs₁).accept r)
        ∧ (t.calls cs₁).consumed.lookup (responseKey r) = none := by
      intro hmem
      rcases ih hmem with hold | ⟨cs₁, actor, cs₂, rfl, hrest⟩
      · exact .inl hold
      · exact .inr ⟨cs₁, actor, cs₂ ++ [c], by simp, hrest⟩
    cases c with
    | cancel actor =>
      apply hearlier
      change r ∈ ((t.calls cs).cancel actor).2.channel at hr
      unfold cancel at hr
      split at hr
      · exact hr
      · exact hr
    | respond actor response =>
      have hcases := (t.calls cs).responded actor response
      change r ∈ ((t.calls cs).respond actor response).2.channel at hr
      obtain ⟨result, t', heq⟩ : ∃ result t',
          (t.calls cs).respond actor response = (result, t') := ⟨_, _, rfl⟩
      rw [heq] at hcases hr
      cases hcases with
      | accepted howner hnew =>
        change r ∈ (t.calls cs).channel ++ [response] at hr
        rw [List.mem_append, List.mem_singleton] at hr
        rcases hr with hold | rfl
        · exact hearlier hold
        · right
          refine ⟨cs, actor, [], rfl, ?_, heq, hnew⟩
          rw [← howner, (t.grows_calls cs).owner]
      | _ => exact hearlier hr

theorem mem_channel_did (t : ActiveTurn) (c : TurnCall) (answer : c.Answer)
    (hr : r ∈ (t.did c answer).channel) :
  r ∈ t.channel
  := by
  cases c with
  | recvMatching expected =>
    cases answer with
    | _ => exact List.mem_of_mem_drop hr
  | _ => exact hr

theorem mem_channel_afterAll {h : List TurnStep} (hr : r ∈ (t.afterAll h).channel) :
  r ∈ t.channel ∨ ∃ e ∈ h, ∃ actor, .respond actor r ∈ e.2.1
  := by
  induction h generalizing t with
  | nil => exact .inl hr
  | cons e h ih =>
    rcases ih hr with hfirst | ⟨e', he', hcall⟩
    · rcases mem_channel_calls (mem_channel_did _ _ _ hfirst) with
        hold | ⟨cs₁, actor, cs₂, hcs, -⟩
      · exact .inl hold
      · right
        refine ⟨e, List.mem_cons_self, actor, ?_⟩
        rw [hcs]
        simp
    · exact .inr ⟨e', List.mem_cons_of_mem e he', hcall⟩

/-! ### Places of calls -/

/-- In the history that the turn goes through, a client makes a call when the turn is `u`. -/
def CallAt (t : ActiveTurn) (h : List TurnStep) (u : ActiveTurn) (c : ClientCall) : Prop :=
  ∃ h₁ e h₂ cs₁ cs₂, h = h₁ ++ e :: h₂ ∧ e.2.1 = cs₁ ++ c :: cs₂
    ∧ u = (t.afterAll h₁).calls cs₁

theorem places {α : Type} {l a b a' b' : List α} {x x' : α} (h : l = a ++ x :: b)
    (h' : l = a' ++ x' :: b') :
  (a = a' ∧ x = x') ∨ (∃ m, a' = a ++ x :: m) ∨ (∃ m, a = a' ++ x' :: m)
  := by
  rw [h] at h'
  rcases List.append_eq_append_iff.mp h' with ⟨m, rfl, hm⟩ | ⟨m, rfl, hm⟩
  · cases m with
    | nil =>
      left
      simpa using (List.cons.inj hm).1
    | cons y m =>
      right
      left
      obtain ⟨rfl, -⟩ := List.cons.inj hm
      exact ⟨m, rfl⟩
  · cases m with
    | nil =>
      left
      simpa using (List.cons.inj hm).1.symm
    | cons y m =>
      right
      right
      obtain ⟨rfl, -⟩ := List.cons.inj hm
      exact ⟨m, rfl⟩

theorem grows_later {h₁ h₂ : List TurnStep} {e : TurnStep} {cs₁ cs₂ cs' : List ClientCall}
    (he : e.2.1 = cs₁ ++ c :: cs₂) :
  Grows (((t.afterAll h₁).calls cs₁).call c).2
    ((t.afterAll (h₁ ++ e :: h₂)).calls cs')
  := by
  rw [afterAll_append, afterAll_cons, after, he, calls_append]
  apply Grows.trans _ (grows_calls _ cs')
  apply Grows.trans _ (grows_afterAll _ h₂)
  apply Grows.trans _ (grows_did _ e.1 e.2.2)
  apply grows_calls

theorem CallAt.compare {h : List TurnStep} {u u' : ActiveTurn} {c' : ClientCall}
    (hc : t.CallAt h u c) (hc' : t.CallAt h u' c') (hne : c ≠ c') :
  Grows (u.call c).2 u' ∨ Grows (u'.call c').2 u
  := by
  obtain ⟨h₁, e, h₂, cs₁, cs₂, heq, he, rfl⟩ := hc
  obtain ⟨h₁', e', h₂', cs₁', cs₂', heq', he', rfl⟩ := hc'
  rcases places heq heq' with ⟨rfl, rfl⟩ | ⟨m, rfl⟩ | ⟨m, rfl⟩
  · rcases places he he' with ⟨-, hsame⟩ | ⟨m, rfl⟩ | ⟨m, rfl⟩
    · exact absurd hsame hne
    · left
      rw [calls_append]
      apply grows_calls
    · right
      rw [calls_append]
      apply grows_calls
  · left
    exact grows_later he
  · right
    exact grows_later he'

end ActiveTurn

end Agent
