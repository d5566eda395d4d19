import Catio.Agent.Engine.Live
import Catio.Agent.Engine.Progress
import Catio.Lib.Contract

/-!
# The engine keeps the protocol

Each step of the engine is one that the protocol takes, if the runtime answers as it does and
the sink takes each event; so a turn that is run follows the protocol, however it ends
(`turn_protocol`).  A denial closes the rounds behind it, but not the one that it is in.
-/

namespace Agent

open Text Program TurnEngine

/-! ### The outside -/

/-- The sink takes each event. -/
def Delivers : TurnStep → Prop
  | ⟨.emit _, _, answer⟩ => answer = none
  | _ => True

/-- The runtime answers as the turn decides it, and the sink does not fail. -/
structure Serves (ctx : TurnContext) (before : List TurnStep) (e : TurnStep) : Prop where
  consistent : (ActiveTurn.start ctx.ownerId).Consistent before e
  delivers : Delivers e

/-- The engine is where the protocol is, and its emitter counts what has been sent. -/
structure At (ctx : TurnContext) (p : Progress) (s : SequenceEmitter) (h : List TurnStep) :
    Prop where
  runs : Runs (Progress.Takes (roundCap ctx)) .start h p
  numbered : (envelopes h).map AgentEventEnvelope.sequence
    = List.range' 1 (envelopes h).length
  counted : s.sequence = (envelopes h).length
  ended : s.terminalEmitted = true ↔ p.stage = .ended

/-- The engine fails between tool uses. -/
def FailsIdle (ctx : TurnContext) (_ : AgentError) (s : SequenceEmitter) (h : List TurnStep) :
    Prop :=
  ∃ p, At ctx p s h ∧ p.stage = .idle

namespace Progress

/-- Tool uses may be proposed. -/
structure Open (p : Progress) : Prop where
  idle : p.stage = .idle
  notClosed : p.closed = false

/-- Tool uses have been proposed and ended. -/
def finishAll (p : Progress) (results : List ToolResult) : Progress :=
  results.foldl (fun p r => p.finish r.status) p

section

variable {p : Progress}

theorem Open.finish (hopen : p.Open) (status : ToolResultStatus) :
  (p.finish status).Open
  := ⟨rfl, hopen.notClosed⟩

theorem Open.finishAll (hopen : p.Open) (results : List ToolResult) :
  (p.finishAll results).Open
  := by
  induction results generalizing p with
  | nil => exact hopen
  | cons r results ih => exact ih (hopen.finish r.status)

@[simp]
theorem finishAll_rounds (p : Progress) (results : List ToolResult) :
  (p.finishAll results).rounds = p.rounds
  := by
  induction results generalizing p with
  | nil => rfl
  | cons r results ih => exact ih (p.finish r.status)

@[simp]
theorem finishAll_denied (p : Progress) (results : List ToolResult) :
  (p.finishAll results).denied = (p.denied || results.any fun r => r.status = .denied)
  := by
  induction results generalizing p with
  | nil => simp [finishAll]
  | cons r results ih =>
    change ((p.finish r.status).finishAll results).denied = _
    rw [ih, List.any_cons, ← Bool.or_assoc]
    rfl

end

end Progress

section

variable {ctx : TurnContext} {p p' : Progress} {s : SequenceEmitter} {h : List TurnStep}
  {event : AgentEvent} {c : TurnCall} {toolUse : ToolUse}
  {E : AgentError → SequenceEmitter → List TurnStep → Prop}

/-! ### Events and calls -/

theorem wpUnder_callOut {G : List TurnStep → TurnStep → Prop}
    {Q : c.Answer → SequenceEmitter → List TurnStep → Prop} :
  wpUnder G Q E (callOut c) s h
    ↔ ∀ r : c.Answered, G h ⟨c, r⟩ → Q r.2 s (h ++ [⟨c, r⟩])
  := Iff.rfl

theorem At.emit (hat : At ctx p s h) (hmoves : p.Moves (roundCap ctx) event p') :
  wpUnder (Serves ctx) (fun _ s' h' => At ctx p' s' h') E (emit event) s h
  := by
  have halive : s.terminalEmitted = false := by
    rw [← Bool.not_eq_true, hat.ended]
    apply hmoves.not_ended
  unfold Agent.emit
  rw [wpUnder_load_bind, halive]
  change wpUnder (Serves ctx) _ E (callOut (.emit (s.envelope event)) >>= _)
    { s with sequence := s.sequence + 1 } h
  rw [wpUnder_bind, wpUnder_callOut]
  rintro ⟨cs, answer⟩ hserves
  cases hserves.delivers
  have hsent : envelopes (h ++ [⟨.emit (s.envelope event), cs, none⟩])
      = envelopes h ++ [s.envelope event] := envelopes_snoc h _
  constructor
  · exact hat.runs.snoc (.event event rfl hmoves)
  · rw [hsent, List.map_append, hat.numbered, List.length_append, List.length_singleton,
      List.range'_concat, ← hat.counted]
    simp [SequenceEmitter.envelope, hat.counted, Nat.add_comm]
  · rw [hsent, List.length_append, ← hat.counted]
    rfl
  · apply hmoves.terminal

theorem At.call (hat : At ctx p s h) (hquiet : ∀ answer, sent ⟨c, answer⟩ = none)
    (hproposed : ∀ answer, (dispatched ⟨c, answer⟩).isSome →
      ∃ toolUseId, p.stage = .proposed toolUseId) :
  wpUnder (Serves ctx) (fun r s' h' => At ctx p s' h' ∧ ∃ cs, Serves ctx h ⟨c, cs, r⟩) E
    (callOut c) s h
  := by
  rw [wpUnder_callOut]
  rintro ⟨cs, answer⟩ hserves
  refine ⟨?_, cs, hserves⟩
  have hsent : envelopes (h ++ [⟨c, cs, answer⟩]) = envelopes h := by
    rw [envelopes_snoc, hquiet]
    simp
  constructor
  · apply hat.runs.snoc
    apply Progress.Takes.call _ (hproposed _) rfl
    rw [emitted_eq, hquiet]
    rfl
  · rw [hsent]
    exact hat.numbered
  · rw [hsent]
    exact hat.counted
  · exact hat.ended

theorem At.call_quiet (hat : At ctx p s h) (hquiet : ∀ answer, sent ⟨c, answer⟩ = none)
    (hnone : ∀ answer, dispatched ⟨c, answer⟩ = none) :
  wpUnder (Serves ctx) (fun r s' h' => At ctx p s' h' ∧ ∃ cs, Serves ctx h ⟨c, cs, r⟩) E
    (callOut c) s h
  := by
  apply hat.call hquiet
  intro answer hsome
  rw [hnone] at hsome
  cases hsome

theorem At.call_plain (hat : At ctx p s h) (hplain : c.plain) :
  wpUnder (Serves ctx) (fun _ s' h' => At ctx p s' h') E (callOut c) s h
  := by
  apply wpUnder_mono (hat.call_quiet (E := E) _ _)
  · intro _ _ _ hafter
    exact hafter.1
  · intro _ _ _ herror
    exact herror
  · intro answer
    cases c with
    | emit envelope => cases hplain
    | _ => rfl
  · intro answer
    exact dispatched_of_plain hplain

/-! ### Waiting -/

theorem requestApproval_at (hat : At ctx p s h) :
  wpUnder (Serves ctx) (fun _ s' h' => At ctx p s' h')
    (fun e s' h' => At ctx p s' h' ∧ (e = .turnCancelled ∨ e = .approvalTimeout))
    (RuntimeBridge.requestApproval toolUse.id) s h
  := by
  apply wpUnder_seq (hat.call_quiet (fun _ => rfl) fun _ => rfl)
  rintro answer s' h' ⟨hat', cs, hserves⟩
  cases answer with
  | received skipped response =>
    obtain ⟨-, -, hmatches⟩ := hserves.consistent
    cases response with
    | approvalDecision id decision => exact hat'
    | toolExecutionResult id outcome => cases hmatches
  | closed skipped => exact hserves.consistent.elim
  | cancelled skipped => exact ⟨hat', .inl rfl⟩
  | elapsed skipped => exact ⟨hat', .inr rfl⟩

theorem executeTool_at (hat : At ctx p s h) :
  wpUnder (Serves ctx) (fun _ s' h' => At ctx p s' h')
    (fun e s' h' => At ctx p s' h' ∧ e = .toolBridgeTimeout)
    (RuntimeBridge.executeTool toolUse.id) s h
  := by
  apply wpUnder_seq (hat.call_quiet (fun _ => rfl) fun _ => rfl)
  rintro answer s' h' ⟨hat', cs, hserves⟩
  cases answer with
  | received skipped response =>
    obtain ⟨-, -, hmatches⟩ := hserves.consistent
    cases response with
    | approvalDecision id decision => cases hmatches
    | toolExecutionResult id outcome => exact hat'
  | closed skipped => exact hserves.consistent.elim
  | cancelled skipped => exact hat'
  | elapsed skipped => exact ⟨hat', rfl⟩

/-! ### The transitions of a tool -/

theorem At.emit_within (hat : At ctx (p.propose toolUse.id) s h)
    (hevent : event.within = some toolUse.id) :
  wpUnder (Serves ctx) (fun _ s' h' => At ctx (p.propose toolUse.id) s' h') E
    (Agent.emit event) s h
  := hat.emit (.within event _ rfl hevent)

variable {status : ToolResultStatus} {messageId : Text} {content : Text} {l : Loop}

theorem finish_at (hat : At ctx (p.propose toolUse.id) s h) :
  wpUnder (Serves ctx) (fun r s' h' => At ctx (p.finish r.status) s' h') E
    (finish toolUse status content) s h
  := by
  apply wpUnder_seq (hat.emit (.finished toolUse.id _ rfl))
  intro _ s' h' hat'
  exact hat'

theorem cancel_at (hat : At ctx (p.propose toolUse.id) s h) :
  wpUnder (Serves ctx) (fun (r : ToolResult) s' h' => At ctx (p.finish r.status) s' h')
    (FailsIdle ctx) (do let _ ← finish toolUse status content; fail .turnCancelled) s h
  := by
  apply wpUnder_seq (finish_at hat)
  intro r s' h' hat'
  exact ⟨_, hat', rfl⟩

theorem propose_at {name : Text} {input : Json.Value} {risk : List Text} (hat : At ctx p s h)
    (hopen : p.Open) :
  wpUnder (Serves ctx) (fun _ s' h' => At ctx (p.propose toolUse.id) s' h') E
    (Agent.emit (.toolProposed toolUse.id name input risk)) s h
  := hat.emit (.proposed toolUse.id name input risk hopen.idle hopen.notClosed)

theorem refuse_at (hat : At ctx p s h) (hopen : p.Open) :
  wpUnder (Serves ctx) (fun r s' h' => At ctx (p.finish r.status) s' h') E
    (refuse toolUse status content) s h
  := by
  apply wpUnder_seq (propose_at hat hopen)
  intro _ s' h' hat'
  exact finish_at hat'

theorem route_at (hat : At ctx p s h) (hopen : p.Open) :
  wpUnder (Serves ctx) (fun r s' h' => At ctx (p.finish r.status) s' h') E
    (route ctx toolUse) s h
  := by
  apply wpUnder_seq (propose_at hat hopen)
  intro _ s₁ h₁ hat₁
  apply wpUnder_seq (R := fun _ s' h' => At ctx (p.propose toolUse.id) s' h')
  · unfold TurnEngine.dispatch
    rw [wpUnder_ite]
    constructor
    · intro _
      apply wpUnder_mono (hat₁.call (fun _ => rfl) fun _ _ => ⟨toolUse.id, rfl⟩)
      · intro _ _ _ hafter
        exact hafter.1
      · intro _ _ _ herror
        exact herror
    · intro _
      exact hat₁
  · intro answer s₂ h₂ hat₂
    apply wpUnder_seq (hat₂.emit (.finished toolUse.id _ rfl))
    intro _ s₃ h₃ hat₃
    exact hat₃

theorem runLocal_at (hat : At ctx (p.propose toolUse.id) s h) :
  wpUnder (Serves ctx) (fun r s' h' => At ctx (p.finish r.status) s' h') (FailsIdle ctx)
    (runLocal toolUse) s h
  := by
  apply wpUnder_seq (hat.call_plain rfl)
  intro _ s₁ h₁ hat₁
  apply wpUnder_seq (hat₁.call_plain rfl)
  intro cancelled s₂ h₂ hat₂
  rw [wpUnder_ite]
  constructor
  · intro _
    exact cancel_at hat₂
  · intro _
    apply wpUnder_seq (hat₂.emit_within rfl)
    intro _ s₃ h₃ hat₃
    apply wpUnder_seq (hat₃.call (fun _ => rfl) fun _ _ => ⟨toolUse.id, rfl⟩)
    rintro outcome s₄ h₄ ⟨hat₄, -⟩
    exact finish_at hat₄

theorem runTerminal_at (hat : At ctx (p.propose toolUse.id) s h) :
  wpUnder (Serves ctx) (fun r s' h' => At ctx (p.finish r.status) s' h') (FailsIdle ctx)
    (runTerminal ctx toolUse) s h
  := by
  apply wpUnder_seq (hat.call_plain rfl)
  intro _ s₁ h₁ hat₁
  apply wpUnder_seq (hat₁.emit_within rfl)
  intro _ s₂ h₂ hat₂
  apply wpUnder_seq (hat₂.emit_within rfl)
  intro _ s₃ h₃ hat₃
  apply wpUnder_attempt_seq (executeTool_at hat₃)
  · intro outcome s₄ h₄ hat₄
    exact finish_at hat₄
  · rintro _ s₄ h₄ ⟨hat₄, rfl⟩
    exact finish_at hat₄

theorem runTool_at (hat : At ctx (p.propose toolUse.id) s h) :
  wpUnder (Serves ctx) (fun r s' h' => At ctx (p.finish r.status) s' h') (FailsIdle ctx)
    (runTool ctx toolUse) s h
  := by
  unfold runTool
  rw [wpUnder_ite]
  constructor
  · intro _
    exact runLocal_at hat
  · intro _
    exact runTerminal_at hat

theorem approve_at {reason : Text} (hat : At ctx (p.propose toolUse.id) s h) :
  wpUnder (Serves ctx) (fun r s' h' => At ctx (p.finish r.status) s' h') (FailsIdle ctx)
    (approve ctx toolUse reason) s h
  := by
  apply wpUnder_seq (hat.call_plain rfl)
  intro _ s₁ h₁ hat₁
  apply wpUnder_seq (hat₁.emit_within rfl)
  intro _ s₂ h₂ hat₂
  apply wpUnder_attempt_seq (requestApproval_at hat₂)
  · intro answer s₃ h₃ hat₃
    cases answer with
    | allow => exact runTool_at hat₃
    | deny => exact finish_at hat₃
  · rintro _ s₃ h₃ ⟨hat₃, rfl | rfl⟩
    · exact cancel_at hat₃
    · exact finish_at hat₃

theorem filesActive_at (hat : At ctx p s h) :
  wpUnder (Serves ctx) (fun _ s' h' => At ctx p s' h') E (filesActive ctx) s h
  := by
  unfold filesActive
  split
  · exact hat
  · apply wpUnder_mono (hat.call_quiet (E := E) (fun _ => rfl) fun _ => rfl)
    · intro _ _ _ hafter
      exact hafter.1
    · intro _ _ _ herror
      exact herror

section

variable [Regex]

theorem admit_at {fileInput : Option FileInput} (hat : At ctx p s h) (hopen : p.Open) :
  wpUnder (Serves ctx) (fun r s' h' => At ctx (p.finish r.status) s' h') (FailsIdle ctx)
    (admit_ ctx toolUse fileInput) s h
  := by
  apply wpUnder_seq (R := fun _ s' h' => At ctx p s' h')
  · unfold proposedInput
    split
    · exact hat
    · rw [wpUnder_ite]
      constructor
      · intro _
        exact hat
      · intro _
        apply wpUnder_seq (hat.call_plain rfl)
        intro _ _ _ hat'
        exact hat'
  · intro input s₁ h₁ hat₁
    split
    · exact refuse_at hat₁ hopen
    · apply wpUnder_seq (propose_at hat₁ hopen)
      intro _ s₂ h₂ hat₂
      exact runTool_at hat₂
    · apply wpUnder_seq (propose_at hat₁ hopen)
      intro _ s₂ h₂ hat₂
      exact approve_at hat₂

theorem processTool_at {allowedNames : Option (List Text)} (hat : At ctx p s h) (hopen : p.Open) :
  wpUnder (Serves ctx) (fun r s' h' => At ctx (p.finish r.status) s' h') (FailsIdle ctx)
    (processTool ctx allowedNames toolUse) s h
  := by
  apply wpUnder_seq (filesActive_at hat)
  intro active s₁ h₁ hat₁
  rw [wpUnder_ite]
  constructor
  · intro _
    exact refuse_at hat₁ hopen
  · intro _
    rw [wpUnder_ite]
    constructor
    · intro _
      exact route_at hat₁ hopen
    · intro _
      split
      · exact refuse_at hat₁ hopen
      · exact admit_at hat₁ hopen

theorem processTools_at {allowedNames : Option (List Text)} :
  ∀ (toolUses : List ToolUse) (p : Progress) (s : SequenceEmitter) (h : List TurnStep),
    At ctx p s h → p.Open →
    wpUnder (Serves ctx) (fun results s' h' => At ctx (p.finishAll results) s' h')
      (FailsIdle ctx) (processTools ctx allowedNames toolUses) s h
  | [], _, _, _, hat, _ => hat
  | toolUse :: toolUses, p, s, h, hat, hopen => by
      apply wpUnder_seq (processTool_at hat hopen)
      intro r s₁ h₁ hat₁
      apply wpUnder_seq (processTools_at toolUses _ s₁ h₁ hat₁ (hopen.finish r.status))
      intro results s₂ h₂ hat₂
      exact hat₂

end

/-! ### Rounds -/

theorem At.emit_aside (hat : At ctx p s h) (hidle : p.stage = .idle) (hevent : event.aside) :
  wpUnder (Serves ctx) (fun _ s' h' => At ctx p s' h') E (Agent.emit event) s h
  := hat.emit (.aside event hidle hevent)

theorem emitDeltas_at (hidle : p.stage = .idle) :
  ∀ (deltas : List Delta) (s : SequenceEmitter) (h : List TurnStep), At ctx p s h →
    wpUnder (Serves ctx) (fun _ s' h' => At ctx p s' h') E (emitDeltas messageId deltas) s h
  | [], _, _, hat => hat
  | delta :: deltas, s, h, hat => by
      have haside : (deltaEvent messageId delta).aside := by
        cases delta with
        | text delta => rfl
        | thinking delta => rfl
      apply wpUnder_seq (hat.emit_aside hidle haside)
      intro _ s₁ h₁ hat₁
      exact emitDeltas_at hidle deltas s₁ h₁ hat₁

theorem completeRoundLive_at {request : ProviderRequest} (hat : At ctx p s h)
    (hidle : p.stage = .idle) :
  wpUnder (Serves ctx) (fun _ s' h' => At ctx p s' h') (FailsIdle ctx)
    (completeRoundLive messageId request) s h
  := by
  apply wpUnder_seq (hat.call_quiet (fun _ => rfl) fun _ => rfl)
  rintro deltas s₁ h₁ ⟨hat₁, -⟩
  apply wpUnder_seq (emitDeltas_at hidle deltas s₁ h₁ hat₁)
  intro _ s₂ h₂ hat₂
  apply wpUnder_seq (hat₂.call_quiet (fun _ => rfl) fun _ => rfl)
  rintro result s₃ h₃ ⟨hat₃, -⟩
  cases result with
  | completed result => exact hat₃
  | closed => exact ⟨p, hat₃, hidle⟩
  | cancelled => exact ⟨p, hat₃, hidle⟩

theorem askProvider_at {files : Bool} {tools : List ToolSpec} (hat : At ctx p s h)
    (hidle : p.stage = .idle) :
  wpUnder (Serves ctx) (fun _ s' h' => At ctx p s' h') (FailsIdle ctx)
    (askProvider ctx l files tools) s h
  := by
  apply wpUnder_seq (completeRoundLive_at hat hidle)
  intro result s₁ h₁ hat₁
  split
  · exact hat₁
  · rw [wpUnder_ite]
    constructor
    · intro _
      apply wpUnder_seq (hat₁.emit_aside hidle rfl)
      intro _ s₂ h₂ hat₂
      apply wpUnder_seq (completeRoundLive_at hat₂ hidle)
      intro result s₃ h₃ hat₃
      cases result with
      | ok answer => exact hat₃
      | error e => exact ⟨p, hat₃, hidle⟩
    · intro _
      exact ⟨p, hat₁, hidle⟩
  · exact ⟨p, hat₁, hidle⟩

theorem reportRound_at {answer : ProviderRound} (hat : At ctx p s h) (hidle : p.stage = .idle) :
  wpUnder (Serves ctx) (fun _ s' h' => At ctx p s' h') E (reportRound messageId answer) s h
  := by
  apply wpUnder_seq (hat.emit_aside hidle rfl)
  intro _ s₁ h₁ hat₁
  split
  · exact hat₁.emit_aside hidle rfl
  · exact hat₁

theorem advertisedTools_at {files : Bool} (hat : At ctx p s h) :
  wpUnder (Serves ctx) (fun _ s' h' => At ctx p s' h') E (advertisedTools ctx l files) s h
  := by
  unfold advertisedTools
  rw [wpUnder_ite]
  constructor
  · intro _
    exact hat
  · intro _
    apply wpUnder_seq (R := fun _ s' h' => At ctx p s' h')
    · unfold routedTools
      rw [wpUnder_ite]
      constructor
      · intro _
        exact hat.call_plain rfl
      · intro _
        exact hat
    · intro _ _ _ hat'
      exact hat'

theorem end_at (hat : At ctx p s h) (hidle : p.stage = .idle) (hevent : event.terminal) :
  wpUnder (Serves ctx) (fun _ s' h' => ∃ p', At ctx p' s' h' ∧ p'.stage = .ended) E
    (emit event) s h
  := by
  apply wpUnder_mono (hat.emit (E := E) (.ended event hidle hevent))
  · intro _ _ _ hat'
    exact ⟨_, hat', rfl⟩
  · intro _ _ _ herror
    exact herror

structure InStep (l : Loop) (p : Progress) : Prop where
  opened : p.Open
  rounds : p.rounds = l.usedRounds
  denied : p.denied = l.finalSynthesis

theorem toolsToProcess_open {legacyMode : Bool} {message : AgentMessage} {uses : List ToolUse}
    (hok : toolsToProcess ctx l legacyMode message = .ok uses) (hne : uses ≠ []) :
  l.finalSynthesis = false
  := by
  obtain ⟨-, rfl⟩ | ⟨hopen, -⟩ := toolsToProcess_ok hok
  · exact absurd rfl hne
  · exact hopen

section

variable [Regex]

theorem round_at {l : Loop} (hat : At ctx p s h) (hloop : InStep l p) :
  wpUnder (Serves ctx)
    (fun next s' h' => ∃ p', At ctx p' s' h' ∧ p'.stage = .idle
      ∧ ∀ l', next = some l' → InStep l' p')
    (FailsIdle ctx) (round ctx (l.next ctx)) s h
  := by
  have hidle := hloop.opened.idle
  apply wpUnder_seq (R := fun _ s' h' => At ctx p s' h')
  · apply wpUnder_seq (filesActive_at hat)
    intro _ _ _ hat'
    exact hat'
  · intro files s₁ h₁ hat₁
    apply wpUnder_seq (advertisedTools_at hat₁)
    intro tools s₂ h₂ hat₂
    have hstart : p.Moves (roundCap ctx) (.assistantMessageStarted (messageId ctx (l.next ctx))
        ((l.next ctx).usedRounds - 1)) (p.count (roundCap ctx)) := by
      have hround : (l.next ctx).usedRounds - 1 = p.rounds := hloop.rounds.symm
      rw [hround]
      exact .counted _ hidle hloop.opened.notClosed
    apply wpUnder_seq (hat₂.emit hstart)
    intro _ s₃ h₃ hat₃
    -- The round is closed for tools exactly if it is the final synthesis.
    have hclosed : (p.count (roundCap ctx)).closed = (l.next ctx).finalSynthesis := by
      rw [Progress.count, hloop.rounds, hloop.denied]
      rfl
    apply wpUnder_seq (askProvider_at hat₃ hidle)
    rintro ⟨answer, legacyMode⟩ s₄ h₄ hat₄
    apply wpUnder_seq (reportRound_at hat₄ hidle)
    intro _ s₅ h₅ hat₅
    cases huses : toolsToProcess ctx (l.next ctx) legacyMode answer.message with
    | error e => exact ⟨_, hat₅, hidle⟩
    | ok uses =>
      change wpUnder _ _ _ (if uses = [] then _ else _) s₅ h₅
      rw [wpUnder_ite]
      constructor
      · intro _
        refine ⟨_, hat₅, hidle, ?_⟩
        intro _ hnone
        cases hnone
      · intro hne
        have hfinal := toolsToProcess_open huses hne
        rw [hfinal] at hclosed
        have hopen : (p.count (roundCap ctx)).Open := ⟨hidle, hclosed⟩
        apply wpUnder_seq (processTools_at uses _ s₅ h₅ hat₅ hopen)
        intro results s₆ h₆ hat₆
        refine ⟨_, hat₆, (hopen.finishAll results).idle, ?_⟩
        rintro _ ⟨⟩
        have hdenied : p.denied = (l.next ctx).finalSynthesis := by
          rw [hfinal, hloop.denied]
          simp only [Loop.next, Bool.or_eq_false_iff] at hfinal
          exact hfinal.1
        constructor
        · exact hopen.finishAll results
        · rw [Progress.finishAll_rounds]
          exact congrArg (· + 1) hloop.rounds
        · rw [Progress.finishAll_denied, Loop.processed, ← hdenied]
          rfl

theorem rounds_at :
  ∀ (fuel : ℕ) (l : Loop) (p : Progress) (s : SequenceEmitter) (h : List TurnStep),
    At ctx p s h → InStep l p →
    wpUnder (Serves ctx) (fun _ s' h' => ∃ p', At ctx p' s' h' ∧ p'.stage = .idle)
      (FailsIdle ctx) (rounds ctx fuel l) s h
  | 0, _, p, _, _, hat, hloop => ⟨p, hat, hloop.opened.idle⟩
  | fuel + 1, l, p, s, h, hat, hloop => by
      apply wpUnder_seq (hat.call_plain rfl)
      intro cancelled s₁ h₁ hat₁
      rw [wpUnder_ite]
      constructor
      · intro _
        exact ⟨p, hat₁, hloop.opened.idle⟩
      · intro _
        apply wpUnder_seq (round_at hat₁ hloop)
        rintro next s₂ h₂ ⟨p', hat₂, hidle, hnext⟩
        cases next with
        | none => exact ⟨p', hat₂, hidle⟩
        | some l' => exact rounds_at fuel l' p' s₂ h₂ hat₂ (hnext l' rfl)

theorem run_at :
  wpUnder (Serves ctx) (fun _ s' h' => ∃ p', At ctx p' s' h' ∧ p'.stage = .ended)
    (fun _ s' h' => ∃ p', At ctx p' s' h' ∧ p'.stage = .ended)
    (TurnEngine.run ctx) (.new ctx) []
  := by
  have hstart : At ctx .start (.new ctx) [] := by
    refine ⟨.start, rfl, rfl, ?_⟩
    simp [Progress.start, SequenceEmitter.new]
  apply wpUnder_seq (hstart.emit (.started rfl))
  intro _ s₁ h₁ hat₁
  have hloop : InStep (Loop.start ctx) { Progress.start with stage := .idle } :=
    ⟨⟨rfl, rfl⟩, rfl, rfl⟩
  apply wpUnder_attempt_seq (rounds_at _ _ _ s₁ h₁ hat₁ hloop)
  · rintro _ s₂ h₂ ⟨p, hat₂, hidle⟩
    exact end_at hat₂ hidle rfl
  · rintro e s₂ h₂ ⟨p, hat₂, hidle⟩
    have hfailed : ∀ event : AgentEvent, event.terminal →
        wpUnder (Serves ctx) (fun _ s' h' => ∃ p', At ctx p' s' h' ∧ p'.stage = .ended)
          (fun _ s' h' => ∃ p', At ctx p' s' h' ∧ p'.stage = .ended)
          (do emit event; fail e : TurnProgram Unit) s₂ h₂ := by
      intro event hterminal
      apply wpUnder_seq (end_at hat₂ hidle hterminal)
      intro _ _ _ hafter
      exact hafter
    cases e with
    | turnCancelled => exact hfailed _ rfl
    | _ => exact hfailed _ rfl

/-- A turn follows the protocol, whatever the provider answers, whatever the clients submit and
whenever they cancel it. -/
theorem turn_protocol (ctx : TurnContext) (outside : Outside TurnCall.Answered)
    (hconsistent : Always (ActiveTurn.start ctx.ownerId).Consistent (history ctx outside))
    (hsink : ∀ e ∈ history ctx outside, Delivers e) :
  TurnProtocol (roundCap ctx) (history ctx outside)
  := by
  have hserves : Always (Serves ctx) (history ctx outside) := by
    intro before e after heq
    constructor
    · exact hconsistent before e after heq
    · apply hsink
      rw [heq]
      simp
  have hrun := wpUnder_run outside run_at hserves
  have hend : ∃ p s, At ctx p s (history ctx outside) ∧ p.stage = .ended := by
    unfold history
    split at hrun
    · rename_i heq
      rw [heq]
      obtain ⟨p, hat, hended⟩ := hrun
      exact ⟨p, _, hat, hended⟩
    · rename_i heq
      rw [heq]
      obtain ⟨p, hat, hended⟩ := hrun
      exact ⟨p, _, hat, hended⟩
  obtain ⟨p, s, hat, hended⟩ := hend
  exact Progress.protocol hat.runs hended hat.numbered

/-! ### The number of rounds -/

end

end

/-! ### Runs -/

theorem Script.delivers [Regex] (script : Script) (ctx : TurnContext) :
  ∀ e ∈ history ctx (script.outside ctx.ownerId), Delivers e
  := by
  intro e he
  obtain ⟨before, after, heq⟩ := List.append_of_mem he
  have hanswer := run_answers (script.outside ctx.ownerId) (p := TurnEngine.run ctx)
    (s := .new ctx) always_nil before e after heq
  obtain ⟨c, answer⟩ := e
  cases c with
  | emit envelope =>
    change answer = script.outside ctx.ownerId before (.emit envelope) at hanswer
    subst hanswer
    rfl
  | _ => trivial

/-- A round with two sensitive commands, of which the first is denied and the second allowed. -/
def deniedRound : Script where
  answers := [.ok (answerWith [terminalUse "call-1" "rm a", terminalUse "call-2" "rm b"])]
  clients := fun n =>
    if n = 9 then [.respond ⟨"owner"⟩ (.approvalDecision "call-1" .deny)]
    else if n = 14 then [.respond ⟨"owner"⟩ (.approvalDecision "call-2" .allow)]
    else []
  active := false
  specs := []
  dispatch := fun _ => none

def deniedHistory : List TurnStep :=
  @history rmRisk (terminalTurn .ask none) (deniedRound.outside "owner")

/-- A run with a denial follows the protocol. -/
theorem turn_protocol_denied :
  TurnProtocol (roundCap (terminalTurn .ask none)) deniedHistory
  := by
  apply @turn_protocol rmRisk
  · exact @Script.consistent rmRisk _ _
  · exact @Script.delivers rmRisk _ _

/-- No tool use is dispatched behind a denial. -/
def NoneAfterDenial (h : List TurnStep) : Prop :=
  ∀ pre d post, h = pre ++ d :: post → Denies d → ∀ e ∈ post, dispatched e = none

/-- The second command of the round runs behind the denial of the first. -/
theorem dispatch_after_denial :
  ¬ ∀ (_ : Regex) (ctx : TurnContext) (outside : Outside TurnCall.Answered),
    Always (ActiveTurn.start ctx.ownerId).Consistent (history ctx outside) →
      (∀ e ∈ history ctx outside, Delivers e) →
        TurnProtocol (roundCap ctx) (history ctx outside)
          ∧ NoneAfterDenial (history ctx outside)
  := by
  intro hall
  obtain ⟨-, hnone⟩ := hall rmRisk (terminalTurn .ask none) (deniedRound.outside "owner")
    (@Script.consistent rmRisk deniedRound _) (@Script.delivers rmRisk deniedRound _)
  change NoneAfterDenial deniedHistory at hnone
  obtain ⟨d, hd, hdenied⟩ : ∃ d, deniedHistory[10]? = some d ∧ Denies d :=
    ⟨_, rfl, _, _, rfl, rfl⟩
  obtain ⟨e, he, hsome⟩ : ∃ e, deniedHistory[16]? = some e ∧ dispatched e
      = some ⟨"call-2", TERMINAL_EXEC, .object [("command", .string "rm b")]⟩ := ⟨_, rfl, rfl⟩
  have hmem : e ∈ deniedHistory.drop 11 := by
    apply List.mem_of_getElem? (i := 5)
    rw [List.getElem?_drop]
    exact he
  rw [hnone _ d _ (split_at_step hd) hdenied e hmem] at hsome
  cases hsome

end Agent
