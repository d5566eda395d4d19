import Catio.Agent.Engine.Live
import Catio.Agent.Engine.Steps
import Catio.Agent.Provider.Transcript

/-!
# The conversation that a turn goes on

Each request of a turn goes on the conversation with the answers of the rounds before it, each
with the results of its tool uses (`run_sends`).  On the wire a request is well formed if the
conversation is, and if each answer before it has tool uses that its provider tells apart and no
command that is read off its text (`requests_well_formed`).
-/

namespace Agent

open Text Program TurnEngine

/-! ### Steps -/

def requested : TurnStep → Option ProviderRequest
  | ⟨.startRound request, _⟩ => some request
  | _ => none

def answered : TurnStep → Option ProviderRound
  | ⟨.endRound, _, .completed (.ok answer)⟩ => some answer
  | _ => none

/-- The event does not activate the fallback. -/
def AgentEvent.quiet : AgentEvent → Bool
  | .compatibilityFallbackActivated _ _ => false
  | _ => true

/-- The call neither asks the provider nor activates the fallback. -/
def TurnCall.quiet : TurnCall → Bool
  | .startRound _ => false
  | .emit envelope => envelope.event.quiet
  | _ => true

/-- Only quiet steps come in addition. -/
def Quietly (h₀ h : List TurnStep) : Prop :=
  ∃ es, h = h₀ ++ es ∧ ∀ e ∈ es, e.1.quiet

/-- Also after a failure. -/
def FailsQuietly (h₀ : List TurnStep) (_ : AgentError) (_ : SequenceEmitter)
    (h : List TurnStep) : Prop :=
  Quietly h₀ h

section

variable {h₀ h : List TurnStep} {e : TurnStep} {c : TurnCall} {s : SequenceEmitter}
  {event : AgentEvent} {toolUse : ToolUse} {ctx : TurnContext} {x : Seen}
  {E : AgentError → SequenceEmitter → List TurnStep → Prop}

theorem Quietly.refl (h : List TurnStep) :
  Quietly h h
  := ⟨[], by simp, nofun⟩

theorem Quietly.trans {h' : List TurnStep} (hq : Quietly h₀ h) (hq' : Quietly h h') :
  Quietly h₀ h'
  := by
  obtain ⟨es, rfl, hes⟩ := hq
  obtain ⟨es', rfl, hes'⟩ := hq'
  refine ⟨es ++ es', by simp, ?_⟩
  exact List.forall_mem_append.mpr ⟨hes, hes'⟩

theorem Quietly.snoc (hq : Quietly h₀ h) (he : e.1.quiet) :
  Quietly h₀ (h ++ [e])
  := by
  apply hq.trans
  refine ⟨[e], rfl, ?_⟩
  intro e' he'
  rw [List.mem_singleton] at he'
  rw [he']
  exact he

theorem requested_of_quiet (he : e.1.quiet) :
  requested e = none
  := by
  obtain ⟨c, answer⟩ := e
  cases c with
  | startRound request => cases he
  | _ => rfl

theorem observe_legacy_of_quiet (he : e.1.quiet) :
  (x.observe e).legacy = x.legacy
  := by
  obtain ⟨c, cs, answer⟩ := e
  cases c with
  | startRound request => cases he
  | emit envelope =>
    change (x.observeEvent envelope.event).legacy = _
    change envelope.event.quiet at he
    generalize envelope.event = event at he ⊢
    cases event with
    | compatibilityFallbackActivated => cases he
    | _ => rfl
  | endRound =>
    cases answer with
    | completed result =>
      cases result with
      | _ => rfl
    | _ => rfl
  | _ => rfl

theorem Quietly.legacy (hq : Quietly h₀ h) :
  (seen h).legacy = (seen h₀).legacy
  := by
  obtain ⟨es, rfl, hes⟩ := hq
  induction es using List.reverseRecOn with
  | nil => simp
  | append_singleton es e ih =>
    rw [← List.append_assoc, seen_snoc, observe_legacy_of_quiet (hes e (by simp))]
    exact ih fun e' he' => hes e' (List.mem_append_left _ he')

/-! ### The steps of a tool -/

theorem Quietly.emit (hq : Quietly h₀ h) (hevent : event.quiet) :
  wp (fun _ _ h' => Quietly h₀ h') (FailsQuietly h₀) (emit event) s h
  := by
  have hstep : ∀ e, emitted e = some event → Quietly h₀ (h ++ [e]) := by
    intro e he
    obtain ⟨envelope, answer, rfl, rfl⟩ := emitted_eq_some he
    apply hq.snoc
    exact hevent
  apply wp_mono wp_emit_step
  · rintro _ _ _ ⟨e, he, rfl⟩
    exact hstep e he
  · rintro _ _ _ (rfl | ⟨e, he, rfl⟩)
    · exact hq
    · exact hstep e he

theorem Quietly.call (hq : Quietly h₀ h) (hc : c.quiet) :
  wp (fun r _ h' => Quietly h₀ h' ∧ ∃ cs, h' = h ++ [⟨c, cs, r⟩]) E (callOut c) s h
  := by
  rw [wp_callOut]
  intro r
  exact ⟨hq.snoc hc, r.1, rfl⟩

def ResultOf (toolUse : ToolUse) (h₀ : List TurnStep) (r : ToolResult) (_ : SequenceEmitter)
    (h : List TurnStep) : Prop :=
  Quietly h₀ h ∧ r.toolUseId = toolUse.id

variable {status : ToolResultStatus} {content : Text}

theorem finish_result (hq : Quietly h₀ h) :
  wp (ResultOf toolUse h₀) (FailsQuietly h₀) (finish toolUse status content) s h
  := by
  apply wp_seq (hq.emit rfl)
  intro _ _ _ hq'
  exact ⟨hq', rfl⟩

theorem finish_fails {error : AgentError} (hq : Quietly h₀ h) :
  wp (ResultOf toolUse h₀) (FailsQuietly h₀)
    (do let _ ← finish toolUse status content; fail error) s h
  := by
  apply wp_seq (finish_result hq)
  intro _ _ _ hafter
  exact hafter.1

theorem refuse_result (hq : Quietly h₀ h) :
  wp (ResultOf toolUse h₀) (FailsQuietly h₀) (refuse toolUse status content) s h
  := by
  apply wp_seq (hq.emit rfl)
  intro _ _ _ hq'
  exact finish_result hq'

theorem runLocal_result (hq : Quietly h₀ h) :
  wp (ResultOf toolUse h₀) (FailsQuietly h₀) (runLocal toolUse) s h
  := by
  apply wp_seq (hq.call rfl)
  rintro _ s₁ h₁ ⟨hq₁, -⟩
  apply wp_seq (hq₁.call rfl)
  rintro cancelled s₂ h₂ ⟨hq₂, -⟩
  rw [wp_ite]
  constructor
  · intro _
    exact finish_fails hq₂
  · intro _
    apply wp_seq (hq₂.emit rfl)
    intro _ s₃ h₃ hq₃
    apply wp_seq (hq₃.call rfl)
    rintro outcome s₄ h₄ ⟨hq₄, -⟩
    exact finish_result hq₄

theorem executeTool_quiet (hq : Quietly h₀ h) :
  wp (fun _ _ h' => Quietly h₀ h') (FailsQuietly h₀) (RuntimeBridge.executeTool toolUse.id) s h
  := by
  apply wp_seq (hq.call rfl)
  rintro answer s₁ h₁ ⟨hq₁, -⟩
  split
  · exact hq₁
  · exact hq₁
  · exact hq₁
  · exact hq₁
  · exact hq₁

theorem requestApproval_quiet (hq : Quietly h₀ h) :
  wp (fun _ _ h' => Quietly h₀ h') (FailsQuietly h₀)
    (RuntimeBridge.requestApproval toolUse.id) s h
  := by
  apply wp_seq (hq.call rfl)
  rintro answer s₁ h₁ ⟨hq₁, -⟩
  split
  · exact hq₁
  · exact hq₁
  · exact hq₁
  · exact hq₁
  · exact hq₁

theorem runTerminal_result (hq : Quietly h₀ h) :
  wp (ResultOf toolUse h₀) (FailsQuietly h₀) (runTerminal ctx toolUse) s h
  := by
  apply wp_seq (hq.call rfl)
  rintro _ s₁ h₁ ⟨hq₁, -⟩
  apply wp_seq (hq₁.emit rfl)
  intro _ s₂ h₂ hq₂
  apply wp_seq (hq₂.emit rfl)
  intro _ s₃ h₃ hq₃
  apply wp_attempt_seq (executeTool_quiet hq₃)
  · intro outcome s₄ h₄ hq₄
    exact finish_result hq₄
  · intro e s₄ h₄ hq₄
    cases e with
    | toolBridgeTimeout => exact finish_result hq₄
    | _ => exact hq₄

theorem runTool_result (hq : Quietly h₀ h) :
  wp (ResultOf toolUse h₀) (FailsQuietly h₀) (runTool ctx toolUse) s h
  := by
  unfold runTool
  rw [wp_ite]
  constructor
  · intro _
    exact runLocal_result hq
  · intro _
    exact runTerminal_result hq

theorem approve_result {reason : Text} (hq : Quietly h₀ h) :
  wp (ResultOf toolUse h₀) (FailsQuietly h₀) (approve ctx toolUse reason) s h
  := by
  apply wp_seq (hq.call rfl)
  rintro _ s₁ h₁ ⟨hq₁, -⟩
  apply wp_seq (hq₁.emit rfl)
  intro _ s₂ h₂ hq₂
  apply wp_attempt_seq (requestApproval_quiet hq₂)
  · intro answer s₃ h₃ hq₃
    cases answer with
    | allow => exact runTool_result hq₃
    | deny => exact finish_result hq₃
  · intro e s₃ h₃ hq₃
    cases e with
    | turnCancelled => exact finish_fails hq₃
    | approvalTimeout => exact finish_result hq₃
    | _ => exact hq₃

theorem filesActive_quiet (hq : Quietly h₀ h) :
  wp (fun _ _ h' => Quietly h₀ h') E (filesActive ctx) s h
  := by
  unfold filesActive
  split
  · exact hq
  · apply wp_mono (hq.call (E := E) rfl)
    · intro _ _ _ hafter
      exact hafter.1
    · intro _ _ _ herror
      exact herror

theorem admit_result [Regex] {fileInput : Option FileInput} (hq : Quietly h₀ h) :
  wp (ResultOf toolUse h₀) (FailsQuietly h₀) (admit_ ctx toolUse fileInput) s h
  := by
  apply wp_seq (R := fun _ _ h' => Quietly h₀ h')
  · unfold proposedInput
    split
    · exact hq
    · rw [wp_ite]
      constructor
      · intro _
        exact hq
      · intro _
        apply wp_seq (hq.call rfl)
        rintro _ _ _ ⟨hq', -⟩
        exact hq'
  · intro input s₁ h₁ hq₁
    split
    · exact refuse_result hq₁
    · apply wp_seq (hq₁.emit rfl)
      intro _ s₂ h₂ hq₂
      exact runTool_result hq₂
    · apply wp_seq (hq₁.emit rfl)
      intro _ s₂ h₂ hq₂
      exact approve_result hq₂

/-! ### The results of a round -/

/-- A result is that of a tool use: it has its id, or the router has given it for that id. -/
def ResultFor (es : List TurnStep) (toolUse : ToolUse) (r : ToolResult) : Prop :=
  r.toolUseId = toolUse.id
    ∨ ∃ ownerId name input cs, ⟨.dispatch toolUse.id ownerId name input, cs, some r⟩ ∈ es

theorem ResultFor.mono {es es' : List TurnStep} {r : ToolResult} (h : ResultFor es toolUse r)
    (hsub : es ⊆ es') :
  ResultFor es' toolUse r
  := by
  obtain hid | ⟨ownerId, name, input, cs, hmem⟩ := h
  · exact .inl hid
  · exact .inr ⟨ownerId, name, input, cs, hsub hmem⟩

/-- The steps that come in addition are quiet, and they give this result. -/
def Gives (toolUse : ToolUse) (h₀ : List TurnStep) (r : ToolResult) (_ : SequenceEmitter)
    (h : List TurnStep) : Prop :=
  ∃ es, h = h₀ ++ es ∧ (∀ e ∈ es, e.1.quiet) ∧ ResultFor es toolUse r

theorem ResultOf.gives {r : ToolResult} (hr : ResultOf toolUse h₀ r s h) :
  Gives toolUse h₀ r s h
  := by
  obtain ⟨⟨es, rfl, hes⟩, hid⟩ := hr
  exact ⟨es, rfl, hes, .inl hid⟩

theorem route_gives (h : List TurnStep) :
  wp (Gives toolUse h) (FailsQuietly h) (route ctx toolUse) s h
  := by
  apply wp_seq ((Quietly.refl h).emit rfl)
  rintro _ s₁ h₁ hq₁
  apply wp_seq (R := fun answer _ h' => ∃ es, h' = h ++ es ∧ (∀ e ∈ es, e.1.quiet)
    ∧ ResultFor es toolUse
      (answer.getD ⟨toolUse.id, "unknown tool: " ++ toolUse.name, .unsupported⟩))
  · obtain ⟨es, rfl, hes⟩ := hq₁
    unfold TurnEngine.dispatch
    rw [wp_ite]
    constructor
    · intro _
      apply wp_callOut.mpr
      rintro ⟨cs, answer⟩
      refine ⟨es ++ [_], by rw [List.append_assoc], ?_, ?_⟩
      · simp only [List.mem_append, List.mem_singleton]
        rintro e (he | rfl)
        · exact hes e he
        · rfl
      · cases answer with
        | none => exact .inl rfl
        | some r =>
          refine .inr ⟨ctx.ownerId, toolUse.name, toolUse.input, cs, ?_⟩
          simp
    · intro _
      exact ⟨es, rfl, hes, .inl rfl⟩
  · rintro answer s₂ _ ⟨es, rfl, hes, hresult⟩
    apply wp_seq (R := fun _ _ h' => Quietly (h ++ es) h')
    · apply wp_mono ((Quietly.refl (h ++ es)).emit rfl)
      · intro _ _ _ hq
        exact hq
      · intro _ _ _ hq
        exact Quietly.trans ⟨es, rfl, hes⟩ hq
    · rintro _ s₃ _ ⟨es', rfl, hes'⟩
      refine ⟨es ++ es', by simp, ?_, hresult.mono (List.subset_append_left es es')⟩
      exact List.forall_mem_append.mpr ⟨hes, hes'⟩

section

variable [Regex]

theorem processTool_gives {allowedNames : Option (List Text)} (h : List TurnStep) :
  wp (Gives toolUse h) (FailsQuietly h) (processTool ctx allowedNames toolUse) s h
  := by
  have hresult : ∀ {s' : SequenceEmitter} {h' : List TurnStep} {p : TurnProgram ToolResult},
      wp (ResultOf toolUse h) (FailsQuietly h) p s' h' →
        wp (Gives toolUse h) (FailsQuietly h) p s' h' := by
    intro s' h' p hp
    apply wp_mono hp
    · intro _ _ _ hr
      exact hr.gives
    · intro _ _ _ hq
      exact hq
  apply wp_seq (filesActive_quiet (Quietly.refl h))
  intro active s₁ h₁ hq₁
  rw [wp_ite]
  constructor
  · intro _
    exact hresult (refuse_result hq₁)
  · intro _
    rw [wp_ite]
    constructor
    · intro _
      apply wp_mono (route_gives h₁)
      · rintro r _ _ ⟨es', rfl, hes', hr⟩
        obtain ⟨es, rfl, hes⟩ := hq₁
        refine ⟨es ++ es', by simp, ?_, hr.mono (List.subset_append_right es es')⟩
        exact List.forall_mem_append.mpr ⟨hes, hes'⟩
      · intro _ _ _ hq
        exact hq₁.trans hq
    · intro _
      split
      · exact hresult (refuse_result hq₁)
      · exact hresult (admit_result hq₁)

theorem processTools_gives {allowedNames : Option (List Text)} :
  ∀ (toolUses : List ToolUse) (s : SequenceEmitter) (h : List TurnStep),
    wp (fun results _ h' => ∃ es, h' = h ++ es ∧ (∀ e ∈ es, e.1.quiet)
        ∧ List.Forall₂ (ResultFor es) toolUses results)
      (FailsQuietly h) (processTools ctx allowedNames toolUses) s h
  | [], _, h => ⟨[], by simp, nofun, .nil⟩
  | toolUse :: toolUses, s, h => by
      apply wp_seq (processTool_gives h)
      rintro r s₁ _ ⟨es, rfl, hes, hr⟩
      apply wp_seq (R := fun results _ h' => ∃ es', h' = h ++ es ++ es' ∧ (∀ e ∈ es', e.1.quiet)
        ∧ List.Forall₂ (ResultFor es') toolUses results)
      · apply wp_mono (processTools_gives toolUses s₁ (h ++ es))
        · intro _ _ _ hafter
          exact hafter
        · intro _ _ _ hq
          exact Quietly.trans ⟨es, rfl, hes⟩ hq
      · rintro results s₂ _ ⟨es', rfl, hes', hresults⟩
        refine ⟨es ++ es', by simp, ?_, .cons ?_ ?_⟩
        · exact List.forall_mem_append.mpr ⟨hes, hes'⟩
        · exact hr.mono (List.subset_append_left es es')
        · apply hresults.imp
          intro toolUse r hr'
          exact hr'.mono (List.subset_append_right es es')

end

end

/-! ### The messages of a turn -/

/-- A message is the answer of a round before, with the results of its tool uses. -/
inductive Built (h : List TurnStep) (singleLine : Bool) : AgentMessage → Prop where
  | processed (pre mid : List TurnStep) (e : TurnStep) (answer : ProviderRound)
      (synthetic : Option ToolUse) (results : List ToolResult) (hsplit : h = pre ++ e :: mid)
      (hanswer : answered e = some answer)
      (hsynthetic : ∀ toolUse, synthetic = some toolUse → (seen pre).legacy
        ∧ toolUses answer.message = []
        ∧ ∃ id, firstShellTool (messageText answer.message) singleLine id = .ok (some toolUse))
      (hresults : List.Forall₂ (ResultFor mid) (toolUses answer.message ++ synthetic.toList)
        results) :
      Built h singleLine (withResults answer.message results)

/-- A request goes on the conversation with messages that have been built before. -/
def Sends (ctx : TurnContext) (before : List TurnStep) (e : TurnStep) : Prop :=
  ∀ request, requested e = some request →
    ∃ more, request.messages = ctx.request.messages ++ more
      ∧ ∀ message ∈ more, Built before ctx.request.singleLineCommands message

section

variable {ctx : TurnContext} {h h' : List TurnStep} {s : SequenceEmitter} {l : Loop}
  {E : AgentError → SequenceEmitter → List TurnStep → Prop}

theorem Built.mono {singleLine : Bool} {message : AgentMessage} (hb : Built h singleLine message)
    (hle : h <+: h') :
  Built h' singleLine message
  := by
  obtain ⟨after, rfl⟩ := hle
  cases hb with
  | processed pre mid e answer synthetic results hsplit hanswer hsynthetic hresults =>
    subst hsplit
    apply Built.processed pre (mid ++ after) e answer synthetic results (by simp) hanswer
      hsynthetic
    apply hresults.imp
    intro toolUse r hr
    exact hr.mono (List.subset_append_left mid after)

theorem Quietly.sends (hq : Quietly h h') (hsends : Always (Sends ctx) h) :
  Always (Sends ctx) h'
  := by
  obtain ⟨es, rfl, hes⟩ := hq
  apply always_append hsends
  intro before _ e he request hrequest
  rw [requested_of_quiet (hes e he)] at hrequest
  cases hrequest

theorem Quietly.prefix_ (hq : Quietly h h') :
  h <+: h'
  := by
  obtain ⟨es, rfl, -⟩ := hq
  exact List.prefix_append h es

/-- The messages of the loop are the conversation and what has been built. -/
structure Goes (ctx : TurnContext) (l : Loop) (h : List TurnStep) : Prop where
  sends : Always (Sends ctx) h
  legacy : (seen h).legacy = l.legacyMode
  messages : ∃ more, l.messages = ctx.request.messages ++ more
    ∧ ∀ message ∈ more, Built h ctx.request.singleLineCommands message

theorem Goes.quietly (hg : Goes ctx l h) (hq : Quietly h h') :
  Goes ctx l h'
  where
  sends := hq.sends hg.sends
  legacy := hq.legacy.trans hg.legacy
  messages := by
    obtain ⟨more, hmore, hbuilt⟩ := hg.messages
    exact ⟨more, hmore, fun message hm => (hbuilt message hm).mono hq.prefix_⟩

theorem Goes.next (hg : Goes ctx l h) :
  Goes ctx (l.next ctx) h
  := ⟨hg.sends, hg.legacy, hg.messages⟩

/-- All requests go on the conversation, also after a failure. -/
def StillSends (ctx : TurnContext) (_ : AgentError) (_ : SequenceEmitter)
    (h : List TurnStep) : Prop :=
  Always (Sends ctx) h

theorem emitDeltas_quiet {messageId : Text} :
  ∀ (deltas : List Delta) (s : SequenceEmitter) (h : List TurnStep),
    wp (fun _ _ h' => Quietly h h') (FailsQuietly h) (emitDeltas messageId deltas) s h
  | [], _, h => Quietly.refl h
  | delta :: deltas, s, h => by
      have hquiet : (deltaEvent messageId delta).quiet := by
        cases delta with
        | text delta => rfl
        | thinking delta => rfl
      apply wp_seq ((Quietly.refl h).emit hquiet)
      intro _ s₁ h₁ hq₁
      apply wp_mono (emitDeltas_quiet deltas s₁ h₁)
      · intro _ _ _ hq
        exact hq₁.trans hq
      · intro _ _ _ hq
        exact hq₁.trans hq

/-- What a history tells once the provider has answered: the answer is its last step. -/
def EndsWith (h : List TurnStep) (answer : ProviderRound) : Prop :=
  ∃ pre e, h = pre ++ [e] ∧ answered e = some answer ∧ (seen pre).legacy = (seen h).legacy

theorem completeRoundLive_goes {messageId : Text} {request : ProviderRequest} (hg : Goes ctx l h)
    (hrequest : request.messages = l.messages) :
  wp (fun result _ h' => Goes ctx l h' ∧ ∀ answer, result = .ok answer → EndsWith h' answer)
    (StillSends ctx) (completeRoundLive messageId request) s h
  := by
  unfold completeRoundLive
  rw [wp_bind, wp_callOut]
  intro r
  have hstarted : Goes ctx l (h ++ [⟨.startRound request, r⟩]) := by
    constructor
    · rw [always_snoc]
      refine ⟨hg.sends, ?_⟩
      rintro _ ⟨⟩
      rw [hrequest]
      exact hg.messages
    · rw [seen_snoc]
      exact hg.legacy
    · obtain ⟨more, hmore, hbuilt⟩ := hg.messages
      exact ⟨more, hmore, fun message hm => (hbuilt message hm).mono (List.prefix_append _ _)⟩
  apply wp_seq (R := fun _ _ h' => Goes ctx l h')
  · apply wp_mono (emitDeltas_quiet r.2 s _)
    · intro _ _ _ hq
      exact hstarted.quietly hq
    · intro _ _ _ hq
      exact (hstarted.quietly hq).sends
  · intro _ s₁ h₁ hg₁
    rw [wp_bind, wp_callOut (c := .endRound)]
    rintro ⟨cs, answer⟩
    have hended : Goes ctx l (h₁ ++ [⟨.endRound, cs, answer⟩]) :=
      hg₁.quietly ((Quietly.refl h₁).snoc rfl)
    cases answer with
    | completed result =>
      cases result with
      | ok answer =>
        refine ⟨hended, ?_⟩
        rintro _ ⟨⟩
        exact ⟨h₁, _, rfl, rfl, by rw [hended.legacy, hg₁.legacy]⟩
      | error e => exact ⟨hended, nofun⟩
    | closed => exact hended.sends
    | cancelled => exact hended.sends

theorem askProvider_goes {files : Bool} {tools : List ToolSpec} (hg : Goes ctx l h) :
  wp (fun r _ h' => Goes ctx { l with legacyMode := r.2 } h' ∧ EndsWith h' r.1)
    (StillSends ctx) (askProvider ctx l files tools) s h
  := by
  apply wp_seq (completeRoundLive_goes hg rfl)
  rintro result s₁ h₁ ⟨hg₁, hends₁⟩
  split
  · rename_i answer
    exact ⟨hg₁, hends₁ answer rfl⟩
  · rw [wp_ite]
    constructor
    · intro _
      have hactivated : ∀ e, emitted e
          = some (.compatibilityFallbackActivated "compatibility" "toolsUnsupported") →
          Goes ctx { l with legacyMode := true } (h₁ ++ [e]) := by
        intro e he
        obtain ⟨envelope, answer, rfl, hevent⟩ := emitted_eq_some he
        constructor
        · rw [always_snoc]
          exact ⟨hg₁.sends, nofun⟩
        · rw [seen_snoc]
          change ((seen h₁).observeEvent envelope.event).legacy = true
          rw [hevent]
          rfl
        · obtain ⟨more, hmore, hbuilt⟩ := hg₁.messages
          exact ⟨more, hmore, fun message hm => (hbuilt message hm).mono (List.prefix_append _ _)⟩
      apply wp_seq (R := fun _ _ h' => Goes ctx { l with legacyMode := true } h')
      · apply wp_mono wp_emit_step
        · rintro _ _ _ ⟨e, he, rfl⟩
          exact hactivated e he
        · rintro _ _ _ (rfl | ⟨e, he, rfl⟩)
          · exact hg₁.sends
          · exact (hactivated e he).sends
      · intro _ s₂ h₂ hg₂
        apply wp_seq (completeRoundLive_goes hg₂ rfl)
        rintro result s₃ h₃ ⟨hg₃, hends₃⟩
        cases result with
        | ok answer => exact ⟨hg₃, hends₃ answer rfl⟩
        | error e => exact hg₃.sends
    · intro _
      exact hg₁.sends
  · exact hg₁.sends

theorem reportRound_quiet {messageId : Text} {answer : ProviderRound} (h : List TurnStep) :
  wp (fun _ _ h' => Quietly h h') (FailsQuietly h) (reportRound messageId answer) s h
  := by
  apply wp_seq ((Quietly.refl h).emit rfl)
  intro _ s₁ h₁ hq₁
  split
  · exact hq₁.emit rfl
  · exact hq₁

theorem advertisedTools_quiet {files : Bool} (h : List TurnStep) :
  wp (fun _ _ h' => Quietly h h') E (advertisedTools ctx l files) s h
  := by
  unfold advertisedTools
  rw [wp_ite]
  constructor
  · intro _
    exact Quietly.refl h
  · intro _
    apply wp_seq (R := fun _ _ h' => Quietly h h')
    · unfold routedTools
      rw [wp_ite]
      constructor
      · intro _
        apply wp_mono ((Quietly.refl h).call (E := E) rfl)
        · intro _ _ _ hafter
          exact hafter.1
        · intro _ _ _ herror
          exact herror
      · intro _
        exact Quietly.refl h
    · intro _ _ _ hq
      exact hq

theorem EndsWith.built {answer : ProviderRound} {legacyMode : Bool} {uses : List ToolUse}
    {es es' : List TurnStep} {results : List ToolResult} (hends : EndsWith h answer)
    (hlegacy : (seen h).legacy = legacyMode)
    (huses : toolsToProcess ctx l legacyMode answer.message = .ok uses) (hne : uses ≠ [])
    (hresults : List.Forall₂ (ResultFor es') uses results) :
  Built (h ++ es ++ es') ctx.request.singleLineCommands (withResults answer.message results)
  := by
  obtain ⟨pre, e, rfl, hanswer, hsame⟩ := hends
  obtain ⟨-, rfl⟩ | ⟨-, rfl, -⟩ := toolsToProcess_ok huses
  · exact absurd rfl hne
  · apply Built.processed pre (es ++ es') e answer (syntheticTool ctx l legacyMode answer.message)
      results (by simp) hanswer
    · intro toolUse hsome
      obtain ⟨hmode, hnone, hfirst⟩ := syntheticTool_eq_some hsome
      rw [hsame, hlegacy]
      exact ⟨hmode, hnone, _, hfirst⟩
    · apply hresults.imp
      intro toolUse r hr
      exact hr.mono (List.subset_append_right es es')

section

variable [Regex]

theorem round_goes (hg : Goes ctx l h) :
  wp (fun next _ h' => Always (Sends ctx) h' ∧ ∀ l', next = some l' → Goes ctx l' h')
    (StillSends ctx) (round ctx l) s h
  := by
  apply wp_seq (R := fun _ _ h' => Goes ctx l h')
  · apply wp_seq (filesActive_quiet (Quietly.refl h))
    intro _ _ _ hq
    exact hg.quietly hq
  · intro files s₁ h₁ hg₁
    apply wp_seq (advertisedTools_quiet h₁)
    intro tools s₂ h₂ hq₂
    apply wp_seq (R := fun _ _ h' => Goes ctx l h')
    · apply wp_mono ((Quietly.refl h₂).emit rfl)
      · intro _ _ _ hq
        exact (hg₁.quietly hq₂).quietly hq
      · intro _ _ _ hq
        exact hq.sends (hg₁.quietly hq₂).sends
    · intro _ s₃ h₃ hg₃
      apply wp_seq (askProvider_goes hg₃)
      rintro ⟨answer, legacyMode⟩ s₄ h₄ ⟨hg₄, hends⟩
      apply wp_seq (R := fun _ _ h' => Quietly h₄ h')
      · apply wp_mono (reportRound_quiet h₄)
        · intro _ _ _ hq
          exact hq
        · intro _ _ _ hq
          exact hq.sends hg₄.sends
      · rintro _ s₅ _ ⟨es, rfl, hes⟩
        have hg₅ := hg₄.quietly ⟨es, rfl, hes⟩
        rw [wp_bind, wp_lift]
        constructor
        · intro uses huses
          rw [wp_ite]
          constructor
          · intro _
            exact ⟨hg₅.sends, nofun⟩
          · intro hne
            apply wp_seq (R := fun results _ h' => ∃ es', h' = h₄ ++ es ++ es'
              ∧ (∀ e ∈ es', e.1.quiet) ∧ List.Forall₂ (ResultFor es') uses results)
            · apply wp_mono (processTools_gives uses s₅ (h₄ ++ es))
              · intro _ _ _ hafter
                exact hafter
              · intro _ _ _ hq
                exact hq.sends hg₅.sends
            · rintro results s₆ _ ⟨es', rfl, hes', hresults⟩
              have hg₆ := hg₅.quietly ⟨es', rfl, hes'⟩
              refine ⟨hg₆.sends, ?_⟩
              rintro _ ⟨⟩
              constructor
              · exact hg₆.sends
              · exact hg₆.legacy
              · obtain ⟨more, hmore, hbuilt⟩ := hg₆.messages
                refine ⟨more ++ [withResults answer.message results], ?_, ?_⟩
                · change l.messages ++ _ = _
                  rw [← List.append_assoc, ← hmore]
                · rw [List.forall_mem_append]
                  refine ⟨hbuilt, ?_⟩
                  rw [List.forall_mem_singleton]
                  exact hends.built hg₄.legacy huses hne hresults
        · intro _ _
          exact hg₅.sends

theorem rounds_goes :
  ∀ (fuel : ℕ) (l : Loop) (s : SequenceEmitter) (h : List TurnStep), Goes ctx l h →
    wp (fun _ _ h' => Always (Sends ctx) h') (StillSends ctx) (rounds ctx fuel l) s h
  | 0, _, _, _, hg => hg.sends
  | fuel + 1, l, s, h, hg => by
      apply wp_seq ((Quietly.refl h).call rfl)
      rintro cancelled s₁ h₁ ⟨hq₁, -⟩
      have hg₁ := (hg.quietly hq₁).next
      rw [wp_ite]
      constructor
      · intro _
        exact hg₁.sends
      · intro _
        apply wp_seq (round_goes hg₁)
        rintro next s₂ h₂ ⟨hsends, hnext⟩
        cases next with
        | none => exact hsends
        | some l' => exact rounds_goes fuel l' s₂ h₂ (hnext l' rfl)

/-- Each request goes on the conversation with the answers before it and the results of their tool
uses. -/
theorem run_sends (ctx : TurnContext) (outside : Outside TurnCall.Answered) :
  Always (Sends ctx) (history ctx outside)
  := by
  apply run_history
  have hlast : ∀ (event : AgentEvent) (s : SequenceEmitter) (h : List TurnStep), event.quiet →
      Always (Sends ctx) h →
        wp (fun _ _ h' => Always (Sends ctx) h') (StillSends ctx) (emit event) s h := by
    intro event s h hquiet hsends
    apply wp_mono ((Quietly.refl h).emit hquiet)
    · intro _ _ _ hq
      exact hq.sends hsends
    · intro _ _ _ hq
      exact hq.sends hsends
  apply wp_seq (R := fun _ _ h' => Goes ctx (Loop.start ctx) h')
  · have hstart : Goes ctx (Loop.start ctx) [] := by
      refine ⟨always_nil, rfl, [], ?_, nofun⟩
      rw [List.append_nil]
      rfl
    apply wp_mono ((Quietly.refl []).emit rfl)
    · intro _ _ _ hq
      exact hstart.quietly hq
    · intro _ _ _ hq
      exact (hstart.quietly hq).sends
  · intro _ s₁ h₁ hg₁
    apply wp_attempt_seq (rounds_goes _ _ s₁ h₁ hg₁)
    · intro _ s₂ h₂ hsends
      exact hlast _ _ _ rfl hsends
    · intro e s₂ h₂ hsends
      have hfailed : ∀ event : AgentEvent, event.quiet →
          wp (fun (_ : Unit) _ h' => Always (Sends ctx) h') (StillSends ctx)
            (do emit event; fail e) s₂ h₂ := by
        intro event hquiet
        apply wp_seq (hlast event s₂ h₂ hquiet hsends)
        intro _ _ _ hafter
        exact hafter
      cases e with
      | turnCancelled => exact hfailed _ rfl
      | _ => exact hfailed _ rfl

end

end

/-! ### Requests on the wire -/

/-- A message as the decoders of the answers make it: of the assistant, and without results. -/
structure Decoded (message : AgentMessage) : Prop where
  role : message.role = .assistant
  results : ∀ protocol, message.content.filterMap (resultOf protocol) = []

/-- The tool uses of an answer are told apart on the wire, and no command is read off its text. -/
structure ToldApart (protocol : ProviderProtocol) (singleLine legacy : Bool)
    (message : AgentMessage) : Prop where
  distinct : protocol ≠ .ollama → ((toolUses message).map ToolUse.id).Nodup
  terminal : protocol = .ollama → ∀ toolUse ∈ toolUses message, toolUse.name = TERMINAL_EXEC
  notRead : legacy → toolUses message = [] → ∀ id toolUse,
    firstShellTool (messageText message) singleLine id ≠ .ok (some toolUse)

/-- The conversation is well formed on the wire, tool uses that are followed by a request are told
apart, and the router's results have the ids that were asked for. -/
structure Attributable (ctx : TurnContext) (protocol : ProviderProtocol) (h : List TurnStep) :
    Prop where
  conversation : WellFormed protocol (readEncoded protocol ctx.request.messages)
  told : ∀ pre e post answer, h = pre ++ e :: post → answered e = some answer →
    (∃ e' ∈ post, (requested e').isSome) →
      ToldApart protocol ctx.request.singleLineCommands (seen pre).legacy answer.message
  routed : ∀ toolUseId ownerId name input cs r,
    ⟨.dispatch toolUseId ownerId name input, cs, some r⟩ ∈ h → r.toolUseId = toolUseId

section

variable {protocol : ProviderProtocol} {message : AgentMessage} {results : List ToolResult}

theorem filterMap_callOf (protocol : ProviderProtocol) (message : AgentMessage) :
  message.content.filterMap (callOf protocol)
    = (toolUses message).map fun toolUse =>
      if protocol = .ollama then toolUse.name else toolUse.id
  := by
  unfold toolUses
  rw [List.map_filterMap]
  congr 1
  funext block
  cases block with
  | _ => rfl

theorem filterMap_callOf_withResults (protocol : ProviderProtocol) (message : AgentMessage)
    (results : List ToolResult) :
  (withResults message results).content.filterMap (callOf protocol)
    = message.content.filterMap (callOf protocol)
  := by
  unfold withResults
  rw [List.filterMap_append, List.filterMap_map]
  apply List.append_right_eq_self.mpr
  rw [List.filterMap_eq_nil_iff]
  intro r _
  rfl

theorem Decoded.filterMap_resultOf (hd : Decoded message) (protocol : ProviderProtocol)
    (results : List ToolResult) :
  (withResults message results).content.filterMap (resultOf protocol)
    = results.map fun r => if protocol = .ollama then TERMINAL_EXEC else r.toolUseId
  := by
  unfold withResults
  rw [List.filterMap_append, hd.results, List.nil_append, List.filterMap_map]
  rw [← List.filterMap_eq_map]
  rfl

theorem map_toolUseId {uses : List ToolUse}
    (hsame : List.Forall₂ (fun toolUse r => r.toolUseId = toolUse.id) uses results) :
  results.map ToolResult.toolUseId = uses.map ToolUse.id
  := by
  induction hsame with
  | nil => rfl
  | cons hid _ ih => rw [List.map_cons, List.map_cons, hid, ih]

theorem ToldApart.paired {singleLine legacy : Bool}
    (ht : ToldApart protocol singleLine legacy message) (hd : Decoded message)
    (hids : results.map ToolResult.toolUseId = (toolUses message).map ToolUse.id) :
  Paired protocol ((withResults message results).content.filterMap (callOf protocol))
    ((withResults message results).content.filterMap (resultOf protocol))
  := by
  rw [filterMap_callOf_withResults, filterMap_callOf, hd.filterMap_resultOf]
  by_cases hollama : protocol = .ollama
  · subst hollama
    simp only [if_true]
    refine ⟨?_, fun h => absurd rfl h⟩
    have hlength : results.length = (toolUses message).length := by
      simpa using congrArg List.length hids
    have hnames : (toolUses message).map ToolUse.name
        = List.replicate (toolUses message).length TERMINAL_EXEC := by
      rw [List.eq_replicate_iff]
      refine ⟨by simp, ?_⟩
      intro name hname
      obtain ⟨toolUse, hmem, rfl⟩ := List.mem_map.mp hname
      exact ht.terminal rfl toolUse hmem
    rw [hnames, List.map_const', hlength]
  · simp only [if_neg hollama]
    change (results.map ToolResult.toolUseId).Perm ((toolUses message).map ToolUse.id) ∧ _
    rw [hids]
    exact ⟨.refl _, fun _ => ht.distinct hollama⟩

end

section

variable [Regex]

/-- Each request of a turn is well formed on the wire, if the conversation is and the answers
before it can be attributed. -/
theorem requests_well_formed (ctx : TurnContext) (outside : Outside TurnCall.Answered)
    (protocol : ProviderProtocol) (model : Text)
    (hdecoded : ∀ e ∈ history ctx outside, ∀ answer, answered e = some answer →
      Decoded answer.message)
    (hattributable : Attributable ctx protocol (history ctx outside)) :
  ∀ e ∈ history ctx outside, ∀ request, requested e = some request →
    WellFormed protocol (readRequest protocol (encodeRequest protocol request model))
  := by
  intro e he request hrequest
  obtain ⟨before, after, heq⟩ := List.append_of_mem he
  obtain ⟨more, hmessages, hbuilt⟩ := run_sends ctx outside before e after heq request hrequest
  apply wellFormed_encodeRequest model hmessages hattributable.conversation
  intro message hmessage
  cases hbuilt message hmessage with
  | processed pre mid e' answer synthetic results hsplit hanswer hsynthetic hresults =>
    have hwhole : history ctx outside = pre ++ e' :: (mid ++ e :: after) := by
      rw [heq, hsplit]
      simp
    have hd := hdecoded e' (by rw [hwhole]; simp) answer hanswer
    have ht := hattributable.told pre e' _ answer hwhole hanswer
      ⟨e, by simp, by rw [hrequest]; rfl⟩
    have hnone : synthetic = none := by
      rw [Option.eq_none_iff_forall_ne_some]
      intro toolUse hsome
      obtain ⟨hlegacy, huses, id, hfirst⟩ := hsynthetic toolUse hsome
      exact ht.notRead hlegacy huses id toolUse hfirst
    subst hnone
    rw [Option.toList_none, List.append_nil] at hresults
    refine ⟨hd.role, ht.paired hd ?_⟩
    apply map_toolUseId
    apply hresults.imp
    rintro toolUse r (hid | ⟨ownerId, name, input, cs, hmem⟩)
    · exact hid
    · apply hattributable.routed _ ownerId name input cs
      rw [hwhole]
      simp [hmem]

end

/-! ### Runs -/

/-- The history of a run of commands without risk that nobody answers. -/
def unanswered (answers : List (Except ProviderError ProviderRound)) : List TurnStep :=
  @history noRisk (terminalTurn .auto none) ((Script.ofAnswers answers).outside "owner")

def oneCommand : List (Except ProviderError ProviderRound) :=
  [.ok (answerWith [terminalUse "call-1" "ls"]), .ok (answerWith [.text "done"])]

theorem wellFormed_question :
  WellFormed .openai (readEncoded .openai [⟨.user, [.text "do it"]⟩])
  where
  first := rfl
  paired front calls rest heq := by
    have hmem : Entry.assistant calls ∈ readEncoded .openai [⟨.user, [.text "do it"]⟩] := by
      rw [heq]
      simp
    have hread : readEncoded .openai [⟨.user, [.text "do it"]⟩] = [.other] := rfl
    rw [hread, List.mem_singleton] at hmem
    cases hmem

/-- The message of an answer is that of the assistant and has no results. -/
def Decoded.check (answer : ProviderRound) : Bool :=
  answer.message.role = .assistant
    && answer.message.content.all fun block => !(block matches .toolResult ..)

theorem Decoded.of_check {answer : ProviderRound} (hcheck : Decoded.check answer) :
  Decoded answer.message
  := by
  unfold Decoded.check at hcheck
  rw [Bool.and_eq_true, decide_eq_true_eq, List.all_eq_true] at hcheck
  refine ⟨hcheck.1, ?_⟩
  intro protocol
  rw [List.filterMap_eq_nil_iff]
  intro block hblock
  have hother := hcheck.2 block hblock
  cases block with
  | toolResult => cases hother
  | _ => rfl

theorem decoded_of_all {answers : List (Except ProviderError ProviderRound)}
    (hall : (unanswered answers).all fun e => (answered e).all Decoded.check) :
  ∀ e ∈ unanswered answers, ∀ answer, answered e = some answer → Decoded answer.message
  := by
  intro e he answer hanswer
  rw [List.all_eq_true] at hall
  have hcheck := hall e he
  rw [hanswer] at hcheck
  exact Decoded.of_check hcheck

/-- The request after one command is well formed. -/
theorem requests_well_formed_command :
  ∃ e ∈ unanswered oneCommand, ∃ request, requested e = some request
    ∧ request.messages.length = 2
    ∧ WellFormed .openai (readRequest .openai (encodeRequest .openai request "model"))
  := by
  have hany : (unanswered oneCommand).any fun e =>
      (requested e).any fun request => request.messages.length = 2 := by decide
  obtain ⟨e, he, hlength⟩ := List.any_eq_true.mp hany
  obtain ⟨request, hrequest, hlength⟩ := (Option.any_eq_true _ _).mp hlength
  refine ⟨e, he, request, hrequest, of_decide_eq_true hlength, ?_⟩
  apply @requests_well_formed noRisk _ _ .openai "model" _ _ e he request hrequest
  · exact decoded_of_all (by decide)
  · constructor
    · exact wellFormed_question
    · intro pre e post answer heq hanswer _
      have htold := forall_step (h := unanswered oneCommand)
        (P := fun pre e => (answered e).all (fun a =>
          ((toolUses a.message).map ToolUse.id).Nodup ∧ (seen pre).legacy = false))
        (by decide) heq
      rw [hanswer, Option.all_some, decide_eq_true_eq] at htold
      constructor
      · intro _
        exact htold.1
      · exact nofun
      · intro hlegacy
        change (seen pre).legacy = true at hlegacy
        rw [htold.2] at hlegacy
        cases hlegacy
    · have hnone : ∀ e ∈ unanswered oneCommand, ¬ e.1 matches .dispatch .. := by decide
      intro toolUseId ownerId name input cs r hmem
      exact absurd rfl (hnone _ hmem)

/-- A provider without tools, whose next answer has a command in its text. -/
def commandInText : List (Except ProviderError ProviderRound) :=
  [.error .toolsUnsupported, .ok (answerWith [.text "```sh\nls\n```"])]

/-- In a fallback round, the next request has the result of the command in the text, but no call for
it. -/
theorem result_without_call :
  ¬ ∀ (_ : Regex) (ctx : TurnContext) (outside : Outside TurnCall.Answered)
    (protocol : ProviderProtocol) (model : Text),
    (∀ e ∈ history ctx outside, ∀ answer, answered e = some answer → Decoded answer.message) →
      WellFormed protocol (readEncoded protocol ctx.request.messages) →
        ∀ e ∈ history ctx outside, ∀ request, requested e = some request →
          WellFormed protocol (readRequest protocol (encodeRequest protocol request model))
  := by
  intro hall
  have hrun := hall noRisk (terminalTurn .auto none)
    ((Script.ofAnswers commandInText).outside "owner") .openai "model"
    (decoded_of_all (by decide)) wellFormed_question
  have hstep : ∃ e request id, (unanswered commandInText)[17]? = some e
      ∧ requested e = some request
      ∧ readRequest .openai (encodeRequest .openai request "model")
        = [.other, .other, .assistant [], .result id] := ⟨_, _, _, rfl, rfl, rfl⟩
  obtain ⟨e, request, id, he, hrequest, hread⟩ := hstep
  have hformed := hrun e (List.mem_of_getElem? he) request hrequest
  rw [hread] at hformed
  have hpaired := hformed.paired [.other, .other] [] [.result id] rfl
  have hlength := hpaired.1.length_eq
  cases hlength

end Agent
