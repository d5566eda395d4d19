import Catio.Agent.Engine.Steps

/-!
# What a dispatch rests on

Each tool use that is dispatched has been proposed before, was offered by the last answer of the
provider, passes the checks of the engine, and has been cleared since its proposal
(`run_justified`).  Each wait is for what the turn has been told to expect.
-/

namespace Agent

open Text Program TurnEngine

/-! ### Offers -/

namespace Seen

/-- The last answer offers a tool use: a native one, in the legacy mode only after the retry, or the
command in its text. -/
inductive Offers (ctx : TurnContext) (x : Seen) (toolUse : ToolUse) : Prop where
  | native (answer : ProviderRound) (hanswer : x.answer = some answer)
      (hmem : toolUse ∈ toolUses answer.message)
      (hmode : ctx.request.executionMode ≠ .manual) (hretry : x.legacy → x.retry)
  | synthetic (answer : ProviderRound) (id : Text) (hanswer : x.answer = some answer)
      (hlegacy : x.legacy) (hnone : toolUses answer.message = [])
      (hfirst : firstShellTool (messageText answer.message) ctx.request.singleLineCommands id
        = .ok (some toolUse))

/-- The name of a tool is admitted: outside of the legacy mode the last request advertised
it. -/
def Admits (x : Seen) (name : Text) : Prop :=
  x.legacy = false →
    ∃ request, x.request = some request ∧ name ∈ request.tools.map ToolSpec.name

theorem Offers.look {ctx : TurnContext} {x : Seen} {toolUse : ToolUse}
    (hoffers : x.Offers ctx toolUse) (a : Bool) :
  Offers ctx { x with active := a } toolUse
  := by
  cases hoffers with
  | native answer hanswer hmem hmode hretry =>
    exact .native answer hanswer hmem hmode hretry
  | synthetic answer id hanswer hlegacy hnone hfirst =>
    exact .synthetic answer id hanswer hlegacy hnone hfirst

end Seen

/-- What the history tells once the provider has answered a round. -/
structure Answered (s : Loop) (request : ProviderRequest) (answer : ProviderRound)
    (legacyMode : Bool) (x : Seen) : Prop where
  legacy : x.legacy = legacyMode
  answer : x.answer = some answer
  request : legacyMode = false → x.request = some request
  retry : legacyMode → s.legacyMode ∨ x.retry

theorem Answered.offers {ctx : TurnContext} {x : Seen} {l : Loop} {request : ProviderRequest}
    {answer : ProviderRound} {legacyMode : Bool} {uses : List ToolUse}
    (ha : Answered l request answer legacyMode x)
    (huses : toolsToProcess ctx l legacyMode answer.message = .ok uses) :
  ∀ toolUse ∈ uses, x.Offers ctx toolUse
  := by
  intro toolUse hmem
  rcases toolsToProcess_ok huses with ⟨-, rfl⟩ | ⟨-, rfl, hnative⟩
  · cases hmem
  · rw [List.mem_append, Option.mem_toList] at hmem
    rcases hmem with hmem | hmem
    · have henabled := hnative (List.ne_nil_of_mem hmem)
      simp only [toolsDisabled, Bool.or_eq_false_iff, decide_eq_false_iff_not] at henabled
      refine .native answer ha.answer hmem henabled.2 ?_
      intro hlegacy
      rw [ha.legacy] at hlegacy
      rcases ha.retry hlegacy with h | h
      · rw [henabled.1.2] at h
        cases h
      · exact h
    · obtain ⟨hlegacy, hnone, hfirst⟩ := syntheticTool_eq_some hmem
      rw [← ha.legacy] at hlegacy
      exact .synthetic answer _ ha.answer hlegacy hnone hfirst

variable [Regex]

/-! ### Clearance -/

/-- What may stand between a proposal and its dispatch: nothing, or the request for an approval that
is allowed. -/
inductive Cleared (ctx : TurnContext) (toolUse : ToolUse) (fileInput : Option FileInput) :
    List TurnStep → Prop where
  | allowed (risk : ToolRisk) (hdecision : decision ctx toolUse fileInput = .allowed risk) :
      Cleared ctx toolUse fileInput []
  | approved (risk : ToolRisk) (reason id : Text) (e₁ e₂ e₃ : TurnStep)
      (hdecision : decision ctx toolUse fileInput = .approvalRequired risk reason)
      (hexpect : e₁.1 = .setExpected (.approval toolUse.id))
      (hrequest : emitted e₂ = some (.approvalRequested toolUse.id reason))
      (hallow : received e₃ = some (.approval toolUse.id, .approvalDecision id .allow)) :
      Cleared ctx toolUse fileInput [e₁, e₂, e₃]

/-- What may stand between the proposal of a tool use and the step that dispatches it. -/
inductive Executes (ctx : TurnContext) (toolUse : ToolUse) (active : Bool) :
    List TurnStep → TurnStep → Prop where
  | backend (e : TurnStep) (hname : isBackendTool active toolUse.name) (hrouter : ctx.toolRouter)
      (hstep : e.1 = .dispatch toolUse.id ctx.ownerId toolUse.name toolUse.input) :
      Executes ctx toolUse active [] e
  | terminal (clear : List TurnStep) (e₁ e : TurnStep) (hname : toolUse.name = TERMINAL_EXEC)
      (hvalid : validateInput ctx toolUse = .ok none) (hclear : Cleared ctx toolUse none clear)
      (hexpect : e₁.1 = .setExpected (.toolResult toolUse.id))
      (hstep : emitted e
        = some (.toolExecutionRequested toolUse.id ctx.request.targetRef toolUse.input)) :
      Executes ctx toolUse active (clear ++ [e₁]) e
  | files (fileInput : FileInput) (clear : List TurnStep) (e₁ e₂ e₃ e : TurnStep)
      (hname : isFileTool toolUse.name) (hactive : active)
      (hvalid : validateInput ctx toolUse = .ok (some fileInput))
      (hclear : Cleared ctx toolUse (some fileInput) clear) (hexpect : e₁.1 = .setExpected .none)
      (halive : findsAlive e₂) (hstarted : emitted e₃ = some (.toolStarted toolUse.id))
      (hstep : e.1 = .execute toolUse.id toolUse.name toolUse.input) :
      Executes ctx toolUse active (clear ++ [e₁, e₂, e₃]) e

structure Justified (ctx : TurnContext) (before : List TurnStep) (e : TurnStep) : Prop where
  dispatch : ∀ toolUse, dispatched e = some toolUse →
    ∃ pre p mid, before = pre ++ p :: mid ∧ Proposes p toolUse
      ∧ (seen pre).Offers ctx toolUse ∧ (seen pre).Admits toolUse.name
      ∧ Executes ctx toolUse ((seen pre).files ctx) mid e ∧ seen before = seen pre
  wait : ∀ expected, e.1 = .recvMatching expected →
    ∃ pre p mid, before = pre ++ p :: mid ∧ p.1 = .setExpected expected
      ∧ ∀ m ∈ mid, (emitted m).isSome

section

variable {ctx : TurnContext} {x : Seen} {h : List TurnStep} {s : SequenceEmitter}
  {event : AgentEvent} {e : TurnStep} {c : TurnCall} {toolUse : ToolUse}
  {fileInput : Option FileInput} {mid : List TurnStep}
  {E : AgentError → SequenceEmitter → List TurnStep → Prop}

theorem Justified.of_quiet (hnone : dispatched e = none)
    (hwait : ∀ expected, e.1 ≠ .recvMatching expected) :
  Justified ctx h e
  where
  dispatch toolUse hsome := by
    rw [hnone] at hsome
    cases hsome
  wait expected he := absurd he (hwait expected)

theorem Justified.of_plain (hplain : e.1.plain) :
  Justified ctx h e
  := by
  apply Justified.of_quiet (dispatched_of_plain hplain)
  intro expected hwait
  rw [hwait] at hplain
  cases hplain

theorem Justified.of_emitted (he : emitted e = some event) (hplain : event.plain) :
  Justified ctx h e
  := by
  apply Justified.of_quiet (dispatched_of_emitted he hplain)
  intro expected hwait
  obtain ⟨envelope, answer, rfl, -⟩ := emitted_eq_some he
  cases hwait

/-! ### What is kept -/

/-- All steps are justified, and the history tells this. -/
structure Keeps (ctx : TurnContext) (x : Seen) (h : List TurnStep) : Prop where
  justified : Always (Justified ctx) h
  seen : seen h = x

/-- Also after a failure all steps are justified. -/
def StaysJustified (ctx : TurnContext) (_ : AgentError) (_ : SequenceEmitter)
    (h : List TurnStep) : Prop :=
  Always (Justified ctx) h

theorem Keeps.tell (hk : Keeps ctx x h) (hnone : dispatched e = none)
    (hwait : ∀ expected, e.1 ≠ .recvMatching expected) :
  Keeps ctx (x.observe e) (h ++ [e])
  where
  justified := by
    rw [always_snoc]
    exact ⟨hk.justified, .of_quiet hnone hwait⟩
  seen := by rw [seen_snoc, hk.seen]

theorem Keeps.snoc (hk : Keeps ctx x h) (he : Justified ctx h e) (hx : x.observe e = x) :
  Keeps ctx x (h ++ [e])
  where
  justified := by
    rw [always_snoc]
    exact ⟨hk.justified, he⟩
  seen := by rw [seen_snoc, hk.seen, hx]

theorem Keeps.emit (hk : Keeps ctx x h)
    (he : ∀ e, emitted e = some event → Justified ctx h e ∧ x.observe e = x) :
  wp (fun _ _ h' => ∃ e, emitted e = some event ∧ h' = h ++ [e] ∧ Keeps ctx x h')
    (StaysJustified ctx) (emit event) s h
  := by
  apply wp_mono wp_emit_step
  · rintro _ _ _ ⟨e, hevent, rfl⟩
    exact ⟨e, hevent, rfl, hk.snoc (he e hevent).1 (he e hevent).2⟩
  · rintro _ _ _ (rfl | ⟨e, hevent, rfl⟩)
    · exact hk.justified
    · exact (hk.snoc (he e hevent).1 (he e hevent).2).justified

theorem Keeps.emit_tell (hk : Keeps ctx x h) (hnone : event.dispatched = none) :
  wp (fun _ _ h' => Keeps ctx (x.observeEvent event) h') (StaysJustified ctx)
    (Agent.emit event) s h
  := by
  have htell : ∀ e : TurnStep, emitted e = some event →
      Keeps ctx (x.observeEvent event) (h ++ [e]) := by
    intro e he
    obtain ⟨envelope, answer, rfl, rfl⟩ := emitted_eq_some he
    exact hk.tell (e := ⟨.emit envelope, answer⟩) hnone nofun
  apply wp_mono wp_emit_step
  · rintro _ _ _ ⟨e, he, rfl⟩
    exact htell e he
  · rintro _ _ _ (rfl | ⟨e, he, rfl⟩)
    · exact hk.justified
    · exact (htell e he).justified

theorem Keeps.emit_plain (hk : Keeps ctx x h) (hplain : event.plain) :
  wp (fun _ _ h' => ∃ e, emitted e = some event ∧ h' = h ++ [e] ∧ Keeps ctx x h')
    (StaysJustified ctx) (Agent.emit event) s h
  := by
  apply hk.emit
  intro e he
  exact ⟨.of_emitted he hplain, observe_of_emitted he hplain⟩

theorem Keeps.call (hk : Keeps ctx x h)
    (he : ∀ e : TurnStep, e.1 = c → Justified ctx h e ∧ x.observe e = x) :
  wp (fun r _ h' => ∃ cs, h' = h ++ [⟨c, cs, r⟩] ∧ Keeps ctx x h') E (callOut c) s h
  := by
  rw [wp_callOut]
  intro r
  obtain ⟨hjustified, hx⟩ := he ⟨c, r⟩ rfl
  exact ⟨r.1, rfl, hk.snoc hjustified hx⟩

theorem Keeps.call_plain (hk : Keeps ctx x h) (hplain : c.plain) :
  wp (fun r _ h' => ∃ cs, h' = h ++ [⟨c, cs, r⟩] ∧ Keeps ctx x h') E (callOut c) s h
  := by
  apply hk.call
  rintro e rfl
  exact ⟨.of_plain hplain, observe_of_plain hplain⟩

/-! ### From the proposal on -/

/-- A tool use has been proposed, and since then these steps were taken. -/
structure Pending (ctx : TurnContext) (x : Seen) (toolUse : ToolUse) (mid h : List TurnStep) :
    Prop where
  keeps : Keeps ctx x h
  offers : x.Offers ctx toolUse
  admits : x.Admits toolUse.name
  proposed : ∃ pre p, h = pre ++ p :: mid ∧ Proposes p toolUse ∧ seen pre = x

theorem Pending.snoc (hp : Pending ctx x toolUse mid h) (hk : Keeps ctx x (h ++ [e])) :
  Pending ctx x toolUse (mid ++ [e]) (h ++ [e])
  where
  keeps := hk
  offers := hp.offers
  admits := hp.admits
  proposed := by
    obtain ⟨pre, p, rfl, hproposes, hpre⟩ := hp.proposed
    exact ⟨pre, p, by simp, hproposes, hpre⟩

theorem Pending.justifies (hp : Pending ctx x toolUse mid h)
    (hruns : Executes ctx toolUse (x.files ctx) mid e) (hsome : dispatched e = some toolUse)
    (hwait : ∀ expected, e.1 ≠ .recvMatching expected) :
  Justified ctx h e
  where
  dispatch toolUse' hsome' := by
    rw [hsome] at hsome'
    cases hsome'
    obtain ⟨pre, p, rfl, hproposes, hpre⟩ := hp.proposed
    refine ⟨pre, p, mid, rfl, hproposes, ?_, ?_, ?_, ?_⟩
    · rw [hpre]
      exact hp.offers
    · rw [hpre]
      exact hp.admits
    · rw [hpre]
      exact hruns
    · rw [hp.keeps.seen, hpre]
  wait expected he := absurd he (hwait expected)

theorem Keeps.propose {input : Json.Value} {risk : List Text} (hk : Keeps ctx x h)
    (hoffers : x.Offers ctx toolUse) (hadmits : x.Admits toolUse.name) :
  wp (fun _ _ h' => Pending ctx x toolUse [] h') (StaysJustified ctx)
    (Agent.emit (.toolProposed toolUse.id toolUse.name input risk)) s h
  := by
  apply wp_mono (hk.emit_plain rfl)
  · rintro _ _ _ ⟨e, he, rfl, hk'⟩
    exact ⟨hk', hoffers, hadmits, h, e, rfl, ⟨input, risk, he⟩, hk.seen⟩
  · intro _ _ _ herror
    exact herror

theorem Pending.emit_plain (hp : Pending ctx x toolUse mid h) (hplain : event.plain) :
  wp (fun _ _ h' => ∃ e, emitted e = some event ∧ Pending ctx x toolUse (mid ++ [e]) h')
    (StaysJustified ctx) (emit event) s h
  := by
  apply wp_mono (hp.keeps.emit_plain hplain)
  · rintro _ _ _ ⟨e, he, rfl, hk⟩
    exact ⟨e, he, hp.snoc hk⟩
  · intro _ _ _ herror
    exact herror

theorem Pending.call_plain (hp : Pending ctx x toolUse mid h) (hplain : c.plain) :
  wp (fun r _ h' => ∃ cs, Pending ctx x toolUse (mid ++ [⟨c, cs, r⟩]) h') E (callOut c) s h
  := by
  apply wp_mono (hp.keeps.call_plain hplain)
  · rintro r _ _ ⟨cs, rfl, hk⟩
    exact ⟨cs, hp.snoc hk⟩
  · intro _ _ _ herror
    exact herror

/-! ### The transitions of a tool -/

theorem finish_keeps {status : ToolResultStatus} {content : Text} (hk : Keeps ctx x h) :
  wp (fun _ _ h' => Keeps ctx x h') (StaysJustified ctx) (finish toolUse status content) s h
  := by
  apply wp_seq (hk.emit_plain rfl)
  rintro _ _ _ ⟨_, _, _, hk'⟩
  exact hk'

theorem refuse_keeps {status : ToolResultStatus} {content : Text} (hk : Keeps ctx x h) :
  wp (fun _ _ h' => Keeps ctx x h') (StaysJustified ctx) (refuse toolUse status content) s h
  := by
  apply wp_seq (hk.emit_plain rfl)
  rintro _ _ _ ⟨_, _, _, hk'⟩
  exact finish_keeps hk'

theorem route_keeps (hk : Keeps ctx x h) (hoffers : x.Offers ctx toolUse)
    (hadmits : x.Admits toolUse.name) (hname : isBackendTool (x.files ctx) toolUse.name) :
  wp (fun _ _ h' => Keeps ctx x h') (StaysJustified ctx) (route ctx toolUse) s h
  := by
  apply wp_seq (hk.propose hoffers hadmits)
  intro _ s' h' hp
  apply wp_seq (R := fun _ _ h'' => Keeps ctx x h'')
  · unfold TurnEngine.dispatch
    rw [wp_ite]
    constructor
    · intro hrouter
      apply wp_mono (hp.keeps.call _)
      · rintro _ _ _ ⟨_, _, hk'⟩
        exact hk'
      · intro _ _ _ herror
        exact herror
      · intro e he
        obtain ⟨c, answer⟩ := e
        cases he
        constructor
        · apply hp.justifies (.backend _ hname hrouter rfl) rfl
          intro _ hwait
          cases hwait
        · rfl
    · intro _
      exact hp.keeps
  · intro answer s'' h'' hk'
    apply wp_seq (hk'.emit_plain rfl)
    rintro _ _ _ ⟨_, _, _, hk''⟩
    exact hk''

theorem Keeps.recv {expected : ExpectedResponse} (hk : Keeps ctx x h)
    (hexpect : ∃ pre p mid, h = pre ++ p :: mid ∧ p.1 = .setExpected expected
      ∧ ∀ m ∈ mid, (emitted m).isSome) :
  wp (fun r _ h' => ∃ cs, h' = h ++ [⟨.recvMatching expected, cs, r⟩] ∧ Keeps ctx x h') E
    (callOut (.recvMatching expected)) s h
  := by
  apply hk.call
  rintro ⟨c, answer⟩ he
  cases he
  constructor
  · constructor
    · intro toolUse hsome
      cases hsome
    · intro expected' he'
      cases he'
      exact hexpect
  · rfl

theorem executeTool_keeps (hk : Keeps ctx x h)
    (hexpect : ∃ pre p mid, h = pre ++ p :: mid ∧ p.1 = .setExpected (.toolResult toolUse.id)
      ∧ ∀ m ∈ mid, (emitted m).isSome) :
  wp (fun _ _ h' => Keeps ctx x h') (fun _ _ h' => Keeps ctx x h')
    (RuntimeBridge.executeTool toolUse.id) s h
  := by
  apply wp_seq (hk.recv hexpect)
  rintro r s' _ ⟨cs, rfl, hk'⟩
  split
  · exact hk'
  · exact hk'
  · exact hk'
  · exact hk'
  · exact hk'

theorem runTerminal_keeps (hp : Pending ctx x toolUse mid h) (hname : toolUse.name = TERMINAL_EXEC)
    (hvalid : validateInput ctx toolUse = .ok none) (hclear : Cleared ctx toolUse none mid) :
  wp (fun _ _ h' => Keeps ctx x h') (StaysJustified ctx) (runTerminal ctx toolUse) s h
  := by
  apply wp_seq (hp.call_plain rfl)
  rintro r₁ s₁ h₁ ⟨cs, hp₁⟩
  have hrequest : ∀ e : TurnStep,
      emitted e = some (.toolExecutionRequested toolUse.id ctx.request.targetRef toolUse.input) →
        Justified ctx h₁ e ∧ x.observe e = x := by
    intro e he
    obtain ⟨envelope, answer, rfl, hevent⟩ := emitted_eq_some he
    constructor
    · apply hp₁.justifies (.terminal mid _ _ hname hvalid hclear rfl he)
      · change envelope.event.dispatched = some toolUse
        rw [hevent, AgentEvent.dispatched, ← hname]
      · intro _ hwait
        cases hwait
    · change x.observeEvent envelope.event = x
      rw [hevent]
      rfl
  apply wp_seq (hp₁.keeps.emit hrequest)
  rintro _ s₂ _ ⟨e₂, he₂, rfl, hk₂⟩
  apply wp_seq (hk₂.emit_plain rfl)
  rintro _ s₃ _ ⟨e₃, he₃, rfl, hk₃⟩
  have hexpect : ∃ pre p mid', h₁ ++ [e₂] ++ [e₃] = pre ++ p :: mid'
      ∧ p.1 = .setExpected (.toolResult toolUse.id) ∧ ∀ m ∈ mid', (emitted m).isSome := by
    obtain ⟨pre, p, rfl, -, -⟩ := hp₁.proposed
    refine ⟨pre ++ p :: mid, ⟨_, cs, r₁⟩, [e₂, e₃], by simp, rfl, ?_⟩
    simp [he₂, he₃]
  apply wp_attempt_seq (executeTool_keeps hk₃ hexpect)
  · intro outcome s₄ h₄ hk₄
    exact finish_keeps hk₄
  · intro e s₄ h₄ hk₄
    cases e with
    | toolBridgeTimeout => exact finish_keeps hk₄
    | _ => exact hk₄.justified

theorem runLocal_keeps {input : FileInput} (hp : Pending ctx x toolUse mid h)
    (hname : isFileTool toolUse.name) (hactive : x.files ctx)
    (hvalid : validateInput ctx toolUse = .ok (some input))
    (hclear : Cleared ctx toolUse (some input) mid) :
  wp (fun _ _ h' => Keeps ctx x h') (StaysJustified ctx) (runLocal toolUse) s h
  := by
  apply wp_seq (hp.call_plain rfl)
  rintro _ s₁ h₁ ⟨cs₁, hp₁⟩
  apply wp_seq (hp₁.call_plain rfl)
  rintro cancelled s₂ h₂ ⟨cs₂, hp₂⟩
  rw [wp_ite]
  constructor
  · intro _
    apply wp_seq (finish_keeps hp₂.keeps)
    intro _ _ _ hk
    exact hk.justified
  · intro halive
    rw [Bool.not_eq_true] at halive
    subst halive
    apply wp_seq (hp₂.emit_plain rfl)
    rintro _ s₃ h₃ ⟨e₃, he₃, hp₃⟩
    have hexecute : ∀ e : TurnStep,
        e.1 = .execute toolUse.id toolUse.name toolUse.input →
          Justified ctx h₃ e ∧ x.observe e = x := by
      rintro ⟨c, answer⟩ he
      cases he
      constructor
      · apply hp₃.justifies _ rfl
        · intro _ hwait
          cases hwait
        · simp only [List.append_assoc, List.singleton_append]
          exact .files input mid _ _ e₃ _ hname hactive hvalid hclear rfl rfl he₃ rfl
      · rfl
    apply wp_seq (hp₃.keeps.call hexecute)
    rintro outcome s₄ _ ⟨cs₄, rfl, hk₄⟩
    exact finish_keeps hk₄

theorem runTool_keeps (hp : Pending ctx x toolUse mid h)
    (hname : isBackendTool (x.files ctx) toolUse.name = false)
    (hvalid : validateInput ctx toolUse = .ok fileInput)
    (hclear : Cleared ctx toolUse fileInput mid) :
  wp (fun _ _ h' => Keeps ctx x h') (StaysJustified ctx) (runTool ctx toolUse) s h
  := by
  have hkind := validateInput_ok hvalid
  unfold runTool
  rw [wp_ite]
  constructor
  · intro hfile
    rw [hfile] at hkind
    obtain ⟨input, rfl⟩ := Option.isSome_iff_exists.mp hkind
    refine runLocal_keeps hp hfile ?_ hvalid hclear
    have hother : toolUse.name ≠ TERMINAL_EXEC := by
      rintro heq
      rw [heq] at hfile
      exact absurd hfile (by decide)
    simpa [isBackendTool, hfile, hother] using hname
  · intro hfile
    rw [Bool.not_eq_true] at hfile
    rw [hfile, Option.isSome_eq_false_iff, Option.isNone_iff_eq_none] at hkind
    subst hkind
    refine runTerminal_keeps hp ?_ hvalid hclear
    simpa [isBackendTool, hfile] using hname

theorem requestApproval_pending (hp : Pending ctx x toolUse mid h)
    (hexpect : ∃ pre p mid, h = pre ++ p :: mid ∧ p.1 = .setExpected (.approval toolUse.id)
      ∧ ∀ m ∈ mid, (emitted m).isSome) :
  wp (fun d _ h' => ∃ e id, received e = some (.approval toolUse.id, .approvalDecision id d)
      ∧ Pending ctx x toolUse (mid ++ [e]) h')
    (fun _ _ h' => Keeps ctx x h') (RuntimeBridge.requestApproval toolUse.id) s h
  := by
  apply wp_seq (hp.keeps.recv hexpect)
  rintro r s' _ ⟨cs, rfl, hk⟩
  split
  · rename_i skipped id decision
    exact ⟨_, id, rfl, hp.snoc hk⟩
  · exact hk
  · exact hk
  · exact hk
  · exact hk

theorem approve_keeps {risk : ToolRisk} {reason : Text} (hp : Pending ctx x toolUse [] h)
    (hname : isBackendTool (x.files ctx) toolUse.name = false)
    (hvalid : validateInput ctx toolUse = .ok fileInput)
    (hdecision : decision ctx toolUse fileInput = .approvalRequired risk reason) :
  wp (fun _ _ h' => Keeps ctx x h') (StaysJustified ctx) (approve ctx toolUse reason) s h
  := by
  apply wp_seq (hp.call_plain rfl)
  rintro r₁ s₁ h₁ ⟨cs₁, hp₁⟩
  apply wp_seq (hp₁.emit_plain rfl)
  rintro _ s₂ h₂ ⟨e₂, he₂, hp₂⟩
  have hexpect : ∃ pre p mid, h₂ = pre ++ p :: mid
      ∧ p.1 = .setExpected (.approval toolUse.id) ∧ ∀ m ∈ mid, (emitted m).isSome := by
    obtain ⟨pre, p, rfl, -, -⟩ := hp₂.proposed
    refine ⟨pre ++ [p], ⟨_, cs₁, r₁⟩, [e₂], by simp, rfl, ?_⟩
    simp [he₂]
  apply wp_attempt_seq (requestApproval_pending hp₂ hexpect)
  · rintro answer s₃ h₃ ⟨e₃, id, he₃, hp₃⟩
    cases answer with
    | allow =>
      refine runTool_keeps hp₃ hname hvalid ?_
      exact .approved risk reason id _ e₂ e₃ hdecision rfl he₂ he₃
    | deny => exact finish_keeps hp₃.keeps
  · intro e s₃ h₃ hk₃
    cases e with
    | turnCancelled =>
      apply wp_seq (finish_keeps hk₃)
      intro _ _ _ hk
      exact hk.justified
    | approvalTimeout => exact finish_keeps hk₃
    | _ => exact hk₃.justified

theorem admit_keeps (hk : Keeps ctx x h) (hoffers : x.Offers ctx toolUse)
    (hadmits : x.Admits toolUse.name) (hname : isBackendTool (x.files ctx) toolUse.name = false)
    (hvalid : validateInput ctx toolUse = .ok fileInput) :
  wp (fun _ _ h' => Keeps ctx x h') (StaysJustified ctx) (admit_ ctx toolUse fileInput) s h
  := by
  apply wp_seq (R := fun _ _ h' => Keeps ctx x h')
  · unfold proposedInput
    split
    · exact hk
    · rw [wp_ite]
      constructor
      · intro _
        exact hk
      · intro _
        apply wp_seq (hk.call_plain rfl)
        rintro _ _ _ ⟨_, _, hk'⟩
        exact hk'
  · intro input s₁ h₁ hk₁
    split
    · exact refuse_keeps hk₁
    · rename_i risk hdecision
      apply wp_seq (hk₁.propose hoffers hadmits)
      intro _ s₂ h₂ hp₂
      exact runTool_keeps hp₂ hname hvalid (.allowed risk hdecision)
    · rename_i risk reason hdecision
      apply wp_seq (hk₁.propose hoffers hadmits)
      intro _ s₂ h₂ hp₂
      exact approve_keeps hp₂ hname hvalid hdecision

theorem filesActive_keeps (hk : Keeps ctx x h) :
  wp (fun active _ h' => ∃ a, Keeps ctx { x with active := a } h'
      ∧ active = Seen.files ctx { x with active := a })
    E (filesActive ctx) s h
  := by
  unfold filesActive
  split
  · rename_i hnone
    use x.active
    simp [hk, Seen.files, hnone]
  · rename_i dir hsome
    rw [wp_callOut (c := .isActive)]
    intro r
    use r.2
    constructor
    · exact hk.tell (e := ⟨.isActive, r⟩) rfl nofun
    · simp [Seen.files, hsome]

/-- The names that the engine admits are those that the history tells. -/
def AllowedNames (x : Seen) (allowedNames : Option (List Text)) : Prop :=
  x.legacy = false →
    ∃ request, x.request = some request ∧ allowedNames = some (request.tools.map ToolSpec.name)

theorem processTool_keeps {allowedNames : Option (List Text)} (hk : Keeps ctx x h)
    (hoffers : x.Offers ctx toolUse) (hnames : AllowedNames x allowedNames) :
  wp (fun _ _ h' => ∃ a, Keeps ctx { x with active := a } h') (StaysJustified ctx)
    (processTool ctx allowedNames toolUse) s h
  := by
  apply wp_seq (filesActive_keeps hk)
  rintro active s₁ h₁ ⟨a, hk₁, rfl⟩
  have hoffers₁ := hoffers.look a
  have hafter : ∀ {p : TurnProgram ToolResult},
      wp (fun _ _ h' => Keeps ctx { x with active := a } h') (StaysJustified ctx) p s₁ h₁ →
        wp (fun _ _ h' => ∃ a, Keeps ctx { x with active := a } h') (StaysJustified ctx)
          p s₁ h₁ := by
    intro p hp
    apply wp_mono hp
    · intro _ _ _ hk'
      exact ⟨a, hk'⟩
    · intro _ _ _ herror
      exact herror
  apply hafter
  rw [wp_ite]
  constructor
  · intro _
    exact refuse_keeps hk₁
  · intro hknown
    rw [not_or] at hknown
    have hadmits : Seen.Admits { x with active := a } toolUse.name := by
      intro hlegacy
      obtain ⟨request, hrequest, rfl⟩ := hnames hlegacy
      use request, hrequest
      simpa using hknown.2
    rw [wp_ite]
    constructor
    · intro hbackend
      exact route_keeps hk₁ hoffers₁ hadmits hbackend
    · intro hbackend
      rw [Bool.not_eq_true] at hbackend
      split
      · exact refuse_keeps hk₁
      · rename_i fileInput hvalid
        exact admit_keeps hk₁ hoffers₁ hadmits hbackend hvalid

theorem processTools_keeps {allowedNames : Option (List Text)}
    (hnames : AllowedNames x allowedNames) :
  ∀ (toolUses : List ToolUse) (a : Bool) (s : SequenceEmitter) (h : List TurnStep),
    Keeps ctx { x with active := a } h → (∀ toolUse ∈ toolUses, x.Offers ctx toolUse) →
    wp (fun _ _ h' => ∃ a, Keeps ctx { x with active := a } h') (StaysJustified ctx)
      (processTools ctx allowedNames toolUses) s h
  | [], a, _, _, hk, _ => ⟨a, hk⟩
  | toolUse :: toolUses, a, s, h, hk, hoffers => by
      rw [List.forall_mem_cons] at hoffers
      apply wp_seq (processTool_keeps hk (hoffers.1.look a) hnames)
      rintro _ s₁ h₁ ⟨a₁, hk₁⟩
      apply wp_seq (processTools_keeps hnames toolUses a₁ s₁ h₁ hk₁ hoffers.2)
      intro _ _ _ hk₂
      exact hk₂

/-! ### Rounds -/

theorem emitDeltas_keeps {messageId : Text} :
  ∀ (deltas : List Delta) (s : SequenceEmitter) (h : List TurnStep), Keeps ctx x h →
    wp (fun _ _ h' => Keeps ctx x h') (StaysJustified ctx) (emitDeltas messageId deltas) s h
  | [], _, _, hk => hk
  | delta :: deltas, s, h, hk => by
      have hplain : (deltaEvent messageId delta).plain := by
        cases delta with
        | text delta => rfl
        | thinking delta => rfl
      apply wp_seq (hk.emit_plain hplain)
      rintro _ s₁ _ ⟨e, -, rfl, hk₁⟩
      exact emitDeltas_keeps deltas s₁ _ hk₁

theorem completeRoundLive_keeps {messageId : Text} {request : ProviderRequest}
    (hk : Keeps ctx x h) :
  wp (fun result _ h' => Keeps ctx { x with
        retry := x.legacy && x.answer.isNone, request := some request,
        answer := result.toOption } h')
    (StaysJustified ctx) (completeRoundLive messageId request) s h
  := by
  unfold completeRoundLive
  rw [wp_bind, wp_callOut]
  intro r
  have hstarted := hk.tell (e := ⟨.startRound request, r⟩) rfl nofun
  apply wp_seq (emitDeltas_keeps r.2 s _ hstarted)
  intro _ s₁ h₁ hk₁
  rw [wp_bind, wp_callOut (c := .endRound)]
  rintro ⟨cs, answer⟩
  have hended := hk₁.tell (e := ⟨.endRound, cs, answer⟩) rfl nofun
  cases answer with
  | completed result =>
    cases result with
    | ok answer => exact hended
    | error e => exact hended
  | closed => exact hended.justified
  | cancelled => exact hended.justified

theorem askProvider_keeps {l : Loop} {files : Bool} {tools : List ToolSpec} (hk : Keeps ctx x h)
    (hlegacy : x.legacy = l.legacyMode) :
  wp (fun r _ h' => ∃ x', Keeps ctx x' h'
      ∧ Answered l (roundRequest ctx l files tools) r.1 r.2 x')
    (StaysJustified ctx) (askProvider ctx l files tools) s h
  := by
  apply wp_seq (completeRoundLive_keeps hk)
  intro result s₁ h₁ hk₁
  split
  · rename_i answer
    exact ⟨_, hk₁, hlegacy, rfl, fun _ => rfl, Or.inl⟩
  · rw [wp_ite]
    constructor
    · intro _
      apply wp_seq (hk₁.emit_tell rfl)
      rintro _ s₂ h₂ hk₂
      apply wp_seq (completeRoundLive_keeps hk₂)
      intro result s₃ h₃ hk₃
      cases result with
      | ok answer => exact ⟨_, hk₃, rfl, rfl, nofun, fun _ => .inr rfl⟩
      | error e => exact hk₃.justified
    · intro _
      exact hk₁.justified
  · exact hk₁.justified

theorem reportRound_keeps {messageId : Text} {answer : ProviderRound} (hk : Keeps ctx x h) :
  wp (fun _ _ h' => Keeps ctx x h') (StaysJustified ctx) (reportRound messageId answer) s h
  := by
  apply wp_seq (hk.emit_plain rfl)
  rintro _ s₁ _ ⟨e, -, rfl, hk₁⟩
  split
  · apply wp_mono (hk₁.emit_plain rfl)
    · rintro _ _ _ ⟨_, _, _, hk₂⟩
      exact hk₂
    · intro _ _ _ herror
      exact herror
  · exact hk₁

theorem advertisedTools_keeps {l : Loop} {files : Bool} (hk : Keeps ctx x h) :
  wp (fun _ _ h' => Keeps ctx x h') E (advertisedTools ctx l files) s h
  := by
  unfold advertisedTools
  rw [wp_ite]
  constructor
  · intro _
    exact hk
  · intro _
    apply wp_seq (R := fun _ _ h' => Keeps ctx x h')
    · unfold routedTools
      rw [wp_ite]
      constructor
      · intro _
        apply wp_mono (hk.call_plain (E := E) rfl)
        · rintro _ _ _ ⟨_, _, hk'⟩
          exact hk'
        · intro _ _ _ herror
          exact herror
      · intro _
        exact hk
    · intro _ _ _ hk'
      exact hk'

theorem round_keeps {l : Loop} (hk : Keeps ctx x h) (hlegacy : x.legacy = l.legacyMode) :
  wp (fun next _ h' => ∃ x', Keeps ctx x' h' ∧ ∀ l', next = some l' → x'.legacy = l'.legacyMode)
    (StaysJustified ctx) (round ctx l) s h
  := by
  apply wp_seq (R := fun _ _ h' => ∃ a, Keeps ctx { x with active := a } h')
  · apply wp_seq (filesActive_keeps hk)
    rintro active s₁ h₁ ⟨a, hk₁, -⟩
    exact ⟨a, hk₁⟩
  · rintro files s₁ h₁ ⟨a, hk₁⟩
    apply wp_seq (advertisedTools_keeps hk₁)
    intro tools s₂ h₂ hk₂
    apply wp_seq (hk₂.emit_plain rfl)
    rintro _ s₃ _ ⟨e₃, -, rfl, hk₃⟩
    apply wp_seq (askProvider_keeps hk₃ hlegacy)
    rintro ⟨answer, legacyMode⟩ s₄ h₄ ⟨x', hk₄, ha⟩
    apply wp_seq (reportRound_keeps hk₄)
    intro _ s₅ h₅ hk₅
    rw [wp_bind, wp_lift]
    constructor
    · intro uses huses
      rw [wp_ite]
      constructor
      · intro _
        exact ⟨x', hk₅, nofun⟩
      · intro _
        have hnames : AllowedNames x'
            (if legacyMode then none else some (tools.map ToolSpec.name)) := by
          intro hfalse
          rw [ha.legacy] at hfalse
          subst hfalse
          exact ⟨_, ha.request rfl, rfl⟩
        apply wp_seq (processTools_keeps hnames uses x'.active s₅ h₅ hk₅ (ha.offers huses))
        rintro results s₆ h₆ ⟨a', hk₆⟩
        refine ⟨_, hk₆, ?_⟩
        rintro _ ⟨⟩
        exact ha.legacy
    · intro _ _
      exact hk₅.justified

theorem rounds_keeps :
  ∀ (fuel : ℕ) (l : Loop) (x : Seen) (s : SequenceEmitter) (h : List TurnStep),
    Keeps ctx x h → x.legacy = l.legacyMode →
    wp (fun _ _ h' => Always (Justified ctx) h') (StaysJustified ctx) (rounds ctx fuel l) s h
  | 0, _, _, _, _, hk, _ => hk.justified
  | fuel + 1, l, x, s, h, hk, hlegacy => by
      apply wp_seq (hk.call_plain rfl)
      rintro cancelled s₁ _ ⟨cs, rfl, hk₁⟩
      rw [wp_ite]
      constructor
      · intro _
        exact hk₁.justified
      · intro _
        apply wp_seq (round_keeps (l := l.next ctx) hk₁ hlegacy)
        rintro next s₂ h₂ ⟨x', hk₂, hlegacy'⟩
        cases next with
        | none => exact hk₂.justified
        | some l' => exact rounds_keeps fuel l' x' s₂ h₂ hk₂ (hlegacy' l' rfl)

theorem run_justified (ctx : TurnContext) (outside : Outside TurnCall.Answered) :
  Always (Justified ctx) (history ctx outside)
  := by
  apply run_history
  have hstart : Keeps ctx .start [] := ⟨always_nil, rfl⟩
  apply wp_seq (hstart.emit_plain rfl)
  rintro _ s₁ _ ⟨e, -, rfl, hk₁⟩
  have hlast : ∀ (event : AgentEvent) (s : SequenceEmitter) (h : List TurnStep), event.plain →
      Always (Justified ctx) h →
        wp (fun _ _ h' => Always (Justified ctx) h') (StaysJustified ctx) (emit event) s h := by
    intro event s h hplain hjustified
    have hk : Keeps ctx (seen h) h := ⟨hjustified, rfl⟩
    apply wp_mono (hk.emit_plain hplain)
    · rintro _ _ _ ⟨_, _, _, hk'⟩
      exact hk'.justified
    · intro _ _ _ herror
      exact herror
  apply wp_attempt_seq (rounds_keeps _ _ _ _ _ hk₁ rfl)
  · intro _ s₂ h₂ hjustified
    exact hlast _ _ _ rfl hjustified
  · intro e s₂ h₂ hjustified
    have hfailed : ∀ event : AgentEvent, event.plain →
        wp (fun (_ : Unit) _ h' => Always (Justified ctx) h') (StaysJustified ctx)
          (do emit event; fail e) s₂ h₂ := by
      intro event hplain
      apply wp_seq (hlast event s₂ h₂ hplain hjustified)
      intro _ _ _ hafter
      exact hafter
    cases e with
    | turnCancelled => exact hfailed _ rfl
    | _ => exact hfailed _ rfl

end

end Agent
