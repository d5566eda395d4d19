import Catio.Agent.Engine.Refusals

/-!
# Approvals

Which commands run without an approval.  In every run in which an approval is requested only
when no `allow` for its id waits in the channel, and in which no command is proposed that the
unattended policy lets through against the mode or its own name, the approvals are sound
(`approvals_sound`).
-/

namespace Agent

open Text Program TurnEngine

/-! ### Sound approvals -/

/-- A wait for a response runs out of time. -/
def timesOut : TurnStep → Bool
  | ⟨.recvMatching _, _, .elapsed _⟩ => true
  | _ => false

theorem timesOut_of_received {m : TurnStep} {r : ExpectedResponse × ClientTurnResponse}
    (h : received m = some r) :
  timesOut m = false
  := by
  obtain ⟨c, cs, answer⟩ := m
  cases c with
  | recvMatching expected =>
    cases answer with
    | received skipped response => rfl
    | _ => cases h
  | _ => rfl

theorem timesOut_of_setExpected {m : TurnStep} {expected : ExpectedResponse}
    (h : m.1 = .setExpected expected) :
  timesOut m = false
  := by
  obtain ⟨c, cs, answer⟩ := m
  cases h
  rfl

/-- Since the last proposal an approval with this id was requested, and since then the owner's
`allow` for it was accepted, no `deny` was, and no wait timed out. -/
def Approved (ctx : TurnContext) (before : List TurnStep) (id : Text) : Prop :=
  ∃ pre r mid reason, before = pre ++ r :: mid
    ∧ emitted r = some (.approvalRequested id reason)
    ∧ (∀ m ∈ mid, proposesAny m = false)
    ∧ (∃ u actor, ((ActiveTurn.start ctx.ownerId).afterAll (pre ++ [r])).CallAt mid u
          (.respond actor (.approvalDecision id .allow))
        ∧ actor.ownerId = ctx.ownerId
        ∧ u.respond actor (.approvalDecision id .allow)
          = (.ok (), u.accept (.approvalDecision id .allow)))
    ∧ (∀ u actor, ((ActiveTurn.start ctx.ownerId).afterAll (pre ++ [r])).CallAt mid u
        (.respond actor (.approvalDecision id .deny)) →
          (u.respond actor (.approvalDecision id .deny)).1 ≠ .ok ())
    ∧ ∀ m ∈ mid, timesOut m = false

theorem accepted_since {t : ActiveTurn} {h : List TurnStep} {e₃ : TurnStep} {id id' : Text}
    (rest : List TurnStep) (hcheck : t.Consistent h e₃)
    (hallow : received e₃ = some (.approval id, .approvalDecision id' .allow))
    (hfresh : .approvalDecision id .allow ∉ (t.afterAll h).channel) :
  ∃ u actor, (t.afterAll h).CallAt (e₃ :: rest) u (.respond actor (.approvalDecision id .allow))
    ∧ actor.ownerId = t.ownerId
    ∧ u.respond actor (.approvalDecision id .allow)
      = (.ok (), u.accept (.approvalDecision id .allow))
  := by
  obtain ⟨hmem, hmatches⟩ := hcheck.received hallow
  rw [matches_approval hmatches] at hmem
  rcases ActiveTurn.mem_channel_calls hmem with hmem | ⟨cs₁, actor, cs₂, hcs, howner, haccept, -⟩
  · exact absurd hmem hfresh
  · refine ⟨_, actor, ⟨[], e₃, rest, cs₁, cs₂, rfl, hcs, rfl⟩, ?_, haccept⟩
    rw [howner, (t.grows_afterAll h).owner]

theorem not_denied {t u : ActiveTurn} {h : List TurnStep} {id : Text} {actor : ActorContext}
    (hcall : t.CallAt h u (.respond actor (.approvalDecision id .allow)))
    (haccept : u.respond actor (.approvalDecision id .allow)
      = (.ok (), u.accept (.approvalDecision id .allow))) :
  ∀ u' actor', t.CallAt h u' (.respond actor' (.approvalDecision id .deny)) →
    (u'.respond actor' (.approvalDecision id .deny)).1 ≠ .ok ()
  := by
  intro u' actor' hcall' hok'
  have hok : (u.respond actor (.approvalDecision id .allow)).1 = .ok () := by rw [haccept]
  rcases hcall.compare hcall' nofun with hgrows | hgrows
  · exact absurd (ActiveTurn.eq_of_ok hok hgrows hok' rfl) nofun
  · exact absurd (ActiveTurn.eq_of_ok hok' hgrows hok rfl) nofun

section

variable [Regex]

/-- A step dispatches a command to the terminal that is sensitive. -/
def Sensitive (ctx : TurnContext) (e : TurnStep) (id : Text) : Prop :=
  ∃ target input command, emitted e = some (.toolExecutionRequested id target input)
    ∧ validateTerminalInput input ctx.request.singleLineCommands = .ok command
    ∧ (classify command).sensitive

/-- In the `ask` mode without a policy sensitive commands are approved, in the `manual` mode
nothing is dispatched, and the policy that rejects sensitive commands lets none run. -/
structure ApprovalSound (ctx : TurnContext) (h : List TurnStep) : Prop where
  ask : ctx.request.executionMode = .ask → ctx.unattended = none →
    ∀ before e after id, h = before ++ e :: after → Sensitive ctx e id → Approved ctx before id
  manual : ctx.request.executionMode = .manual → ∀ e ∈ h, dispatched e = none
  rejectSensitive : ctx.unattended = some .rejectSensitive → ∀ e ∈ h, ∀ id, ¬ Sensitive ctx e id

/-- The policy lets a command through that the mode hides, or that it should reject. -/
def Overridden (ctx : TurnContext) (command : Text) : Prop :=
  (ctx.request.executionMode = .manual
      ∧ ∃ commands, ctx.unattended = some (.whitelist commands) ∧ command ∈ commands)
    ∨ (ctx.request.executionMode = .auto ∧ ctx.unattended = some .rejectSensitive
      ∧ (classify command).sensitive)

/-- Approvals are requested afresh, and no command is proposed that the policy lets through. -/
structure Careful (ctx : TurnContext) (h : List TurnStep) : Prop where
  fresh : ∀ pre p post id reason, h = pre ++ p :: post →
    emitted p = some (.approvalRequested id reason) →
      .approvalDecision id .allow
        ∉ (((ActiveTurn.start ctx.ownerId).afterAll pre).calls p.2.1).channel
  policy : ∀ pre p post toolUse command, h = pre ++ p :: post → Proposes p toolUse →
    (seen pre).Offers ctx toolUse → toolUse.name = TERMINAL_EXEC →
      validateTerminalInput toolUse.input ctx.request.singleLineCommands = .ok command →
        ¬ Overridden ctx command

variable {ctx : TurnContext} {toolUse : ToolUse} {command : Text} {mid : List TurnStep}
  {e : TurnStep} {fileInput : Option FileInput} {active : Bool}

/-! ### Decisions -/

theorem decision_terminal
    (hvalid : validateTerminalInput toolUse.input ctx.request.singleLineCommands = .ok command) :
  decision ctx toolUse none = match ctx.unattended with
    | none => authorize ctx.request.executionMode command
    | some policy => applyUnattended (authorize ctx.request.executionMode command) policy command
  := by
  unfold decision terminalCommand
  rw [hvalid]
  rfl

theorem decision_manual
    (hvalid : validateTerminalInput toolUse.input ctx.request.singleLineCommands = .ok command)
    (hmode : ctx.request.executionMode = .manual) (hover : ¬ Overridden ctx command) :
  decision ctx toolUse none = .hidden
  := by
  rw [decision_terminal hvalid, hmode]
  cases hpolicy : ctx.unattended with
  | none => rfl
  | some policy =>
    cases policy with
    | auto => rfl
    | rejectSensitive => rfl
    | whitelist commands =>
      have hout : command ∉ commands := fun hin =>
        hover (.inl ⟨hmode, commands, hpolicy, hin⟩)
      change (if command ∈ commands then _ else PolicyDecision.refused _) = _
      rw [if_neg hout]
      rfl

theorem decision_rejectSensitive
    (hvalid : validateTerminalInput toolUse.input ctx.request.singleLineCommands = .ok command)
    (hpolicy : ctx.unattended = some .rejectSensitive) (hsensitive : (classify command).sensitive)
    (hover : ¬ Overridden ctx command) :
  decision ctx toolUse none = .hidden
  := by
  rw [decision_terminal hvalid, hpolicy]
  cases hmode : ctx.request.executionMode with
  | manual => rfl
  | ask =>
    change (if (classify command).sensitive then _ else _ : PolicyDecision).refused = _
    rw [if_pos hsensitive]
    rfl
  | auto => exact absurd (.inr ⟨hmode, hpolicy, hsensitive⟩) hover

theorem decision_ask
    (hvalid : validateTerminalInput toolUse.input ctx.request.singleLineCommands = .ok command)
    (hmode : ctx.request.executionMode = .ask) (hpolicy : ctx.unattended = none)
    (hsensitive : (classify command).sensitive) :
  decision ctx toolUse none = .approvalRequired (classify command) "sensitiveCommand"
  := by
  rw [decision_terminal hvalid, hpolicy, hmode]
  change (if (classify command).sensitive then _ else _ : PolicyDecision) = _
  rw [if_pos hsensitive]

/-! ### Runs -/

theorem Executes.cleared_terminal (hruns : Executes ctx toolUse active mid e)
    (hname : toolUse.name = TERMINAL_EXEC) :
  ∃ clear e₁, mid = clear ++ [e₁] ∧ e₁.1 = .setExpected (.toolResult toolUse.id)
    ∧ Cleared ctx toolUse none clear
    ∧ ∃ command, validateTerminalInput toolUse.input ctx.request.singleLineCommands = .ok command
  := by
  cases hruns with
  | backend _ hbackend =>
    rw [hname, not_isBackendTool_terminal] at hbackend
    cases hbackend
  | terminal clear e₁ _ _ hvalid hclear hexpect =>
    exact ⟨clear, e₁, rfl, hexpect, hclear, validateInput_terminal hname hvalid⟩
  | files _ _ _ _ _ _ hfile =>
    rw [hname] at hfile
    exact absurd hfile (by decide)

theorem dispatched_of_sensitive {id : Text} (hsensitive : Sensitive ctx e id) :
  ∃ toolUse command, dispatched e = some toolUse ∧ toolUse.name = TERMINAL_EXEC
    ∧ toolUse.id = id
    ∧ validateTerminalInput toolUse.input ctx.request.singleLineCommands = .ok command
    ∧ (classify command).sensitive
  := by
  obtain ⟨target, input, command, he, hvalid, hrisk⟩ := hsensitive
  obtain ⟨envelope, answer, rfl, hevent⟩ := emitted_eq_some he
  refine ⟨⟨id, TERMINAL_EXEC, input⟩, command, ?_, rfl, rfl, hvalid, hrisk⟩
  change envelope.event.dispatched = _
  rw [hevent]
  rfl

variable {outside : Outside TurnCall.Answered}

theorem manual_sound (hcareful : Careful ctx (history ctx outside))
    (hmode : ctx.request.executionMode = .manual) :
  ∀ e ∈ history ctx outside, dispatched e = none
  := by
  intro e he
  obtain ⟨before, after, heq⟩ := List.append_of_mem he
  rw [Option.eq_none_iff_forall_ne_some]
  intro toolUse hsome
  obtain ⟨pre, p, mid, rfl, hproposes, hoffers, -, hruns, -⟩ :=
    (run_justified ctx outside before e after heq).dispatch toolUse hsome
  have hname : toolUse.name = TERMINAL_EXEC := by
    cases hoffers with
    | native _ _ _ hnot => exact absurd hmode hnot
    | synthetic _ _ _ _ _ hfirst => exact firstShellTool_name hfirst
  obtain ⟨clear, e₁, -, -, hclear, command, hvalid⟩ := hruns.cleared_terminal hname
  have hover := hcareful.policy pre p (mid ++ e :: after) toolUse command (by rw [heq]; simp)
    hproposes hoffers hname hvalid
  exact hclear.not_hidden (decision_manual hvalid hmode hover)

theorem rejectSensitive_sound (hcareful : Careful ctx (history ctx outside))
    (hpolicy : ctx.unattended = some .rejectSensitive) :
  ∀ e ∈ history ctx outside, ∀ id, ¬ Sensitive ctx e id
  := by
  intro e he id hsensitive
  obtain ⟨before, after, heq⟩ := List.append_of_mem he
  obtain ⟨toolUse, command, hsome, hname, -, hvalid, hrisk⟩ := dispatched_of_sensitive hsensitive
  obtain ⟨pre, p, mid, rfl, hproposes, hoffers, -, hruns, -⟩ :=
    (run_justified ctx outside before e after heq).dispatch toolUse hsome
  obtain ⟨clear, e₁, -, -, hclear, -⟩ := hruns.cleared_terminal hname
  have hover := hcareful.policy pre p (mid ++ e :: after) toolUse command (by rw [heq]; simp)
    hproposes hoffers hname hvalid
  exact hclear.not_hidden (decision_rejectSensitive hvalid hpolicy hrisk hover)

theorem ask_sound
    (hconsistent : Always (ActiveTurn.start ctx.ownerId).Consistent (history ctx outside))
    (hcareful : Careful ctx (history ctx outside)) (hmode : ctx.request.executionMode = .ask)
    (hpolicy : ctx.unattended = none) :
  ∀ before e after id, history ctx outside = before ++ e :: after → Sensitive ctx e id →
    Approved ctx before id
  := by
  intro before e after id heq hsensitive
  obtain ⟨toolUse, command, hsome, hname, rfl, hvalid, hrisk⟩ :=
    dispatched_of_sensitive hsensitive
  obtain ⟨pre, p, mid, rfl, hproposes, hoffers, -, hruns, -⟩ :=
    (run_justified ctx outside before e after heq).dispatch toolUse hsome
  have hnone := hruns.not_proposesAny
  obtain ⟨clear, e₄, rfl, hexpect, hclear, -⟩ := hruns.cleared_terminal hname
  have hdecision := decision_ask hvalid hmode hpolicy hrisk
  cases hclear with
  | allowed risk hallowed =>
    rw [hdecision] at hallowed
    cases hallowed
  | approved risk reason id' e₁ e₂ e₃ _ _ hrequest hallow =>
    have hheq : history ctx outside = (pre ++ [p, e₁]) ++ e₂ :: (e₃ :: e₄ :: e :: after) := by
      rw [heq]
      simp
    have hfresh := hcareful.fresh _ e₂ _ toolUse.id reason hheq hrequest
    have hcheck := hconsistent (pre ++ [p, e₁] ++ [e₂]) e₃ (e₄ :: e :: after)
      (by rw [hheq]; simp)
    have hwaits : .approvalDecision toolUse.id .allow
        ∉ ((ActiveTurn.start ctx.ownerId).afterAll (pre ++ [p, e₁] ++ [e₂])).channel := by
      rw [ActiveTurn.afterAll_append]
      exact fun hmem => hfresh (ActiveTurn.mem_channel_did _ _ _ hmem)
    obtain ⟨u, actor, hcall, howner, haccept⟩ :=
      accepted_since [e₄] hcheck hallow hwaits
    refine ⟨pre ++ [p, e₁], e₂, [e₃, e₄], reason, by simp, hrequest, ?_,
      ⟨u, actor, hcall, howner, haccept⟩, not_denied hcall haccept, ?_⟩
    · intro m hm
      apply hnone m
      simp only [List.mem_cons, List.not_mem_nil, or_false] at hm
      rcases hm with rfl | rfl
      · simp
      · simp
    · intro m hm
      simp only [List.mem_cons, List.not_mem_nil, or_false] at hm
      rcases hm with rfl | rfl
      · exact timesOut_of_received hallow
      · exact timesOut_of_setExpected hexpect

/-- If approvals are requested afresh and the policy lets no command through, approvals are sound.
-/
theorem approvals_sound (ctx : TurnContext) (outside : Outside TurnCall.Answered)
    (hconsistent : Always (ActiveTurn.start ctx.ownerId).Consistent (history ctx outside))
    (hcareful : Careful ctx (history ctx outside)) :
  ApprovalSound ctx (history ctx outside)
  where
  ask hmode hpolicy := ask_sound hconsistent hcareful hmode hpolicy
  manual hmode := manual_sound hcareful hmode
  rejectSensitive hpolicy := rejectSensitive_sound hcareful hpolicy

end

/-! ### Fixed runs -/

/-- A run against a script. -/
def rmHistory (mode : ExecutionMode) (unattended : Option UnattendedPolicy) (script : Script) :
    List TurnStep :=
  @history rmRisk (terminalTurn mode unattended) (script.outside "owner")

def requestsApproval (e : TurnStep) : Bool :=
  match emitted e with
  | some (.approvalRequested _ _) => true
  | _ => false

/-- One command, which the owner allows when the approval is awaited. -/
def allowed : Script where
  answers := [.ok (answerWith [terminalUse "call-1" "rm a"])]
  clients := fun n =>
    if n = 9 then [.respond ⟨"owner"⟩ (.approvalDecision "call-1" .allow)] else []
  active := false
  specs := []
  dispatch := fun _ => none

/-- A run of one command that is approved. -/
theorem approvals_sound_allowed :
  @ApprovalSound rmRisk (terminalTurn .ask none) (rmHistory .ask none allowed)
  := by
  let _ : Regex := rmRisk
  apply approvals_sound
  · exact Script.consistent allowed (terminalTurn .ask none)
  · constructor
    · intro pre p post id reason heq hrequest
      have hempty := forall_step (P := fun pre p => requestsApproval p →
        (((ActiveTurn.start (terminalTurn .ask none).ownerId).afterAll pre).calls
          p.2.1).channel = []) (by decide) heq
      rw [hempty (by rw [requestsApproval, hrequest])]
      nofun
    · rintro pre p post toolUse command - - - - - (⟨hmode, -⟩ | ⟨hmode, -⟩)
      · cases hmode
      · cases hmode

/-- Two commands under one id; the `allow` for the first one comes when its approval has timed
out. -/
def staleAllow : Script where
  answers := [.ok (answerWith [terminalUse "call-1" "rm a"]),
    .ok (answerWith [terminalUse "call-1" "rm b"])]
  clients := fun n =>
    if n = 10 then [.respond ⟨"owner"⟩ (.approvalDecision "call-1" .allow)] else []
  active := false
  specs := []
  dispatch := fun _ => none

theorem stale_not_approved :
  ¬ @ApprovalSound rmRisk (terminalTurn .ask none) (rmHistory .ask none staleAllow)
  := by
  let _ : Regex := rmRisk
  intro hsound
  obtain ⟨e, he, hsome⟩ : ∃ e, (rmHistory .ask none staleAllow)[21]? = some e
      ∧ emitted e = some (.toolExecutionRequested "call-1" "pane"
        (.object [("command", .string "rm b")])) := ⟨_, rfl, rfl⟩
  obtain ⟨pre, r, mid, reason, hbefore, -, hnone, ⟨u, actor, hcall, -⟩, -⟩ :=
    hsound.ask rfl rfl _ e _ "call-1" (split_at_step he) ⟨_, _, "rm b", hsome, rfl, rfl⟩
  obtain ⟨m₁, m, m₂, cs₁, cs₂, rfl, hcs, -⟩ := hcall
  -- The only call of a client is before the second command is proposed.
  have hplace := forall_step (P := fun pre p => p.2.1 ≠ [] → pre.length = 10)
    (by decide) (hbefore.trans (List.append_assoc pre (r :: m₁) (m :: m₂)).symm)
  have hlength := hplace (by rw [hcs]; simp)
  have hrest : m₂ = ((rmHistory .ask none staleAllow).take 21).drop 11 := by
    have hassoc : pre ++ r :: (m₁ ++ m :: m₂) = (pre ++ r :: m₁ ++ [m]) ++ m₂ := by simp
    rw [hbefore, hassoc]
    apply (List.drop_left' _).symm
    rw [List.length_append, hlength]
    rfl
  have hproposes : m₂.any proposesAny = true := by
    rw [hrest]
    rfl
  obtain ⟨m', hm', hproposed⟩ := List.any_eq_true.mp hproposes
  rw [hnone m' (by simp [hm'])] at hproposed
  cases hproposed

theorem rejected_not_sound :
  ¬ @ApprovalSound rmRisk (terminalTurn .auto (some .rejectSensitive))
    (rmHistory .auto (some .rejectSensitive)
      (.ofAnswers [.ok (answerWith [terminalUse "call-1" "rm a"])]))
  := by
  let _ : Regex := rmRisk
  intro hsound
  obtain ⟨e, he, hsome⟩ : ∃ e, (rmHistory .auto (some .rejectSensitive)
      (.ofAnswers [.ok (answerWith [terminalUse "call-1" "rm a"])]))[8]? = some e
      ∧ emitted e = some (.toolExecutionRequested "call-1" "pane"
        (.object [("command", .string "rm a")])) := ⟨_, rfl, rfl⟩
  exact hsound.rejectSensitive rfl e (List.mem_of_getElem? he) "call-1"
    ⟨_, _, "rm a", hsome, rfl, rfl⟩

theorem manual_not_sound :
  ¬ @ApprovalSound rmRisk (terminalTurn .manual (some (.whitelist ["ls"])))
    (rmHistory .manual (some (.whitelist ["ls"]))
      (.ofAnswers [.error .toolsUnsupported, .ok (answerWith [.text "```sh\nls\n```"])]))
  := by
  let _ : Regex := rmRisk
  intro hsound
  obtain ⟨e, he, hsome⟩ : ∃ e, (rmHistory .manual (some (.whitelist ["ls"]))
      (.ofAnswers [.error .toolsUnsupported,
        .ok (answerWith [.text "```sh\nls\n```"])]))[11]? = some e
      ∧ (dispatched e).isSome := ⟨_, rfl, rfl⟩
  rw [hsound.manual rfl e (List.mem_of_getElem? he)] at hsome
  cases hsome

/-- Approvals are unsound where an `allow` may be stale, and where the policy lets a command
through. -/
theorem approvals_unsound :
  (¬ ∀ (_ : Regex) (ctx : TurnContext) (outside : Outside TurnCall.Answered),
      ctx.unattended = none →
      Always (ActiveTurn.start ctx.ownerId).Consistent (history ctx outside) →
        ApprovalSound ctx (history ctx outside))
    ∧ (¬ ∀ (_ : Regex) (ctx : TurnContext) (outside : Outside TurnCall.Answered),
      ctx.unattended = some .rejectSensitive →
      Always (ActiveTurn.start ctx.ownerId).Consistent (history ctx outside) →
        ApprovalSound ctx (history ctx outside))
    ∧ (¬ ∀ (_ : Regex) (ctx : TurnContext) (outside : Outside TurnCall.Answered),
      ctx.request.executionMode = .manual →
      Always (ActiveTurn.start ctx.ownerId).Consistent (history ctx outside) →
        ApprovalSound ctx (history ctx outside))
  := by
  refine ⟨?_, ?_, ?_⟩
  · intro hall
    exact stale_not_approved (hall rmRisk (terminalTurn .ask none) (staleAllow.outside "owner")
      rfl (@Script.consistent rmRisk _ _))
  · intro hall
    exact rejected_not_sound (hall rmRisk (terminalTurn .auto (some .rejectSensitive)) _ rfl
      (@Script.consistent rmRisk _ _))
  · intro hall
    exact manual_not_sound (hall rmRisk (terminalTurn .manual (some (.whitelist ["ls"]))) _ rfl
      (@Script.consistent rmRisk _ _))

end Agent
