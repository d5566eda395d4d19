import Catio.Agent.Engine.Dispatch
import Catio.Agent.Engine.Live

/-!
# Tool uses that do not run

The engine refuses some tool uses by what they look like (`Refuses`), and for others it asks for
an approval that the clients do not give (`Unapproved`).  Neither runs (`Executes.not_spared`).
-/

namespace Agent

open Text Program TurnEngine

/-! ### Received responses -/

theorem ActiveTurn.Consistent.received {t : ActiveTurn} {h : List TurnStep} {e : TurnStep}
    {expected : ExpectedResponse} {response : ClientTurnResponse} (he : t.Consistent h e)
    (hreceived : received e = some (expected, response)) :
  response ∈ ((t.afterAll h).calls e.2.1).channel ∧ expected.matches_ response
  := by
  obtain ⟨c, cs, answer⟩ := e
  cases c with
  | recvMatching expected' =>
    cases answer with
    | received skipped response' =>
      cases hreceived
      exact ⟨List.mem_of_getElem? he.2.1, he.2.2⟩
    | _ => cases hreceived
  | _ => cases hreceived

theorem matches_approval {id id' : Text} {d : ApprovalDecision}
    (h : (ExpectedResponse.approval id).matches_ (.approvalDecision id' d)) :
  id' = id
  := (of_decide_eq_true h).symm

section

variable [Regex]

variable {ctx : TurnContext} {x : Seen} {toolUse : ToolUse} {fileInput : Option FileInput}
  {active : Bool} {mid : List TurnStep} {e : TurnStep}

/-! ### Proposals -/

theorem Cleared.not_proposesAny (hclear : Cleared ctx toolUse fileInput mid) :
  ∀ m ∈ mid, proposesAny m = false
  := by
  cases hclear with
  | allowed => nofun
  | approved risk reason id e₁ e₂ e₃ hdecision hexpect hrequest hallow =>
    have h₁ : proposesAny e₁ = false := by
      apply not_proposesAny_of_call
      rw [hexpect]
      nofun
    have h₂ : proposesAny e₂ = false := by
      unfold proposesAny
      rw [hrequest]
    have h₃ : proposesAny e₃ = false := by
      apply not_proposesAny_of_call
      intro envelope hemit
      obtain ⟨c, answer⟩ := e₃
      cases hemit
      cases hallow
    simp [h₁, h₂, h₃]

theorem Executes.not_proposesAny (hruns : Executes ctx toolUse active mid e) :
  ∀ m ∈ mid, proposesAny m = false
  := by
  cases hruns with
  | backend => nofun
  | terminal clear e₁ _ hname hvalid hclear hexpect hstep =>
    have h₁ : proposesAny e₁ = false := by
      apply not_proposesAny_of_call
      rw [hexpect]
      nofun
    intro m hm
    rw [List.mem_append, List.mem_singleton] at hm
    rcases hm with hm | rfl
    · exact hclear.not_proposesAny m hm
    · exact h₁
  | files input clear e₁ e₂ e₃ _ hname hactive hvalid hclear hexpect halive hstarted hstep =>
    have h₁ : proposesAny e₁ = false := by
      apply not_proposesAny_of_call
      rw [hexpect]
      nofun
    have h₂ : proposesAny e₂ = false := by
      apply not_proposesAny_of_call
      intro envelope hemit
      obtain ⟨c, answer⟩ := e₂
      cases hemit
      cases halive
    have h₃ : proposesAny e₃ = false := by
      unfold proposesAny
      rw [hstarted]
    intro m hm
    rw [List.mem_append] at hm
    rcases hm with hm | hm
    · exact hclear.not_proposesAny m hm
    · simp only [List.mem_cons, List.not_mem_nil, or_false] at hm
      rcases hm with rfl | rfl | rfl
      · exact h₁
      · exact h₂
      · exact h₃

/-! ### Refusals -/

/-- The engine refuses a tool use by its looks: its name, its input, a missing router, or that it is
hidden. -/
inductive Refuses (ctx : TurnContext) (x : Seen) (toolUse : ToolUse) : Prop where
  | notAdmitted (h : ¬ x.Admits toolUse.name)
  | notRouted (hname : isBackendTool (x.files ctx) toolUse.name) (h : ctx.toolRouter = false)
  | invalid (hname : isBackendTool (x.files ctx) toolUse.name = false) (e : Text)
      (h : validateInput ctx toolUse = .error e)
  | hidden (hname : isBackendTool (x.files ctx) toolUse.name = false)
      (fileInput : Option FileInput) (hvalid : validateInput ctx toolUse = .ok fileInput)
      (h : decision ctx toolUse fileInput = .hidden)

theorem Cleared.not_hidden (hclear : Cleared ctx toolUse fileInput mid) :
  decision ctx toolUse fileInput ≠ .hidden
  := by
  cases hclear with
  | allowed risk hdecision =>
    rw [hdecision]
    nofun
  | approved risk reason id e₁ e₂ e₃ hdecision =>
    rw [hdecision]
    nofun

theorem Cleared.not_refuses (hclear : Cleared ctx toolUse fileInput mid)
    (hname : isBackendTool (x.files ctx) toolUse.name = false)
    (hvalid : validateInput ctx toolUse = .ok fileInput) (hadmits : x.Admits toolUse.name) :
  ¬ Refuses ctx x toolUse
  := by
  intro hrefuses
  cases hrefuses with
  | notAdmitted h => exact h hadmits
  | notRouted hbackend h =>
    rw [hname] at hbackend
    cases hbackend
  | invalid _ e h =>
    rw [hvalid] at h
    cases h
  | hidden _ fileInput' hvalid' h =>
    rw [hvalid] at hvalid'
    cases hvalid'
    exact hclear.not_hidden h

theorem Executes.not_refuses (hruns : Executes ctx toolUse (x.files ctx) mid e)
    (hadmits : x.Admits toolUse.name) :
  ¬ Refuses ctx x toolUse
  := by
  cases hruns with
  | backend _ hname hrouter =>
    intro hrefuses
    cases hrefuses with
    | notAdmitted h => exact h hadmits
    | notRouted _ h =>
      rw [hrouter] at h
      cases h
    | invalid hname' =>
      rw [hname] at hname'
      cases hname'
    | hidden hname' =>
      rw [hname] at hname'
      cases hname'
  | terminal clear _ _ hname hvalid hclear =>
    apply hclear.not_refuses _ hvalid hadmits
    rw [hname]
    exact not_isBackendTool_terminal _
  | files input clear _ _ _ _ hname hactive hvalid hclear =>
    apply hclear.not_refuses _ hvalid hadmits
    simp [isBackendTool, hname, hactive]

/-! ### Approvals that are not given -/

/-- No `allow` for a tool use waits in the channel, and no client submits one. -/
def NoAllow (ctx : TurnContext) (pre post : List TurnStep) (id : Text) : Prop :=
  .approvalDecision id .allow ∉ ((ActiveTurn.start ctx.ownerId).afterAll pre).channel
    ∧ ∀ e ∈ post, ∀ actor, .respond actor (.approvalDecision id .allow) ∉ e.2.1

/-- A tool use needs an approval, and it is not given. -/
def Unapproved (ctx : TurnContext) (pre post : List TurnStep) (toolUse : ToolUse) : Prop :=
  isBackendTool ((seen pre).files ctx) toolUse.name = false
    ∧ (∃ fileInput risk reason, validateInput ctx toolUse = .ok fileInput
      ∧ decision ctx toolUse fileInput = .approvalRequired risk reason)
    ∧ NoAllow ctx pre post toolUse.id

/-- A tool use that is proposed is refused, or it lacks an approval. -/
def Spared (ctx : TurnContext) (pre post : List TurnStep) (toolUse : ToolUse) : Prop :=
  Refuses ctx (seen pre) toolUse ∨ Unapproved ctx pre post toolUse

theorem Cleared.not_noAllow {pre rest : List TurnStep} {p : TurnStep} {risk : ToolRisk}
    {reason : Text} (hclear : Cleared ctx toolUse fileInput mid)
    (hdecision : decision ctx toolUse fileInput = .approvalRequired risk reason)
    (hconsistent : Always (ActiveTurn.start ctx.ownerId).Consistent (pre ++ p :: (mid ++ rest))) :
  ¬ NoAllow ctx pre (p :: (mid ++ rest)) toolUse.id
  := by
  cases hclear with
  | allowed _ hallowed =>
    rw [hdecision] at hallowed
    cases hallowed
  | approved _ _ id e₁ e₂ e₃ _ hexpect hrequest hallow =>
    rintro ⟨hempty, hnone⟩
    have hcheck := hconsistent (pre ++ [p, e₁, e₂]) e₃ rest (by simp)
    obtain ⟨hmem, hmatches⟩ := hcheck.received hallow
    rw [matches_approval hmatches] at hmem
    rw [ActiveTurn.afterAll_append] at hmem
    rcases ActiveTurn.mem_channel_calls hmem with hmem | ⟨cs₁, actor, cs₂, hcs, -⟩
    · rcases ActiveTurn.mem_channel_afterAll hmem with hmem | ⟨e, he, actor, hcall⟩
      · exact hempty hmem
      · refine hnone e ?_ actor hcall
        simp only [List.mem_cons, List.not_mem_nil, or_false] at he
        rcases he with rfl | rfl | rfl
        · simp
        · simp
        · simp
    · apply hnone e₃ (by simp) actor
      rw [hcs]
      simp

theorem Executes.not_spared {pre after : List TurnStep} {p : TurnStep}
    (hruns : Executes ctx toolUse ((seen pre).files ctx) mid e)
    (hadmits : (seen pre).Admits toolUse.name)
    (hconsistent : Always (ActiveTurn.start ctx.ownerId).Consistent
      (pre ++ p :: (mid ++ e :: after))) :
  ¬ Spared ctx pre (p :: (mid ++ e :: after)) toolUse
  := by
  rintro (hrefuses | ⟨hname, ⟨fileInput, risk, reason, hvalid, hdecision⟩, hnoallow⟩)
  · exact hruns.not_refuses hadmits hrefuses
  · cases hruns with
    | backend _ hbackend =>
      rw [hname] at hbackend
      cases hbackend
    | terminal clear e₁ _ _ hvalid' hclear =>
      rw [hvalid] at hvalid'
      cases hvalid'
      rw [List.append_assoc] at hconsistent hnoallow
      exact hclear.not_noAllow hdecision hconsistent hnoallow
    | files input clear e₁ e₂ e₃ _ _ _ hvalid' hclear =>
      rw [hvalid] at hvalid'
      cases hvalid'
      rw [List.append_assoc] at hconsistent hnoallow
      exact hclear.not_noAllow hdecision hconsistent hnoallow

end

end Agent

/-!
## Only advertised tools run

Which tool uses run was advertised by the request before, or is the command in the text of an answer
in the legacy mode, in every run in which the native tool uses of the answer to the fallback's retry
are refused or lack an approval (`dispatch_advertised`); the engine does not refuse them.
-/

namespace Agent

open Text Program TurnEngine

/-- The last answer proposes a tool use whose name its request advertised, or it is the command in
the text in the legacy mode. -/
def Advertised (ctx : TurnContext) (before : List TurnStep) (toolUse : ToolUse) : Prop :=
  ∃ answer, (seen before).answer = some answer ∧
    ((toolUse ∈ toolUses answer.message ∧ ∃ request, (seen before).request = some request
        ∧ toolUse.name ∈ request.tools.map ToolSpec.name)
      ∨ ((seen before).legacy ∧ toolUses answer.message = [] ∧
        ∃ id, firstShellTool (messageText answer.message) ctx.request.singleLineCommands id
          = .ok (some toolUse)))

/-- Each tool use that is dispatched was advertised. -/
def OnlyAdvertised (ctx : TurnContext) (h : List TurnStep) : Prop :=
  ∀ before e after toolUse, h = before ++ e :: after → dispatched e = some toolUse →
    Advertised ctx before toolUse

section

variable [Regex]

/-- The native tool uses of the answer to the retry that are proposed are refused, or they lack
an approval. -/
def SparesRetry (ctx : TurnContext) (h : List TurnStep) : Prop :=
  ∀ pre p post toolUse answer, h = pre ++ p :: post → Proposes p toolUse → (seen pre).retry →
    (seen pre).answer = some answer → toolUse ∈ toolUses answer.message →
      Spared ctx pre (p :: post) toolUse

/-- Only what was advertised is dispatched, if the native tool uses of the retry are refused or lack
an approval. -/
theorem dispatch_advertised (ctx : TurnContext) (outside : Outside TurnCall.Answered)
    (hconsistent : Always (ActiveTurn.start ctx.ownerId).Consistent (history ctx outside))
    (hretry : SparesRetry ctx (history ctx outside)) :
  OnlyAdvertised ctx (history ctx outside)
  := by
  intro before e after toolUse heq hsome
  have hjustified := run_justified ctx outside before e after heq
  obtain ⟨pre, p, mid, rfl, hproposes, hoffers, hadmits, hruns, hseen⟩ :=
    hjustified.dispatch toolUse hsome
  unfold Advertised
  rw [hseen]
  cases hoffers with
  | native answer hanswer hmem hmode hlegacy =>
    use answer, hanswer
    left
    use hmem
    apply hadmits
    cases hl : (seen pre).legacy with
    | false => rfl
    | true =>
      have hheq : history ctx outside = pre ++ p :: (mid ++ e :: after) := by rw [heq]; simp
      have hspared := hretry pre p _ toolUse answer hheq hproposes (hlegacy hl) hanswer hmem
      rw [hheq] at hconsistent
      exact absurd hspared (hruns.not_spared hadmits hconsistent)
  | synthetic answer id hanswer hlegacy hnone hfirst =>
    use answer, hanswer
    right
    exact ⟨hlegacy, hnone, id, hfirst⟩

end

/-- A run of one command. -/
theorem dispatch_advertised_command :
  OnlyAdvertised (terminalTurn .auto none) (@history noRisk (terminalTurn .auto none)
    ((Script.ofAnswers [.ok (answerWith [terminalUse "call-1" "ls"])]).outside "owner"))
  := by
  apply @dispatch_advertised noRisk
  · exact @Script.consistent noRisk _ _
  · intro pre p post toolUse answer heq _ hretry
    have hnever := forall_step (P := fun pre _ => (seen pre).retry = false) (by decide) heq
    rw [hnever] at hretry
    cases hretry

/-- The answer to the retry proposes a native tool use. -/
def nativeRetry : Script :=
  .ofAnswers [.error .toolsUnsupported, .ok (answerWith [terminalUse "call-1" "ls"])]

def nativeRetryHistory : List TurnStep :=
  @history noRisk (terminalTurn .auto none) (nativeRetry.outside "owner")

/-- The native tool use of the answer to the retry runs, though the retry advertised nothing. -/
theorem retry_not_advertised :
  ¬ ∀ (_ : Regex) (ctx : TurnContext) (outside : Outside TurnCall.Answered),
    Always (ActiveTurn.start ctx.ownerId).Consistent (history ctx outside) →
      OnlyAdvertised ctx (history ctx outside)
  := by
  intro hall
  have hrun := hall noRisk (terminalTurn .auto none) (nativeRetry.outside "owner")
    (@Script.consistent noRisk nativeRetry (terminalTurn .auto none))
  change OnlyAdvertised (terminalTurn .auto none) nativeRetryHistory at hrun
  obtain ⟨e, he, hsome⟩ : ∃ e, nativeRetryHistory[11]? = some e ∧ dispatched e
      = some ⟨"call-1", TERMINAL_EXEC, .object [("command", .string "ls")]⟩ := ⟨_, rfl, rfl⟩
  obtain ⟨answer, hanswer, hcases⟩ := hrun _ e _ _ (split_at_step he) hsome
  have hanswer' : (seen (nativeRetryHistory.take 11)).answer
      = some (answerWith [terminalUse "call-1" "ls"]) := rfl
  have hrequest : (seen (nativeRetryHistory.take 11)).request.map ProviderRequest.tools
      = some [] := rfl
  rw [hanswer'] at hanswer
  cases hanswer
  rcases hcases with ⟨-, request, hrequest', hname⟩ | ⟨-, hnone, -⟩
  · rw [hrequest'] at hrequest
    simp only [Option.map_some, Option.some.injEq] at hrequest
    rw [hrequest] at hname
    cases hname
  · cases hnone

end Agent

/-!
## Dispatches and cancellation

Only the tools for local files look at the cancel token before they are dispatched; so no tool use
is dispatched that is proposed after the turn has been cancelled in every run in which the engine
refuses all others of these (`dispatch_uncancelled`).
-/

namespace Agent

open Text Program TurnEngine

theorem not_cancelled_of_findsAlive {t : ActiveTurn} {h : List TurnStep} {e : TurnStep}
    (he : t.Consistent h e) (halive : findsAlive e) :
  (t.afterAll h).cancelled = false
  := by
  obtain ⟨c, cs, answer⟩ := e
  cases c with
  | isCancelled =>
    rw [← Bool.not_eq_true]
    intro hcancelled
    have hlater := ((t.afterAll h).grows_calls cs).cancelled hcancelled
    have hanswer : answer = ((t.afterAll h).calls cs).cancelled := he
    rw [hlater] at hanswer
    subst hanswer
    cases halive
  | _ => cases halive

/-- Each tool use that is dispatched was last proposed when the turn was not cancelled. -/
def NoneAfterCancel (ctx : TurnContext) (h : List TurnStep) : Prop :=
  ∀ before e after toolUse, h = before ++ e :: after → dispatched e = some toolUse →
    ∃ pre p mid, before = pre ++ p :: mid ∧ Proposes p toolUse
      ∧ (∀ m ∈ mid, proposesAny m = false)
      ∧ ((ActiveTurn.start ctx.ownerId).afterAll pre).cancelled = false

section

variable [Regex]

/-- The tool uses proposed after the cancellation are refused, lack an approval, or are for local
files. -/
def SparesCancelled (ctx : TurnContext) (h : List TurnStep) : Prop :=
  ∀ pre p post toolUse, h = pre ++ p :: post → Proposes p toolUse →
    (seen pre).Offers ctx toolUse → ((ActiveTurn.start ctx.ownerId).afterAll pre).cancelled →
      Spared ctx pre (p :: post) toolUse ∨ (isFileTool toolUse.name ∧ (seen pre).files ctx)

/-- Nothing is dispatched that is proposed after the cancellation, if no tool use is proposed then
but refused ones, ones without an approval and ones for local files. -/
theorem dispatch_uncancelled (ctx : TurnContext) (outside : Outside TurnCall.Answered)
    (hconsistent : Always (ActiveTurn.start ctx.ownerId).Consistent (history ctx outside))
    (hspares : SparesCancelled ctx (history ctx outside)) :
  NoneAfterCancel ctx (history ctx outside)
  := by
  intro before e after toolUse heq hsome
  have hjustified := run_justified ctx outside before e after heq
  obtain ⟨pre, p, mid, rfl, hproposes, hoffers, hadmits, hruns, -⟩ :=
    hjustified.dispatch toolUse hsome
  refine ⟨pre, p, mid, rfl, hproposes, hruns.not_proposesAny, ?_⟩
  rw [← Bool.not_eq_true]
  intro hcancelled
  have hheq : history ctx outside = pre ++ p :: (mid ++ e :: after) := by rw [heq]; simp
  rw [hheq] at hconsistent
  rcases hspares pre p _ toolUse hheq hproposes hoffers hcancelled with hspared | ⟨hfile, hactive⟩
  · exact hruns.not_spared hadmits hconsistent hspared
  · cases hruns with
    | backend _ hname =>
      rw [isBackendTool, hfile, hactive] at hname
      simp at hname
    | terminal _ _ _ hname =>
      rw [hname] at hfile
      exact absurd hfile (by decide)
    | files input clear e₁ e₂ e₃ _ _ _ _ _ _ halive =>
      -- The check of the cancel token comes after the proposal.
      have hcheck := hconsistent (pre ++ p :: (clear ++ [e₁])) e₂ (e₃ :: e :: after)
        (by simp)
      have hfound := not_cancelled_of_findsAlive hcheck halive
      have hlater := (((ActiveTurn.start ctx.ownerId).afterAll pre).grows_afterAll
        (p :: (clear ++ [e₁]))).cancelled hcancelled
      rw [← ActiveTurn.afterAll_append, hfound] at hlater
      cases hlater

end

/-! ### Runs -/

/-- A run of one command. -/
theorem dispatch_uncancelled_command :
  NoneAfterCancel (terminalTurn .auto none) (@history noRisk (terminalTurn .auto none)
    ((Script.ofAnswers [.ok (answerWith [terminalUse "call-1" "ls"])]).outside "owner"))
  := by
  apply @dispatch_uncancelled noRisk
  · exact @Script.consistent noRisk _ _
  · intro pre p post toolUse heq _ _ hcancelled
    have hnever := forall_step (P := fun pre _ =>
      ((ActiveTurn.start (terminalTurn .auto none).ownerId).afterAll pre).cancelled = false)
      (by decide) heq
    rw [hnever] at hcancelled
    cases hcancelled

/-- A round with two commands that is cancelled while the first one runs. -/
def cancelledRound : Script where
  answers := [.ok (answerWith [terminalUse "call-1" "ls", terminalUse "call-2" "pwd"])]
  clients := fun n => if n = 10 then [.cancel ⟨"owner"⟩] else []
  active := false
  specs := []
  dispatch := fun _ => none

def cancelledHistory : List TurnStep :=
  @history noRisk (terminalTurn .auto none) (cancelledRound.outside "owner")

def proposesId (id : Text) (e : TurnStep) : Bool :=
  match emitted e with
  | some (.toolProposed toolUseId _ _ _) => toolUseId = id
  | _ => false

/-- The second command of the round is proposed and dispatched after the cancellation. -/
theorem dispatch_after_cancel :
  ¬ ∀ (_ : Regex) (ctx : TurnContext) (outside : Outside TurnCall.Answered),
    Always (ActiveTurn.start ctx.ownerId).Consistent (history ctx outside) →
      NoneAfterCancel ctx (history ctx outside)
  := by
  intro hall
  have hrun := hall noRisk (terminalTurn .auto none) (cancelledRound.outside "owner")
    (@Script.consistent noRisk cancelledRound (terminalTurn .auto none))
  change NoneAfterCancel (terminalTurn .auto none) cancelledHistory at hrun
  obtain ⟨e, he, hsome⟩ : ∃ e, cancelledHistory[14]? = some e ∧ dispatched e
      = some ⟨"call-2", TERMINAL_EXEC, .object [("command", .string "pwd")]⟩ := ⟨_, rfl, rfl⟩
  obtain ⟨pre, p, mid, heq, ⟨input, risk, hproposes⟩, -, halive⟩ :=
    hrun _ e _ _ (split_at_step he) hsome
  have hcancelled := forall_step (P := fun pre p => proposesId "call-2" p →
    ((ActiveTurn.start (terminalTurn .auto none).ownerId).afterAll pre).cancelled = true)
    (by decide) heq
  rw [hcancelled (by rw [proposesId, hproposes]; rfl)] at halive
  cases halive

end Agent
