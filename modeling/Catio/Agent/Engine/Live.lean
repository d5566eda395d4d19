import Catio.Agent.Engine

/-!
# Turns that are run

An outside that answers for the runtime as the turn itself decides: a wait receives the first
response that matches, and ends without one only when there is none.  The provider, the other
tools and the calls of the clients follow a script.  Its runs are consistent
(`Script.consistent`).
-/

namespace Agent

open Text Program TurnEngine

namespace ActiveTurn

/-- What the turn itself answers, and `other` where it does not decide. -/
def answer (t : ActiveTurn) : (c : TurnCall) → c.Answer → c.Answer
  | .isCancelled, _ => t.cancelled
  | .endRound, .completed result => .completed result
  | .endRound, _ =>
      if t.cancelled then .cancelled else .completed (.error .unexpectedEof)
  | .recvMatching expected, _ =>
      let skipped := t.channel.findIdx expected.matches_
      match t.channel[skipped]? with
      | some response => .received skipped response
      | none => if t.cancelled then .cancelled skipped else .elapsed skipped
  | _, other => other

theorem skips_findIdx (t : ActiveTurn) (expected : ExpectedResponse) :
  t.Skips expected (t.channel.findIdx expected.matches_)
  := by
  intro r hr
  obtain ⟨i, hi, rfl⟩ := List.mem_iff_getElem.mp hr
  rw [List.length_take] at hi
  rw [List.getElem_take, List.not_of_lt_findIdx (Nat.lt_of_lt_of_le hi (Nat.min_le_left _ _))]
  exact Bool.false_ne_true

theorem explains_answer (t : ActiveTurn) (c : TurnCall) (other : c.Answer) :
  t.Explains c (t.answer c other)
  := by
  cases c with
  | isCancelled => rfl
  | endRound =>
    have hcancelled : t.Explains .endRound
        (if t.cancelled then .cancelled else .completed (.error .unexpectedEof)) := by
      by_cases h : t.cancelled
      · rw [if_pos h]
        exact h
      · rw [if_neg h]
        trivial
    cases other with
    | completed result => trivial
    | closed => exact hcancelled
    | cancelled => exact hcancelled
  | recvMatching expected =>
    simp only [answer]
    split
    · rename_i response hresponse
      refine ⟨t.skips_findIdx expected, hresponse, ?_⟩
      obtain ⟨hlt, rfl⟩ := List.getElem?_eq_some_iff.mp hresponse
      exact List.findIdx_getElem
    · by_cases h : t.cancelled
      · rw [if_pos h]
        exact ⟨t.skips_findIdx expected, h⟩
      · rw [if_neg h]
        exact t.skips_findIdx expected
  | _ => trivial

end ActiveTurn

/-- What the provider answers, what clients call before each step, and what the other tools
answer. -/
structure Script where
  answers : List (Except ProviderError ProviderRound)
  clients : ℕ → List ClientCall
  active : Bool
  specs : List ToolSpec
  dispatch : Text → Option ToolResult

/-- A turn with a terminal and nothing else. -/
def terminalTurn (mode : ExecutionMode) (unattended : Option UnattendedPolicy) :
    TurnContext where
  ownerId := "owner"
  turnId := "turn-1"
  request := ⟨"conversation", [⟨.user, [.text "do it"]⟩], "be brief", "pane",
    ⟨.openai, "https://provider", "model", ⟨"secret"⟩⟩, mode, true, 2⟩
  localFiles := none
  toolRouter := false
  unattended := unattended
  valid := rfl

def terminalUse (id command : Text) : ContentBlock :=
  .toolUse id TERMINAL_EXEC (.object [("command", .string command)])

def answerWith (blocks : List ContentBlock) : ProviderRound :=
  ⟨⟨.assistant, blocks⟩, none⟩

/-- No command is sensitive. -/
@[reducible]
def noRisk : Regex :=
  ⟨fun _ _ => false⟩

/-- The commands that start with `rm` are sensitive. -/
@[reducible]
def rmRisk : Regex :=
  ⟨fun pattern text => pattern = "(?i)\\b(?:rm|rmdir|unlink|del|erase|remove-item)\\b"
    && ("rm " : Text).isPrefixOf text⟩

theorem split_at_step {h : List TurnStep} {n : ℕ} {e : TurnStep} (he : h[n]? = some e) :
  h = h.take n ++ e :: h.drop (n + 1)
  := by
  obtain ⟨hlt, rfl⟩ := List.getElem?_eq_some_iff.mp he
  rw [List.getElem_cons_drop, List.take_append_drop]

theorem forall_step {h : List TurnStep} {P : List TurnStep → TurnStep → Prop}
    (hall : ∀ n, ∀ hn : n < h.length, P (h.take n) h[n]) {pre post : List TurnStep} {p : TurnStep}
    (heq : h = pre ++ p :: post) :
  P pre p
  := by
  have hn := hall pre.length (by simp [heq])
  simpa [heq] using hn

namespace Script

def roundsEnded (h : List TurnStep) : ℕ :=
  (h.filter fun e => e.1 matches .endRound).length

def ofAnswers (answers : List (Except ProviderError ProviderRound)) : Script :=
  ⟨answers, fun _ => [], false, [], fun _ => none⟩

/-- What is answered where the turn does not decide. -/
def other (script : Script) (h : List TurnStep) : (c : TurnCall) → c.Answer
  | .isCancelled => false
  | .isActive => script.active
  | .toolSpecs => script.specs
  | .startRound _ => []
  | .endRound => .completed (script.answers.getD (roundsEnded h) (.error .unexpectedEof))
  | .emit _ => none
  | .setExpected _ => ()
  | .recvMatching _ => .elapsed 0
  | .dispatch toolUseId _ _ _ => script.dispatch toolUseId
  | .preview _ => none
  | .execute _ _ _ => .done .null

def outside (script : Script) (ownerId : Text) : Outside TurnCall.Answered :=
  fun h c =>
    let clients := script.clients h.length
    (clients, (((ActiveTurn.start ownerId).afterAll h).calls clients).answer c
      (script.other h c))

theorem consistent [Regex] (script : Script) (ctx : TurnContext) :
  Always (ActiveTurn.start ctx.ownerId).Consistent
    (history ctx (script.outside ctx.ownerId))
  := by
  intro before e after heq
  have he := run_answers (script.outside ctx.ownerId) (p := TurnEngine.run ctx)
    (s := .new ctx) always_nil before e after heq
  unfold ActiveTurn.Consistent
  rw [he]
  apply ActiveTurn.explains_answer

end Script

end Agent
