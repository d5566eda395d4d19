import Catio.Agent.Engine.Refusals
import Mathlib.Data.List.Nodup

/-!
# What becomes of the responses of clients

A request of the engine begins when it publishes what it expects and ends with its wait.
Whether a response that a client submits during a request reaches it, and what becomes of
replays, of conflicting responses, and of what others or what comes too late submit
(`responses_delivered`).
-/

namespace Agent

open Text Program TurnEngine

/-- Who makes a call. -/
def ClientCall.actor : ClientCall → ActorContext
  | .respond actor _ => actor
  | .cancel actor => actor

/-! ### The channel -/

namespace ActiveTurn

variable {t : ActiveTurn} {r : ClientTurnResponse} {cs : List ClientCall}

/-- What is in the channel is consumed, under different keys. -/
structure Queued (t : ActiveTurn) : Prop where
  consumed : ∀ r ∈ t.channel, t.consumed.lookup (responseKey r) = some (digest r)
  nodup : (t.channel.map responseKey).Nodup

theorem Queued.start (ownerId : Text) :
  Queued (.start ownerId)
  := ⟨nofun, List.nodup_nil⟩

theorem Queued.eq {r' : ClientTurnResponse} (hq : t.Queued) (hr : r ∈ t.channel)
    (hr' : r' ∈ t.channel) (hkey : responseKey r = responseKey r') :
  r = r'
  := List.inj_on_of_nodup_map hq.nodup hr hr' hkey

theorem Queued.call (hq : t.Queued) (c : ClientCall) :
  (t.call c).2.Queued
  := by
  cases c with
  | cancel actor =>
    rw [ActiveTurn.call, cancel]
    split
    · exact hq
    · exact ⟨hq.consumed, hq.nodup⟩
  | respond actor response =>
    have hcases := t.responded actor response
    change (t.respond actor response).2.Queued
    generalize (t.respond actor response).1 = result at hcases
    generalize (t.respond actor response).2 = t' at hcases ⊢
    cases hcases with
    | accepted _ hnew =>
      constructor
      · simp only [accept, List.mem_append, List.mem_singleton]
        rintro r (hr | rfl)
        · exact lookup_consumed hnew (hq.consumed r hr)
        · exact List.lookup_cons_self
      · rw [accept, List.map_append, List.nodup_append]
        refine ⟨hq.nodup, List.nodup_singleton _, ?_⟩
        simp only [List.mem_map, List.map_cons, List.map_nil, List.mem_singleton]
        rintro _ ⟨r, hr, rfl⟩ _ rfl heq
        rw [← heq, hq.consumed r hr] at hnew
        cases hnew
    | gone _ hnew =>
      exact ⟨fun r hr => lookup_consumed hnew (hq.consumed r hr), hq.nodup⟩
    | _ => exact hq

theorem Queued.calls (hq : t.Queued) (cs : List ClientCall) :
  (t.calls cs).Queued
  := by
  induction cs generalizing t with
  | nil => exact hq
  | cons c cs ih => exact ih (hq.call c)

theorem Queued.drop (hq : t.Queued) (n : ℕ) :
  Queued { t with channel := t.channel.drop n }
  where
  consumed r hr := hq.consumed r (List.mem_of_mem_drop hr)
  nodup := hq.nodup.sublist ((List.drop_sublist n t.channel).map responseKey)

theorem Queued.did (hq : t.Queued) (c : TurnCall) (answer : c.Answer) :
  (t.did c answer).Queued
  := by
  cases c with
  | setExpected expected => exact ⟨hq.consumed, hq.nodup⟩
  | recvMatching expected =>
    cases answer with
    | _ => exact hq.drop _
  | _ => exact hq

theorem Queued.afterAll (hq : t.Queued) (h : List TurnStep) :
  (t.afterAll h).Queued
  := by
  induction h generalizing t with
  | nil => exact hq
  | cons e h ih => exact ih ((hq.calls e.2.1).did e.1 e.2.2)

/-! ### Responses that are done with -/

/-- A response is done with: it is consumed, and not in the channel. -/
structure Done (t : ActiveTurn) (r : ClientTurnResponse) : Prop where
  consumed : t.consumed.lookup (responseKey r) = some (digest r)
  gone : r ∉ t.channel

theorem Done.call (hd : t.Done r) (c : ClientCall) :
  (t.call c).2.Done r
  where
  consumed := (t.grows_call c).consumed _ _ hd.consumed
  gone hmem := by
    have hcall : r ∈ (t.calls [c]).channel := hmem
    obtain hold | ⟨cs₁, actor, cs₂, hcs, -, -, hnew⟩ := mem_channel_calls hcall
    · exact hd.gone hold
    · rw [(t.grows_calls cs₁).consumed _ _ hd.consumed] at hnew
      cases hnew

theorem Done.calls (hd : t.Done r) (cs : List ClientCall) :
  (t.calls cs).Done r
  := by
  induction cs generalizing t with
  | nil => exact hd
  | cons c cs ih => exact ih (hd.call c)

theorem Done.after (hd : t.Done r) (e : TurnStep) :
  (t.after e).Done r
  where
  consumed := (t.grows_after e).consumed _ _ hd.consumed
  gone hmem := (hd.calls e.2.1).gone (mem_channel_did _ _ _ hmem)

theorem Done.afterAll (hd : t.Done r) (h : List TurnStep) :
  (t.afterAll h).Done r
  := by
  induction h generalizing t with
  | nil => exact hd
  | cons e h ih => exact ih (hd.after e)

theorem Queued.done {h : List TurnStep} {e : TurnStep} {expected : ExpectedResponse} (hq : t.Queued)
    (he : t.Consistent h e) (hreceived : received e = some (expected, r)) :
  (t.afterAll (h ++ [e])).Done r
  := by
  obtain ⟨c, cs, answer⟩ := e
  cases c with
  | recvMatching expected' =>
    cases answer with
    | received skipped response =>
      cases hreceived
      have hbefore := (hq.afterAll h).calls cs
      obtain ⟨-, hat, -⟩ := he
      rw [afterAll_append]
      change ({ (t.afterAll h).calls cs with
        channel := ((t.afterAll h).calls cs).channel.drop (skipped + 1) }).Done r
      generalize (t.afterAll h).calls cs = u at hbefore hat
      obtain ⟨hlt, rfl⟩ := List.getElem?_eq_some_iff.mp hat
      constructor
      · exact hbefore.consumed _ (List.getElem_mem hlt)
      · intro hmem
        have hnodup := hbefore.nodup
        rw [← List.take_append_drop skipped u.channel, ← List.getElem_cons_drop hlt,
          List.map_append, List.nodup_append] at hnodup
        obtain ⟨-, hback, -⟩ := hnodup
        rw [List.map_cons, List.nodup_cons] at hback
        apply hback.1
        exact List.mem_map_of_mem hmem
    | _ => cases hreceived
  | _ => cases hreceived

/-! ### Calls -/

theorem mem_channel_of_mem (hr : r ∈ t.channel) (cs : List ClientCall) :
  r ∈ (t.calls cs).channel
  := by
  induction cs generalizing t with
  | nil => exact hr
  | cons c cs ih =>
    apply ih
    cases c with
    | cancel actor =>
      change r ∈ (t.cancel actor).2.channel
      unfold cancel
      split
      · exact hr
      · exact hr
    | respond actor response =>
      have hcases := t.responded actor response
      change r ∈ (t.respond actor response).2.channel
      generalize (t.respond actor response).1 = result at hcases
      generalize (t.respond actor response).2 = t' at hcases ⊢
      cases hcases with
      | accepted => exact List.mem_append_left _ hr
      | _ => exact hr

theorem mem_of_consumed_calls {key d : Text} (hnew : t.consumed.lookup key ≠ some d)
    (hdone : (t.calls cs).consumed.lookup key = some d) :
  ∃ actor r, actor.ownerId = t.ownerId ∧ .respond actor r ∈ cs ∧ responseKey r = key
    ∧ digest r = d
  := by
  induction cs generalizing t with
  | nil => exact absurd hdone hnew
  | cons c cs ih =>
    by_cases hfirst : (t.call c).2.consumed.lookup key = some d
    · cases c with
      | cancel actor =>
        rw [ActiveTurn.call, cancel] at hfirst
        split at hfirst
        · exact absurd hfirst hnew
        · exact absurd hfirst hnew
      | respond actor r =>
        have hsame : ∀ consumed : List (Text × Text), consumed.lookup key ≠ some d →
            ((responseKey r, digest r) :: consumed).lookup key = some d →
              responseKey r = key ∧ digest r = d := by
          intro consumed hne hlookup
          by_cases hkey : key = responseKey r
          · rw [hkey, List.lookup_cons_self] at hlookup
            exact ⟨hkey.symm, Option.some.inj hlookup⟩
          · rw [List.lookup_cons, beq_false_of_ne hkey] at hlookup
            exact absurd hlookup hne
        have hcases := t.responded actor r
        change (t.respond actor r).2.consumed.lookup key = some d at hfirst
        generalize (t.respond actor r).1 = result at hcases
        generalize (t.respond actor r).2 = t' at hcases hfirst
        cases hcases with
        | accepted howner =>
          exact ⟨actor, r, howner.symm, List.mem_cons_self, hsame _ hnew hfirst⟩
        | gone howner =>
          exact ⟨actor, r, howner.symm, List.mem_cons_self, hsame _ hnew hfirst⟩
        | _ => exact absurd hfirst hnew
    · obtain ⟨actor, r, howner, hmem, hrest⟩ := ih hfirst hdone
      rw [(t.grows_call c).owner] at howner
      exact ⟨actor, r, howner, List.mem_cons_of_mem c hmem, hrest⟩

theorem call_stranger {c : ClientCall} (hother : c.actor.ownerId ≠ t.ownerId) :
  t.call c = (.error .ownerMismatch, t)
  := by
  cases c with
  | cancel actor =>
    rw [ActiveTurn.call, cancel]
    exact if_pos hother.symm
  | respond actor response =>
    rw [ActiveTurn.call, respond]
    exact if_pos hother.symm

theorem respond_replayed (actor : ActorContext)
    (hdone : t.consumed.lookup (responseKey r) = some (digest r)) :
  (t.respond actor r).2 = t ∧ (actor.ownerId = t.ownerId → (t.respond actor r).1 = .ok ())
  := by
  have hcases := t.responded actor r
  generalize (t.respond actor r).1 = result at hcases ⊢
  generalize (t.respond actor r).2 = t' at hcases ⊢
  cases hcases with
  | stranger howner => exact ⟨rfl, fun h => absurd h.symm howner⟩
  | replayed => exact ⟨rfl, fun _ => rfl⟩
  | conflict _ other hother hold =>
    rw [hdone] at hold
    exact absurd (Option.some.inj hold).symm hother
  | unexpected _ _ hnew =>
    rw [hdone] at hnew
    cases hnew
  | accepted _ hnew =>
    rw [hdone] at hnew
    cases hnew
  | gone _ hnew =>
    rw [hdone] at hnew
    cases hnew

theorem respond_conflicting {r' : ClientTurnResponse} (actor : ActorContext)
    (hdone : t.consumed.lookup (responseKey r) = some (digest r))
    (hkey : responseKey r' = responseKey r) (hne : r' ≠ r) :
  ∃ e, t.respond actor r' = (.error e, t)
  := by
  rw [← hkey] at hdone
  have hcases := t.responded actor r'
  obtain ⟨result, t', heq⟩ : ∃ result t', t.respond actor r' = (result, t') := ⟨_, _, rfl⟩
  rw [heq] at hcases ⊢
  cases hcases with
  | stranger => exact ⟨_, rfl⟩
  | replayed _ hold =>
    rw [hdone] at hold
    exact absurd (digest_inj (Option.some.inj hold)).symm hne
  | conflict => exact ⟨_, rfl⟩
  | unexpected => exact ⟨_, rfl⟩
  | accepted _ hnew =>
    rw [hdone] at hnew
    cases hnew
  | gone _ hnew =>
    rw [hdone] at hnew
    cases hnew

theorem channel_calls_of_left (hleft : t.receiving = false) (cs : List ClientCall) :
  (t.calls cs).channel = t.channel
  := by
  induction cs generalizing t with
  | nil => rfl
  | cons c cs ih =>
    have hstill : (t.call c).2.receiving = false := by rw [(t.grows_call c).receiving, hleft]
    apply (ih hstill).trans
    cases c with
    | cancel actor =>
      rw [ActiveTurn.call, cancel]
      split
      · rfl
      · rfl
    | respond actor response =>
      have hcases := t.responded actor response
      change (t.respond actor response).2.channel = _
      generalize (t.respond actor response).1 = result at hcases
      generalize (t.respond actor response).2 = t' at hcases ⊢
      cases hcases with
      | accepted _ _ _ hreceiving =>
        rw [hleft] at hreceiving
        cases hreceiving
      | _ => rfl

theorem afterAll_events (t : ActiveTurn) {h : List TurnStep}
    (hevents : ∀ e ∈ h, (emitted e).isSome) :
  t.afterAll h = t.calls (h.flatMap fun e => e.2.1)
  := by
  induction h generalizing t with
  | nil => rfl
  | cons e h ih =>
    rw [List.forall_mem_cons] at hevents
    obtain ⟨event, hevent⟩ := Option.isSome_iff_exists.mp hevents.1
    obtain ⟨envelope, answer, rfl, -⟩ := emitted_eq_some hevent
    rw [afterAll_cons, List.flatMap_cons, calls_append]
    exact ih _ hevents.2

end ActiveTurn

/-! ### Requests -/

/-- A request of the engine: the steps up to what it publishes, the events that are sent then, its
wait, and the rest. -/
structure Request where
  expected : ExpectedResponse
  before : List TurnStep
  events : List TurnStep
  wait : TurnStep
  after : List TurnStep

namespace Request

/-- The request is one of a history. -/
structure In (q : Request) (h : List TurnStep) : Prop where
  whole : h = q.before ++ (q.events ++ q.wait :: q.after)
  published : ∃ pre e, q.before = pre ++ [e] ∧ e.1 = .setExpected q.expected
  events : ∀ e ∈ q.events, (emitted e).isSome
  waits : q.wait.1 = .recvMatching q.expected

/-- What clients call from the publication to the end of the wait. -/
def calls (q : Request) : List ClientCall :=
  (q.events ++ [q.wait]).flatMap fun e => e.2.1

def turn (ctx : TurnContext) (q : Request) : ActiveTurn :=
  (ActiveTurn.start ctx.ownerId).afterAll q.before

/-- No client submits what the turn consumed before, and the wait does not end without an accepted
response. -/
structure Undisturbed (ctx : TurnContext) (q : Request) : Prop where
  fresh : ∀ actor r, .respond actor r ∈ q.calls → actor.ownerId = ctx.ownerId →
    q.expected.matches_ r → (q.turn ctx).consumed.lookup (responseKey r) ≠ some (digest r)
  prompt : received q.wait = none →
    ∀ r ∈ ((q.turn ctx).calls q.calls).channel, ¬ q.expected.matches_ r

end Request

/-- What holds of the responses of clients in a run of a turn. -/
structure ResponsesHandled (ctx : TurnContext) (h : List TurnStep) : Prop where
  awaited : ∀ pre w post expected, h = pre ++ w :: post → w.1 = .recvMatching expected →
    ∃ q : Request, q.In h ∧ q.wait = w ∧ q.after = post
  delivered : ∀ q : Request, q.In h → ∀ cs actor r cs', q.calls = cs ++ .respond actor r :: cs' →
    (((q.turn ctx).calls cs).respond actor r).1 = .ok () → q.expected.matches_ r →
      (∀ actor' : ActorContext, actor'.ownerId = ctx.ownerId → .respond actor' r ∉ cs) →
        received q.wait = some (q.expected, r)
          ∧ ∀ e ∈ q.before ++ q.events ++ q.after, ∀ expected, received e ≠ some (expected, r)
  replayed : ∀ pre w mid post expected r, h = pre ++ w :: (mid ++ post) →
    received w = some (expected, r) → ∀ cs actor,
      let u := ((ActiveTurn.start ctx.ownerId).afterAll (pre ++ w :: mid)).calls cs
      (u.respond actor r).2 = u ∧ (actor.ownerId = ctx.ownerId → (u.respond actor r).1 = .ok ())
  conflicting : ∀ pre e post cs actor r cs', h = pre ++ e :: post →
    e.2.1 = cs ++ .respond actor r :: cs' →
      let u := ((ActiveTurn.start ctx.ownerId).afterAll pre).calls cs
      (u.respond actor r).1 = .ok () → ∀ mid rest, ⟨e.1, cs', e.2.2⟩ :: post = mid ++ rest →
        ∀ cs'' actor' r', responseKey r' = responseKey r → r' ≠ r →
          let v := ((u.respond actor r).2.afterAll mid).calls cs''
          ∃ error, v.respond actor' r' = (.error error, v)
  strangers : ∀ pre post, h = pre ++ post → ∀ cs c,
    let u := ((ActiveTurn.start ctx.ownerId).afterAll pre).calls cs
    c.actor.ownerId ≠ ctx.ownerId → u.call c = (.error .ownerMismatch, u)
  ended : ∀ cs, ({ (ActiveTurn.start ctx.ownerId).afterAll h with receiving := false }.calls
    cs).channel = ((ActiveTurn.start ctx.ownerId).afterAll h).channel
  forgotten : ∀ (turns : Turns) turnId c, (∀ t, turns turnId = some t → t.finished) →
    (turns.call turnId c).1 = .error .turnNotFound ∧ (turns.call turnId c).2 turnId = none

section

variable {ctx : TurnContext} {h : List TurnStep} {q : Request} {actor : ActorContext}
  {r : ClientTurnResponse} {cs cs' : List ClientCall}

/-! ### Deliveries -/

theorem matches_toolResult {id id' : Text} {outcome : ToolExecutionOutcome}
    (h : (ExpectedResponse.toolResult id).matches_ (.toolExecutionResult id' outcome)) :
  id' = id
  := (of_decide_eq_true h).symm

theorem responseKey_of_matches {expected : ExpectedResponse} {r r' : ClientTurnResponse}
    (h : expected.matches_ r) (h' : expected.matches_ r') :
  responseKey r = responseKey r'
  := by
  cases expected with
  | none => cases h
  | approval id =>
    cases r with
    | toolExecutionResult => cases h
    | approvalDecision id₁ d₁ =>
      cases r' with
      | toolExecutionResult => cases h'
      | approvalDecision id₂ d₂ =>
        obtain rfl := matches_approval h
        obtain rfl := matches_approval h'
        rfl
  | toolResult id =>
    cases r with
    | approvalDecision => cases h
    | toolExecutionResult id₁ o₁ =>
      cases r' with
      | approvalDecision => cases h'
      | toolExecutionResult id₂ o₂ =>
        obtain rfl := matches_toolResult h
        obtain rfl := matches_toolResult h'
        rfl

theorem Request.In.calls_eq (hq : q.In h) :
  (q.turn ctx).calls q.calls
    = ((ActiveTurn.start ctx.ownerId).afterAll (q.before ++ q.events)).calls q.wait.2.1
  := by
  rw [Request.calls, List.flatMap_append, ActiveTurn.calls_append,
    ActiveTurn.afterAll_append, ActiveTurn.afterAll_events _ hq.events]
  simp [Request.turn]

theorem Request.In.explains (hq : q.In h)
    (hconsistent : Always (ActiveTurn.start ctx.ownerId).Consistent h) :
  ((q.turn ctx).calls q.calls).Explains q.wait.1 q.wait.2.2
  := by
  rw [hq.calls_eq]
  apply hconsistent (q.before ++ q.events) q.wait q.after
  rw [hq.whole, List.append_assoc]

theorem Request.turn_ownerId (ctx : TurnContext) (q : Request) :
  (q.turn ctx).ownerId = ctx.ownerId
  := ((ActiveTurn.start ctx.ownerId).grows_afterAll q.before).owner

theorem Request.Undisturbed.mem_channel (hu : q.Undisturbed ctx)
    (hcalls : q.calls = cs ++ .respond actor r :: cs')
    (hok : (((q.turn ctx).calls cs).respond actor r).1 = .ok ()) (hmatches : q.expected.matches_ r)
    (hnew : ∀ actor' : ActorContext, actor'.ownerId = ctx.ownerId → .respond actor' r ∉ cs) :
  r ∈ ((q.turn ctx).calls q.calls).channel
  := by
  have howner : ((q.turn ctx).calls cs).ownerId = ctx.ownerId := by
    rw [((q.turn ctx).grows_calls cs).owner, q.turn_ownerId]
  rw [hcalls, ActiveTurn.calls_append]
  apply ActiveTurn.mem_channel_of_mem (t := (((q.turn ctx).calls cs).respond actor r).2)
  have hcases := ((q.turn ctx).calls cs).responded actor r
  generalize (((q.turn ctx).calls cs).respond actor r).1 = result at hcases hok
  generalize (((q.turn ctx).calls cs).respond actor r).2 = t' at hcases ⊢
  cases hcases with
  | replayed hactor hdone =>
    -- It was consumed during the request, and then submitted before.
    rw [howner] at hactor
    have hold := hu.fresh actor r (by rw [hcalls]; simp) hactor.symm hmatches
    obtain ⟨actor', r', howner', hmem, -, hdigest⟩ :=
      ActiveTurn.mem_of_consumed_calls hold hdone
    rw [digest_inj hdigest] at hmem
    rw [q.turn_ownerId] at howner'
    exact absurd hmem (hnew actor' howner')
  | accepted => simp [ActiveTurn.accept]
  | stranger => cases hok
  | conflict => cases hok
  | unexpected => cases hok
  | gone => cases hok

theorem Request.Undisturbed.received (hu : q.Undisturbed ctx) (hq : q.In h)
    (hconsistent : Always (ActiveTurn.start ctx.ownerId).Consistent h)
    (hmem : r ∈ ((q.turn ctx).calls q.calls).channel) (hmatches : q.expected.matches_ r) :
  received q.wait = some (q.expected, r)
  := by
  have hqueued := ((ActiveTurn.Queued.start ctx.ownerId).afterAll q.before).calls q.calls
  change ((q.turn ctx).calls q.calls).Queued at hqueued
  have hexplains : ((q.turn ctx).calls q.calls).Explains q.wait.1 q.wait.2.2 :=
    hq.explains hconsistent
  have hprompt := hu.prompt
  have hwaits := hq.waits
  generalize (q.turn ctx).calls q.calls = u at hqueued hexplains hmem hprompt
  generalize q.wait = w at hexplains hprompt hwaits ⊢
  obtain ⟨c, cs, answer⟩ := w
  cases hwaits
  cases answer with
  | received skipped response =>
    obtain ⟨-, hat, hmatches'⟩ := hexplains
    have hkey := responseKey_of_matches hmatches' hmatches
    rw [hqueued.eq (List.mem_of_getElem? hat) hmem hkey]
    rfl
  | closed skipped => exact hexplains.elim
  | cancelled skipped => exact absurd hmatches (hprompt rfl r hmem)
  | elapsed skipped => exact absurd hmatches (hprompt rfl r hmem)

theorem not_mem_channel_of_received {pre mid : List TurnStep} {e : TurnStep}
    {expected : ExpectedResponse} (he : (ActiveTurn.start ctx.ownerId).Consistent pre e)
    (hreceived : received e = some (expected, r)) (cs : List ClientCall) :
  r ∉ (((ActiveTurn.start ctx.ownerId).afterAll (pre ++ e :: mid)).calls cs).channel
  := by
  have hdone := (ActiveTurn.Queued.start ctx.ownerId).done he hreceived
  have hlater := (hdone.afterAll mid).calls cs
  rw [← ActiveTurn.afterAll_append, List.append_assoc] at hlater
  exact hlater.gone

theorem received_once {pre mid post : List TurnStep} {e e' : TurnStep}
    {expected expected' : ExpectedResponse} (hwhole : h = pre ++ e :: (mid ++ e' :: post))
    (hconsistent : Always (ActiveTurn.start ctx.ownerId).Consistent h)
    (he : received e = some (expected, r)) :
  received e' ≠ some (expected', r)
  := by
  intro he'
  have hlater := hconsistent (pre ++ e :: mid) e' post (by rw [hwhole]; simp)
  apply not_mem_channel_of_received (hconsistent pre e _ hwhole) he e'.2.1
  exact (hlater.received he').1

theorem Request.In.received_only (hq : q.In h)
    (hconsistent : Always (ActiveTurn.start ctx.ownerId).Consistent h)
    (hreceived : received q.wait = some (q.expected, r)) :
  ∀ e ∈ q.before ++ q.events ++ q.after, ∀ expected, received e ≠ some (expected, r)
  := by
  intro e he expected hsome
  rw [List.mem_append, List.mem_append] at he
  obtain (he | he) | he := he
  · obtain ⟨pre, mid, hbefore⟩ := List.append_of_mem he
    have hwhole : h = pre ++ e :: ((mid ++ q.events) ++ q.wait :: q.after) := by
      rw [hq.whole, hbefore]
      simp
    exact received_once hwhole hconsistent hsome hreceived
  · obtain ⟨event, hevent⟩ := Option.isSome_iff_exists.mp (hq.events e he)
    obtain ⟨envelope, answer, rfl, -⟩ := emitted_eq_some hevent
    cases hsome
  · obtain ⟨mid, post, hafter⟩ := List.append_of_mem he
    have hwhole : h = (q.before ++ q.events) ++ q.wait :: (mid ++ e :: post) := by
      rw [hq.whole, hafter]
      simp
    exact received_once hwhole hconsistent hreceived hsome

theorem Turns.call_finished {turns : Turns} {turnId : Text} (c : ClientCall)
    (hfinished : ∀ t, turns turnId = some t → t.finished) :
  (turns.call turnId c).1 = .error .turnNotFound ∧ (turns.call turnId c).2 turnId = none
  := by
  unfold Turns.call
  cases hturn : turns turnId with
  | none => exact ⟨rfl, hturn⟩
  | some t =>
    dsimp only
    rw [if_pos (hfinished t hturn)]
    exact ⟨rfl, Function.update_self ..⟩

variable [Regex]

/-- Where no request is disturbed, each new response that is accepted in time is delivered once;
replays change nothing, conflicting responses are rejected, and neither others nor late calls reach
the engine. -/
theorem responses_delivered (ctx : TurnContext) (outside : Outside TurnCall.Answered)
    (hconsistent : Always (ActiveTurn.start ctx.ownerId).Consistent (history ctx outside))
    (hundisturbed : ∀ q : Request, q.In (history ctx outside) → q.Undisturbed ctx) :
  ResponsesHandled ctx (history ctx outside)
  where
  awaited pre w post expected heq hw := by
    have hjustified := run_justified ctx outside pre w post heq
    obtain ⟨front, e, mid, rfl, he, hmid⟩ := hjustified.wait expected hw
    refine ⟨⟨expected, front ++ [e], mid, w, post⟩, ?_, rfl, rfl⟩
    refine ⟨?_, ⟨front, e, rfl, he⟩, hmid, hw⟩
    rw [heq]
    simp
  delivered q hq cs actor r cs' hcalls hok hmatches hnew := by
    have hu := hundisturbed q hq
    have hmem := hu.mem_channel hcalls hok hmatches hnew
    have hreceived := hu.received hq hconsistent hmem hmatches
    exact ⟨hreceived, hq.received_only hconsistent hreceived⟩
  replayed pre w mid post expected r heq hreceived cs actor := by
    have hdone := (ActiveTurn.Queued.start ctx.ownerId).done
      (hconsistent pre w _ heq) hreceived
    have hlater := (hdone.afterAll mid).calls cs
    rw [← ActiveTurn.afterAll_append, List.append_assoc] at hlater
    have hreplayed := ActiveTurn.respond_replayed actor hlater.consumed
    have howner : (((ActiveTurn.start ctx.ownerId).afterAll
        (pre ++ w :: mid)).calls cs).ownerId = ctx.ownerId := by
      rw [(ActiveTurn.grows_calls _ cs).owner, (ActiveTurn.grows_afterAll _ _).owner]
      rfl
    exact ⟨hreplayed.1, fun hactor => hreplayed.2 (hactor.trans howner.symm)⟩
  conflicting pre e post cs actor r cs' heq hcs hok mid rest hrest cs'' actor' r' hkey hne := by
    apply ActiveTurn.respond_conflicting actor' _ hkey hne
    apply (ActiveTurn.grows_calls _ cs'').consumed
    apply (ActiveTurn.grows_afterAll _ mid).consumed
    exact ActiveTurn.consumed_of_ok hok
  strangers pre post heq cs c hother := by
    apply ActiveTurn.call_stranger
    rw [(ActiveTurn.grows_calls _ cs).owner, (ActiveTurn.grows_afterAll _ _).owner]
    exact hother
  ended cs := ActiveTurn.channel_calls_of_left rfl cs
  forgotten turns turnId c hfinished := Turns.call_finished c hfinished

end

/-! ### Runs -/

/-- The result of a command that has succeeded without output. -/
def emptyResult (id : Text) : ClientTurnResponse :=
  .toolExecutionResult id ⟨"", .succeeded⟩

/-- The history of a run of commands without risk. -/
def autoHistory (script : Script) : List TurnStep :=
  @history noRisk (terminalTurn .auto none) (script.outside "owner")

/-- One command, whose result the owner submits. -/
def oneResult : Script where
  answers := [.ok (answerWith [terminalUse "call-1" "ls"])]
  clients := fun n => if n = 10 then [.respond ⟨"owner"⟩ (emptyResult "call-1")] else []
  active := false
  specs := []
  dispatch := fun _ => none

def publishes (e : TurnStep) : Bool :=
  e.1 matches .setExpected _

def waits (e : TurnStep) : Bool :=
  e.1 matches .recvMatching _

/-- A run of one command with its result. -/
theorem responses_delivered_result :
  ResponsesHandled (terminalTurn .auto none) (autoHistory oneResult)
  := by
  apply @responses_delivered noRisk
  · exact @Script.consistent noRisk _ _
  · intro q hq
    obtain ⟨pre, e, hbefore, he⟩ := hq.published
    constructor
    · intro actor r _ _ _
      have hwhole : autoHistory oneResult = pre ++ e :: (q.events ++ q.wait :: q.after) := by
        apply hq.whole.trans
        rw [hbefore]
        simp
      have hnew := forall_step (P := fun pre e => publishes e →
        ((ActiveTurn.start "owner").afterAll (pre ++ [e])).consumed = []) (by decide) hwhole
      change ((ActiveTurn.start "owner").afterAll q.before).consumed.lookup _ ≠ _
      rw [hbefore, hnew (by rw [publishes, he])]
      nofun
    · intro hnone
      have hwhole : autoHistory oneResult = (q.before ++ q.events) ++ q.wait :: q.after := by
        apply hq.whole.trans
        rw [List.append_assoc]
      have hsome := forall_step (P := fun _ w => waits w → (received w).isSome)
        (by decide) hwhole
      rw [hnone] at hsome
      cases hsome (by rw [waits, hq.waits])

/-- Two rounds with one command each, under the same id and with the same result. -/
def reusedId : Script where
  answers := [.ok (answerWith [terminalUse "call-1" "ls"]),
    .ok (answerWith [terminalUse "call-1" "pwd"])]
  clients := fun n =>
    if n = 10 ∨ n = 21 then [.respond ⟨"owner"⟩ (emptyResult "call-1")] else []
  active := false
  specs := []
  dispatch := fun _ => none

/-- The request for the result of the second command. -/
def secondRequest : Request where
  expected := .toolResult "call-1"
  before := (autoHistory reusedId).take 19
  events := ((autoHistory reusedId).take 21).drop 19
  wait := (autoHistory reusedId).getD 21 ⟨.isActive, [], false⟩
  after := (autoHistory reusedId).drop 22

theorem secondRequest_in :
  secondRequest.In (autoHistory reusedId)
  where
  whole := by
    have hwait : (autoHistory reusedId)[21]? = some secondRequest.wait := rfl
    have hfront : (autoHistory reusedId).take 21
        = (autoHistory reusedId).take 19 ++ ((autoHistory reusedId).take 21).drop 19 := by
      conv_lhs => rw [← List.take_append_drop 19 ((autoHistory reusedId).take 21)]
      rw [List.take_take]
      rfl
    apply (split_at_step hwait).trans
    rw [hfront, List.append_assoc]
    rfl
  published := by
    have hlast : ∃ e, (autoHistory reusedId)[18]? = some e
        ∧ e.1 = .setExpected (.toolResult "call-1") := ⟨_, rfl, rfl⟩
    obtain ⟨e, he, hexpect⟩ := hlast
    refine ⟨(autoHistory reusedId).take 18, e, ?_, hexpect⟩
    change (autoHistory reusedId).take (18 + 1) = _
    rw [List.take_add_one, he]
    rfl
  events := by decide
  waits := rfl

/-- The result of the second command is accepted while the engine awaits it, but never received. -/
theorem identical_result_lost :
  ¬ ∀ (_ : Regex) (ctx : TurnContext) (outside : Outside TurnCall.Answered),
    Always (ActiveTurn.start ctx.ownerId).Consistent (history ctx outside) →
      ResponsesHandled ctx (history ctx outside)
  := by
  intro hall
  have hhandled := hall noRisk (terminalTurn .auto none) (reusedId.outside "owner")
    (@Script.consistent noRisk reusedId (terminalTurn .auto none))
  obtain ⟨hreceived, -⟩ := hhandled.delivered secondRequest secondRequest_in []
    ⟨"owner"⟩ (emptyResult "call-1") [] rfl rfl rfl nofun
  have hnone : received secondRequest.wait = none := rfl
  rw [hnone] at hreceived
  cases hreceived

end Agent
