import Catio.Workbench.AgentProjector

/-!
# Settled turns and requests

Envelopes of any turns are delivered in any order, some not at all and some more than once.  What is
delivered in order settles its turn once (`Settles`), and asks for a tool once (`Asks`); but what
comes after a gap does not, nor a tool id that another turn has asked for.
-/

namespace Workbench

/-! ### What is in order -/

def sequenceOf (turnId : Text) : Delivery → ℕ
  | .other => 0
  | .envelope e => if isAgentEventEnvelope e ∧ e.turnId = turnId then e.sequence else 0

/-- The greatest sequence of a turn that was delivered. -/
def latest (turnId : Text) (ds : List Delivery) : ℕ :=
  ds.foldl (fun n d => max n (sequenceOf turnId d)) 0

/-- The envelope is the next one of its turn. -/
def InOrder (before : List Delivery) (e : AgentEventEnvelope) : Prop :=
  isAgentEventEnvelope e ∧ e.sequence = latest e.turnId before + 1

/-- The envelope was delivered when it was the next one of its turn. -/
def DeliveredInOrder (ds : List Delivery) (e : AgentEventEnvelope) : Prop :=
  ∃ before after, ds = before ++ .envelope e :: after ∧ InOrder before e

section

variable {ds : List Delivery} {d : Delivery} {e : AgentEventEnvelope} {s : AgentProjectorState}

theorem sequenceOf_envelope (turnId : Text) (e : AgentEventEnvelope) :
  sequenceOf turnId (.envelope e)
    = if isAgentEventEnvelope e ∧ e.turnId = turnId then e.sequence else 0
  := rfl

theorem latest_snoc (turnId : Text) (ds : List Delivery) (d : Delivery) :
  latest turnId (ds ++ [d]) = max (latest turnId ds) (sequenceOf turnId d)
  := List.foldl_concat ..

theorem projectAll_snoc (ds : List Delivery) (d : Delivery) :
  projectAll (ds ++ [d]) = projectNext (projectAll ds) d
  := List.foldl_concat ..

theorem deliveredInOrder_snoc :
  DeliveredInOrder (ds ++ [d]) e ↔ DeliveredInOrder ds e ∨ d = .envelope e ∧ InOrder ds e
  := by
  constructor
  · rintro ⟨before, after, heq, horder⟩
    obtain rfl | ⟨after, x, rfl⟩ := List.eq_nil_or_concat after
    · obtain ⟨rfl, hlast⟩ := List.append_inj' heq rfl
      exact .inr ⟨List.cons.inj hlast |>.1, horder⟩
    · rw [List.concat_eq_append, ← List.cons_append, ← List.append_assoc] at heq
      obtain ⟨rfl, -⟩ := List.append_inj' heq rfl
      exact .inl ⟨before, after, rfl, horder⟩
  · rintro (⟨before, after, rfl, horder⟩ | ⟨rfl, horder⟩)
    · exact ⟨before, after ++ [d], by simp, horder⟩
    · exact ⟨ds, [], rfl, horder⟩

/-- A delivery is the next envelope of its turn and is applied; or it has no effect but a
warning. -/
theorem projectAgentEvent_cases (s : AgentProjectorState) (d : Delivery) :
  (∃ e, d = .envelope e ∧ isAgentEventEnvelope e ∧ e.sequence = s.lastSequence e.turnId + 1
      ∧ projectAgentEvent s d = ⟨((s.setSequence e.turnId e.sequence).apply e.turnId e.event).1,
        ((s.setSequence e.turnId e.sequence).apply e.turnId e.event).2, true⟩)
    ∨ (∀ e, d = .envelope e → isAgentEventEnvelope e → e.sequence ≠ s.lastSequence e.turnId + 1)
      ∧ ((∀ t, sequenceOf t d ≤ s.lastSequence t) ∧ projectAgentEvent s d = ⟨s, [], false⟩
        ∨ ∃ e, d = .envelope e ∧ isAgentEventEnvelope e ∧ s.lastSequence e.turnId < e.sequence
          ∧ projectAgentEvent s d
            = ⟨s.setSequence e.turnId e.sequence, [.showWarning "agentEventOrder"], false⟩)
  := by
  cases d with
  | other => exact .inr ⟨nofun, .inl ⟨fun _ => Nat.zero_le _, rfl⟩⟩
  | envelope e =>
    unfold projectAgentEvent
    dsimp only
    split
    · rename_i hinvalid
      rw [Bool.not_eq_true'] at hinvalid
      right
      constructor
      · rintro e' ⟨⟩ hvalid
        rw [hinvalid] at hvalid
        cases hvalid
      · left
        refine ⟨fun t => ?_, rfl⟩
        rw [sequenceOf_envelope, hinvalid, if_neg (fun h => Bool.false_ne_true h.1)]
        exact Nat.zero_le _
    · rename_i hvalid
      rw [Bool.not_eq_true', Bool.not_eq_false] at hvalid
      split
      · rename_i hseen
        right
        constructor
        · rintro e' ⟨⟩ -
          omega
        · left
          refine ⟨fun t => ?_, rfl⟩
          rw [sequenceOf_envelope]
          split
          · rename_i hturn
            rw [← hturn.2]
            exact hseen
          · exact Nat.zero_le _
      · split
        · rename_i hnew hgap
          right
          constructor
          · rintro e' ⟨⟩ -
            omega
          · exact .inr ⟨e, rfl, hvalid, by omega, rfl⟩
        · rename_i hnew hnext
          exact .inl ⟨e, rfl, hvalid, by omega, rfl⟩

theorem apply_lastSequence (s : AgentProjectorState) (turnId : Text) (event : AgentEvent) :
  (s.apply turnId event).1.lastSequenceByTurn = s.lastSequenceByTurn
  := by
  cases event with
  | approvalRequested toolUseId reason =>
    unfold AgentProjectorState.apply
    dsimp only
    split
    · rfl
    · rfl
  | toolExecutionRequested toolUseId target input =>
    unfold AgentProjectorState.apply
    dsimp only
    split
    · rfl
    · rfl
  | _ => rfl

theorem lastSequence_setSequence (s : AgentProjectorState) (turnId t : Text) (sequence : ℕ) :
  (s.setSequence turnId sequence).lastSequence t
    = if t = turnId then sequence else s.lastSequence t
  := by
  unfold AgentProjectorState.lastSequence AgentProjectorState.setSequence
  split
  · rename_i heq
    subst heq
    rw [AList.lookup_insert, Option.getD_some]
  · rename_i hne
    rw [AList.lookup_insert_ne hne]

theorem lastSequence_projectAll (ds : List Delivery) (turnId : Text) :
  (projectAll ds).1.lastSequence turnId = latest turnId ds
  := by
  induction ds using List.reverseRecOn generalizing turnId with
  | nil => rfl
  | append_singleton ds d ih =>
    rw [projectAll_snoc, latest_snoc]
    have hset (e : AgentEventEnvelope) (hvalid : isAgentEventEnvelope e)
        (hnew : (projectAll ds).1.lastSequence e.turnId < e.sequence) :
        ((projectAll ds).1.setSequence e.turnId e.sequence).lastSequence turnId
          = max (latest turnId ds) (sequenceOf turnId (.envelope e)) := by
      rw [lastSequence_setSequence, sequenceOf_envelope]
      split
      · rename_i heq
        subst heq
        rw [if_pos ⟨hvalid, rfl⟩, ← ih]
        omega
      · rename_i hne
        rw [if_neg fun h => hne h.2.symm, ih, Nat.max_zero]
    unfold projectNext
    obtain ⟨e, rfl, hvalid, hnext, hproject⟩ | ⟨-, ⟨hseen, hproject⟩ | ⟨e, rfl, hvalid, hnew,
      hproject⟩⟩ := projectAgentEvent_cases (projectAll ds).1 d
    · rw [hproject, ← hset e hvalid (by omega)]
      unfold AgentProjectorState.lastSequence
      rw [apply_lastSequence]
    · rw [hproject, ih]
      have hle := hseen turnId
      rw [ih] at hle
      omega
    · rw [hproject, ← hset e hvalid hnew]

/-- One more delivery was in order and is applied, or only sequences change, with no effect but a
warning. -/
theorem projectAll_step (ds : List Delivery) (d : Delivery) :
  (∃ e, d = .envelope e ∧ InOrder ds e
      ∧ projectAll (ds ++ [d])
        = ((((projectAll ds).1.setSequence e.turnId e.sequence).apply e.turnId e.event).1,
          (projectAll ds).2
            ++ (((projectAll ds).1.setSequence e.turnId e.sequence).apply e.turnId e.event).2))
    ∨ (∀ e, d = .envelope e → ¬ InOrder ds e)
      ∧ ∃ sequences warnings, (∀ w ∈ warnings, w = .showWarning "agentEventOrder")
        ∧ projectAll (ds ++ [d])
          = ({ (projectAll ds).1 with lastSequenceByTurn := sequences },
            (projectAll ds).2 ++ warnings)
  := by
  rw [projectAll_snoc]
  unfold projectNext InOrder
  obtain ⟨e, rfl, hvalid, hnext, hproject⟩ | ⟨hnot, hquiet⟩ :=
    projectAgentEvent_cases (projectAll ds).1 d
  · left
    rw [lastSequence_projectAll] at hnext
    use e, rfl, ⟨hvalid, hnext⟩
    rw [hproject]
  · right
    constructor
    · intro e heq horder
      apply hnot e heq horder.1
      rw [lastSequence_projectAll]
      exact horder.2
    · obtain ⟨-, hproject⟩ | ⟨e, -, -, -, hproject⟩ := hquiet
      · exact ⟨_, [], nofun, by rw [hproject]⟩
      · use (projectAll ds).1.lastSequenceByTurn.insert e.turnId e.sequence,
          [.showWarning "agentEventOrder"]
        rw [hproject]
        exact ⟨fun w hw => List.mem_singleton.mp hw, rfl⟩

/-! ### Requests -/

/-- The kinds of requests that have one effect for each tool id. -/
inductive Request where
  | approval
  | execution
  deriving DecidableEq

/-- The tool id that an event asks for. -/
def Request.of : Request → AgentEvent → Option Text
  | .approval, .approvalRequested toolUseId _ => some toolUseId
  | .execution, .toolExecutionRequested toolUseId _ _ => some toolUseId
  | _, _ => none

/-- The tool ids that had their effect. -/
def Request.handled : Request → AgentProjectorState → List Text
  | .approval, s => s.handledApprovalIds
  | .execution, s => s.handledExecutionIds

/-- The turn and the tool id of an effect. -/
def Request.effect : Request → AgentProjectionEffect → Option (Text × Text)
  | .approval, .requestApproval turnId toolUseId _ => some (turnId, toolUseId)
  | .execution, .executeTool turnId toolUseId _ _ => some (turnId, toolUseId)
  | _, _ => none

/-- The turns and tool ids of the effects of a kind. -/
def Request.effects (kind : Request) (effects : List AgentProjectionEffect) : List (Text × Text) :=
  effects.filterMap kind.effect

theorem Request.apply (kind : Request) (s : AgentProjectorState) (turnId : Text)
    (event : AgentEvent) :
  (kind.of event = none ∨ ∃ u, kind.of event = some u ∧ u ∈ kind.handled s)
      ∧ kind.handled (s.apply turnId event).1 = kind.handled s
      ∧ kind.effects (s.apply turnId event).2 = []
    ∨ ∃ u, kind.of event = some u ∧ u ∉ kind.handled s
      ∧ kind.handled (s.apply turnId event).1 = kind.handled s ++ [u]
      ∧ kind.effects (s.apply turnId event).2 = [(turnId, u)]
  := by
  cases event with
  | approvalRequested toolUseId reason =>
    unfold AgentProjectorState.apply
    dsimp only
    split
    · rename_i hhandled
      cases kind with
      | approval => exact .inl ⟨.inr ⟨toolUseId, rfl, hhandled⟩, rfl, rfl⟩
      | execution => exact .inl ⟨.inl rfl, rfl, rfl⟩
    · rename_i hnew
      cases kind with
      | approval => exact .inr ⟨toolUseId, rfl, hnew, rfl, rfl⟩
      | execution => exact .inl ⟨.inl rfl, rfl, rfl⟩
  | toolExecutionRequested toolUseId target input =>
    unfold AgentProjectorState.apply
    dsimp only
    split
    · rename_i hhandled
      cases kind with
      | approval => exact .inl ⟨.inl rfl, rfl, rfl⟩
      | execution => exact .inl ⟨.inr ⟨toolUseId, rfl, hhandled⟩, rfl, rfl⟩
    · rename_i hnew
      cases kind with
      | approval => exact .inl ⟨.inl rfl, rfl, rfl⟩
      | execution => exact .inr ⟨toolUseId, rfl, hnew, rfl, rfl⟩
  | _ =>
    cases kind with
    | approval => exact .inl ⟨.inl rfl, rfl, rfl⟩
    | execution => exact .inl ⟨.inl rfl, rfl, rfl⟩

/-- The handled tool ids are those that had an effect, once; they were asked for in order, and all
that were are handled. -/
structure Request.Handles (kind : Request) (ds : List Delivery) : Prop where
  handled : kind.handled (projectAll ds).1 = (kind.effects (projectAll ds).2).map Prod.snd
  once : ((kind.effects (projectAll ds).2).map Prod.snd).Nodup
  asked : ∀ turnId u, (turnId, u) ∈ kind.effects (projectAll ds).2 →
    ∃ e, DeliveredInOrder ds e ∧ e.turnId = turnId ∧ kind.of e.event = some u
  answered : ∀ e u, DeliveredInOrder ds e → kind.of e.event = some u →
    u ∈ (kind.effects (projectAll ds).2).map Prod.snd

theorem Request.effects_append (kind : Request) (xs ys : List AgentProjectionEffect) :
  kind.effects (xs ++ ys) = kind.effects xs ++ kind.effects ys
  := List.filterMap_append

theorem Request.effects_warnings (kind : Request) {warnings : List AgentProjectionEffect}
    (h : ∀ w ∈ warnings, w = .showWarning "agentEventOrder") :
  kind.effects warnings = []
  := by
  apply List.filterMap_eq_nil_iff.mpr
  intro w hw
  rw [h w hw]
  cases kind with
  | approval => rfl
  | execution => rfl

theorem Request.handled_setSequence (kind : Request) (s : AgentProjectorState)
    (sequences : Table Text ℕ) :
  kind.handled { s with lastSequenceByTurn := sequences } = kind.handled s
  := by
  cases kind with
  | approval => rfl
  | execution => rfl

theorem Request.handles (kind : Request) (ds : List Delivery) :
  kind.Handles ds
  := by
  induction ds using List.reverseRecOn with
  | nil =>
    constructor
    · cases kind with
      | approval => rfl
      | execution => rfl
    · exact List.nodup_nil
    · intro turnId u h
      cases h
    · rintro e u ⟨before, after, heq, -⟩ -
      simp at heq
  | append_singleton ds d ih =>
    have hasked {turnId u : Text} (h : (turnId, u) ∈ kind.effects (projectAll ds).2) :
        ∃ e, DeliveredInOrder (ds ++ [d]) e ∧ e.turnId = turnId ∧ kind.of e.event = some u := by
      obtain ⟨e, horder, hturn, hof⟩ := ih.asked turnId u h
      exact ⟨e, deliveredInOrder_snoc.mpr (.inl horder), hturn, hof⟩
    obtain ⟨e, rfl, horder, hstep⟩ | ⟨hnot, sequences, warnings, hwarnings, hstep⟩ :=
      projectAll_step ds d
    · obtain ⟨hold, hhandled, heffects⟩ | ⟨u, hof, hnew, hhandled, heffects⟩ :=
        kind.apply ((projectAll ds).1.setSequence e.turnId e.sequence) e.turnId e.event
      · have hsame : kind.effects (projectAll (ds ++ [.envelope e])).2
            = kind.effects (projectAll ds).2 := by
          rw [hstep, kind.effects_append, heffects, List.append_nil]
        constructor
        · rw [hsame, hstep, hhandled, ← ih.handled]
          exact kind.handled_setSequence _ _
        · rw [hsame]
          exact ih.once
        · intro turnId u h
          rw [hsame] at h
          exact hasked h
        · intro e' u horder' hof
          rw [hsame]
          obtain horder' | ⟨heq, -⟩ := deliveredInOrder_snoc.mp horder'
          · exact ih.answered e' u horder' hof
          · cases heq
            obtain hnone | ⟨u', hof', hmem⟩ := hold
            · rw [hnone] at hof
              cases hof
            · rw [hof', Option.some.injEq] at hof
              rw [← hof, ← ih.handled]
              exact kind.handled_setSequence _ _ ▸ hmem
      · have hnew : u ∉ (kind.effects (projectAll ds).2).map Prod.snd := by
          rw [← ih.handled]
          exact kind.handled_setSequence _ _ ▸ hnew
        have hmore : kind.effects (projectAll (ds ++ [.envelope e])).2
            = kind.effects (projectAll ds).2 ++ [(e.turnId, u)] := by
          rw [hstep, kind.effects_append, heffects]
        constructor
        · rw [hmore, hstep, hhandled, List.map_append, ← ih.handled]
          exact congrArg (· ++ [u]) (kind.handled_setSequence _ _)
        · rw [hmore, List.map_append]
          apply ih.once.append (List.nodup_singleton _)
          intro v hv hu
          obtain rfl : v = u := List.mem_singleton.mp hu
          exact hnew hv
        · intro turnId v h
          rw [hmore, List.mem_append, List.mem_singleton] at h
          obtain h | h := h
          · exact hasked h
          · cases h
            exact ⟨e, deliveredInOrder_snoc.mpr (.inr ⟨rfl, horder⟩), rfl, hof⟩
        · intro e' v horder' hof'
          rw [hmore, List.map_append]
          obtain horder' | ⟨heq, -⟩ := deliveredInOrder_snoc.mp horder'
          · exact List.mem_append_left _ (ih.answered e' v horder' hof')
          · cases heq
            rw [hof, Option.some.injEq] at hof'
            subst hof'
            exact List.mem_append_right _ (List.mem_singleton_self _)
    · have hsame : kind.effects (projectAll (ds ++ [d])).2
          = kind.effects (projectAll ds).2 := by
        rw [hstep, kind.effects_append, kind.effects_warnings hwarnings, List.append_nil]
      constructor
      · rw [hsame, hstep, ← ih.handled]
        exact kind.handled_setSequence _ _
      · rw [hsame]
        exact ih.once
      · intro turnId u h
        rw [hsame] at h
        exact hasked h
      · intro e' u horder' hof
        rw [hsame]
        obtain horder' | ⟨heq, horder'⟩ := deliveredInOrder_snoc.mp horder'
        · exact ih.answered e' u horder' hof
        · exact absurd horder' (hnot e' heq)

theorem Request.once (kind : Request) {e : AgentEventEnvelope} {u : Text}
    (horder : DeliveredInOrder ds e) (hof : kind.of e.event = some u)
    (hown : ∀ e', DeliveredInOrder ds e' → kind.of e'.event = some u → e'.turnId = e.turnId) :
  (projectAll ds).2.countP (fun x => kind.effect x = some (e.turnId, u)) = 1
  := by
  have hhandles := kind.handles ds
  have hmem : (e.turnId, u) ∈ kind.effects (projectAll ds).2 := by
    obtain ⟨⟨turnId, v⟩, hpair, rfl⟩ := List.mem_map.mp (hhandles.answered e u horder hof)
    obtain ⟨e', horder', rfl, hof'⟩ := hhandles.asked turnId v hpair
    rwa [hown e' horder' hof'] at hpair
  have hcount := List.count_eq_one_of_mem hhandles.once.of_map hmem
  unfold Request.effects at hcount
  rw [List.count_filterMap] at hcount
  rw [← hcount]
  apply List.countP_congr
  intro x _
  simp

/-! ### Terminal events -/

/-- The events of each turn; only its last one ends it. -/
structure AgentTurns where
  events : Text → List AgentEvent
  terminal_last : ∀ turnId, ∀ event ∈ (events turnId).dropLast, isTerminalEvent event = false

theorem AgentTurns.eq_length (turns : AgentTurns) {turnId : Text} {i : ℕ} {event : AgentEvent}
    (hevent : (turns.events turnId)[i]? = some event) (hterminal : isTerminalEvent event) :
  i + 1 = (turns.events turnId).length
  := by
  obtain ⟨hlt, heq⟩ := List.getElem?_eq_some_iff.mp hevent
  by_contra hne
  have hmem : event ∈ (turns.events turnId).dropLast := by
    rw [← heq, ← List.getElem_dropLast (by rw [List.length_dropLast]; omega)]
    exact List.getElem_mem _
  rw [turns.terminal_last turnId event hmem] at hterminal
  cases hterminal

/-- What is delivered is no envelope, or that of an event of its turn with the number of the event
as its sequence. -/
def AgentTurns.Sent (turns : AgentTurns) : Delivery → Prop
  | .other => True
  | .envelope e => ∃ i, e.sequence = i + 1 ∧ (turns.events e.turnId)[i]? = some e.event

theorem AgentTurns.sequenceOf_le {turns : AgentTurns} {d : Delivery} (h : turns.Sent d)
    (turnId : Text) :
  sequenceOf turnId d ≤ (turns.events turnId).length
  := by
  cases d with
  | other => exact Nat.zero_le _
  | envelope e =>
    rw [sequenceOf_envelope]
    split
    · rename_i hturn
      obtain ⟨i, hi, hevent⟩ := h
      obtain ⟨hlt, -⟩ := List.getElem?_eq_some_iff.mp hevent
      rw [hi, ← hturn.2]
      exact hlt
    · exact Nat.zero_le _

def settles : AgentProjectionEffect → Option Text
  | .turnSettled turnId => some turnId
  | _ => none

def settled (turnId : Text) (effects : List AgentProjectionEffect) : ℕ :=
  effects.countP fun x => settles x = some turnId

theorem apply_terminal {event : AgentEvent} (h : isTerminalEvent event) (s : AgentProjectorState)
    (turnId : Text) :
  (s.apply turnId event).1.busyByTurn = s.busyByTurn.insert turnId false
    ∧ (s.apply turnId event).2 = [.turnSettled turnId]
  := by
  cases event with
  | turnFinished => exact ⟨rfl, rfl⟩
  | turnCancelled => exact ⟨rfl, rfl⟩
  | turnFailed code message => exact ⟨rfl, rfl⟩
  | _ => cases h

theorem apply_between {event : AgentEvent} (hstart : event ≠ .turnStarted)
    (hend : isTerminalEvent event = false) (s : AgentProjectorState) (turnId : Text) :
  (s.apply turnId event).1.busyByTurn = s.busyByTurn
    ∧ ∀ t, settled t (s.apply turnId event).2 = 0
  := by
  cases event with
  | turnStarted => exact absurd rfl hstart
  | turnFinished => cases hend
  | turnCancelled => cases hend
  | turnFailed code message => cases hend
  | approvalRequested toolUseId reason =>
    unfold AgentProjectorState.apply
    dsimp only
    split
    · exact ⟨rfl, fun _ => rfl⟩
    · exact ⟨rfl, fun _ => rfl⟩
  | toolExecutionRequested toolUseId target input =>
    unfold AgentProjectorState.apply
    dsimp only
    split
    · exact ⟨rfl, fun _ => rfl⟩
    · exact ⟨rfl, fun _ => rfl⟩
  | _ => exact ⟨rfl, fun _ => rfl⟩

theorem settled_apply {event : AgentEvent} (h : isTerminalEvent event = false)
    (s : AgentProjectorState) (turnId t : Text) :
  settled t (s.apply turnId event).2 = 0
  := by
  by_cases hstart : event = .turnStarted
  · subst hstart
    rfl
  · exact (apply_between hstart h s turnId).2 t

theorem settled_other (event : AgentEvent) (s : AgentProjectorState) {turnId t : Text}
    (hne : t ≠ turnId) :
  settled t (s.apply turnId event).2 = 0
  := by
  cases hterminal : isTerminalEvent event with
  | true =>
    rw [(apply_terminal hterminal s turnId).2]
    unfold settled settles
    rw [List.countP_singleton, if_neg]
    simpa using Ne.symm hne
  | false => exact settled_apply hterminal s turnId t

theorem busy_apply (event : AgentEvent) (s : AgentProjectorState) {turnId t : Text}
    (hne : t ≠ turnId) :
  (s.apply turnId event).1.busyByTurn.lookup t = s.busyByTurn.lookup t
  := by
  cases hterminal : isTerminalEvent event with
  | true =>
    rw [(apply_terminal hterminal s turnId).1]
    exact AList.lookup_insert_ne hne
  | false =>
    by_cases hstart : event = .turnStarted
    · subst hstart
      exact AList.lookup_insert_ne hne
    · rw [(apply_between hstart hterminal s turnId).1]

theorem settled_append (turnId : Text) (xs ys : List AgentProjectionEffect) :
  settled turnId (xs ++ ys) = settled turnId xs + settled turnId ys
  := List.countP_append

theorem settled_warnings {warnings : List AgentProjectionEffect} (turnId : Text)
    (h : ∀ w ∈ warnings, w = .showWarning "agentEventOrder") :
  settled turnId warnings = 0
  := by
  apply List.countP_eq_zero.mpr
  intro w hw
  rw [h w hw]
  simp [settles]

/-- A turn is settled once, and not busy, exactly when its terminal event was in order, the last of
its envelopes. -/
theorem settles_once {turns : AgentTurns} (hsent : ∀ d ∈ ds, turns.Sent d) (turnId : Text) :
  ((∃ e, DeliveredInOrder ds e ∧ e.turnId = turnId ∧ isTerminalEvent e.event)
      ∧ latest turnId ds = (turns.events turnId).length
      ∧ (projectAll ds).1.busyByTurn.lookup turnId = some false
      ∧ settled turnId (projectAll ds).2 = 1)
    ∨ (∀ e, DeliveredInOrder ds e → e.turnId = turnId → isTerminalEvent e.event = false)
      ∧ settled turnId (projectAll ds).2 = 0
  := by
  induction ds using List.reverseRecOn with
  | nil =>
    right
    constructor
    · rintro e ⟨before, after, heq, -⟩ -
      simp at heq
    · rfl
  | append_singleton ds d ih =>
    have hbound : sequenceOf turnId d ≤ (turns.events turnId).length :=
      AgentTurns.sequenceOf_le (hsent d (by simp)) turnId
    have ih := ih fun d' hd' => hsent d' (List.mem_append_left _ hd')
    -- what is not the end of the turn in order
    have hquiet (hbusy : (projectAll (ds ++ [d])).1.busyByTurn.lookup turnId
          = (projectAll ds).1.busyByTurn.lookup turnId)
        (hsettled : settled turnId (projectAll (ds ++ [d])).2 = settled turnId (projectAll ds).2)
        (hnot : ∀ e, d = .envelope e → InOrder ds e → e.turnId = turnId →
          isTerminalEvent e.event = false) :
        ((∃ e, DeliveredInOrder (ds ++ [d]) e ∧ e.turnId = turnId ∧ isTerminalEvent e.event)
            ∧ latest turnId (ds ++ [d]) = (turns.events turnId).length
            ∧ (projectAll (ds ++ [d])).1.busyByTurn.lookup turnId = some false
            ∧ settled turnId (projectAll (ds ++ [d])).2 = 1)
          ∨ (∀ e, DeliveredInOrder (ds ++ [d]) e → e.turnId = turnId →
              isTerminalEvent e.event = false)
            ∧ settled turnId (projectAll (ds ++ [d])).2 = 0 := by
      rw [hbusy, hsettled, latest_snoc]
      obtain ⟨⟨e, horder, hturn, hterminal⟩, hlatest, hfalse, hone⟩ | ⟨hnone, hzero⟩ := ih
      · left
        refine ⟨⟨e, deliveredInOrder_snoc.mpr (.inl horder), hturn, hterminal⟩, ?_, hfalse, hone⟩
        omega
      · right
        refine ⟨fun e horder hturn => ?_, hzero⟩
        obtain horder | ⟨heq, horder⟩ := deliveredInOrder_snoc.mp horder
        · exact hnone e horder hturn
        · exact hnot e heq horder hturn
    obtain ⟨e, rfl, horder, hstep⟩ | ⟨hnot, sequences, warnings, hwarnings, hstep⟩ :=
      projectAll_step ds d
    · by_cases hturn : e.turnId = turnId
      · subst hturn
        have hseq : sequenceOf e.turnId (.envelope e) = e.sequence := by
          rw [sequenceOf_envelope, if_pos ⟨horder.1, rfl⟩]
        cases hterminal : isTerminalEvent e.event with
        | true =>
          left
          obtain ⟨-, hlatest, -⟩ | ⟨-, hzero⟩ := ih
          · -- its terminal event was seen, so this cannot be the next one
            have hnext := horder.2
            omega
          · obtain ⟨i, hi, hevent⟩ := hsent (.envelope e) (by simp)
            have hlast := turns.eq_length hevent hterminal
            obtain ⟨hbusy, heffects⟩ := apply_terminal hterminal
              ((projectAll ds).1.setSequence e.turnId e.sequence) e.turnId
            refine ⟨⟨e, deliveredInOrder_snoc.mpr (.inr ⟨rfl, horder⟩), rfl, hterminal⟩, ?_, ?_,
              ?_⟩
            · rw [latest_snoc, hseq]
              have hnext := horder.2
              omega
            · rw [hstep, hbusy, AList.lookup_insert]
            · rw [hstep, settled_append, hzero, heffects]
              unfold settled settles
              rw [List.countP_singleton, if_pos (decide_eq_true rfl)]
        | false =>
          obtain ⟨-, hlatest, -⟩ | hnone := ih
          · have hnext := horder.2
            omega
          · right
            constructor
            · intro e' horder' hturn'
              obtain horder' | ⟨heq, -⟩ := deliveredInOrder_snoc.mp horder'
              · exact hnone.1 e' horder' hturn'
              · cases heq
                exact hterminal
            · rw [hstep, settled_append, hnone.2, settled_apply hterminal]
      · apply hquiet
        · rw [hstep, busy_apply _ _ (Ne.symm hturn)]
          rfl
        · rw [hstep, settled_append, settled_other _ _ (Ne.symm hturn), Nat.add_zero]
        · rintro e' ⟨⟩ - hturn'
          exact absurd hturn' hturn
    · apply hquiet
      · rw [hstep]
      · rw [hstep, settled_append, settled_warnings turnId hwarnings, Nat.add_zero]
      · intro e heq horder
        exact absurd horder (hnot e heq)

/-- In whatever order envelopes are delivered: a turn whose terminal event was in order is settled
once; and a request for an approval or an execution in order had one effect, if no other turn asked
for its tool id in order. -/
theorem projection_settles (turns : AgentTurns) (ds : List Delivery)
    (hsent : ∀ d ∈ ds, turns.Sent d) :
  (∀ e, DeliveredInOrder ds e → isTerminalEvent e.event →
    (projectAll ds).1.busyByTurn.lookup e.turnId = some false
      ∧ settled e.turnId (projectAll ds).2 = 1)
    ∧ ∀ (kind : Request) e u, DeliveredInOrder ds e → kind.of e.event = some u →
      (∀ e', DeliveredInOrder ds e' → kind.of e'.event = some u → e'.turnId = e.turnId) →
      (projectAll ds).2.countP (fun x => kind.effect x = some (e.turnId, u)) = 1
  := by
  constructor
  · intro e horder hterminal
    obtain ⟨-, -, hbusy, hone⟩ | ⟨hnone, -⟩ := settles_once hsent e.turnId
    · exact ⟨hbusy, hone⟩
    · rw [hnone e horder rfl] at hterminal
      cases hterminal
  · intro kind e u horder hof hown
    exact kind.once horder hof hown

end

/-- Turns that ask for an approval of the same tool id, and finish. -/
def askingTurns : AgentTurns where
  events _ := [.turnStarted, .approvalRequested (syntheticToolId 0 0) "rm", .turnFinished]
  terminal_last _ := by
    decide

/-- The envelopes of such a turn. -/
def asking (turnId : Text) (sequence : ℕ) : Delivery :=
  .envelope ⟨"local", "conversation", turnId, sequence,
    ((askingTurns.events turnId)[sequence - 1]?).getD .turnStarted⟩

theorem projection_settles_asking :
  settled "a" (projectAll [asking "a" 1, asking "a" 2, asking "a" 3]).2 = 1
  := by
  have hsent : ∀ d ∈ [asking "a" 1, asking "a" 2, asking "a" 3], askingTurns.Sent d := by
    intro d hd
    simp only [List.mem_cons, List.not_mem_nil, or_false] at hd
    obtain rfl | rfl | rfl := hd
    · exact ⟨0, rfl, rfl⟩
    · exact ⟨1, rfl, rfl⟩
    · exact ⟨2, rfl, rfl⟩
  have horder : DeliveredInOrder [asking "a" 1, asking "a" 2, asking "a" 3]
      ⟨"local", "conversation", "a", 3, .turnFinished⟩ :=
    ⟨[asking "a" 1, asking "a" 2], [], rfl, by decide, by decide⟩
  exact ((projection_settles askingTurns _ hsent).1 _ horder rfl).2

/-- A terminal event after a gap leaves its turn busy; and a turn that asks for another's tool id
gets no effect. -/
theorem projection_loses :
  (∀ d ∈ [asking "a" 1, asking "a" 3], askingTurns.Sent d)
    ∧ (∃ e, asking "a" 3 = .envelope e ∧ e.turnId = "a" ∧ isTerminalEvent e.event)
    ∧ (projectAll [asking "a" 1, asking "a" 3]).1.busyByTurn.lookup ("a" : Text) = some true
    ∧ settled "a" (projectAll [asking "a" 1, asking "a" 3]).2 = 0
    ∧ (∀ d ∈ [asking "a" 1, asking "a" 2, asking "b" 1, asking "b" 2], askingTurns.Sent d)
    ∧ DeliveredInOrder [asking "a" 1, asking "a" 2, asking "b" 1, asking "b" 2]
      ⟨"local", "conversation", "b", 2, .approvalRequested (syntheticToolId 0 0) "rm"⟩
    ∧ (projectAll [asking "a" 1, asking "a" 2, asking "b" 1, asking "b" 2]).2.countP
      (fun x => Request.effect .approval x = some (("b" : Text), syntheticToolId 0 0)) = 0
  := by
  refine ⟨?_, ⟨_, rfl, rfl, rfl⟩, by decide, by decide, ?_, ?_, by decide⟩
  · intro d hd
    simp only [List.mem_cons, List.not_mem_nil, or_false] at hd
    obtain rfl | rfl := hd
    · exact ⟨0, rfl, rfl⟩
    · exact ⟨2, rfl, rfl⟩
  · intro d hd
    simp only [List.mem_cons, List.not_mem_nil, or_false] at hd
    obtain rfl | rfl | rfl | rfl := hd
    · exact ⟨0, rfl, rfl⟩
    · exact ⟨1, rfl, rfl⟩
    · exact ⟨0, rfl, rfl⟩
    · exact ⟨1, rfl, rfl⟩
  · exact ⟨[asking "a" 1, asking "a" 2, asking "b" 1], [], rfl, by decide, by decide⟩

end Workbench
