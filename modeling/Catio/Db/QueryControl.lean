import Catio.Lib.Table
import Catio.Lib.Runs
import Catio.Db.Dialect

/-!
# Running queries

The model of `query_control.rs`: the executions that run on a connection, each with a
cancellation token, and the cancellations that came before their execution.  The tokens and
the guards that callers hold are part of the state.
-/

namespace Db

open Text

/-- The nanoseconds of a number of seconds. -/
def fromSecs (seconds : ℕ) : ℕ :=
  seconds * 1000000000

/-- A connection and the id of an execution. -/
abbrev QueryKey :=
  Text × Text

/-- What the caller of `register` holds while its query runs. -/
structure QueryGuard where
  key : QueryKey
  token : ℕ
  deriving DecidableEq

/-- The registry, with the tokens that were created and cancelled and the guards that live. -/
structure RunningQueries where
  active : Table QueryKey ℕ := ∅
  early : Table QueryKey ℕ := ∅
  tokens : ℕ := 0
  cancelled : List ℕ := []
  guards : List QueryGuard := []

/-- The ids that an execution may have. -/
def validateExecutionId (id : Text) : Except DbError Unit :=
  if id = [] ∨ utf8Len id > 128 ∨ ¬ id.all (fun c => c.isAlphanum || c = '-' || c = '_') then
    .error (.queryFailed "Invalid query execution ID")
  else .ok ()

namespace RunningQueries

/-- The early cancellations that are younger than a minute. -/
def retainEarly (now : ℕ) (q : RunningQueries) : RunningQueries :=
  { q with early := q.early.retain fun _ since => now - since < fromSecs 60 }

/-- Register an execution whose id is valid. -/
def registerKey (now : ℕ) (key : QueryKey) (q : RunningQueries) :
    Except DbError QueryGuard × RunningQueries :=
  let q := q.retainEarly now
  if key ∈ q.active then
    (.error (.queryFailed "This query execution ID is already running"), q)
  else if q.active.count (fun k _ => k.1 = key.1) ≥ 32 then
    (.error (.queryFailed "Too many active queries on this connection"), q)
  else
    let guard := ⟨key, q.tokens⟩
    (.ok guard, {
      active := q.active.insert key q.tokens
      early := q.early.erase key
      tokens := q.tokens + 1
      cancelled := if key ∈ q.early then q.tokens :: q.cancelled else q.cancelled
      guards := guard :: q.guards })

def register (now : ℕ) (connection execution : Text) (q : RunningQueries) :
    Except DbError QueryGuard × RunningQueries :=
  match validateExecutionId execution with
  | .error e => (.error e, q)
  | .ok () => q.registerKey now (connection, execution)

/-- Cancel an execution whose id is valid: mark it if it runs, or keep its cancellation. -/
def cancelKey (now : ℕ) (key : QueryKey) (q : RunningQueries) :
    Except DbError Unit × RunningQueries :=
  match q.active.lookup key with
  | some token => (.ok (), { q with cancelled := token :: q.cancelled })
  | none =>
      let q := q.retainEarly now
      if q.early.size ≥ 256 then
        (.error (.queryFailed "Too many pending cancellation requests"), q)
      else (.ok (), { q with early := q.early.insert key now })

def cancel (now : ℕ) (connection execution : Text) (q : RunningQueries) :
    Except DbError Unit × RunningQueries :=
  match validateExecutionId execution with
  | .error e => (.error e, q)
  | .ok () => q.cancelKey now (connection, execution)

/-- Cancel all executions on a connection, and forget the cancellations kept for it. -/
def cancelConnection (connection : Text) (q : RunningQueries) : RunningQueries :=
  { q with
    cancelled := (q.active.entries.filter fun e => e.1.1 = connection).map Sigma.snd
      ++ q.cancelled
    early := q.early.retain fun key _ => key.1 ≠ connection }

def dropGuard (guard : QueryGuard) (q : RunningQueries) : RunningQueries :=
  { q with
    cancelled := guard.token :: q.cancelled
    active := q.active.erase guard.key
    guards := q.guards.erase guard }

def hasActive (connection : Text) (q : RunningQueries) : Bool :=
  q.active.keys.any fun key => key.1 = connection

/-! ### Runs -/

/-- A call with the reading of the clock and its result, or the drop of a guard. -/
inductive Event where
  | register (now : ℕ) (key : QueryKey) (result : Except DbError QueryGuard)
  | cancel (now : ℕ) (key : QueryKey) (running : Bool) (result : Except DbError Unit)
  | cancelConnection (connection : Text)
  | drop (guard : QueryGuard)

inductive Step : RunningQueries → Event → RunningQueries → Prop where
  | register (now : ℕ) (key : QueryKey) (q : RunningQueries) :
      Step q (.register now key (q.register now key.1 key.2).1) (q.register now key.1 key.2).2
  | cancel (now : ℕ) (key : QueryKey) (q : RunningQueries) :
      Step q (.cancel now key (key ∈ q.active) (q.cancel now key.1 key.2).1)
        (q.cancel now key.1 key.2).2
  | cancelConnection (connection : Text) (q : RunningQueries) :
      Step q (.cancelConnection connection) (q.cancelConnection connection)
  | drop {guard : QueryGuard} {q : RunningQueries} (live : guard ∈ q.guards) :
      Step q (.drop guard) (q.dropGuard guard)

end RunningQueries

end Db

/-!
## Cancellation of running queries

After every run of the registry of running queries: the active keys are those of the live guards,
the registry is bounded, a cancellation marks only its own execution (`cancel_marks`), and an
execution is cancelled at its registration exactly if a cancellation is kept for it
(`runningQueries_sound`).
-/

namespace Db

namespace RunningQueries

open Text

/-- The registry and the live guards agree, within the bounds of the registry. -/
structure Consistent (q : RunningQueries) : Prop where
  guarded : ∀ key token, q.active.lookup key = some token ↔ ⟨key, token⟩ ∈ q.guards
  once : (q.guards.map QueryGuard.key).Nodup
  tokens : (q.guards.map QueryGuard.token).Nodup
  created : ∀ guard ∈ q.guards, guard.token < q.tokens
  valid : ∀ guard ∈ q.guards, validateExecutionId guard.key.2 = .ok ()
  marked : ∀ token ∈ q.cancelled, token < q.tokens
  perConnection : ∀ connection, q.active.count (fun key _ => key.1 = connection) ≤ 32
  early : q.early.size ≤ 256

variable {q q' : RunningQueries} {now : ℕ} {key : QueryKey}

theorem Consistent.mem_active (hq : Consistent q) :
  key ∈ q.active ↔ ∃ guard ∈ q.guards, guard.key = key
  := by
  rw [Table.mem_iff_exists_lookup]
  constructor
  · rintro ⟨token, htoken⟩
    exact ⟨⟨key, token⟩, (hq.guarded key token).mp htoken, rfl⟩
  · rintro ⟨⟨key, token⟩, hguard, rfl⟩
    exact ⟨token, (hq.guarded key token).mpr hguard⟩

/-! ### The early cancellations have no part in it -/

theorem Consistent.of_early (hq : Consistent q) {early : Table QueryKey ℕ}
    (hearly : early.size ≤ 256) {cancelled : List ℕ}
    (hmarked : ∀ token ∈ cancelled, token < q.tokens) :
  Consistent { q with early := early, cancelled := cancelled }
  where
  guarded := hq.guarded
  once := hq.once
  tokens := hq.tokens
  created := hq.created
  valid := hq.valid
  marked := hmarked
  perConnection := hq.perConnection
  early := hearly

theorem Consistent.retainEarly (hq : Consistent q) (now : ℕ) :
  Consistent (q.retainEarly now)
  := hq.of_early ((Table.size_retain_le _ _).trans hq.early) hq.marked

/-! ### One step -/

theorem Consistent.registerKey (hq : Consistent q) (now : ℕ)
    (hvalid : validateExecutionId key.2 = .ok ()) :
  Consistent (q.registerKey now key).2
  := by
  have hkept := hq.retainEarly now
  unfold RunningQueries.registerKey
  generalize q.retainEarly now = q at hkept
  dsimp only
  split
  · exact hkept
  · rename_i hidle
    split
    · exact hkept
    · rename_i hfew
      rw [not_le] at hfew
      have hfresh : ∀ guard ∈ q.guards, guard.key ≠ key := by
        intro guard hguard heq
        exact hidle (hkept.mem_active.mpr ⟨guard, hguard, heq⟩)
      exact {
        guarded := by
          intro key' token
          rw [List.mem_cons, ← hkept.guarded]
          by_cases hkey : key' = key
          · subst hkey
            have hnone := AList.lookup_eq_none.mpr hidle
            rw [AList.lookup_insert, hnone]
            simp [eq_comm]
          · rw [AList.lookup_insert_ne hkey]
            simp [hkey]
        once := by
          rw [List.map_cons, List.nodup_cons]
          refine ⟨?_, hkept.once⟩
          rw [List.mem_map]
          rintro ⟨guard, hguard, heq⟩
          exact hfresh guard hguard heq
        tokens := by
          rw [List.map_cons, List.nodup_cons]
          refine ⟨?_, hkept.tokens⟩
          rw [List.mem_map]
          rintro ⟨guard, hguard, heq⟩
          exact Nat.ne_of_lt (hkept.created guard hguard) heq
        created := by
          rw [List.forall_mem_cons]
          refine ⟨Nat.lt_succ_self _, ?_⟩
          intro guard hguard
          exact Nat.lt_succ_of_lt (hkept.created guard hguard)
        valid := List.forall_mem_cons.mpr ⟨hvalid, hkept.valid⟩
        marked := by
          intro token htoken
          split at htoken
          · rcases List.mem_cons.mp htoken with rfl | htoken
            · exact Nat.lt_succ_self _
            · exact Nat.lt_succ_of_lt (hkept.marked token htoken)
          · exact Nat.lt_succ_of_lt (hkept.marked token htoken)
        perConnection := by
          intro connection
          apply (Table.count_insert_le _ _ _ _).trans
          by_cases heq : key.1 = connection
          · subst heq
            rw [if_pos (by simp)]
            exact hfew
          · rw [if_neg (by simpa using heq)]
            exact hkept.perConnection connection
        early := by
          rw [Table.size_eq_count]
          apply (Table.count_erase_le _ _ _).trans
          rw [← Table.size_eq_count]
          exact hkept.early }

theorem Consistent.register (hq : Consistent q) (now : ℕ) (connection execution : Text) :
  Consistent (q.register now connection execution).2
  := by
  unfold RunningQueries.register
  split
  · exact hq
  · rename_i hvalid
    apply hq.registerKey now hvalid

theorem Consistent.cancel (hq : Consistent q) (now : ℕ) (connection execution : Text) :
  Consistent (q.cancel now connection execution).2
  := by
  unfold RunningQueries.cancel
  split
  · exact hq
  · unfold cancelKey
    split
    · rename_i token htoken
      apply hq.of_early hq.early
      rw [List.forall_mem_cons]
      exact ⟨hq.created _ ((hq.guarded _ token).mp htoken), hq.marked⟩
    · have hkept := hq.retainEarly now
      dsimp only
      split
      · exact hkept
      · rename_i hfew
        rw [not_le] at hfew
        apply hkept.of_early _ hkept.marked
        rw [Table.size_eq_count] at hfew ⊢
        apply (Table.count_insert_le _ _ _ _).trans
        rw [if_pos rfl]
        exact hfew

theorem Consistent.cancelConnection (hq : Consistent q) (connection : Text) :
  Consistent (q.cancelConnection connection)
  := by
  apply hq.of_early ((Table.size_retain_le _ _).trans hq.early)
  rw [List.forall_mem_append]
  refine ⟨?_, hq.marked⟩
  intro token htoken
  obtain ⟨⟨key, token⟩, hentry, rfl⟩ := List.mem_map.mp htoken
  have hlookup := Table.lookup_eq_some.mpr (List.mem_of_mem_filter hentry)
  exact hq.created ⟨key, token⟩ ((hq.guarded key token).mp hlookup)

variable {since : ℕ} {guard : QueryGuard} {es : List Event}

theorem Consistent.dropGuard (hq : Consistent q) (hlive : guard ∈ q.guards) :
  Consistent (q.dropGuard guard)
  := by
  have hnodup := List.Nodup.of_map _ hq.once
  have hmem : ∀ other, other ∈ q.guards.erase guard ↔ other ≠ guard ∧ other ∈ q.guards := by
    intro other
    rw [hnodup.mem_erase_iff]
  exact {
    guarded := by
      intro key token
      rw [RunningQueries.dropGuard, hmem, ← hq.guarded]
      by_cases hkey : key = guard.key
      · subst hkey
        have hlookup := (hq.guarded guard.key guard.token).mpr hlive
        rw [AList.lookup_erase, hlookup]
        constructor
        · intro hnone
          cases hnone
        · rintro ⟨hne, heq⟩
          cases heq
          exact absurd rfl hne
      · rw [AList.lookup_erase_ne hkey]
        constructor
        · intro hlookup
          refine ⟨?_, hlookup⟩
          rintro rfl
          exact hkey rfl
        · rintro ⟨-, hlookup⟩
          exact hlookup
    once := hq.once.sublist (List.erase_sublist.map _)
    tokens := hq.tokens.sublist (List.erase_sublist.map _)
    created := by
      intro other hother
      exact hq.created other ((hmem other).mp hother).2
    valid := by
      intro other hother
      exact hq.valid other ((hmem other).mp hother).2
    marked := List.forall_mem_cons.mpr ⟨hq.created guard hlive, hq.marked⟩
    perConnection := by
      intro connection
      exact (Table.count_erase_le _ _ _).trans (hq.perConnection connection)
    early := hq.early }

theorem Consistent.step {e : Event} (hq : Consistent q) (h : Step q e q') :
  Consistent q'
  := by
  cases h with
  | register now key => apply hq.register
  | cancel now key => apply hq.cancel
  | cancelConnection connection => apply hq.cancelConnection
  | drop live => apply hq.dropGuard live

theorem consistent_empty : Consistent {}
  where
  guarded := by simp
  once := List.nodup_nil
  tokens := List.nodup_nil
  created := by simp
  valid := by simp
  marked := by simp
  perConnection := fun _ => Nat.zero_le _
  early := Nat.zero_le _

theorem consistent_of_runs (h : Runs Step {} es q) :
  Consistent q
  := h.invariant consistent_empty fun _ _ _ hq hstep => hq.step hstep

/-! ### What a cancellation marks -/

theorem Consistent.cancel_marks (hq : Consistent q) (hguard : guard ∈ q.guards) (now : ℕ)
    (key : QueryKey) :
  guard.token ∈ (q.cancel now key.1 key.2).2.cancelled
    ↔ guard.token ∈ q.cancelled ∨ guard.key = key
  := by
  have hlookup := (hq.guarded guard.key guard.token).mpr hguard
  unfold RunningQueries.cancel
  split
  · rename_i e hinvalid
    have hne : guard.key ≠ key := by
      rintro rfl
      rw [hq.valid guard hguard] at hinvalid
      cases hinvalid
    simp [hne]
  · unfold cancelKey
    split
    · rename_i token htoken
      have hother := (hq.guarded key token).mp htoken
      have hsame : guard.token = token ↔ guard.key = key := by
        constructor
        · intro heq
          have hguards : guard = ⟨key, token⟩ :=
            List.inj_on_of_nodup_map hq.tokens hguard hother heq
          rw [hguards]
        · rintro rfl
          rw [hlookup] at htoken
          exact Option.some.inj htoken
      rw [List.mem_cons, hsame, or_comm]
    · rename_i hnone
      have hne : guard.key ≠ key := by
        rintro rfl
        rw [hlookup] at hnone
        cases hnone
      dsimp only
      split
      · simp [hne, RunningQueries.retainEarly]
      · simp [hne, RunningQueries.retainEarly]

/-! ### Early cancellations -/

/-- The reading of the clock with which an operation ages the early cancellations, if it
does. -/
def Event.reading : Event → Option ℕ
  | .register now key _ => if validateExecutionId key.2 = .ok () then some now else none
  | .cancel now key running _ =>
      if validateExecutionId key.2 = .ok () ∧ ¬ running then some now else none
  | _ => none

/-- A cancellation that came before its execution was kept. -/
def Event.keeps (key : QueryKey) (since : ℕ) : Event → Prop
  | .cancel now key' running result => now = since ∧ key' = key ∧ running = false ∧ result = .ok ()
  | _ => False

def Event.registers (key : QueryKey) : Event → Prop
  | .register _ key' result => key' = key ∧ ∃ guard, result = .ok guard
  | _ => False

/-- The event cancels the connection of the key. -/
def Event.disconnects (key : QueryKey) : Event → Prop
  | .cancelConnection connection => connection = key.1
  | _ => False

/-- The event leaves an early cancellation of the key as it was kept: it does not age it out,
use it up, drop it or renew it. -/
structure Event.Spares (key : QueryKey) (since : ℕ) (e : Event) : Prop where
  young : ∀ now ∈ e.reading, now - since < fromSecs 60
  unused : ¬ e.registers key
  connected : ¬ e.disconnects key
  unrenewed : ∀ now, ¬ e.keeps key now

/-- A cancellation of the key was kept and is still there after a history. -/
def Pending (key : QueryKey) (since : ℕ) (es : List Event) : Prop :=
  ∃ es₁ e es₂, es = es₁ ++ e :: es₂ ∧ e.keeps key since ∧ ∀ e' ∈ es₂, e'.Spares key since

theorem pending_snoc {e : Event} :
  Pending key since (es ++ [e]) ↔ e.keeps key since ∨ Pending key since es ∧ e.Spares key since
  := by
  constructor
  · rintro ⟨es₁, e₁, es₂, heq, hkeeps, hspares⟩
    rcases List.eq_nil_or_concat es₂ with rfl | ⟨es₂, e₂, rfl⟩
    · obtain ⟨-, hlast⟩ := List.append_inj' heq rfl
      cases hlast
      exact .inl hkeeps
    · rw [List.concat_eq_append, ← List.cons_append, ← List.append_assoc] at heq
      obtain ⟨rfl, hlast⟩ := List.append_inj' heq rfl
      cases hlast
      rw [List.concat_eq_append, List.forall_mem_append] at hspares
      exact .inr ⟨⟨es₁, e₁, es₂, rfl, hkeeps, hspares.1⟩, hspares.2 e (List.mem_singleton_self e)⟩
  · rintro (hkeeps | ⟨⟨es₁, e₁, es₂, rfl, hkeeps, hspares⟩, hlast⟩)
    · exact ⟨es, e, [], rfl, hkeeps, by simp⟩
    · refine ⟨es₁, e₁, es₂ ++ [e], by simp, hkeeps, ?_⟩
      rw [List.forall_mem_append]
      refine ⟨hspares, ?_⟩
      intro e' he'
      rw [List.mem_singleton] at he'
      subst he'
      exact hlast

theorem lookup_retainEarly :
  (q.retainEarly now).early.lookup key = some since
    ↔ q.early.lookup key = some since ∧ now - since < fromSecs 60
  := by
  simp [retainEarly, Option.filter_eq_some_iff]

theorem early_register {key' : QueryKey} :
  (q.register now key'.1 key'.2).2.early.lookup key = some since
    ↔ q.early.lookup key = some since
      ∧ Event.Spares key since (.register now key' (q.register now key'.1 key'.2).1)
  := by
  unfold register
  split
  · rename_i e hinvalid
    have hspares : Event.Spares key since (.register now key' (.error e)) := {
      young := by simp [Event.reading, hinvalid]
      unused := by simp [Event.registers]
      connected := by simp [Event.disconnects]
      unrenewed := by simp [Event.keeps] }
    simp [hspares]
  · rename_i hvalid
    have hspares : ∀ result, Event.Spares key since (.register now key' result)
        ↔ now - since < fromSecs 60 ∧ ¬ (key' = key ∧ ∃ guard, result = .ok guard) := by
      intro result
      constructor
      · intro h
        exact ⟨h.young now (by simp [Event.reading, hvalid]), h.unused⟩
      · rintro ⟨hyoung, hunused⟩
        exact {
          young := by simpa [Event.reading, hvalid] using hyoung
          unused := hunused
          connected := by simp [Event.disconnects]
          unrenewed := by simp [Event.keeps] }
    have hrefused : ∀ error, (q.retainEarly now).early.lookup key = some since
        ↔ q.early.lookup key = some since
          ∧ Event.Spares key since (.register now key' (.error error)) := by
      intro error
      rw [lookup_retainEarly, hspares]
      simp
    unfold registerKey
    dsimp only
    split
    · apply hrefused
    · split
      · apply hrefused
      · rw [hspares]
        by_cases hkey : key = key'
        · subst hkey
          rw [AList.lookup_erase]
          simp
        · rw [AList.lookup_erase_ne hkey, lookup_retainEarly]
          simp [Ne.symm hkey]

theorem early_cancel {key' : QueryKey} :
  (q.cancel now key'.1 key'.2).2.early.lookup key = some since
    ↔ Event.keeps key since (.cancel now key' (key' ∈ q.active) (q.cancel now key'.1 key'.2).1)
      ∨ q.early.lookup key = some since
        ∧ Event.Spares key since
          (.cancel now key' (key' ∈ q.active) (q.cancel now key'.1 key'.2).1)
  := by
  unfold cancel
  split
  · rename_i e hinvalid
    have hspares : Event.Spares key since (.cancel now key' (key' ∈ q.active) (.error e)) := {
      young := by simp [Event.reading, hinvalid]
      unused := by simp [Event.registers]
      connected := by simp [Event.disconnects]
      unrenewed := by simp [Event.keeps] }
    simp [hspares, Event.keeps]
  · rename_i hvalid
    unfold cancelKey
    split
    · rename_i token htoken
      have hactive : key' ∈ q.active := Table.mem_iff_exists_lookup.mpr ⟨token, htoken⟩
      rw [decide_eq_true hactive]
      have hspares : Event.Spares key since (.cancel now key' true (.ok ())) := {
        young := by simp [Event.reading]
        unused := by simp [Event.registers]
        connected := by simp [Event.disconnects]
        unrenewed := by simp [Event.keeps] }
      simp [hspares, Event.keeps]
    · rename_i hnone
      have hidle : key' ∉ q.active := AList.lookup_eq_none.mp hnone
      have hspares : ∀ result, Event.Spares key since (.cancel now key' (key' ∈ q.active) result)
          ↔ now - since < fromSecs 60 ∧ ¬ (key' = key ∧ result = .ok ()) := by
        intro result
        constructor
        · intro h
          refine ⟨h.young now (by simp [Event.reading, hvalid, hidle]), ?_⟩
          have hrenewed := h.unrenewed now
          simpa [Event.keeps, hidle] using hrenewed
        · rintro ⟨hyoung, hunrenewed⟩
          exact {
            young := by simpa [Event.reading, hvalid, hidle] using hyoung
            unused := by simp [Event.registers]
            connected := by simp [Event.disconnects]
            unrenewed := by
              intro now' hkeeps
              exact hunrenewed ⟨hkeeps.2.1, hkeeps.2.2.2⟩ }
      dsimp only
      split
      · rw [lookup_retainEarly, hspares]
        simp [Event.keeps]
      · rw [hspares]
        by_cases hkey : key = key'
        · subst hkey
          rw [AList.lookup_insert]
          simp [Event.keeps, hidle]
        · rw [AList.lookup_insert_ne hkey, lookup_retainEarly]
          simp [Event.keeps, Ne.symm hkey]

theorem early_step {e : Event} (h : Step q e q') :
  q'.early.lookup key = some since
    ↔ e.keeps key since ∨ q.early.lookup key = some since ∧ e.Spares key since
  := by
  cases h with
  | register now key' =>
    rw [early_register]
    simp [Event.keeps]
  | cancel now key' => apply early_cancel
  | cancelConnection connection =>
    have hspares : Event.Spares key since (.cancelConnection connection)
        ↔ connection ≠ key.1 := by
      constructor
      · intro h
        exact h.connected
      · intro hne
        exact {
          young := by simp [Event.reading]
          unused := by simp [Event.registers]
          connected := hne
          unrenewed := by simp [Event.keeps] }
    rw [hspares]
    simp only [cancelConnection, Table.lookup_retain, Option.filter_eq_some_iff, Event.keeps,
      false_or, decide_eq_true_eq]
    rw [ne_comm]
  | @drop guard _ _ =>
    have hspares : Event.Spares key since (.drop guard) := {
      young := by simp [Event.reading]
      unused := by simp [Event.registers]
      connected := by simp [Event.disconnects]
      unrenewed := by simp [Event.keeps] }
    simp [hspares, Event.keeps, dropGuard]

theorem early_of_runs (h : Runs Step {} es q) :
  q.early.lookup key = some since ↔ Pending key since es
  := by
  induction h with
  | start =>
    constructor
    · intro hlookup
      cases hlookup
    · rintro ⟨es₁, e, es₂, heq, -, -⟩
      simp at heq
  | snoc before last ih => rw [early_step last, pending_snoc, ih]

/-- A registration is cancelled exactly if an early cancellation younger than a minute is kept for
it. -/
theorem Consistent.register_cancelled (hq : Consistent q)
    (h : Step q (.register now key (.ok guard)) q') :
  guard.token ∈ q'.cancelled
    ↔ ∃ since, q.early.lookup key = some since ∧ now - since < fromSecs 60
  := by
  have hkept := hq.retainEarly now
  simp only [← lookup_retainEarly]
  generalize hevent : Event.register now key (.ok guard) = e at h
  cases h with
  | register now' key' =>
    injection hevent with hnow hkey hresult
    subst hnow hkey
    unfold RunningQueries.register at hresult ⊢
    split at hresult
    · cases hresult
    · unfold RunningQueries.registerKey at hresult ⊢
      generalize q.retainEarly now = q at hkept hresult
      dsimp only at hresult ⊢
      split at hresult
      · cases hresult
      · split at hresult
        · cases hresult
        · rename_i hidle hfew
          cases hresult
          rw [if_neg hidle, if_neg hfew, ← Table.mem_iff_exists_lookup]
          have hfresh : q.tokens ∉ q.cancelled := by
            intro hmem
            exact Nat.lt_irrefl _ (hkept.marked _ hmem)
          by_cases hmem : key ∈ q.early
          · simp [hmem]
          · simp [hmem, hfresh]
  | cancel => cases hevent
  | cancelConnection => cases hevent
  | drop => cases hevent

/-- After every run: a key is active exactly if it has a live guard; the bounds hold; a cancellation
marks the execution with its key only; a registration is cancelled at once exactly if a cancellation
of its key is pending and younger than a minute, and uses it up. -/
theorem runningQueries_sound {es : List Event} (h : Runs Step {} es q) :
  (∀ key, key ∈ q.active ↔ ∃ guard ∈ q.guards, guard.key = key)
    ∧ (∀ connection, q.active.count (fun key _ => key.1 = connection) ≤ 32)
    ∧ q.early.size ≤ 256
    ∧ (∀ guard ∈ q.guards, ∀ now key,
        guard.token ∈ (q.cancel now key.1 key.2).2.cancelled
          ↔ guard.token ∈ q.cancelled ∨ guard.key = key)
    ∧ ∀ now key guard q', Step q (.register now key (.ok guard)) q' →
        (guard.token ∈ q'.cancelled ↔ ∃ since, Pending key since es ∧ now - since < fromSecs 60)
          ∧ ∀ since, ¬ Pending key since (es ++ [.register now key (.ok guard)])
  := by
  have hq := consistent_of_runs h
  refine ⟨fun key => hq.mem_active, hq.perConnection, hq.early, ?_, ?_⟩
  · intro guard hguard now key
    apply hq.cancel_marks hguard
  · intro now key guard q' hstep
    constructor
    · rw [hq.register_cancelled hstep]
      simp only [early_of_runs h]
    · intro since hpending
      rcases pending_snoc.mp hpending with hkeeps | ⟨-, hspares⟩
      · exact hkeeps
      · exact hspares.unused ⟨rfl, guard, rfl⟩

/-- An execution that is cancelled before it is registered. -/
def firstQuery : QueryKey :=
  ("a".toList, "q-1".toList)

/-- The registry that keeps the cancellation. -/
def cancelledFirst : RunningQueries :=
  { early := (∅ : Table QueryKey ℕ).insert firstQuery 0 }

theorem runs_cancelledFirst :
  Runs Step {} [.cancel 0 firstQuery false (.ok ())] cancelledFirst
  := Runs.start.snoc (Step.cancel 0 firstQuery {})

/-- The registry after the registration that uses the cancellation up. -/
def registeredFirst : RunningQueries :=
  { active := (∅ : Table QueryKey ℕ).insert firstQuery 0
    tokens := 1
    cancelled := [0]
    guards := [⟨firstQuery, 0⟩] }

/-- The cancelled execution is cancelled at its registration, once. -/
theorem runningQueries_sound_firstQuery :
  (0 ∈ registeredFirst.cancelled
      ↔ ∃ since, Pending firstQuery since [.cancel 0 firstQuery false (.ok ())]
        ∧ 1 - since < fromSecs 60)
    ∧ ∀ since, ¬ Pending firstQuery since
        ([.cancel 0 firstQuery false (.ok ())]
          ++ [.register 1 firstQuery (.ok ⟨firstQuery, 0⟩)])
  := (runningQueries_sound runs_cancelledFirst).2.2.2.2 1 firstQuery ⟨firstQuery, 0⟩
    registeredFirst (Step.register 1 firstQuery cancelledFirst)

/-- A cancellation of the connection drops the early one: what is registered within the minute is
not cancelled. -/
theorem cancelConnection_forgets :
  Runs Step {} [.cancel 0 firstQuery false (.ok ()), .cancelConnection firstQuery.1] {}
    ∧ Step {} (.register 1 firstQuery (.ok ⟨firstQuery, 0⟩))
        { registeredFirst with cancelled := [] }
    ∧ 1 - 0 < fromSecs 60
    ∧ 0 ∉ { registeredFirst with cancelled := [] }.cancelled
  := by
  refine ⟨?_, ?_, ?_, ?_⟩
  · exact runs_cancelledFirst.snoc (Step.cancelConnection firstQuery.1 cancelledFirst)
  · exact Step.register 1 firstQuery {}
  · decide
  · decide

end RunningQueries

end Db
