import Catio.Mcp.OwnerMaps.Live
import Catio.Mcp.ServerTargets
import Mathlib.Data.List.Find

/-!
# What a token reaches

Over any run, a request with a token calls only what the user of the token owns, and is answered as
if there were nothing else (`Isolated`).  The ids that a user is offered are accepted
(`OffersAccepted`), if none is disconnected before it has its owner, exactly if none is the name of
another one that is read before it (`owner_scoped`).
-/

namespace Mcp

open Json Text Db Program

/-! ### Ids of a user -/

namespace Registry

variable {α : Type} {r : Registry α} {user : ℤ} {id key : Text}

theorem mem_owned :
  id ∈ r.owned user ↔ r.Owns user id
  := by
  unfold owned Owns
  simp

/-- Two registries are the same to a user. -/
structure Same (r' r : Registry α) (user : ℤ) : Prop where
  owned : r'.owned user = r.owned user
  metas : ∀ id ∈ r.owned user, r'.metas id = r.metas id

theorem Same.refl (r : Registry α) (user : ℤ) :
  r.Same r user
  := ⟨rfl, fun _ _ => rfl⟩

theorem Same.find {r' : Registry α} (h : r'.Same r user) :
  r'.find user = r.find user
  := by
  ext1 key
  unfold Registry.find
  rw [h.owned]
  apply List.find?_congr
  intro id hid
  unfold nameOf
  rw [h.metas id hid]

theorem same_own (r : Registry α) (user : ℤ) :
  (r.own user).Same r user
  where
  owned := by
    unfold Registry.owned own
    rw [List.filter_filter]
    simp
  metas _ hid := if_pos hid

theorem same_without (hother : id ∉ r.owned user) :
  (r.without id).Same r user
  where
  owned := by
    unfold Registry.owned without
    rw [List.filter_filter]
    congr 1
    apply List.filter_congr
    intro entry hentry
    by_cases huser : entry.2 = user
    · have hne : entry.1 ≠ id := by
        rintro rfl
        rw [mem_owned, Owns, ← huser] at hother
        exact hother hentry
      simp [huser, hne]
    · simp [huser]
  metas id' hid' := by
    apply Function.update_of_ne
    rintro rfl
    exact hother hid'

theorem find_owned (h : r.find user key = some id) :
  r.Owns user id
  := mem_owned.mp (List.mem_of_find?_eq_some h)

/-- Each element of a list is the first that is the element, or is taken for it, exactly if none
before it is taken for it. -/
theorem find?_self_iff {l : List Text} (hnodup : l.Nodup) (taken : Text → Text → Bool) :
  (∀ id ∈ l, l.find? (fun id' => id' = id ∨ taken id' id) = some id)
    ↔ l.Pairwise fun id id' => taken id id' = false
  := by
  induction l with
  | nil => simp
  | cons id l ih =>
    rw [List.nodup_cons] at hnodup
    rw [List.forall_mem_cons, List.pairwise_cons, ← ih hnodup.2]
    have hfirst : (id :: l).find? (fun id' => id' = id ∨ taken id' id) = some id := by
      rw [List.find?_cons_of_pos]
      simp
    rw [and_iff_right hfirst]
    have hne : ∀ id' ∈ l, id ≠ id' := by
      rintro id' hid' rfl
      exact hnodup.1 hid'
    have hskip : ∀ id' ∈ l, taken id id' = false →
        (id :: l).find? (fun id'' => id'' = id' ∨ taken id'' id')
          = l.find? (fun id'' => id'' = id' ∨ taken id'' id') := by
      intro id' hid' htaken
      rw [List.find?_cons_of_neg]
      simp [hne id' hid', htaken]
    constructor
    · intro h
      have hfree : ∀ id' ∈ l, taken id id' = false := by
        intro id' hid'
        cases htaken : taken id id' with
        | false => rfl
        | true =>
          have hfind := h id' hid'
          rw [List.find?_cons_of_pos (by simp [htaken])] at hfind
          exact absurd (Option.some.inj hfind) (hne id' hid')
      refine ⟨hfree, ?_⟩
      intro id' hid'
      rw [← hskip id' hid' (hfree id' hid')]
      exact h id' hid'
    · rintro ⟨hfree, h⟩ id' hid'
      rw [hskip id' hid' (hfree id' hid')]
      exact h id' hid'

theorem Fresh.find_self_iff (h : r.Fresh) (user : ℤ) :
  (∀ id ∈ r.owned user, r.find user id = some id) ↔ r.Unshadowed user
  := by
  have hnodup : (r.owned user).Nodup := h.nodup.sublist (List.filter_sublist.map Prod.fst)
  have hiff := find?_self_iff hnodup fun id id' => decide (r.nameOf id = some id')
  simp only [decide_eq_true_eq, decide_eq_false_iff_not] at hiff
  exact hiff

end Registry

/-! ### Isolation -/

section

variable {s : AppState} {user : ℤ}

theorem serverTargets_congr {s' : AppState} (hdb : s'.db.Same s.db user)
    (hssh : s'.ssh.Same s.ssh user) :
  serverTargets s' user = serverTargets s user
  := by
  unfold serverTargets
  dsimp only
  rw [hdb.find, hssh.find, hdb.owned, hssh.owned]
  congr 1
  · apply List.map_congr_left
    intro id hid
    rw [hdb.metas id hid]
  · apply List.map_congr_left
    intro id hid
    rw [hssh.metas id hid]

theorem serverTargets_own (s : AppState) (user : ℤ) :
  serverTargets (s.own user) user = serverTargets s user
  := serverTargets_congr (s.db.same_own user) (s.ssh.same_own user)

theorem serverTargets_without {target : Target} (hother : ¬ s.Owns user target) :
  serverTargets (s.without target) user = serverTargets s user
  := by
  cases target with
  | db id =>
    refine serverTargets_congr ?_ (Registry.Same.refl s.ssh user)
    apply Registry.same_without
    intro hid
    exact hother (Registry.mem_owned.mp hid)
  | ssh id =>
    refine serverTargets_congr (Registry.Same.refl s.db user) ?_
    apply Registry.same_without
    intro hid
    exact hother (Registry.mem_owned.mp hid)

theorem soleHost_ok {ids : List Text} {id : Text} (h : soleHost ids = .ok id) :
  ids = [id]
  := by
  unfold soleHost at h
  split at h
  · cases h
    rfl
  · cases h
  · cases h

theorem orError_ok {β : Type} {x : Option β} {b : β} {e : Text} (h : orError x e = .ok b) :
  x = some b
  := by
  cases x with
  | none => cases h
  | some b' =>
    cases h
    rfl

theorem resolveHost_owned {key : Option Text} {id : Text}
    (h : (serverTargets s user).resolveHost key = .ok id) :
  s.ssh.Owns user id
  := by
  have hsole : soleHost (s.ssh.owned user) = .ok id → s.ssh.Owns user id := by
    intro h
    rw [← Registry.mem_owned, soleHost_ok h]
    exact List.mem_singleton_self id
  unfold serverTargets at h
  dsimp only at h
  split at h
  · split at h
    · exact Registry.find_owned (orError_ok h)
    · exact hsole h
  · exact hsole h

theorem reaches_owns {target : Target} (h : (serverTargets s user).Reaches target) :
  s.Owns user target
  := by
  cases target with
  | db id =>
    obtain ⟨key, hkey⟩ := h
    exact Registry.find_owned hkey
  | ssh id =>
    obtain ⟨key, hkey⟩ := h
    exact resolveHost_owned hkey

theorem mcpStreamableHandler_congr (build : Build) {auth : AuthDb} {s' : AppState}
    {request : McpRequest} {name : Text}
    (htoken : auth.mcpTokenResolve request.token = some (user, true, name))
    (htargets : serverTargets s' user = serverTargets s user) :
  s'.mcpStreamableHandler build auth request = s.mcpStreamableHandler build auth request
  := by
  unfold AppState.mcpStreamableHandler AppState.dispatch
  rw [htoken]
  dsimp only
  rw [htargets]

theorem mcpStreamableHandler_onlyCalls (build : Build) (auth : AuthDb) (s : AppState)
    (request : McpRequest) :
  (s.mcpStreamableHandler build auth request).OnlyCalls fun c => ∃ user name,
    auth.mcpTokenResolve request.token = some (user, true, name) ∧ s.Owns user c.target
  := by
  unfold AppState.mcpStreamableHandler
  split
  · rename_i user name htoken
    split
    · trivial
    · split
      · trivial
      · split
        · trivial
        · split
          · trivial
          · rename_i req hbody
            apply onlyCalls_bind
            · unfold AppState.dispatch
              split
              · split
                · trivial
                · apply onlyCalls_bind
                  · apply onlyCalls_attempt
                    apply (callTool_onlyCalls _ _ _).mono
                    intro c hc
                    exact ⟨user, name, htoken, reaches_owns hc⟩
                  · intro result
                    trivial
              · trivial
            · intro resp
              split
              · trivial
              · trivial
  · trivial

end

/-! ### Ids that are offered -/

/-- The ids that a user is offered are those for which the tools have a connection or session of
this id. -/
structure OffersAccepted (s : AppState) (rest : Outside TargetCall.Answer) (user : ℤ) : Prop where
  db : ∀ id, id ∈ (serverTargets s user).listConnections.map ConnEntry.connId ↔ ∃ driver,
    ((driverFor (serverTargets s user) id).run (s.outside rest) () []).1 = .ok (id, driver)
  ssh : ∀ id, id ∈ (serverTargets s user).listHosts.map HostEntry.sessionId ↔
    ((sessionFor (serverTargets s user) (some id)).run (s.outside rest) () []).1 = .ok id

section

variable {s : AppState} {rest : Outside TargetCall.Answer} {user : ℤ} {id : Text}

theorem listConnections_ids (s : AppState) (user : ℤ) :
  (serverTargets s user).listConnections.map ConnEntry.connId = s.db.owned user
  := by
  unfold serverTargets
  dsimp only
  rw [List.map_map]
  exact List.map_id _

theorem listHosts_ids (s : AppState) (user : ℤ) :
  (serverTargets s user).listHosts.map HostEntry.sessionId = s.ssh.owned user
  := by
  unfold serverTargets
  dsimp only
  rw [List.map_map]
  exact List.map_id _

theorem driverFor_run {driver : Driver} :
  ((driverFor (serverTargets s user) id).run (s.outside rest) () []).1 = .ok (id, driver)
    ↔ s.db.find user id = some id ∧ s.db.items id = some driver
  := by
  unfold driverFor
  change ((liftM (orError (s.db.find user id) _) >>= _ : ToolProgram _).run _ () []).1 = _ ↔ _
  cases hfind : s.db.find user id with
  | none =>
    constructor
    · intro h
      cases h
    · rintro ⟨h, -⟩
      cases h
  | some id' =>
    change ((liftM (orError (s.db.items id') _) >>= _ : ToolProgram _).run _ () _).1 = _ ↔ _
    cases hitem : s.db.items id' with
    | none =>
      constructor
      · intro h
        cases h
      · rintro ⟨heq, h⟩
        cases heq
        rw [hitem] at h
        cases h
    | some driver' =>
      constructor
      · intro h
        cases h
        exact ⟨rfl, hitem⟩
      · rintro ⟨heq, h⟩
        cases heq
        rw [hitem] at h
        cases h
        rfl

theorem sessionFor_run :
  ((sessionFor (serverTargets s user) (some id)).run (s.outside rest) () []).1 = .ok id
    ↔ (serverTargets s user).resolveHost (some id) = .ok id ∧ (s.ssh.items id).isSome
  := by
  unfold sessionFor
  cases hhost : (serverTargets s user).resolveHost (some id) with
  | error e =>
    constructor
    · intro h
      cases h
    · rintro ⟨h, -⟩
      cases h
  | ok id' =>
    change ((if (s.ssh.items id').isSome then _ else _ : ToolProgram _).run _ () _).1 = _ ↔ _
    cases hitem : (s.ssh.items id').isSome with
    | false =>
      constructor
      · intro h
        cases h
      · rintro ⟨heq, h⟩
        cases heq
        rw [hitem] at h
        cases h
    | true =>
      constructor
      · intro h
        cases h
        exact ⟨rfl, hitem⟩
      · rintro ⟨heq, -⟩
        cases heq
        rfl

theorem resolveHost_session {n : ℕ} {id' : Text} (hid : id = idOf "sess" n) :
  (serverTargets s user).resolveHost (some id) = .ok id' ↔ s.ssh.find user id = some id'
  := by
  have hne : id ≠ [] ∧ id ≠ ("default" : Text) := by
    rw [hid]
    constructor
    · intro h
      cases h
    · intro h
      exact absurd (List.cons.inj h).1 (by decide)
  unfold serverTargets
  dsimp only
  rw [if_pos hne]
  constructor
  · exact orError_ok
  · intro h
    rw [h]
    rfl

theorem offersAccepted_iff (hdb : s.db.Live) (hssh : s.ssh.Live) (hkind : s.ssh.kind = "sess") :
  OffersAccepted s rest user ↔ s.db.Unshadowed user ∧ s.ssh.Unshadowed user
  := by
  have hitem : ∀ id ∈ s.db.owned user, (s.db.items id).isSome := fun id hid =>
    hdb.item id (Registry.mem_keys.mpr ⟨user, Registry.mem_owned.mp hid⟩)
  have hsession : ∀ id ∈ s.ssh.owned user, (s.ssh.items id).isSome ∧ ∃ n, id = idOf "sess" n := by
    intro id hid
    have hkey := Registry.mem_keys.mpr ⟨user, Registry.mem_owned.mp hid⟩
    obtain ⟨n, -, hn⟩ := hssh.fresh.handed id hkey
    rw [hkind] at hn
    exact ⟨hssh.item id hkey, n, hn⟩
  rw [← hdb.fresh.find_self_iff, ← hssh.fresh.find_self_iff]
  constructor
  · intro h
    constructor
    · intro id hid
      rw [← listConnections_ids] at hid
      obtain ⟨driver, hrun⟩ := (h.db id).mp hid
      exact (driverFor_run.mp hrun).1
    · intro id hid
      obtain ⟨-, n, hn⟩ := hsession id hid
      rw [← listHosts_ids] at hid
      exact (resolveHost_session hn).mp (sessionFor_run.mp ((h.ssh id).mp hid)).1
  · rintro ⟨hfindDb, hfindSsh⟩
    constructor
    · intro id
      rw [listConnections_ids]
      constructor
      · intro hid
        obtain ⟨driver, hdriver⟩ := Option.isSome_iff_exists.mp (hitem id hid)
        exact ⟨driver, driverFor_run.mpr ⟨hfindDb id hid, hdriver⟩⟩
      · rintro ⟨driver, hrun⟩
        exact Registry.mem_owned.mpr (Registry.find_owned (driverFor_run.mp hrun).1)
    · intro id
      rw [listHosts_ids]
      constructor
      · intro hid
        obtain ⟨hsome, n, hn⟩ := hsession id hid
        exact sessionFor_run.mpr ⟨(resolveHost_session hn).mpr (hfindSsh id hid), hsome⟩
      · intro hrun
        exact Registry.mem_owned.mpr (resolveHost_owned (sessionFor_run.mp hrun).1)

end

/-! ### Runs -/

/-- An administrator disconnects nothing that is yet to have its owner. -/
def Timely : AppEvent → AppState → Prop
  | .db e, s => Registry.Timely e s.db
  | .ssh e, s => Registry.Timely e s.ssh

/-- A request with a token calls only what its user owns, which nobody else will ever own, and does
what it would if there were nothing else. -/
structure Isolated (build : Build) (auth : AuthDb) (s : AppState) : Prop where
  uses : ∀ request, (s.mcpStreamableHandler build auth request).OnlyCalls fun c => ∃ user name,
    auth.mcpTokenResolve request.token = some (user, true, name) ∧ s.Owns user c.target
  stays : ∀ user target, s.Owns user target → ∀ (events : List AppEvent) (other : ℤ),
    (events.foldl AppState.after s).Owns other target → other = user
  names : ∀ request user name, auth.mcpTokenResolve request.token = some (user, true, name) →
    s.mcpStreamableHandler build auth request
      = (s.own user).mcpStreamableHandler build auth request
  foreign : ∀ request user name, auth.mcpTokenResolve request.token = some (user, true, name) →
    ∀ target other, s.Owns other target → other ≠ user →
      s.mcpStreamableHandler build auth request
        = (s.without target).mcpStreamableHandler build auth request

/-- The state after a run. -/
def reached (events : List AppEvent) : AppState :=
  events.foldl AppState.after .new

theorem reached_fresh (events : List AppEvent) :
  (reached events).db.Fresh ∧ (reached events).ssh.Fresh
  := by
  induction events using List.reverseRecOn with
  | nil => exact ⟨Registry.Fresh.new _, Registry.Fresh.new _⟩
  | append_singleton events e ih =>
    unfold reached at ih ⊢
    rw [List.foldl_concat]
    cases e with
    | db e => exact ⟨ih.1.after e, ih.2⟩
    | ssh e => exact ⟨ih.1, ih.2.after e⟩

/-- Nobody but this user owns the connection or session, and nobody else will. -/
def AppState.Bound (s : AppState) (user : ℤ) : Target → Prop
  | .db connId => s.db.Bound user connId
  | .ssh sessionId => s.ssh.Bound user sessionId

variable {target : Target} {s : AppState} {user : ℤ}

theorem bound_after (h : s.Bound user target) (e : AppEvent) :
  (s.after e).Bound user target
  := by
  cases target with
  | db id =>
    cases e with
    | db e => exact Registry.Bound.after h e
    | ssh e => exact h
  | ssh id =>
    cases e with
    | db e => exact h
    | ssh e => exact Registry.Bound.after h e

theorem bound_run (h : s.Bound user target) (events : List AppEvent) :
  (events.foldl AppState.after s).Bound user target
  := by
  induction events using List.reverseRecOn with
  | nil => exact h
  | append_singleton events e ih =>
    rw [List.foldl_concat]
    exact bound_after ih e

theorem AppState.Bound.only {user other : ℤ} (h : s.Bound user target)
    (hother : s.Owns other target) :
  other = user
  := by
  cases target with
  | db id => exact Registry.Bound.only h other hother
  | ssh id => exact Registry.Bound.only h other hother

theorem reached_bound (events : List AppEvent) (h : (reached events).Owns user target) :
  (reached events).Bound user target
  := by
  obtain ⟨hdb, hssh⟩ := reached_fresh events
  cases target with
  | db id => exact hdb.bound h
  | ssh id => exact hssh.bound h

theorem reached_isolated (build : Build) (auth : AuthDb) (events : List AppEvent) :
  Isolated build auth (reached events)
  where
  uses := mcpStreamableHandler_onlyCalls build auth (reached events)
  stays user target howns later other hother :=
    (bound_run (reached_bound events howns) later).only hother
  names request user name htoken :=
    (mcpStreamableHandler_congr build htoken (serverTargets_own _ user)).symm
  foreign request user name htoken target other howns hne := by
    apply (mcpStreamableHandler_congr build htoken (serverTargets_without _)).symm
    intro hown
    exact hne ((reached_bound events hown).only howns)

theorem reached_live {events : List AppEvent}
    (htimely : Steps.Throughout AppState.after Timely events .new) :
  (reached events).db.Live ∧ (reached events).ssh.Live ∧ (reached events).ssh.kind = "sess"
  := by
  refine Steps.invariant (Q := fun s => s.db.Live ∧ s.ssh.Live ∧ s.ssh.kind = ("sess" : Text))
    ⟨Registry.Live.new _, Registry.Live.new _, rfl⟩ ?_ htimely
  rintro s e ⟨hdb, hssh, hkind⟩ htimely
  cases e with
  | db e => exact ⟨hdb.after htimely, hssh, hkind⟩
  | ssh e => exact ⟨hdb, hssh.after htimely, (s.ssh.after_kind e).trans hkind⟩

/-- Over every run, users are isolated; and if nothing is disconnected before it has its owner, the
ids offered to a user are those that the tools accept exactly if none is the name of another one
that is read before it. -/
theorem owner_scoped (build : Build) (auth : AuthDb) (events : List AppEvent) :
  Isolated build auth (reached events)
    ∧ (Steps.Throughout AppState.after Timely events .new →
        ∀ (rest : Outside TargetCall.Answer) (user : ℤ),
          OffersAccepted (reached events) rest user
            ↔ (reached events).db.Unshadowed user ∧ (reached events).ssh.Unshadowed user)
  := by
  refine ⟨reached_isolated build auth events, ?_⟩
  intro htimely rest user
  obtain ⟨hdb, hssh, hkind⟩ := reached_live htimely
  exact offersAccepted_iff hdb hssh hkind

/-! ### Connections of a user -/

def postgresDriver : Driver :=
  ⟨.postgres, ⟨true, true, true, true, true, true, true, true, true⟩⟩

/-- A user who is not an administrator, and one who is. -/
def ada : User := ⟨1, false⟩

def root : User := ⟨2, true⟩

def connects (user : User) (k : ℕ) (name : Text) : List AppEvent :=
  [.db (.connect user name "postgres" postgresDriver), .db (.advances k), .db (.advances k),
    .db (.advances k)]

def disconnects (user : User) (k : ℕ) (id : Text) : List AppEvent :=
  [.db (.disconnect user id), .db (.advances k), .db (.advances k), .db (.advances k)]

def failing : Outside TargetCall.Answer
  | _, .connection _ => none
  | _, .listSchemas _ => .error .cancelled
  | _, .listTables _ _ => .error .cancelled
  | _, .objectSource _ _ _ _ => .error .cancelled
  | _, .tableStructure _ _ _ => .error .cancelled
  | _, .query _ _ _ => .error .cancelled
  | _, .execBatch _ _ => .error .cancelled
  | _, .session _ => false
  | _, .runOnSession _ _ _ => .error .cancelled
  | _, .uploadBlocking _ _ _ => .error .cancelled
  | _, .downloadBlocking _ _ _ => .error .cancelled

/-- A user connects twice, and an administrator disconnects the second connection. -/
def orderly : List AppEvent :=
  connects ada 0 "main" ++ connects ada 1 "copy" ++ disconnects root 2 "conn-2"

/-- A user gives to the second connection the id of the first as its name, and the map of owners is
read in another order. -/
def shadowing : List AppEvent :=
  connects ada 0 "main" ++ connects ada 1 "conn-1"
    ++ [.db (.rehashes [("conn-2", 1), ("conn-1", 1)])]

/-- An administrator disconnects the connection of a user that is in the manager, but has not its
owner yet. -/
def hasty : List AppEvent :=
  [.db (.connect ada "main" "postgres" postgresDriver), .db (.advances 0)]
    ++ disconnects root 1 "conn-1" ++ [.db (.advances 0), .db (.advances 0)]

/-- What the user is offered is accepted. -/
theorem owner_scoped_orderly :
  OffersAccepted (reached orderly) failing 1
  := by
  have htimely : Steps.Throughout AppState.after Timely orderly .new := by
    have hpast : ∀ n, 2 < n → ("conn-2" : Text) ≠ idOf "conn" n := by
      intro n hn heq
      exact absurd (idOf_injective "conn" (heq.symm.trans (rfl : _ = idOf "conn" 2))) hn.ne'
    simp only [orderly, connects, disconnects, List.cons_append, List.nil_append,
      Steps.throughout_cons, Timely, Registry.Timely, true_and, Steps.throughout_nil, and_true]
    intro
    exact ⟨hpast, by decide +kernel⟩
  apply ((owner_scoped ⟨[], .null⟩ ⟨[], []⟩ orderly).2 htimely failing 1).mpr
  exact ⟨by decide +kernel, by decide +kernel⟩

/-- The id shadowed by a name is the other connection's; one that is disconnected too early is
offered, but not accepted. -/
theorem offers_not_accepted :
  ¬ OffersAccepted (reached shadowing) failing 1 ∧ ¬ OffersAccepted (reached hasty) failing 1
  := by
  constructor
  · intro h
    obtain ⟨driver, hrun⟩ := (h.db "conn-1").mp (by decide +kernel)
    have hother := (driverFor_run.mp hrun).1
    revert hother
    decide +kernel
  · intro h
    obtain ⟨driver, hrun⟩ := (h.db "conn-1").mp (by decide +kernel)
    have hitem := (driverFor_run.mp hrun).2
    have hnone : (reached hasty).db.items "conn-1" = none := by
      rfl
    rw [hnone] at hitem
    cases hitem

end Mcp
