import Catio.Mcp.OwnerMaps
import Mathlib.Data.List.Nodup

/-!
# Ids and their owners over runs

An id is given out once, its owner is recorded once (`Fresh`), and nobody else ever owns it
(`Bound.run`).  As long as no administrator disconnects an id before it has its owner, what the map
of owners has is in the manager (`Live.run`).
-/

namespace Mcp

variable {α : Type}

/-- The id whose owner an operation in flight is yet to record. -/
def Task.owes : Task α → Option Text
  | .insertItem id _ _ _ _ => some id
  | .insertOwner id _ _ _ => some id
  | _ => none

namespace Registry

variable {r : Registry α} {id : Text} {user : ℤ} {e : RegistryEvent α} {k : ℕ}

/-- The ids that have an owner. -/
def keys (r : Registry α) : List Text :=
  r.owners.map Prod.fst

def HandedOut (r : Registry α) (id : Text) : Prop :=
  ∃ n ≤ r.handed, id = idOf r.kind n

/-- The id is not one that is yet to have its owner. -/
def Settled (r : Registry α) (id : Text) : Prop :=
  (∀ n, r.handed < n → id ≠ idOf r.kind n) ∧ ∀ task ∈ r.tasks, task.owes ≠ some id

theorem mem_keys :
  id ∈ r.keys ↔ ∃ user, r.Owns user id
  := by
  unfold keys Owns
  rw [List.mem_map]
  constructor
  · rintro ⟨⟨id, user⟩, hmem, rfl⟩
    exact ⟨user, hmem⟩
  · rintro ⟨user, hmem⟩
    exact ⟨(id, user), hmem, rfl⟩

theorem HandedOut.past (h : r.HandedOut id) :
  ∀ n, r.handed < n → id ≠ idOf r.kind n
  := by
  obtain ⟨m, hm, rfl⟩ := h
  intro n hn heq
  rw [idOf_injective _ heq] at hm
  exact absurd hm (Nat.not_le.mpr hn)

/-! ### Steps of operations in flight -/

theorem perform_owes {task : Task α} (h : (r.perform task).2.owes = some id) :
  task.owes = some id
  := by
  cases task <;> first | exact h | cases h

theorem perform_handed (task : Task α) :
  (r.perform task).1.handed = r.handed ∧ (r.perform task).1.kind = r.kind
  := by
  cases task <;> exact ⟨rfl, rfl⟩

theorem advances_eq {task : Task α} (hk : r.tasks[k]? = some task) :
  r.advances k = (r.perform task).1.withTasks (r.tasks.set k (r.perform task).2)
  := by
  unfold advances
  rw [hk]

theorem advances_of_none (hk : r.tasks[k]? = none) :
  r.advances k = r
  := by
  unfold advances
  rw [hk]

theorem after_kind (r : Registry α) (e : RegistryEvent α) :
  (r.after e).kind = r.kind
  := by
  cases e with
  | connect actor name detail item => rfl
  | disconnect actor id =>
    change (r.disconnect actor id).kind = r.kind
    unfold disconnect
    split
    · rfl
    · rfl
  | advances k =>
    change (r.advances k).kind = r.kind
    cases hk : r.tasks[k]? with
    | none => rw [advances_of_none hk]
    | some task =>
      rw [advances_eq hk]
      exact (perform_handed task).2
  | rehashes order =>
    change (if order.Perm r.owners then { r with owners := order } else r).kind = r.kind
    split
    · rfl
    · rfl

theorem mem_set {task : Task α} (hk : r.tasks[k]? = some task) {task' : Task α}
    (h : task' ∈ r.tasks.set k (r.perform task).2) :
  task' ∈ r.tasks ∨ task ∈ r.tasks ∧ task' = (r.perform task).2
  := by
  obtain hmem | heq := List.mem_or_eq_of_mem_set h
  · exact .inl hmem
  · exact .inr ⟨List.mem_of_getElem? hk, heq⟩

theorem Settled.after (h : r.Settled id) (e : RegistryEvent α) :
  (r.after e).Settled id
  := by
  obtain ⟨hpast, howes⟩ := h
  cases e with
  | connect actor name detail item =>
    constructor
    · intro n hn
      exact hpast n (Nat.lt_of_succ_lt hn)
    · intro task htask
      obtain hmem | hnew := List.mem_append.mp htask
      · exact howes task hmem
      · rw [List.mem_singleton.mp hnew]
        intro heq
        exact hpast _ (Nat.lt_succ_self _) (Option.some.inj heq).symm
  | disconnect actor id' =>
    change (r.disconnect actor id').Settled id
    unfold disconnect
    split
    · refine ⟨hpast, ?_⟩
      intro task htask
      obtain hmem | hnew := List.mem_append.mp htask
      · exact howes task hmem
      · rw [List.mem_singleton.mp hnew]
        nofun
    · exact ⟨hpast, howes⟩
  | advances k =>
    change (r.advances k).Settled id
    cases hk : r.tasks[k]? with
    | none =>
      rw [advances_of_none hk]
      exact ⟨hpast, howes⟩
    | some task =>
      rw [advances_eq hk]
      constructor
      · change ∀ n, (r.perform task).1.handed < n → id ≠ idOf (r.perform task).1.kind n
        rw [(perform_handed task).1, (perform_handed task).2]
        exact hpast
      · intro task' htask'
        obtain hmem | ⟨hmem, rfl⟩ := mem_set hk htask'
        · exact howes task' hmem
        · intro heq
          exact howes task hmem (perform_owes heq)
  | rehashes order =>
    change (if order.Perm r.owners then { r with owners := order } else r).Settled id
    split
    · exact ⟨hpast, howes⟩
    · exact ⟨hpast, howes⟩

/-! ### Fresh ids -/

/-- Each id that has an owner was given out, and is settled; the others that were given out are
each of one operation. -/
structure Fresh (r : Registry α) : Prop where
  nodup : r.keys.Nodup
  handed : ∀ id ∈ r.keys, r.HandedOut id
  settled : ∀ id ∈ r.keys, r.Settled id
  owed : ∀ task ∈ r.tasks, ∀ id, task.owes = some id → r.HandedOut id
  once : ∀ (j k : ℕ) (task task' : Task α) (id : Text), r.tasks[j]? = some task →
    r.tasks[k]? = some task' → task.owes = some id → task'.owes = some id → j = k

theorem Fresh.new (kind : Text) :
  (new kind : Registry α).Fresh
  where
  nodup := List.nodup_nil
  handed id h := by cases h
  settled id h := by cases h
  owed task h := by cases h
  once j k task task' id h := by cases h

theorem Fresh.connect (h : r.Fresh) (actor : User) (name detail : Text) (item : α) :
  (r.connect actor name detail item).Fresh
  := by
  have hsettled : ∀ id ∈ r.keys, (r.connect actor name detail item).Settled id :=
    fun id hid => (h.settled id hid).after (.connect actor name detail item)
  have hhanded : ∀ id, r.HandedOut id → (r.connect actor name detail item).HandedOut id := by
    rintro id ⟨n, hn, rfl⟩
    exact ⟨n, Nat.le_succ_of_le hn, rfl⟩
  refine ⟨h.nodup, fun id hid => hhanded id (h.handed id hid), hsettled, ?_, ?_⟩
  · intro task htask id howes
    obtain hmem | hnew := List.mem_append.mp htask
    · exact hhanded id (h.owed task hmem id howes)
    · rw [List.mem_singleton.mp hnew] at howes
      cases howes
      exact ⟨r.handed + 1, le_rfl, rfl⟩
  · -- the new id is none of those that others are yet to record
    have hnew : ∀ (j : ℕ) (task : Task α) (id : Text),
        (r.connect actor name detail item).tasks[j]? = some task → task.owes = some id →
          (∃ task ∈ r.tasks, task.owes = some id ∧ r.tasks[j]? = some task)
            ∨ (j = r.tasks.length ∧ id = idOf r.kind (r.handed + 1)) := by
      intro j task id hj howes
      obtain hlt | hge := Nat.lt_or_ge j r.tasks.length
      · rw [Registry.connect, List.getElem?_append_left hlt] at hj
        exact .inl ⟨task, List.mem_of_getElem? hj, howes, hj⟩
      · rw [Registry.connect, List.getElem?_append_right hge, List.getElem?_singleton] at hj
        split at hj
        · rename_i hzero
          cases hj
          cases howes
          exact .inr ⟨Nat.le_antisymm (Nat.sub_eq_zero_iff_le.mp hzero) hge, rfl⟩
        · cases hj
    intro j k task task' id hj hk howes howes'
    obtain ⟨old, hold, hoid, hoj⟩ | ⟨rfl, hid⟩ := hnew j task id hj howes
    · obtain ⟨old', hold', hoid', hok⟩ | ⟨-, hid'⟩ := hnew k task' id hk howes'
      · exact h.once j k old old' id hoj hok hoid hoid'
      · exact absurd hid' ((h.owed old hold id hoid).past _ (Nat.lt_succ_self _))
    · obtain ⟨old', hold', hoid', -⟩ | ⟨hk', -⟩ := hnew k task' id hk howes'
      · exact absurd hid ((h.owed old' hold' id hoid').past _ (Nat.lt_succ_self _))
      · exact hk'.symm

theorem Fresh.disconnect (h : r.Fresh) (actor : User) (id : Text) :
  (r.disconnect actor id).Fresh
  := by
  have hsettled : ∀ id' ∈ r.keys, (r.disconnect actor id).Settled id' :=
    fun id' hid => (h.settled id' hid).after (.disconnect actor id)
  unfold Registry.disconnect at hsettled ⊢
  split at hsettled
  · rename_i howns
    rw [if_pos howns]
    refine ⟨h.nodup, h.handed, hsettled, ?_, ?_⟩
    · intro task htask id' howes
      obtain hmem | hnew := List.mem_append.mp htask
      · exact h.owed task hmem id' howes
      · rw [List.mem_singleton.mp hnew] at howes
        cases howes
    · have hold : ∀ (j : ℕ) (task : Task α) (id' : Text),
          (r.tasks ++ [.removeOwner id])[j]? = some task → task.owes = some id' →
            r.tasks[j]? = some task := by
        intro j task id' hj howes
        obtain hlt | hge := Nat.lt_or_ge j r.tasks.length
        · rwa [List.getElem?_append_left hlt] at hj
        · rw [List.getElem?_append_right hge, List.getElem?_singleton] at hj
          split at hj
          · cases hj
            cases howes
          · cases hj
      intro j k task task' id' hj hk howes howes'
      exact h.once j k task task' id' (hold j task id' hj howes) (hold k task' id' hk howes')
        howes howes'
  · rename_i howns
    rw [if_neg howns]
    exact h

theorem owes_of_set {task : Task α} (hk : r.tasks[k]? = some task) {j : ℕ} {task' : Task α}
    (hj : (r.tasks.set k (r.perform task).2)[j]? = some task') (howes : task'.owes = some id) :
  ∃ old, r.tasks[j]? = some old ∧ old.owes = some id
  := by
  rw [List.getElem?_set] at hj
  split at hj
  · rename_i heq
    subst heq
    split at hj
    · cases hj
      exact ⟨task, hk, perform_owes howes⟩
    · cases hj
  · exact ⟨task', hj, howes⟩

theorem Fresh.step (h : r.Fresh) {task : Task α} (hk : r.tasks[k]? = some task)
    (hnodup : (r.perform task).1.keys.Nodup)
    (hkeys : ∀ id ∈ (r.perform task).1.keys, r.HandedOut id ∧ (r.advances k).Settled id) :
  (r.advances k).Fresh
  := by
  rw [advances_eq hk] at hkeys ⊢
  have hhanded : ∀ id, r.HandedOut id →
      ((r.perform task).1.withTasks (r.tasks.set k (r.perform task).2)).HandedOut id := by
    rintro id ⟨n, hn, rfl⟩
    obtain ⟨hhanded, hkind⟩ := @perform_handed α r task
    exact ⟨n, hn.trans_eq hhanded.symm, congrArg (idOf · n) hkind.symm⟩
  refine ⟨hnodup, fun id hid => hhanded id (hkeys id hid).1, fun id hid => (hkeys id hid).2, ?_, ?_⟩
  · intro task' htask' id howes
    apply hhanded id
    obtain hmem | ⟨hmem, rfl⟩ := mem_set hk htask'
    · exact h.owed task' hmem id howes
    · exact h.owed task hmem id (perform_owes howes)
  · intro i j task₁ task₂ id hi hj howes howes'
    obtain ⟨old₁, hold₁, hid₁⟩ := owes_of_set hk hi howes
    obtain ⟨old₂, hold₂, hid₂⟩ := owes_of_set hk hj howes'
    exact h.once i j old₁ old₂ id hold₁ hold₂ hid₁ hid₂

theorem Fresh.insertOwner_keys (h : r.Fresh) {name detail : Text}
    (hk : r.tasks[k]? = some (.insertOwner id user name detail)) :
  id ∉ r.keys ∧ (r.perform (.insertOwner id user name detail)).1.owners = r.owners ++ [(id, user)]
  := by
  have hnone : id ∉ r.keys := by
    intro hid
    exact (h.settled id hid).2 _ (List.mem_of_getElem? hk) rfl
  refine ⟨hnone, congrArg (· ++ [(id, user)]) (List.filter_eq_self.mpr ?_)⟩
  intro entry hentry
  apply decide_eq_true
  rintro rfl
  exact hnone (List.mem_map_of_mem hentry)

theorem Fresh.insertOwner_settled (h : r.Fresh) {name detail : Text}
    (hk : r.tasks[k]? = some (.insertOwner id user name detail)) :
  (r.advances k).Settled id
  := by
  rw [advances_eq hk]
  refine ⟨(h.owed _ (List.mem_of_getElem? hk) id rfl).past, ?_⟩
  intro task htask howes
  obtain ⟨j, hj⟩ := List.getElem?_of_mem htask
  obtain ⟨old, hold, hid⟩ := owes_of_set hk hj howes
  have heq := h.once j k old _ id hold hk hid rfl
  subst heq
  change (r.tasks.set j _)[j]? = some task at hj
  rw [List.getElem?_set_self (List.getElem?_eq_some_iff.mp hk).1] at hj
  cases hj
  cases howes

theorem Fresh.advances (h : r.Fresh) (k : ℕ) :
  (r.advances k).Fresh
  := by
  cases hk : r.tasks[k]? with
  | none =>
    rw [advances_of_none hk]
    exact h
  | some task =>
    have hold : ∀ id ∈ r.keys, r.HandedOut id ∧ (r.advances k).Settled id :=
      fun id hid => ⟨h.handed id hid, (h.settled id hid).after (.advances k)⟩
    cases task with
    | insertOwner id user name detail =>
      obtain ⟨hnone, howners⟩ := h.insertOwner_keys hk
      have hkeys : (r.perform (.insertOwner id user name detail)).1.keys = r.keys ++ [id] := by
        unfold keys
        rw [howners, List.map_append]
        rfl
      apply h.step hk
      · rw [hkeys, List.nodup_append]
        refine ⟨h.nodup, List.nodup_singleton id, ?_⟩
        rintro a ha b hb rfl
        rw [List.mem_singleton.mp hb] at ha
        exact hnone ha
      · rw [hkeys]
        intro id' hid'
        obtain hid' | hid' := List.mem_append.mp hid'
        · exact hold id' hid'
        · rw [List.mem_singleton.mp hid']
          exact ⟨h.owed _ (List.mem_of_getElem? hk) id rfl, h.insertOwner_settled hk⟩
    | removeOwner id =>
      have hsub : List.Sublist (r.perform (.removeOwner id)).1.keys r.keys :=
        List.filter_sublist.map Prod.fst
      exact h.step hk (h.nodup.sublist hsub) fun id' hid => hold id' (hsub.subset hid)
    | insertItem id user name detail item => exact h.step hk h.nodup hold
    | insertMeta id name detail => exact h.step hk h.nodup hold
    | removeMeta id => exact h.step hk h.nodup hold
    | removeItem id => exact h.step hk h.nodup hold
    | done => exact h.step hk h.nodup hold

theorem Fresh.rehashes (h : r.Fresh) {order : List (Text × ℤ)} (hperm : order.Perm r.owners) :
  Fresh { r with owners := order }
  := by
  have hkeys : (order.map Prod.fst).Perm r.keys := hperm.map Prod.fst
  exact ⟨hkeys.nodup_iff.mpr h.nodup, fun id hid => h.handed id (hkeys.subset hid),
    fun id hid => h.settled id (hkeys.subset hid), h.owed, h.once⟩

theorem Fresh.after (h : r.Fresh) (e : RegistryEvent α) :
  (r.after e).Fresh
  := by
  cases e with
  | connect actor name detail item => exact h.connect actor name detail item
  | disconnect actor id => exact h.disconnect actor id
  | advances k => exact h.advances k
  | rehashes order =>
    change Fresh (if order.Perm r.owners then { r with owners := order } else r)
    split
    · rename_i hperm
      exact h.rehashes hperm
    · exact h

/-! ### Owners -/

/-- Nobody but this user owns the id, and nobody else will. -/
structure Bound (r : Registry α) (user : ℤ) (id : Text) : Prop where
  only : ∀ other, r.Owns other id → other = user
  settled : r.Settled id

theorem Fresh.bound (h : r.Fresh) (howns : r.Owns user id) :
  r.Bound user id
  where
  only other hother := by
    have heq := List.inj_on_of_nodup_map h.nodup hother howns rfl
    cases heq
    rfl
  settled := h.settled id (mem_keys.mpr ⟨user, howns⟩)

theorem Bound.after (h : r.Bound user id) (e : RegistryEvent α) :
  (r.after e).Bound user id
  := by
  refine ⟨?_, h.settled.after e⟩
  intro other howns
  cases e with
  | connect actor name detail item => exact h.only other howns
  | disconnect actor id' =>
    change (r.disconnect actor id').Owns other id at howns
    unfold Registry.disconnect at howns
    split at howns
    · exact h.only other howns
    · exact h.only other howns
  | advances k =>
    change (r.advances k).Owns other id at howns
    cases hk : r.tasks[k]? with
    | none =>
      rw [advances_of_none hk] at howns
      exact h.only other howns
    | some task =>
      rw [advances_eq hk] at howns
      cases task with
      | insertOwner id' user' name detail =>
        obtain hmem | hnew := List.mem_append.mp howns
        · exact h.only other (List.mem_filter.mp hmem).1
        · cases List.mem_singleton.mp hnew
          exact absurd rfl (h.settled.2 _ (List.mem_of_getElem? hk))
      | removeOwner id' => exact h.only other (List.mem_filter.mp howns).1
      | insertItem id' user' name detail item => exact h.only other howns
      | insertMeta id' name detail => exact h.only other howns
      | removeMeta id' => exact h.only other howns
      | removeItem id' => exact h.only other howns
      | done => exact h.only other howns
  | rehashes order =>
    change Owns (if order.Perm r.owners then { r with owners := order } else r) other id at howns
    split at howns
    · rename_i hperm
      exact h.only other (hperm.subset howns)
    · exact h.only other howns

/-! ### Items -/

/-- An administrator disconnects no id that is yet to have its owner. -/
def Timely : RegistryEvent α → Registry α → Prop
  | .disconnect actor id, r => actor.isAdmin → r.Settled id
  | _, _ => True

end Registry

/-- What an operation in flight relies on: an id is in the manager until its owner is recorded, and
one that is disconnected is settled. -/
def Task.Fits (r : Registry α) : Task α → Prop
  | .insertOwner id _ _ _ => (r.items id).isSome
  | .removeOwner id => r.Settled id
  | .removeMeta id => r.Settled id ∧ id ∉ r.keys
  | .removeItem id => r.Settled id ∧ id ∉ r.keys
  | _ => True

theorem Task.Fits.mono {r r' : Registry α} {task : Task α} (h : task.Fits r)
    (hitems : ∀ id, (r.items id).isSome → (r'.items id).isSome)
    (hsettled : ∀ id, r.Settled id → r'.Settled id) (hkeys : r'.keys ⊆ r.keys) :
  task.Fits r'
  := by
  cases task with
  | insertOwner id user name detail => exact hitems id h
  | removeOwner id => exact hsettled id h
  | removeMeta id => exact ⟨hsettled id h.1, fun hid => h.2 (hkeys hid)⟩
  | removeItem id => exact ⟨hsettled id h.1, fun hid => h.2 (hkeys hid)⟩
  | insertItem id user name detail item => trivial
  | insertMeta id name detail => trivial
  | done => trivial

namespace Registry

variable {r : Registry α} {id : Text} {user : ℤ} {k : ℕ}

/-- What has an owner is in the manager. -/
structure Live (r : Registry α) : Prop where
  fresh : r.Fresh
  item : ∀ id ∈ r.keys, (r.items id).isSome
  fits : ∀ task ∈ r.tasks, task.Fits r

theorem Live.new (kind : Text) :
  (new kind : Registry α).Live
  where
  fresh := Fresh.new kind
  item id h := by cases h
  fits task h := by cases h

theorem Live.disconnect_settled (h : r.Live) {actor : User} (howns : ownsResource r.owners id actor)
    (htimely : Timely (.disconnect actor id) r) :
  r.Settled id
  := by
  obtain hadmin | howner := (Bool.or_eq_true _ _).mp howns
  · exact htimely hadmin
  · apply h.fresh.settled id (mem_keys.mpr ⟨actor.id, ?_⟩)
    obtain ⟨before, after, heq, -⟩ := List.lookup_eq_some_iff.mp (of_decide_eq_true howner)
    rw [Owns, heq]
    exact List.mem_append_right before List.mem_cons_self

theorem Live.connect (h : r.Live) (actor : User) (name detail : Text) (item : α) :
  (r.connect actor name detail item).Live
  := by
  refine ⟨h.fresh.connect actor name detail item, h.item, ?_⟩
  intro task htask
  obtain hmem | hnew := List.mem_append.mp htask
  · refine (h.fits task hmem).mono (fun id hid => hid) ?_ (List.Subset.refl _)
    exact fun id hid => hid.after (.connect actor name detail item)
  · rw [List.mem_singleton.mp hnew]
    trivial

theorem Live.disconnect (h : r.Live) {actor : User} (htimely : Timely (.disconnect actor id) r) :
  (r.disconnect actor id).Live
  := by
  by_cases howns : ownsResource r.owners id actor
  · have hfresh := h.fresh.disconnect actor id
    have hsettled : ∀ id', r.Settled id' → (r.disconnect actor id).Settled id' :=
      fun id' hid => hid.after (.disconnect actor id)
    unfold Registry.disconnect at hfresh hsettled ⊢
    rw [if_pos howns] at hfresh hsettled ⊢
    refine ⟨hfresh, h.item, ?_⟩
    intro task htask
    obtain hmem | hnew := List.mem_append.mp htask
    · exact (h.fits task hmem).mono (fun id hid => hid) hsettled (List.Subset.refl _)
    · rw [List.mem_singleton.mp hnew]
      exact hsettled id (h.disconnect_settled howns htimely)
  · unfold Registry.disconnect
    rw [if_neg howns]
    exact h

theorem Live.step (h : r.Live) {task : Task α} (hk : r.tasks[k]? = some task)
    (hitem : ∀ id ∈ (r.perform task).1.keys, ((r.perform task).1.items id).isSome)
    (hothers : ∀ other ∈ r.tasks, other.Fits (r.advances k))
    (hnext : (r.perform task).2.Fits (r.advances k)) :
  (r.advances k).Live
  := by
  refine ⟨h.fresh.advances k, ?_, ?_⟩
  · rw [advances_eq hk]
    exact hitem
  · intro other hother
    have hset := hother
    rw [advances_eq hk] at hset
    obtain hmem | ⟨-, rfl⟩ := mem_set hk hset
    · exact hothers other hmem
    · exact hnext

theorem isSome_update {items : Text → Option α} {id' : Text} (item : α) (h : (items id').isSome) :
  (Function.update items id (some item) id').isSome
  := by
  by_cases heq : id' = id
  · rw [heq, Function.update_self]
    rfl
  · rwa [Function.update_of_ne heq]

theorem Live.advances (h : r.Live) (k : ℕ) :
  (r.advances k).Live
  := by
  cases hk : r.tasks[k]? with
  | none =>
    rw [advances_of_none hk]
    exact h
  | some task =>
    have hmem : task ∈ r.tasks := List.mem_of_getElem? hk
    have hsettled : ∀ id, r.Settled id → (r.advances k).Settled id :=
      fun id hid => hid.after (.advances k)
    have heq := advances_eq hk
    -- the other operations, where nothing leaves the manager and no owner is recorded
    have hmono : (∀ id, (r.items id).isSome → ((r.perform task).1.items id).isSome) →
        (r.perform task).1.keys ⊆ r.keys →
          ∀ other ∈ r.tasks, other.Fits (r.advances k) := by
      intro hitems hkeys other hother
      apply (h.fits other hother).mono _ hsettled
      · rw [heq]
        exact hkeys
      · rw [heq]
        exact hitems
    cases task with
    | insertItem id user name detail item =>
      apply h.step hk (fun id' hid => isSome_update item (h.item id' hid))
      · exact hmono (fun id' => isSome_update item) (List.Subset.refl _)
      · rw [heq]
        change (Function.update r.items id (some item) id).isSome
        rw [Function.update_self]
        rfl
    | insertOwner id user name detail =>
      obtain ⟨-, howners⟩ := h.fresh.insertOwner_keys hk
      have hkeys : (r.perform (.insertOwner id user name detail)).1.keys = r.keys ++ [id] := by
        unfold keys
        rw [howners, List.map_append]
        rfl
      apply h.step hk
      · intro id' hid'
        rw [hkeys] at hid'
        obtain hid' | hid' := List.mem_append.mp hid'
        · exact h.item id' hid'
        · rw [List.mem_singleton.mp hid']
          exact h.fits _ hmem
      · -- an id that is disconnected is settled, so that its owner is not recorded now
        have hgone : ∀ id', r.Settled id' → id' ∉ r.keys → id' ∉ (r.advances k).keys := by
          intro id' hid' hnone hin
          rw [heq] at hin
          change id' ∈ (r.perform (.insertOwner id user name detail)).1.keys at hin
          rw [hkeys] at hin
          obtain hin | hin := List.mem_append.mp hin
          · exact hnone hin
          · apply hid'.2 _ hmem
            rw [List.mem_singleton.mp hin]
            rfl
        intro other hother
        have hfits := h.fits other hother
        cases other with
        | insertOwner id' user' name' detail' =>
          rw [heq]
          exact hfits
        | removeOwner id' => exact hsettled id' hfits
        | removeMeta id' => exact ⟨hsettled id' hfits.1, hgone id' hfits.1 hfits.2⟩
        | removeItem id' => exact ⟨hsettled id' hfits.1, hgone id' hfits.1 hfits.2⟩
        | insertItem id' user' name' detail' item' => trivial
        | insertMeta id' name' detail' => trivial
        | done => trivial
      · trivial
    | insertMeta id name detail =>
      exact h.step hk h.item (hmono (fun _ hid => hid) (List.Subset.refl _)) trivial
    | removeOwner id =>
      have hsub : (r.perform (.removeOwner id)).1.keys ⊆ r.keys :=
        (List.filter_sublist.map Prod.fst).subset
      apply h.step hk (fun id' hid => h.item id' (hsub hid)) (hmono (fun _ hid => hid) hsub)
      refine ⟨hsettled id (h.fits _ hmem), ?_⟩
      rw [heq]
      intro hid
      obtain ⟨user, howns⟩ := mem_keys.mp hid
      exact of_decide_eq_true (List.mem_filter.mp howns).2 rfl
    | removeMeta id =>
      apply h.step hk h.item (hmono (fun _ hid => hid) (List.Subset.refl _))
      have hfits := h.fits _ hmem
      refine ⟨hsettled id hfits.1, ?_⟩
      rw [heq]
      exact hfits.2
    | removeItem id =>
      obtain ⟨hid, hnone⟩ := h.fits _ hmem
      have hother : ∀ id', id' ≠ id → (r.items id').isSome →
          (Function.update r.items id none id').isSome := by
        intro id' hne hsome
        rwa [Function.update_of_ne hne]
      apply h.step hk
      · intro id' hid'
        apply hother id' _ (h.item id' hid')
        rintro rfl
        exact hnone hid'
      · intro other hmem'
        have hfits := h.fits other hmem'
        cases other with
        | insertOwner id' user' name' detail' =>
          rw [heq]
          apply hother id' _ hfits
          rintro rfl
          exact hid.2 _ hmem' rfl
        | removeOwner id' => exact hsettled id' hfits
        | removeMeta id' =>
          refine ⟨hsettled id' hfits.1, ?_⟩
          rw [heq]
          exact hfits.2
        | removeItem id' =>
          refine ⟨hsettled id' hfits.1, ?_⟩
          rw [heq]
          exact hfits.2
        | insertItem id' user' name' detail' item' => trivial
        | insertMeta id' name' detail' => trivial
        | done => trivial
      · trivial
    | done => exact h.step hk h.item (hmono (fun _ hid => hid) (List.Subset.refl _)) trivial

theorem Live.rehashes (h : r.Live) {order : List (Text × ℤ)} (hperm : order.Perm r.owners) :
  Live { r with owners := order }
  := by
  have hkeys : (order.map Prod.fst).Perm r.keys := hperm.map Prod.fst
  refine ⟨h.fresh.rehashes hperm, fun id hid => h.item id (hkeys.subset hid), ?_⟩
  intro task htask
  exact (h.fits task htask).mono (fun _ hid => hid) (fun _ hid => hid) hkeys.subset

theorem Live.after (h : r.Live) {e : RegistryEvent α} (htimely : Timely e r) :
  (r.after e).Live
  := by
  cases e with
  | connect actor name detail item => exact h.connect actor name detail item
  | disconnect actor id => exact h.disconnect htimely
  | advances k => exact h.advances k
  | rehashes order =>
    change Live (if order.Perm r.owners then { r with owners := order } else r)
    split
    · rename_i hperm
      exact h.rehashes hperm
    · exact h

end Registry

end Mcp
