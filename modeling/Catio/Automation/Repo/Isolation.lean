import Catio.Automation.Repo

/-!
# The store as an owner sees it

An operation on the store leaves what other owners see as it was (`StoreOp.restrict_other`), and
does to what its own owner sees what it would do without the others (`StoreOp.restrict_own`), if
it names no id that an item of another owner has.
-/

namespace Automation

open Agent First Text

/-! ### Items of an owner -/

section

variable {α : Type} [Item α] {owner id : Text} {items items' : List α}

def Unclaimed (owner id : Text) (items : List α) : Prop :=
  ∀ x ∈ items, Item.id x = id → Item.ownerId x = owner

variable {change : α → Option α} {renew : α → α} {item : α} {x : α}

@[simp]
theorem isOf_iff :
  isOf owner x = true ↔ Item.ownerId x = owner
  := decide_eq_true_iff

@[simp]
theorem hasId_iff :
  hasId id x = true ↔ Item.id x = id
  := decide_eq_true_iff

theorem isOwned_iff :
  isOwned owner id x = true ↔ Item.id x = id ∧ Item.ownerId x = owner
  := by
  unfold isOwned
  rw [Bool.and_eq_true, hasId_iff, isOf_iff]

theorem isOf_eq_false {other : Text} (h : Item.ownerId x = other) (hne : other ≠ owner) :
  isOf owner x = false
  := by
  rw [← Bool.not_eq_true, isOf_iff, h]
  exact hne

theorem listOf_listOf (owner : Text) (items : List α) :
  listOf owner (listOf owner items) = listOf owner items
  := by
  unfold listOf
  rw [List.filter_filter]
  congr 1
  funext x
  exact Bool.and_self _

theorem any_isOwned_listOf (owner id : Text) (items : List α) :
  (listOf owner items).any (isOwned owner id) = items.any (isOwned owner id)
  := by
  unfold listOf
  rw [List.any_filter]
  congr 1
  funext x
  unfold isOwned
  cases isOf owner x with
  | true => simp
  | false => simp

theorem listOf_upsertItem_own (hunclaimed : Unclaimed (Item.ownerId item) (Item.id item) items)
    (hrenew : ∀ x, Item.ownerId (renew x) = Item.ownerId item) :
  listOf (Item.ownerId item) (upsertItem item renew items)
    = upsertItem item renew (listOf (Item.ownerId item) items)
  := by
  have hfilter := changeFirst_filter (p := hasId (Item.id item)) (q := isOf (Item.ownerId item))
    (f := fun existing => some (renew existing)) (l := items)
    (fun x hx hid => isOf_iff.mpr (hunclaimed x hx (hasId_iff.mp hid)))
    (fun x _ _ y hy => by
      cases hy
      exact isOf_iff.mpr (hrenew x))
  unfold upsertItem listOf
  rw [← hfilter]
  cases changeFirst (hasId (Item.id item)) (fun existing => some (renew existing)) items with
  | none => simp
  | some items' => rfl

theorem listOf_upsertItem_other (hunclaimed : Unclaimed (Item.ownerId item) (Item.id item) items)
    (hrenew : ∀ x, Item.ownerId (renew x) = Item.ownerId item)
    (hother : Item.ownerId item ≠ owner) :
  listOf owner (upsertItem item renew items) = listOf owner items
  := by
  unfold upsertItem
  cases hchange : changeFirst (hasId (Item.id item)) (fun existing => some (renew existing))
      items with
  | none =>
    unfold listOf
    rw [Option.getD_none, List.filter_append, List.filter_singleton,
      isOf_eq_false rfl hother]
    exact List.append_nil _
  | some items' =>
    apply filter_of_changeFirst hchange
    · intro x hx hid
      exact isOf_eq_false (hunclaimed x hx (hasId_iff.mp hid)) hother
    · rintro x _ _ y ⟨⟩
      exact isOf_eq_false (hrenew x) hother

theorem filter_upsertItem {q : α → Bool} (hold : ∀ x, Item.id x = Item.id item → q x = false)
    (hrenew : ∀ x, Item.id (renew x) = Item.id item) :
  (upsertItem item renew items).filter q = items.filter q
  := by
  unfold upsertItem
  cases hchange : changeFirst (hasId (Item.id item)) (fun existing => some (renew existing))
      items with
  | none =>
    rw [Option.getD_none, List.filter_append, List.filter_singleton, hold item rfl]
    exact List.append_nil _
  | some items' =>
    apply filter_of_changeFirst hchange
    · intro x _ hid
      exact hold x (hasId_iff.mp hid)
    · rintro x _ _ y ⟨⟩
      exact hold _ (hrenew x)

theorem changeOwned_own (hchange : ∀ x y, change x = some y → Item.ownerId y = Item.ownerId x) :
  (changeOwned owner id change items).map (listOf owner)
    = changeOwned owner id change (listOf owner items)
  := by
  have hfilter := changeFirst_filter (p := isOwned owner id) (q := isOf owner) (f := change)
    (l := items) (fun x _ hx => isOf_iff.mpr (isOwned_iff.mp hx).2)
    (fun x _ hx y hy => isOf_iff.mpr ((hchange x y hy).trans (isOwned_iff.mp hx).2))
  unfold changeOwned listOf
  rw [← hfilter]
  cases changeFirst (isOwned owner id) change items with
  | none => rfl
  | some items' => rfl

theorem keeps_none (x y : α) (h : (none : Option α) = some y) :
  Item.ownerId y = Item.ownerId x
  := by
  cases h

theorem changeFirst_of_changeOwned (hok : changeOwned owner id change items = .ok items') :
  changeFirst (isOwned owner id) change items = some items'
  := by
  unfold changeOwned at hok
  split at hok
  · rename_i hchanged
    cases hok
    exact hchanged
  · cases hok

theorem listOf_changeOwned_other {other : Text}
    (hchange : ∀ x y, change x = some y → Item.ownerId y = Item.ownerId x)
    (hok : changeOwned owner id change items = .ok items') (hother : owner ≠ other) :
  listOf other items' = listOf other items
  := by
  apply filter_of_changeFirst (changeFirst_of_changeOwned hok)
  · intro x _ hx
    exact isOf_eq_false (isOwned_iff.mp hx).2 hother
  · intro x _ hx y hy
    exact isOf_eq_false ((hchange x y hy).trans (isOwned_iff.mp hx).2) hother

theorem filter_of_removed {q : α → Bool}
    (hok : changeOwned owner id (fun _ => none) items = .ok items')
    (hq : ∀ x, Item.id x = id → q x = false) :
  items'.filter q = items.filter q
  := by
  apply filter_of_changeFirst (changeFirst_of_changeOwned hok)
  · intro x _ hx
    exact hq x (isOwned_iff.mp hx).1
  · nofun

end

/-! ### The store of an owner -/

section

variable {g g' : StoreInner} {owner : Text}

/-- The store as if there were no other owners. -/
def StoreInner.restrict (owner : Text) (g : StoreInner) : StoreInner where
  tasks := g.listTasks owner
  skills := g.listSkills owner
  mcps := g.listMcps owner
  mcpCreds := g.mcpCredential owner

/-- Each credential is that of a connection. -/
def StoreInner.Backed (g : StoreInner) : Prop :=
  ∀ id, g.mcpCreds id ≠ none → ∃ mcp ∈ g.mcps, mcp.id = id

/-- An operation that does not look at the owner of an item names no item of another one. -/
def SavingOp.Clear (op : SavingOp) (g : StoreInner) : Prop :=
  match op with
  | .upsertTask task => Unclaimed task.ownerId task.id g.tasks
  | .upsertSkill skill => Unclaimed skill.ownerId skill.id g.skills
  | .upsertMcp mcp => Unclaimed mcp.ownerId mcp.id g.mcps
  | .deleteMcp owner id => Unclaimed owner id g.mcps
  | _ => True

theorem renewSkill_ownerId (skill existing : Skill) :
  (StoreInner.renewSkill skill existing).ownerId = skill.ownerId
  := by
  unfold StoreInner.renewSkill
  split
  · rfl
  · rfl

theorem mcpCredential_congr (hmcps : g'.listMcps owner = g.listMcps owner)
    (hcreds : ∀ id, g.mcps.any (isOwned owner id) → g'.mcpCreds id = g.mcpCreds id) :
  g'.mcpCredential owner = g.mcpCredential owner
  := by
  funext id
  unfold StoreInner.mcpCredential
  have hany : g'.mcps.any (isOwned owner id) = g.mcps.any (isOwned owner id) := by
    rw [← any_isOwned_listOf owner id g'.mcps, ← any_isOwned_listOf owner id g.mcps]
    exact congrArg (fun mcps : List McpConnection => mcps.any (isOwned owner id)) hmcps
  rw [hany]
  split
  · rename_i hown
    exact hcreds id hown
  · rfl

variable {op : SavingOp} {id : Text} {α : Type}

theorem keepCredential_of_ne {mcp : McpConnection} (hne : id ≠ mcp.id) :
  g.keepCredential mcp id = g.mcpCreds id
  := by
  unfold StoreInner.keepCredential
  split
  · rfl
  · exact Function.update_of_ne hne _ _

theorem ne_of_unclaimed {other id id' : Text} (hunclaimed : Unclaimed other id g.mcps)
    (hown : g.mcps.any (isOwned owner id')) (hother : other ≠ owner) :
  id' ≠ id
  := by
  rintro rfl
  obtain ⟨mcp, hmem, hmcp⟩ := List.any_eq_true.mp hown
  have hfacts := isOwned_iff.mp hmcp
  exact hother ((hunclaimed mcp hmem hfacts.1).symm.trans hfacts.2)

theorem any_isOwned_upsertItem (mcp : McpConnection) (mcps : List McpConnection) :
  (upsertItem mcp (fun _ => mcp) mcps).any (isOwned mcp.ownerId mcp.id)
  := by
  rw [List.any_eq_true]
  refine ⟨mcp, ?_, isOwned_iff.mpr ⟨rfl, rfl⟩⟩
  unfold upsertItem
  cases hchange : changeFirst (hasId (Item.id mcp)) (fun _ => some mcp) mcps with
  | none => simp
  | some mcps' =>
    obtain ⟨_, -, -, hmem⟩ := exists_mem_of_changeFirst hchange
    exact hmem mcp rfl

theorem any_isOwned_eq {mcps mcps' : List McpConnection}
    (hsame : mcps'.filter (isOwned owner id) = mcps.filter (isOwned owner id)) :
  mcps'.any (isOwned owner id) = mcps.any (isOwned owner id)
  := by
  rw [Bool.eq_iff_iff, List.any_eq_true, List.any_eq_true]
  have hmem : ∀ l : List McpConnection, (∃ x ∈ l, isOwned owner id x = true)
      ↔ ∃ x, x ∈ l.filter (isOwned owner id) := by
    intro l
    simp only [List.mem_filter]
  rw [hmem, hmem, hsame]

theorem isOwned_eq_false [Item α] {x : α} {id id' : Text} (hid : Item.id x = id) (hne : id' ≠ id) :
  isOwned owner id' x = false
  := by
  rw [← Bool.not_eq_true, isOwned_iff, hid]
  exact fun h => hne h.1.symm

theorem mcpCredential_upsertMcp {mcp : McpConnection}
    (hunclaimed : Unclaimed mcp.ownerId mcp.id g.mcps) (hbacked : g.Backed) :
  { g with
    mcps := upsertItem mcp (fun _ => mcp) g.mcps
    mcpCreds := g.keepCredential mcp : StoreInner }.mcpCredential mcp.ownerId
    = (g.restrict mcp.ownerId).keepCredential mcp
  := by
  funext id
  unfold StoreInner.mcpCredential
  dsimp only
  by_cases hid : id = mcp.id
  · subst hid
    rw [if_pos (any_isOwned_upsertItem mcp g.mcps)]
    unfold StoreInner.keepCredential
    split
    · change g.mcpCreds mcp.id = g.mcpCredential mcp.ownerId mcp.id
      unfold StoreInner.mcpCredential
      split
      · rfl
      · rename_i hnone
        by_contra hsome
        obtain ⟨other, hmem, hother⟩ := hbacked mcp.id hsome
        apply hnone
        rw [List.any_eq_true]
        exact ⟨other, hmem, isOwned_iff.mpr ⟨hother, hunclaimed other hmem hother⟩⟩
    · rw [Function.update_self, Function.update_self]
  · rw [keepCredential_of_ne hid, keepCredential_of_ne hid]
    have hsame : (upsertItem mcp (fun _ => mcp) g.mcps).any (isOwned mcp.ownerId id)
        = g.mcps.any (isOwned mcp.ownerId id) := by
      apply any_isOwned_eq
      apply filter_upsertItem
      · intro x hx
        exact isOwned_eq_false hx hid
      · exact fun _ => rfl
    rw [hsame]
    rfl

theorem mcpCredential_deleteMcp {mcps : List McpConnection}
    (hdeleted : changeOwned owner id (fun _ => none) g.mcps = .ok mcps) :
  { g with mcps := mcps, mcpCreds := Function.update g.mcpCreds id none : StoreInner }.mcpCredential
      owner
    = Function.update (g.restrict owner).mcpCreds id none
  := by
  funext id'
  unfold StoreInner.mcpCredential
  dsimp only
  by_cases hid : id' = id
  · subst hid
    rw [Function.update_self, Function.update_self, ite_self]
  · rw [Function.update_of_ne hid, Function.update_of_ne hid]
    have hsame : mcps.any (isOwned owner id') = g.mcps.any (isOwned owner id') := by
      apply any_isOwned_eq
      apply filter_of_removed hdeleted
      intro x hx
      exact isOwned_eq_false hx hid
    rw [hsame]
    rfl

/-- An operation of another owner is not seen. -/
theorem SavingOp.restrict_other (hok : op.change g = .ok g') (hclear : op.Clear g)
    (hother : op.owner ≠ owner) :
  g'.restrict owner = g.restrict owner
  := by
  cases op with
  | upsertTask task =>
    obtain ⟨_, -, heq⟩ := Result.bind_ok.mp hok
    cases heq
    apply StoreInner.ext
    · exact listOf_upsertItem_other hclear (fun _ => rfl) hother
    · rfl
    · rfl
    · rfl
  | deleteTask owner' id =>
    obtain ⟨tasks, htasks, heq⟩ := Result.bind_ok.mp hok
    cases heq
    apply StoreInner.ext
    · exact listOf_changeOwned_other keeps_none htasks hother
    · rfl
    · rfl
    · rfl
  | setTaskEnabled owner' id enabled =>
    obtain ⟨tasks, htasks, heq⟩ := Result.bind_ok.mp hok
    cases heq
    apply StoreInner.ext
    · apply listOf_changeOwned_other _ htasks hother
      rintro x _ ⟨⟩
      rfl
    · rfl
    · rfl
    · rfl
  | upsertSkill skill =>
    obtain ⟨_, -, heq⟩ := Result.bind_ok.mp hok
    cases heq
    apply StoreInner.ext
    · rfl
    · exact listOf_upsertItem_other hclear (renewSkill_ownerId skill) hother
    · rfl
    · rfl
  | deleteSkill owner' id =>
    obtain ⟨skills, hskills, heq⟩ := Result.bind_ok.mp hok
    cases heq
    apply StoreInner.ext
    · rfl
    · exact listOf_changeOwned_other keeps_none hskills hother
    · rfl
    · rfl
  | setSkillEnabled owner' id enabled =>
    obtain ⟨skills, hskills, heq⟩ := Result.bind_ok.mp hok
    cases heq
    apply StoreInner.ext
    · rfl
    · apply listOf_changeOwned_other _ hskills hother
      rintro x _ ⟨⟩
      rfl
    · rfl
    · rfl
  | upsertMcp mcp =>
    obtain ⟨_, -, heq⟩ := Result.bind_ok.mp hok
    cases heq
    have hmcps : listOf owner (upsertItem mcp (fun _ => mcp) g.mcps) = listOf owner g.mcps :=
      listOf_upsertItem_other hclear (fun _ => rfl) hother
    apply StoreInner.ext
    · rfl
    · rfl
    · exact hmcps
    · apply mcpCredential_congr (g := g)
      · exact hmcps
      intro id hown
      exact keepCredential_of_ne (ne_of_unclaimed hclear hown hother)
  | deleteMcp owner' id =>
    obtain ⟨mcps, hdeleted, heq⟩ := Result.bind_ok.mp hok
    cases heq
    have hmcps : listOf owner mcps = listOf owner g.mcps :=
      listOf_changeOwned_other keeps_none hdeleted hother
    apply StoreInner.ext
    · rfl
    · rfl
    · exact hmcps
    · apply mcpCredential_congr (g := g)
      · exact hmcps
      intro id' hown
      exact Function.update_of_ne (ne_of_unclaimed hclear hown hother) _ _

theorem map_bind_own {x y : Except AutomationError (List α)} {own : List α → List α}
    {put put' : List α → StoreInner} (hown : x.map own = y)
    (hput : ∀ items, x = .ok items → (put items).restrict owner = put' (own items)) :
  (x >>= fun items => .ok (put items)).map (StoreInner.restrict owner)
    = y >>= fun items => .ok (put' items)
  := by
  rw [← hown]
  cases hx : x with
  | error e => rfl
  | ok items => exact congrArg Except.ok (hput items hx)

theorem SavingOp.restrict_own (hclear : op.Clear g) (hbacked : g.Backed) :
  (op.change g).map (StoreInner.restrict op.owner) = op.change (g.restrict op.owner)
  := by
  cases op with
  | upsertTask task =>
    change (task.validate >>= fun _ => Except.ok _).map _ = task.validate >>= _
    cases task.validate with
    | error e => rfl
    | ok _ =>
      apply congrArg Except.ok
      apply StoreInner.ext
      · exact listOf_upsertItem_own hclear fun _ => rfl
      · rfl
      · rfl
      · rfl
  | deleteTask owner id =>
    exact map_bind_own (changeOwned_own keeps_none) fun _ _ => rfl
  | setTaskEnabled owner id enabled =>
    apply map_bind_own (changeOwned_own _) fun _ _ => rfl
    rintro x _ ⟨⟩
    rfl
  | upsertSkill skill =>
    change (StoreInner.validateSkill skill >>= fun _ => Except.ok _).map _
      = StoreInner.validateSkill skill >>= _
    cases StoreInner.validateSkill skill with
    | error e => rfl
    | ok _ =>
      apply congrArg Except.ok
      apply StoreInner.ext
      · rfl
      · exact listOf_upsertItem_own hclear (renewSkill_ownerId skill)
      · rfl
      · rfl
  | deleteSkill owner id =>
    exact map_bind_own (changeOwned_own keeps_none) fun _ _ => rfl
  | setSkillEnabled owner id enabled =>
    apply map_bind_own (changeOwned_own _) fun _ _ => rfl
    rintro x _ ⟨⟩
    rfl
  | upsertMcp mcp =>
    change (StoreInner.validateMcp mcp >>= fun _ => Except.ok _).map _
      = StoreInner.validateMcp mcp >>= _
    cases StoreInner.validateMcp mcp with
    | error e => rfl
    | ok _ =>
      apply congrArg Except.ok
      apply StoreInner.ext
      · rfl
      · rfl
      · exact listOf_upsertItem_own hclear fun _ => rfl
      · exact mcpCredential_upsertMcp hclear hbacked
  | deleteMcp owner id =>
    apply map_bind_own (changeOwned_own keeps_none)
    intro mcps hdeleted
    apply StoreInner.ext
    · rfl
    · rfl
    · rfl
    · exact mcpCredential_deleteMcp hdeleted

theorem exists_hasId_iff {mcps : List McpConnection} :
  (∃ mcp ∈ mcps, mcp.id = id) ↔ ∃ mcp, mcp ∈ mcps.filter (hasId id)
  := by
  constructor
  · rintro ⟨mcp, hmem, hid⟩
    exact ⟨mcp, List.mem_filter.mpr ⟨hmem, hasId_iff.mpr hid⟩⟩
  · rintro ⟨mcp, hmem⟩
    obtain ⟨hmem, hid⟩ := List.mem_filter.mp hmem
    exact ⟨mcp, hmem, hasId_iff.mp hid⟩

theorem hasId_eq_false [Item α] {x : α} {id id' : Text} (hid : Item.id x = id) (hne : id' ≠ id) :
  hasId id' x = false
  := by
  rw [← Bool.not_eq_true, hasId_iff, hid]
  exact fun h => hne h.symm

theorem SavingOp.backed (hok : op.change g = .ok g') (hbacked : g.Backed) :
  g'.Backed
  := by
  cases op with
  | upsertMcp mcp =>
    obtain ⟨_, -, heq⟩ := Result.bind_ok.mp hok
    cases heq
    intro id hsome
    by_cases hid : id = mcp.id
    · subst hid
      obtain ⟨mcp', hmem, hown⟩ := List.any_eq_true.mp (any_isOwned_upsertItem mcp g.mcps)
      exact ⟨mcp', hmem, (isOwned_iff.mp hown).1⟩
    · change g.keepCredential mcp id ≠ none at hsome
      rw [keepCredential_of_ne hid] at hsome
      rw [exists_hasId_iff, filter_upsertItem (fun _ hx => hasId_eq_false hx hid) fun _ => rfl]
      exact exists_hasId_iff.mp (hbacked id hsome)
  | deleteMcp owner id =>
    obtain ⟨mcps, hdeleted, heq⟩ := Result.bind_ok.mp hok
    cases heq
    intro id' hsome
    by_cases hid : id' = id
    · subst hid
      exact absurd (Function.update_self ..) hsome
    · change Function.update g.mcpCreds id none id' ≠ none at hsome
      rw [Function.update_of_ne hid] at hsome
      rw [exists_hasId_iff, filter_of_removed hdeleted fun _ hx => hasId_eq_false hx hid]
      exact exists_hasId_iff.mp (hbacked id' hsome)
  | _ =>
    obtain ⟨_, -, heq⟩ := Result.bind_ok.mp hok
    cases heq
    exact hbacked

end

/-! ### Operations of the store -/

section

variable {g g' : StoreInner} {owner id : Text} {credential : ApiCredential}

def StoreOp.Clear (op : StoreOp) (g : StoreInner) : Prop :=
  match op with
  | .saving op => op.Clear g
  | .setMcpCredential owner id _ => Unclaimed owner id g.mcps
  | _ => True

/-- The store in memory after an operation: it has changed also if it was not saved. -/
def StoreOp.after (op : StoreOp) (g : StoreInner) : StoreInner :=
  match op with
  | .saving op => ((op.change g).toOption).getD g
  | .setMcpCredential owner id credential =>
      ((g.setMcpCredential owner id credential).toOption).getD g
  | _ => g

/-- The first failure of a save. -/
def Writes.outcome (writes : Writes) : Except AutomationError Unit :=
  match writes.tasks.or (writes.skills.or writes.mcps) with
  | none => .ok ()
  | some (_, message) => .error (.storage message)

def StoreOp.answer (op : StoreOp) (writes : Writes) (g : StoreInner) :
    Except AutomationError Reply :=
  match op with
  | .saving op => ((op.change g).bind fun _ => writes.outcome).map fun _ => .done
  | .setMcpCredential owner id credential =>
      (g.setMcpCredential owner id credential).map fun _ => .done
  | .listTasks owner => .ok (.tasks (g.listTasks owner))
  | .listSkills owner => .ok (.skills (g.listSkills owner))
  | .listMcps owner => .ok (.mcps (g.listMcps owner))
  | .mcpCredential owner id => .ok (.credential (g.mcpCredential owner id))

theorem saveLocked_fst [Serde] (writes : Writes) (g : StoreInner) (disk : Disk) :
  (saveLocked writes g disk).1 = writes.outcome
  := by
  obtain ⟨tasks, skills, mcps⟩ := writes
  cases tasks with
  | some failure => rfl
  | none =>
    cases skills with
    | some failure => rfl
    | none =>
      cases mcps with
      | some failure => rfl
      | none => rfl

theorem perform_inner [Serde] (op : StoreOp) (writes : Writes) (s : AutomationStore) :
  (s.perform op writes).2.inner = op.after s.inner
  := by
  cases op with
  | saving op =>
    unfold AutomationStore.perform AutomationStore.update StoreOp.after
    dsimp only
    cases op.change s.inner with
    | error e => rfl
    | ok g => rfl
  | setMcpCredential owner id credential =>
    unfold AutomationStore.perform StoreOp.after
    dsimp only
    cases s.inner.setMcpCredential owner id credential with
    | error e => rfl
    | ok g => rfl
  | _ => rfl

theorem perform_answer [Serde] (op : StoreOp) (writes : Writes) (s : AutomationStore) :
  (s.perform op writes).1 = op.answer writes s.inner
  := by
  cases op with
  | saving op =>
    unfold AutomationStore.perform AutomationStore.update StoreOp.answer
    dsimp only
    cases op.change s.inner with
    | error e => rfl
    | ok g =>
      change Except.map _ (saveLocked writes g s.disk).1 = _
      rw [saveLocked_fst]
      rfl
  | setMcpCredential owner id credential =>
    unfold AutomationStore.perform StoreOp.answer
    dsimp only
    cases s.inner.setMcpCredential owner id credential with
    | error e => rfl
    | ok g => rfl
  | _ => rfl

theorem setMcpCredential_own :
  (g.setMcpCredential owner id credential).map (StoreInner.restrict owner)
    = (g.restrict owner).setMcpCredential owner id credential
  := by
  unfold StoreInner.setMcpCredential
  change _ = if (listOf owner g.mcps).any (isOwned owner id) then _ else _
  rw [any_isOwned_listOf]
  split
  · rename_i hown
    apply congrArg Except.ok
    apply StoreInner.ext
    · rfl
    · rfl
    · rfl
    · funext id'
      change (if g.mcps.any (isOwned owner id') then
        Function.update g.mcpCreds id (some credential) id' else none) = _
      by_cases hid : id' = id
      · subst hid
        rw [if_pos hown, Function.update_self]
        exact (Function.update_self id' (some credential) (g.mcpCredential owner)).symm
      · rw [Function.update_of_ne hid]
        exact (Function.update_of_ne hid (some credential) (g.mcpCredential owner)).symm
  · rfl

theorem setMcpCredential_other {other : Text}
    (hok : g.setMcpCredential owner id credential = .ok g') (hunclaimed : Unclaimed owner id g.mcps)
    (hother : owner ≠ other) :
  g'.restrict other = g.restrict other
  := by
  unfold StoreInner.setMcpCredential at hok
  split at hok
  · cases hok
    apply StoreInner.ext
    · rfl
    · rfl
    · rfl
    · apply mcpCredential_congr (g := g)
      · rfl
      · intro id' hown
        exact Function.update_of_ne (ne_of_unclaimed hunclaimed hown hother) _ _
  · cases hok

theorem setMcpCredential_backed (hok : g.setMcpCredential owner id credential = .ok g')
    (hbacked : g.Backed) :
  g'.Backed
  := by
  unfold StoreInner.setMcpCredential at hok
  split at hok
  · rename_i hown
    cases hok
    intro id' hsome
    by_cases hid : id' = id
    · subst hid
      obtain ⟨mcp, hmem, hmcp⟩ := List.any_eq_true.mp hown
      exact ⟨mcp, hmem, (isOwned_iff.mp hmcp).1⟩
    · change Function.update g.mcpCreds id (some credential) id' ≠ none at hsome
      rw [Function.update_of_ne hid] at hsome
      exact hbacked id' hsome
  · cases hok

theorem map_getD {view : StoreInner → StoreInner} {x y : Except AutomationError StoreInner}
    (hown : x.map view = y) (g : StoreInner) :
  view (x.toOption.getD g) = y.toOption.getD (view g)
  := by
  rw [← hown]
  cases x with
  | error e => rfl
  | ok g' => rfl

theorem getD_of_ok {P : StoreInner → Prop} {x : Except AutomationError StoreInner}
    (hok : ∀ g', x = .ok g' → P g') (hbefore : P g) :
  P (x.toOption.getD g)
  := by
  cases x with
  | error e => exact hbefore
  | ok g' => exact hok g' rfl

theorem StoreOp.backed (op : StoreOp) (hbacked : g.Backed) :
  (op.after g).Backed
  := by
  cases op with
  | saving op => exact getD_of_ok (fun _ hok => op.backed hok hbacked) hbacked
  | setMcpCredential owner id credential =>
    exact getD_of_ok (fun _ hok => setMcpCredential_backed hok hbacked) hbacked
  | _ => exact hbacked

theorem StoreOp.restrict_other {op : StoreOp} (hclear : op.Clear g) (hother : op.owner ≠ owner) :
  (op.after g).restrict owner = g.restrict owner
  := by
  cases op with
  | saving op => exact getD_of_ok (fun _ hok => SavingOp.restrict_other hok hclear hother) rfl
  | setMcpCredential owner' id credential =>
    exact getD_of_ok (fun _ hok => setMcpCredential_other hok hclear hother) rfl
  | _ => rfl

theorem StoreOp.restrict_own {op : StoreOp} (hclear : op.Clear g) (hbacked : g.Backed) :
  (op.after g).restrict op.owner = op.after (g.restrict op.owner)
  := by
  cases op with
  | saving op => exact map_getD (SavingOp.restrict_own hclear hbacked) g
  | setMcpCredential owner id credential => exact map_getD setMcpCredential_own g
  | _ => rfl

theorem mcpCredential_restrict (g : StoreInner) (owner id : Text) :
  (g.restrict owner).mcpCredential owner id = g.mcpCredential owner id
  := by
  unfold StoreInner.mcpCredential
  change (if (listOf owner g.mcps).any (isOwned owner id) then
    g.mcpCredential owner id else none) = _
  rw [any_isOwned_listOf]
  unfold StoreInner.mcpCredential
  split
  · rfl
  · rfl

theorem StoreOp.answer_own {op : StoreOp} (hclear : op.Clear g) (hbacked : g.Backed)
    (writes : Writes) :
  op.answer writes g = op.answer writes (g.restrict op.owner)
  := by
  cases op with
  | saving op =>
    unfold StoreOp.answer
    dsimp only [StoreOp.owner]
    rw [← SavingOp.restrict_own hclear hbacked]
    cases op.change g with
    | error e => rfl
    | ok g' => rfl
  | setMcpCredential owner id credential =>
    unfold StoreOp.answer
    dsimp only [StoreOp.owner]
    rw [← setMcpCredential_own]
    cases g.setMcpCredential owner id credential with
    | error e => rfl
    | ok g' => rfl
  | listTasks owner =>
    exact congrArg (fun tasks => Except.ok (Reply.tasks tasks)) (listOf_listOf owner g.tasks).symm
  | listSkills owner =>
    exact congrArg (fun skills => Except.ok (Reply.skills skills))
      (listOf_listOf owner g.skills).symm
  | listMcps owner =>
    exact congrArg (fun mcps => Except.ok (Reply.mcps mcps)) (listOf_listOf owner g.mcps).symm
  | mcpCredential owner id =>
    exact congrArg (fun c => Except.ok (Reply.credential c))
      (mcpCredential_restrict g owner id).symm

end

end Automation
