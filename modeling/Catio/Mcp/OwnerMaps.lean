import Catio.Lib.Steps
import Catio.Lib.Text
import Mathlib.Data.List.Perm.Basic
import Mathlib.Logic.Function.Basic

/-!
# Owners of connections

The model of what `db_connect`, `db_disconnect`, `ssh_connect` and `ssh_disconnect` in `server.rs`
do to a manager and to the maps of owners and names, one lock after another.  An id never gets
another owner (`Bound`), and has one only in the manager, as long as no administrator disconnects it
before (`Live`).
-/

namespace Mcp

open Text

/-- A user who is signed in. -/
structure User where
  id : ℤ
  isAdmin : Bool
  deriving DecidableEq

/-- What an operation in flight does next. -/
inductive Task (α : Type) where
  | insertItem (id : Text) (user : ℤ) (name detail : Text) (item : α)
  | insertOwner (id : Text) (user : ℤ) (name detail : Text)
  | insertMeta (id : Text) (name detail : Text)
  | removeOwner (id : Text)
  | removeMeta (id : Text)
  | removeItem (id : Text)
  | done

/-- A manager with the maps beside it: its counter, what is under each id, owners in the order in
which the map is read, names, details, and operations in flight. -/
structure Registry (α : Type) where
  kind : Text
  handed : ℕ
  items : Text → Option α
  owners : List (Text × ℤ)
  metas : Text → Option (Text × Text)
  tasks : List (Task α)

/-- To connect, to disconnect, to go on with an operation in flight; and the map of owners may be
read in another order. -/
inductive RegistryEvent (α : Type) where
  | connect (actor : User) (name detail : Text) (item : α)
  | disconnect (actor : User) (id : Text)
  | advances (k : ℕ)
  | rehashes (order : List (Text × ℤ))

def idOf (kind : Text) (n : ℕ) : Text :=
  kind ++ "-" ++ ofNat n

theorem idOf_injective (kind : Text) :
  Function.Injective (idOf kind)
  := by
  intro m n h
  apply ofNat_injective
  exact List.append_cancel_left h

def ownsResource (owners : List (Text × ℤ)) (id : Text) (actor : User) : Bool :=
  actor.isAdmin || owners.lookup id = some actor.id

namespace Registry

variable {α : Type}

/-- Nothing has been connected. -/
def new (kind : Text) : Registry α :=
  ⟨kind, 0, fun _ => none, [], fun _ => none, []⟩

/-- One step of an operation in flight, and what it does next. -/
def perform (r : Registry α) : Task α → Registry α × Task α
  | .insertItem id user name detail item =>
      ({ r with items := Function.update r.items id (some item) },
        .insertOwner id user name detail)
  | .insertOwner id user name detail =>
      ({ r with owners := r.owners.filter (fun entry => entry.1 ≠ id) ++ [(id, user)] },
        .insertMeta id name detail)
  | .insertMeta id name detail =>
      ({ r with metas := Function.update r.metas id (some (name, detail)) }, .done)
  | .removeOwner id =>
      ({ r with owners := r.owners.filter fun entry => entry.1 ≠ id }, .removeMeta id)
  | .removeMeta id => ({ r with metas := Function.update r.metas id none }, .removeItem id)
  | .removeItem id => ({ r with items := Function.update r.items id none }, .done)
  | .done => (r, .done)

/-- A registry with other operations in flight. -/
def withTasks (r : Registry α) (tasks : List (Task α)) : Registry α :=
  { r with tasks := tasks }

/-- An operation in flight goes on. -/
def advances (r : Registry α) (k : ℕ) : Registry α :=
  match r.tasks[k]? with
  | none => r
  | some task => (r.perform task).1.withTasks (r.tasks.set k (r.perform task).2)

/-- A connection is made, and has its id. -/
def connect (r : Registry α) (actor : User) (name detail : Text) (item : α) : Registry α :=
  { r with
    handed := r.handed + 1
    tasks := r.tasks ++ [.insertItem (idOf r.kind (r.handed + 1)) actor.id name detail item] }

def disconnect (r : Registry α) (actor : User) (id : Text) : Registry α :=
  if ownsResource r.owners id actor then { r with tasks := r.tasks ++ [.removeOwner id] } else r

def after (r : Registry α) : RegistryEvent α → Registry α
  | .connect actor name detail item => r.connect actor name detail item
  | .disconnect actor id => r.disconnect actor id
  | .advances k => r.advances k
  | .rehashes order => if order.Perm r.owners then { r with owners := order } else r

/-! ### Reading the maps -/

/-- The ids of a user, in the order in which the map is read. -/
def owned (r : Registry α) (user : ℤ) : List Text :=
  (r.owners.filter fun entry => entry.2 = user).map Prod.fst

def nameOf (r : Registry α) (id : Text) : Option Text :=
  (r.metas id).map Prod.fst

/-- The first id of a user that is a text, or has it as its name. -/
def find (r : Registry α) (user : ℤ) (key : Text) : Option Text :=
  (r.owned user).find? fun id => id = key ∨ r.nameOf id = some key

/-- The registry as if there were only the ids of a user. -/
def own (r : Registry α) (user : ℤ) : Registry α :=
  { r with
    items := fun id => if id ∈ r.owned user then r.items id else none
    owners := r.owners.filter fun entry => entry.2 = user
    metas := fun id => if id ∈ r.owned user then r.metas id else none
    tasks := [] }

def without (r : Registry α) (id : Text) : Registry α :=
  { r with
    items := Function.update r.items id none
    owners := r.owners.filter fun entry => entry.1 ≠ id
    metas := Function.update r.metas id none }

def Owns (r : Registry α) (user : ℤ) (id : Text) : Prop :=
  (id, user) ∈ r.owners

/-- No id of a user is the name of another one that is read before it. -/
def Unshadowed (r : Registry α) (user : ℤ) : Prop :=
  (r.owned user).Pairwise fun id id' => r.nameOf id ≠ some id'

instance (r : Registry α) (user : ℤ) : Decidable (r.Unshadowed user) :=
  inferInstanceAs (Decidable (List.Pairwise _ _))

end Registry

end Mcp
