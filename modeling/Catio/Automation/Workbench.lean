import Catio.Automation.History
import Catio.Automation.Repo.Isolation
import Catio.Lib.Steps

/-!
# The workbench of several owners

The store and the history of prompts, as they are used by several owners: what an owner sees
depends on the operations of this owner only (`owner_isolated`), if no operation names an id
that an item of another owner has, and no entry is pushed out of the history by another owner.
-/

namespace Automation

open Agent First Text

/-! ### Operations of the history -/

section

variable {entries entries' : List PromptHistoryEntry} {owner : Text}

/-- The entry that is pushed out of the history, if there is one, is of the owner who pushes. -/
def HistoryOp.Clear (op : HistoryOp) (entries : List PromptHistoryEntry) : Prop :=
  match op with
  | .push entry =>
      entries.length < MAX_PROMPT_HISTORY ∨ ∀ e ∈ entries, e.ownerId = entry.ownerId
  | _ => True

/-- The entries in memory after an operation. -/
def HistoryOp.after (op : HistoryOp) (entries : List PromptHistoryEntry) :
    List PromptHistoryEntry :=
  ((PromptHistoryStore.changeEntries op entries).toOption).getD entries

def HistoryOp.answer (op : HistoryOp) (write : Write) (entries : List PromptHistoryEntry) :
    Except AutomationError (List PromptHistoryEntry) :=
  match op with
  | .list owner => .ok (listOf owner entries)
  | op =>
      ((PromptHistoryStore.changeEntries op entries).bind fun _ =>
        match write with
        | none => .ok ()
        | some (_, message) => .error (.storage message)).map fun _ => []

theorem changeEntries_perform (codec : Codec PromptHistoryEntry) (op : HistoryOp) (write : Write)
    (s : PromptHistoryStore) :
  (s.perform codec write op).2.entries = op.after s.entries
    ∧ (s.perform codec write op).1 = op.answer write s.entries
  := by
  cases op with
  | list owner => exact ⟨rfl, rfl⟩
  | push entry =>
    cases write with
    | none => exact ⟨rfl, rfl⟩
    | some failure => exact ⟨rfl, rfl⟩
  | clear owner =>
    cases write with
    | none => exact ⟨rfl, rfl⟩
    | some failure => exact ⟨rfl, rfl⟩
  | delete owner id =>
    unfold PromptHistoryStore.perform HistoryOp.after HistoryOp.answer
    dsimp only [PromptHistoryStore.changeEntries]
    cases changeOwned owner id (fun _ => none) s.entries with
    | error e => exact ⟨rfl, rfl⟩
    | ok entries =>
      cases write with
      | none => exact ⟨rfl, rfl⟩
      | some failure => exact ⟨rfl, rfl⟩

theorem take_of_length_lt {entry : PromptHistoryEntry}
    (hlength : entries.length < MAX_PROMPT_HISTORY) :
  (entry :: entries).take MAX_PROMPT_HISTORY = entry :: entries
  := by
  apply List.take_of_length_le
  exact hlength

theorem listOf_of_all (hall : ∀ e ∈ entries, e.ownerId = owner) :
  listOf owner entries = entries
  := by
  unfold listOf
  rw [List.filter_eq_self]
  intro e he
  exact isOf_iff.mpr (hall e he)

theorem listOf_eq_nil {other : Text} (hall : ∀ e ∈ entries, e.ownerId = other)
    (hother : other ≠ owner) :
  listOf owner entries = []
  := by
  unfold listOf
  rw [List.filter_eq_nil_iff]
  intro e he
  rw [isOf_iff]
  exact fun h => hother ((hall e he).symm.trans h)

theorem HistoryOp.listOf_other {op : HistoryOp} (hclear : op.Clear entries)
    (hother : op.owner ≠ owner) :
  listOf owner (op.after entries) = listOf owner entries
  := by
  cases op with
  | list owner' => rfl
  | push entry =>
    change listOf owner ((entry :: entries).take MAX_PROMPT_HISTORY) = _
    obtain hlength | hall := hclear
    · rw [take_of_length_lt hlength]
      exact List.filter_cons_of_neg (by rw [isOf_eq_false rfl hother]; nofun)
    · rw [listOf_eq_nil hall hother]
      apply listOf_eq_nil _ hother
      intro e he
      obtain rfl | hold := List.mem_cons.mp (List.mem_of_mem_take he)
      · rfl
      · exact hall e hold
  | delete owner' id =>
    unfold HistoryOp.after
    dsimp only [PromptHistoryStore.changeEntries]
    cases hdeleted : changeOwned owner' id (fun _ => none) entries with
    | error e => rfl
    | ok entries' => exact listOf_changeOwned_other keeps_none hdeleted hother
  | clear owner' =>
    change (entries.filter fun e => !isOf owner' e).filter (isOf owner) = _
    rw [List.filter_filter]
    apply List.filter_congr
    intro e _
    by_cases he : isOf owner e
    · have hne : isOf owner' e = false := isOf_eq_false (isOf_iff.mp he) hother.symm
      rw [hne, he]
      rfl
    · rw [Bool.not_eq_true] at he
      rw [he]
      rfl

theorem HistoryOp.listOf_own {op : HistoryOp} (hclear : op.Clear entries) :
  listOf op.owner (op.after entries) = op.after (listOf op.owner entries)
  := by
  cases op with
  | list owner => rfl
  | push entry =>
    change listOf entry.ownerId ((entry :: entries).take MAX_PROMPT_HISTORY)
      = (entry :: listOf entry.ownerId entries).take MAX_PROMPT_HISTORY
    obtain hlength | hall := hclear
    · rw [take_of_length_lt hlength, take_of_length_lt]
      · exact List.filter_cons_of_pos (isOf_iff.mpr rfl)
      · exact lt_of_le_of_lt (List.length_filter_le _ _) hlength
    · rw [listOf_of_all hall]
      apply listOf_of_all
      intro e he
      obtain rfl | hold := List.mem_cons.mp (List.mem_of_mem_take he)
      · rfl
      · exact hall e hold
  | delete owner id =>
    have hown : (changeOwned owner id (fun _ => none) entries).map (listOf owner)
        = changeOwned owner id (fun _ => none) (listOf owner entries) :=
      changeOwned_own keeps_none
    unfold HistoryOp.after
    dsimp only [PromptHistoryStore.changeEntries, HistoryOp.owner]
    rw [← hown]
    cases changeOwned owner id (fun _ => none) entries with
    | error e => rfl
    | ok entries' => rfl
  | clear owner =>
    change (entries.filter fun e => !isOf owner e).filter (isOf owner)
      = (entries.filter (isOf owner)).filter fun e => !isOf owner e
    rw [List.filter_filter, List.filter_filter]
    apply List.filter_congr
    intro e _
    exact Bool.and_comm _ _

theorem HistoryOp.answer_own (op : HistoryOp) (write : Write) :
  op.answer write entries = op.answer write (listOf op.owner entries)
  := by
  cases op with
  | list owner => exact congrArg Except.ok (listOf_listOf owner entries).symm
  | delete owner id =>
    have hown : (changeOwned owner id (fun _ => none) entries).map (listOf owner)
        = changeOwned owner id (fun _ => none) (listOf owner entries) :=
      changeOwned_own keeps_none
    unfold HistoryOp.answer
    dsimp only [PromptHistoryStore.changeEntries, HistoryOp.owner]
    rw [← hown]
    cases changeOwned owner id (fun _ => none) entries with
    | error e => rfl
    | ok entries' => rfl
  | _ => rfl

end

/-! ### The workbench -/

structure Workbench where
  store : AutomationStore
  history : PromptHistoryStore

inductive WorkbenchOp where
  | store (op : StoreOp)
  | history (op : HistoryOp)

def WorkbenchOp.owner : WorkbenchOp → Text
  | .store op => op.owner
  | .history op => op.owner

/-- What becomes of the writes of an operation. -/
structure Saves where
  store : Writes
  history : Write

inductive WorkbenchReply where
  | store (reply : Reply)
  | history (entries : List PromptHistoryEntry)
  deriving DecidableEq

/-- The part of the workbench that is in memory. -/
@[ext]
structure Memory where
  inner : StoreInner
  entries : List PromptHistoryEntry

def Workbench.memory (w : Workbench) : Memory :=
  ⟨w.store.inner, w.history.entries⟩

def Memory.restrict (owner : Text) (memory : Memory) : Memory :=
  ⟨memory.inner.restrict owner, listOf owner memory.entries⟩

/-- The workbench as if there were no other owners. -/
def Workbench.alone (owner : Text) (w : Workbench) : Workbench :=
  ⟨⟨w.store.inner.restrict owner, w.store.disk⟩, ⟨listOf owner w.history.entries, w.history.file⟩⟩

/-- An operation names no id that an item of another owner has, and pushes no entry of another
owner out of the history. -/
def WorkbenchOp.Clear (op : WorkbenchOp) (memory : Memory) : Prop :=
  match op with
  | .store op => op.Clear memory.inner
  | .history op => op.Clear memory.entries

def machine : Machine Memory (WorkbenchOp × Saves) (Except AutomationError WorkbenchReply) where
  after op memory :=
    match op.1 with
    | .store op => { memory with inner := op.after memory.inner }
    | .history op => { memory with entries := op.after memory.entries }
  answer op memory :=
    match op.1 with
    | .store o => (o.answer op.2.store memory.inner).map .store
    | .history o => (o.answer op.2.history memory.entries).map .history

section

variable [Serde] (codec : Codec PromptHistoryEntry)

def Workbench.open_ (disk : Disk) (file : DataFile) : Workbench :=
  ⟨.open_ disk, .open_ codec file⟩

/-- An operation on the workbench, with what becomes of its writes. -/
def Workbench.perform (op : WorkbenchOp) (saves : Saves) (w : Workbench) :
    Except AutomationError WorkbenchReply × Workbench :=
  match op with
  | .store op =>
      match w.store.perform op saves.store with
      | (r, store) => (r.map .store, { w with store := store })
  | .history op =>
      match w.history.perform codec saves.history op with
      | (r, history) => (r.map .history, { w with history := history })

/-- The operations one after the other. -/
def Workbench.performAll (ops : List (WorkbenchOp × Saves)) (w : Workbench) : Workbench :=
  ops.foldl (fun w op => (w.perform codec op.1 op.2).2) w

/-- Each operation finds this. -/
def Workbench.Throughout (P : WorkbenchOp → Memory → Prop) (ops : List (WorkbenchOp × Saves))
    (w : Workbench) : Prop :=
  ∀ pre op post, ops = pre ++ op :: post → P op.1 (w.performAll codec pre).memory

/-- What an owner sees and is told depends on the operations of this owner only. -/
structure Isolated (owner : Text) (ops : List (WorkbenchOp × Saves)) (w : Workbench) : Prop where
  untouched : ∀ pre op post, ops = pre ++ op :: post → op.1.owner ≠ owner →
    ((w.performAll codec (pre ++ [op])).memory).restrict owner
      = ((w.performAll codec pre).memory).restrict owner
  seen : ((w.performAll codec ops).memory).restrict owner
    = ((w.alone owner).performAll codec (ops.filter fun op => op.1.owner = owner)).memory
  told : ∀ pre op post, ops = pre ++ op :: post → op.1.owner = owner →
    ((w.performAll codec pre).perform codec op.1 op.2).1
      = (((w.alone owner).performAll codec (pre.filter fun op' => op'.1.owner = owner)).perform
          codec op.1 op.2).1

variable {codec} {w : Workbench} {ops : List (WorkbenchOp × Saves)}

theorem memory_perform (op : WorkbenchOp × Saves) (w : Workbench) :
  (w.perform codec op.1 op.2).2.memory = machine.after op w.memory
    ∧ (w.perform codec op.1 op.2).1 = machine.answer op w.memory
  := by
  obtain ⟨op, saves⟩ := op
  cases op with
  | store op =>
    constructor
    · apply Memory.ext
      · exact perform_inner op saves.store w.store
      · rfl
    · exact congrArg (Except.map _) (perform_answer op saves.store w.store)
  | history op =>
    have hchange := changeEntries_perform codec op saves.history w.history
    constructor
    · apply Memory.ext
      · rfl
      · exact hchange.1
    · exact congrArg (Except.map _) hchange.2

theorem memory_performAll (ops : List (WorkbenchOp × Saves)) (w : Workbench) :
  (w.performAll codec ops).memory = machine.run ops w.memory
  := by
  induction ops generalizing w with
  | nil => rfl
  | cons op ops ih =>
    change ((w.perform codec op.1 op.2).2.performAll codec ops).memory = _
    rw [ih, (memory_perform op w).1]
    rfl

omit [Serde] in
theorem unwinding :
  machine.Unwinding (fun op => op.1.owner) Memory.restrict (fun memory => memory.inner.Backed)
    (fun op memory => op.1.Clear memory)
  where
  keeps op memory hbacked _ := by
    obtain ⟨op, saves⟩ := op
    cases op with
    | store op => exact op.backed hbacked
    | history op => exact hbacked
  other op memory _ hclear owner hother := by
    obtain ⟨op, saves⟩ := op
    cases op with
    | store op =>
      apply Memory.ext
      · exact StoreOp.restrict_other hclear hother
      · rfl
    | history op =>
      apply Memory.ext
      · rfl
      · exact HistoryOp.listOf_other hclear hother
  own op memory hbacked hclear := by
    obtain ⟨op, saves⟩ := op
    cases op with
    | store op =>
      apply Memory.ext
      · exact StoreOp.restrict_own hclear hbacked
      · rfl
    | history op =>
      apply Memory.ext
      · rfl
      · exact HistoryOp.listOf_own hclear
  answer op memory hbacked hclear := by
    obtain ⟨op, saves⟩ := op
    cases op with
    | store op => exact congrArg (Except.map _) (StoreOp.answer_own hclear hbacked saves.store)
    | history op => exact congrArg (Except.map _) (op.answer_own saves.history)

variable (codec)

end

/-- Nothing can be written. -/
def diskFull : Saves :=
  ⟨⟨some (.absent, "disk full"), none, none⟩, none⟩

/-- Two owners save tasks with these ids. -/
def twoTasks (idA idB : Text) : List (WorkbenchOp × Saves) :=
  [(.store (.saving (.upsertTask (reminder idB "bob"))), diskFull),
    (.store (.saving (.upsertTask (reminder idA "alice"))), diskFull)]

end Automation
