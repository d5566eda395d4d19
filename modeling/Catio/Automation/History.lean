import Catio.Automation.Repo

/-!
# The history of prompts

The model of `automation/history.rs`: the entries of all owners in one list, the latest first,
of which only so many are kept.
-/

namespace Automation

open First Text

/-- The number of entries that are kept. -/
def MAX_PROMPT_HISTORY : ℕ :=
  200

inductive PromptSource where
  | task
  | chat
  deriving DecidableEq

inductive PromptOutcome where
  | completed
  | failed
  | cancelled
  | outcomeUnknown
  deriving DecidableEq

structure PromptHistoryEntry where
  id : Text
  kind : Text
  source : PromptSource
  turnId : Text
  target : Text
  text : Text
  outcome : PromptOutcome
  when_ : Text
  dur : Text
  ownerId : Text
  deriving DecidableEq

instance : Item PromptHistoryEntry := ⟨PromptHistoryEntry.id, PromptHistoryEntry.ownerId⟩

/-- The history in memory, and its file. -/
structure PromptHistoryStore where
  entries : List PromptHistoryEntry
  file : DataFile
  deriving DecidableEq

inductive HistoryOp where
  | list (owner : Text)
  | push (entry : PromptHistoryEntry)
  | delete (owner id : Text)
  | clear (owner : Text)

/-- The owner for whom an operation is issued. -/
def HistoryOp.owner : HistoryOp → Text
  | .list owner => owner
  | .push entry => entry.ownerId
  | .delete owner _ => owner
  | .clear owner => owner

namespace PromptHistoryStore

variable (codec : Codec PromptHistoryEntry) (write : Write) (s : PromptHistoryStore)

def open_ (file : DataFile) : PromptHistoryStore :=
  ⟨readJson codec file, file⟩

def list (owner : Text) : List PromptHistoryEntry :=
  listOf owner s.entries

/-- The entries have changed in memory, and are saved. -/
def commit (entries : List PromptHistoryEntry) :
    Except AutomationError Unit × PromptHistoryStore :=
  match writeJson codec entries write with
  | (r, file) => (r, ⟨entries, file⟩)

/-- What an operation makes of the entries; `list` changes nothing. -/
def changeEntries (op : HistoryOp) (entries : List PromptHistoryEntry) :
    Except AutomationError (List PromptHistoryEntry) :=
  match op with
  | .list _ => .ok entries
  | .push entry => .ok ((entry :: entries).take MAX_PROMPT_HISTORY)
  | .delete owner id => changeOwned owner id (fun _ => none) entries
  | .clear owner => .ok (entries.filter fun e => !isOf owner e)

/-- An operation on the history, with what becomes of its write. -/
def perform (op : HistoryOp) :
    Except AutomationError (List PromptHistoryEntry) × PromptHistoryStore :=
  match op with
  | .list owner => (.ok (s.list owner), s)
  | op =>
      match changeEntries op s.entries with
      | .error e => (.error e, s)
      | .ok entries =>
          match commit codec write entries with
          | (r, s') => (r.map fun _ => [], s')

end PromptHistoryStore

end Automation
