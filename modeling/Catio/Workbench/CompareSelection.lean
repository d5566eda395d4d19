import Catio.Workbench.CompareTables.Sql

/-!
# Selected changes

The model of `components/workbench/compareSelection.ts`: the changes of a difference with their
names, and the difference that is left of some of them, whose binary cells are marked by their rows
among those that are left.
-/

namespace Workbench.CompareSql

open JavaScript

/-! ### Changes -/

def CompareChangeKind.toText : CompareChangeKind → Text
  | .inserts => "inserts"
  | .updates => "updates"
  | .deletes => "deletes"

def changeId (kind : CompareChangeKind) (ordinal : ℕ) : Text :=
  kind.toText ++ ':' :: Text.ofNat ordinal

structure CompareChange where
  kind : CompareChangeKind
  ordinal : ℕ
  source : Option (List Value)
  target : Option (List Value)
  sourceBinary : List ℚ
  targetBinary : List ℚ
  changedColumns : List ℚ

def CompareChange.id (change : CompareChange) : Text :=
  changeId change.kind change.ordinal

def binaryColumns (cells : List BinaryCell) (row : ℕ) : List ℚ :=
  ((cells.filter fun cell => cell.1 = (row : ℚ)).map Prod.snd).eraseDups

def allColumns (colNames : List Text) : List ℚ :=
  (List.range colNames.length).map fun c => (c : ℚ)

def compareChanges (diff : SyncDiff) : List CompareChange :=
  (diff.inserts.mapIdx fun ordinal source =>
      { kind := .inserts, ordinal := ordinal, source := some source, target := none
        sourceBinary := binaryColumns (diff.binaryOf .inserts) ordinal, targetBinary := []
        changedColumns := allColumns diff.colNames })
    ++ (diff.updates.mapIdx fun ordinal value =>
      { kind := .updates, ordinal := ordinal, source := some value.src, target := value.tgt
        sourceBinary := binaryColumns (diff.binaryOf .updates) ordinal
        targetBinary := (value.targetBinary.getD []).eraseDups
        changedColumns := value.changedColumns.getD [] })
    ++ (diff.deletes.mapIdx fun ordinal target =>
      { kind := .deletes, ordinal := ordinal, source := none, target := some target
        sourceBinary := [], targetBinary := binaryColumns (diff.binaryOf .deletes) ordinal
        changedColumns := allColumns diff.colNames })

/-! ### Selection -/

/-- The places of the selected changes of a kind. -/
def selectedIndexes (selected : Text → Bool) (kind : CompareChangeKind) (count : ℕ) : List ℕ :=
  (List.range count).filter fun i => selected (changeId kind i)

/-- The binary cells of some rows, by the places of the rows among these. -/
def reindexCells (cells : List BinaryCell) (indices : List ℕ) : List BinaryCell :=
  cells.flatMap fun (r, c) =>
    match indices.findIdx? fun (old : ℕ) => (old : ℚ) = r with
    | some next => [((next : ℚ), c)]
    | none => []

/-- What is left of a difference. -/
def selectedCompareDiff (diff : SyncDiff) (selected : Text → Bool) (allowDelete : Bool) :
    SyncDiff :=
  let inserts := selectedIndexes selected .inserts diff.inserts.length
  let updates := selectedIndexes selected .updates diff.updates.length
  let deletes := if allowDelete then selectedIndexes selected .deletes diff.deletes.length else []
  { diff with
    inserts := inserts.filterMap fun i => diff.inserts[i]?
    updates := updates.filterMap fun i => diff.updates[i]?
    deletes := deletes.filterMap fun i => diff.deletes[i]?
    binary := some {
      inserts := reindexCells (diff.binaryOf .inserts) inserts
      updates := reindexCells (diff.binaryOf .updates) updates
      deletes := reindexCells (diff.binaryOf .deletes) deletes } }

end Workbench.CompareSql

/-!
## The script of a selection

The statements of a difference belong to its changes, each with the binary cells that are marked for
it.  What is left of a difference after a selection has just the statements of the selected changes,
in their order and with their binary cells (`genSyncStatements_selected`).
-/

namespace Workbench.CompareSql

open JavaScript

/-! ### Statements of changes -/

section

variable (target : SyncTarget) (diff : SyncDiff)

/-- The statement of a change, if it has one: a cell is binary if it is marked in the difference. -/
def changeStatement (change : CompareChange) : Except Text (Option Text) :=
  let binary := marked (diff.binaryOf change.kind) change.ordinal
  match change.kind with
  | .inserts =>
      (insertText target diff.colNames (change.source.getD []) binary).map some
  | .updates =>
      updateText target diff.colNames diff.pkNames (change.source.getD []) binary
  | .deletes =>
      (deleteText target diff.colNames diff.pkNames (change.target.getD []) binary).map some

/-- The script of some changes of a difference. -/
def script (changes : List CompareChange) : Except Text (List Text) :=
  if refused target diff then .ok [] else collect (changes.map (changeStatement target diff))

/-- A change is in the script of the difference: deletes have to be allowed. -/
def isOffered (allowDelete : Bool) (change : CompareChange) : Bool :=
  change.kind ≠ .deletes || allowDelete

end

/-! ### Rows of the selected changes -/

theorem mapIdx_filterMap {α β : Type} {rows : List α} {f g : ℕ → α → β} {indices : List ℕ}
    (hlt : ∀ i ∈ indices, i < rows.length)
    (h : ∀ pre i post, indices = pre ++ i :: post → f pre.length = g i) :
  (indices.filterMap fun i => rows[i]?).mapIdx f = indices.filterMap fun i => rows[i]?.map (g i)
  := by
  induction indices using List.reverseRecOn with
  | nil => rfl
  | append_singleton indices i ih =>
    have hi := hlt i (by simp)
    have hrest : ∀ j ∈ indices, j < rows.length := by
      intro j hj
      exact hlt j (List.mem_append_left _ hj)
    have hlength : (indices.filterMap fun i => rows[i]?).length = indices.length := by
      rw [List.filterMap_length_eq_length]
      intro j hj
      simpa using hrest j hj
    rw [List.filterMap_append, List.filterMap_append, List.mapIdx_append, ih hrest, hlength]
    · have hrow : rows[i]? = some rows[i] := List.getElem?_eq_getElem hi
      simp [hrow, h indices i [] rfl]
    · intro pre j post heq
      apply h pre j (post ++ [i])
      simp [heq]

theorem marked_reindexCells (cells : List BinaryCell) {pre post : List ℕ} {i : ℕ} (h : i ∉ pre) :
  marked (reindexCells cells (pre ++ i :: post)) pre.length = marked cells i
  := by
  have hplace : ∀ r : ℚ, (pre ++ i :: post).findIdx? (fun (old : ℕ) => (old : ℚ) = r)
      = some pre.length ↔ (i : ℚ) = r := by
    intro r
    rw [List.findIdx?_eq_some_iff_getElem]
    constructor
    · rintro ⟨hlt, hr, -⟩
      simpa using hr
    · rintro rfl
      refine ⟨by simp, by simp, ?_⟩
      intro j hj
      rw [List.getElem_append_left hj]
      simp only [decide_eq_true_eq, Rat.natCast_inj]
      rintro rfl
      exact h (List.getElem_mem hj)
  funext c
  unfold marked reindexCells
  rw [decide_eq_decide, List.mem_flatMap]
  constructor
  · rintro ⟨⟨r, c'⟩, hcell, hmem⟩
    dsimp only at hmem
    split at hmem
    · rename_i next hnext
      obtain ⟨hr, rfl⟩ := Prod.mk.inj (List.mem_singleton.mp hmem)
      obtain rfl := Rat.natCast_inj.mp hr
      rw [(hplace r).mp hnext]
      exact hcell
    · cases hmem
  · intro hcell
    refine ⟨_, hcell, ?_⟩
    dsimp only
    rw [(hplace i).mpr rfl]
    exact List.mem_singleton_self _

/-! ### Scripts -/

section

variable (target : SyncTarget) (diff : SyncDiff)

theorem map_filter_mapIdx {α β γ : Type} (rows : List α) {change : ℕ → α → β} {p : β → Bool}
    {q : ℕ → Bool} {statement : β → γ} {result : ℕ → α → γ} (hp : ∀ i row, p (change i row) = q i)
    (h : ∀ i row, statement (change i row) = result i row) :
  ((rows.mapIdx change).filter p).map statement
    = ((List.range rows.length).filter q).filterMap fun i => rows[i]?.map (result i)
  := by
  induction rows using List.reverseRecOn with
  | nil => rfl
  | append_singleton rows row ih =>
    have hearlier : ((List.range rows.length).filter q).filterMap
          (fun i => (rows ++ [row])[i]?.map (result i))
        = ((List.range rows.length).filter q).filterMap fun i => rows[i]?.map (result i) := by
      apply List.filterMap_congr
      intro i hi
      rw [List.getElem?_append_left (List.mem_range.mp (List.mem_filter.mp hi).1)]
    rw [List.mapIdx_concat, List.filter_append, List.map_append, ih, List.length_append,
      List.length_singleton, List.range_succ, List.filter_append, List.filterMap_append, hearlier]
    congr 1
    cases hq : q rows.length with
    | true => simp [hp, hq, h]
    | false => simp [hp, hq]

theorem mapIdx_selected {α γ : Type} (rows : List α) (q : ℕ → Bool) {f g : ℕ → α → γ}
    (h : ∀ pre i post, (List.range rows.length).filter q = pre ++ i :: post → i ∉ pre →
      f pre.length = g i) :
  (((List.range rows.length).filter q).filterMap fun i => rows[i]?).mapIdx f
    = ((List.range rows.length).filter q).filterMap fun i => rows[i]?.map (g i)
  := by
  apply mapIdx_filterMap
  · intro i hi
    exact List.mem_range.mp (List.mem_filter.mp hi).1
  · intro pre i post heq
    apply h pre i post heq
    intro hi
    have hnodup : ((List.range rows.length).filter q).Nodup := List.nodup_range.filter q
    rw [heq] at hnodup
    exact (List.nodup_append.mp hnodup).2.2 i hi i List.mem_cons_self rfl

theorem script_filter {p : CompareChange → Bool} (q : CompareChangeKind → ℕ → Bool)
    (hp : ∀ change, p change = q change.kind change.ordinal) :
  script target diff ((compareChanges diff).filter p)
    = if refused target diff then .ok []
      else collect (((List.range diff.inserts.length).filter (q .inserts)).filterMap
          (fun i => diff.inserts[i]?.map (insertResult target diff i))
        ++ ((List.range diff.updates.length).filter (q .updates)).filterMap
          (fun i => diff.updates[i]?.map (updateResult target diff i))
        ++ ((List.range diff.deletes.length).filter (q .deletes)).filterMap
          (fun i => diff.deletes[i]?.map (deleteResult target diff i)))
  := by
  have hinserts := @map_filter_mapIdx _ _ _ diff.inserts
    (fun ordinal source =>
      { kind := .inserts, ordinal := ordinal, source := some source, target := none
        sourceBinary := binaryColumns (diff.binaryOf .inserts) ordinal, targetBinary := []
        changedColumns := allColumns diff.colNames }) p (q .inserts) (changeStatement target diff)
    (insertResult target diff) (fun i row => hp _)
    (fun i row => rfl)
  have hupdates := @map_filter_mapIdx _ _ _ diff.updates
    (fun ordinal value =>
      { kind := .updates, ordinal := ordinal, source := some value.src, target := value.tgt
        sourceBinary := binaryColumns (diff.binaryOf .updates) ordinal
        targetBinary := (value.targetBinary.getD []).eraseDups
        changedColumns := value.changedColumns.getD [] }) p (q .updates)
    (changeStatement target diff) (updateResult target diff) (fun i u => hp _)
    (fun i u => rfl)
  have hdeletes := @map_filter_mapIdx _ _ _ diff.deletes
    (fun ordinal row =>
      { kind := .deletes, ordinal := ordinal, source := none, target := some row
        sourceBinary := [], targetBinary := binaryColumns (diff.binaryOf .deletes) ordinal
        changedColumns := allColumns diff.colNames }) p (q .deletes) (changeStatement target diff)
    (deleteResult target diff) (fun i row => hp _)
    (fun i row => rfl)
  unfold script compareChanges
  rw [List.filter_append, List.filter_append, List.map_append, List.map_append, hinserts, hupdates,
    hdeletes]

theorem filterMap_range {α γ : Type} (rows : List α) (f : ℕ → α → γ) :
  ((List.range rows.length).filter fun _ => true).filterMap (fun i => rows[i]?.map (f i))
    = rows.mapIdx f
  := by
  have h := @map_filter_mapIdx _ _ _ rows f (fun _ => true) (fun _ => true) id f
    (fun i row => rfl) (fun i row => rfl)
  rw [← h, List.map_id, List.filter_eq_self]
  intro x hx
  rfl

theorem genSyncStatements_eq_script (allowDelete : Bool) :
  genSyncStatements target diff allowDelete
    = script target diff ((compareChanges diff).filter (isOffered allowDelete))
  := by
  have hdeletes : ((List.range diff.deletes.length).filter fun _ =>
        decide (CompareChangeKind.deletes ≠ .deletes) || allowDelete).filterMap
        (fun i => diff.deletes[i]?.map (deleteResult target diff i))
      = if allowDelete then diff.deletes.mapIdx (deleteResult target diff) else [] := by
    cases allowDelete with
    | false => simp
    | true => exact filterMap_range diff.deletes _
  have hscript := @script_filter target diff (isOffered allowDelete)
    (fun kind _ => decide (kind ≠ .deletes) || allowDelete) (fun change => rfl)
  rw [genSyncStatements_eq_collect, hscript, hdeletes, ← filterMap_range diff.inserts,
    ← filterMap_range diff.updates]
  rfl

theorem insertResult_selected (selected : Text → Bool) (allowSelected : Bool) :
  (selectedCompareDiff diff selected allowSelected).inserts.mapIdx
      (insertResult target (selectedCompareDiff diff selected allowSelected))
    = (selectedIndexes selected .inserts diff.inserts.length).filterMap
      fun i => diff.inserts[i]?.map (insertResult target diff i)
  := by
  apply mapIdx_selected diff.inserts
  intro pre i post heq hi
  have hmarked := @marked_reindexCells (diff.binaryOf .inserts) _ post _ hi
  rw [← heq] at hmarked
  funext row
  exact congrArg (fun binary => (insertText target diff.colNames row binary).map some) hmarked

theorem updateResult_selected (selected : Text → Bool) (allowSelected : Bool) :
  (selectedCompareDiff diff selected allowSelected).updates.mapIdx
      (updateResult target (selectedCompareDiff diff selected allowSelected))
    = (selectedIndexes selected .updates diff.updates.length).filterMap
      fun i => diff.updates[i]?.map (updateResult target diff i)
  := by
  apply mapIdx_selected diff.updates
  intro pre i post heq hi
  have hmarked := @marked_reindexCells (diff.binaryOf .updates) _ post _ hi
  rw [← heq] at hmarked
  funext u
  exact congrArg (updateText target diff.colNames diff.pkNames u.src) hmarked

theorem deleteResult_selected (selected : Text → Bool) (allowSelected : Bool) :
  (selectedCompareDiff diff selected allowSelected).deletes.mapIdx
      (deleteResult target (selectedCompareDiff diff selected allowSelected))
    = if allowSelected then
        (selectedIndexes selected .deletes diff.deletes.length).filterMap
          fun i => diff.deletes[i]?.map (deleteResult target diff i)
      else []
  := by
  cases allowSelected with
  | false => rfl
  | true =>
    apply mapIdx_selected diff.deletes
    intro pre i post heq hi
    have hmarked := @marked_reindexCells (diff.binaryOf .deletes) _ post _ hi
    rw [← heq] at hmarked
    funext row
    exact congrArg
      (fun binary => (deleteText target diff.colNames diff.pkNames row binary).map some) hmarked

theorem genSyncStatements_selectedCompareDiff (selected : Text → Bool)
    (allowSelected allowDelete : Bool) :
  genSyncStatements target (selectedCompareDiff diff selected allowSelected) allowDelete
    = script target diff ((compareChanges diff).filter fun change =>
        isOffered allowDelete change && selected change.id && isOffered allowSelected change)
  := by
  have hscript := @script_filter target diff
    (fun change =>
      isOffered allowDelete change && selected change.id && isOffered allowSelected change)
    (fun kind i => (decide (kind ≠ .deletes) || allowDelete) && selected (changeId kind i)
      && (decide (kind ≠ .deletes) || allowSelected)) (fun change => rfl)
  have hkept : ∀ kind : CompareChangeKind, kind ≠ .deletes → ∀ count : ℕ,
      (List.range count).filter (fun i => (decide (kind ≠ .deletes) || allowDelete)
        && selected (changeId kind i) && (decide (kind ≠ .deletes) || allowSelected))
      = selectedIndexes selected kind count := by
    intro kind hkind count
    simp [selectedIndexes, hkind]
  rw [hscript, hkept .inserts (by decide), hkept .updates (by decide),
    genSyncStatements_eq_collect, insertResult_selected, updateResult_selected,
    deleteResult_selected]
  have hdeletes : ((List.range diff.deletes.length).filter fun i =>
        (decide (CompareChangeKind.deletes ≠ .deletes) || allowDelete)
          && selected (changeId .deletes i)
          && (decide (CompareChangeKind.deletes ≠ .deletes) || allowSelected)).filterMap
        (fun i => diff.deletes[i]?.map (deleteResult target diff i))
      = if allowDelete then
          if allowSelected then
            (selectedIndexes selected .deletes diff.deletes.length).filterMap
              fun i => diff.deletes[i]?.map (deleteResult target diff i)
          else []
        else [] := by
    cases allowDelete <;> cases allowSelected <;> simp [selectedIndexes]
  rw [hdeletes]
  rfl

/-- A selection makes the script of the selected changes in the order of the full script, with its
binary cells; if there is a full script, it holds these statements. -/
theorem genSyncStatements_selected (selected : Text → Bool) (allowSelected allowDelete : Bool) :
  genSyncStatements target diff allowDelete
    = script target diff ((compareChanges diff).filter (isOffered allowDelete))
  ∧ genSyncStatements target (selectedCompareDiff diff selected allowSelected) allowDelete
    = script target diff (((compareChanges diff).filter (isOffered allowDelete)).filter fun change =>
        selected change.id && isOffered allowSelected change)
  ∧ ∀ lines, genSyncStatements target diff allowDelete = .ok lines →
      ∃ lines', genSyncStatements target (selectedCompareDiff diff selected allowSelected)
        allowDelete = .ok lines' ∧ lines'.Sublist lines
  := by
  have hselected : genSyncStatements target (selectedCompareDiff diff selected allowSelected)
        allowDelete
      = script target diff (((compareChanges diff).filter (isOffered allowDelete)).filter
        fun change => selected change.id && isOffered allowSelected change) := by
    rw [genSyncStatements_selectedCompareDiff, List.filter_filter]
    congr 2
    funext change
    rw [Bool.and_assoc, Bool.and_comm]
  refine ⟨genSyncStatements_eq_script target diff allowDelete, hselected, ?_⟩
  intro lines hlines
  rw [hselected]
  rw [genSyncStatements_eq_script] at hlines
  unfold script at hlines ⊢
  split at hlines
  · rename_i hrefused
    rw [if_pos hrefused]
    exact ⟨lines, hlines, List.Sublist.refl lines⟩
  · rename_i hrefused
    rw [if_neg hrefused]
    exact collect_sublist (List.filter_sublist.map _) hlines

end

end Workbench.CompareSql
