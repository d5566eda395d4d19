import Catio.Lib.Places
import Catio.Workbench.CompareTables.Statements
import Mathlib.Data.List.Perm.Subperm

/-!
# Comparison converges

The statements of a difference bring the target to the contents of the source, and then there is no
difference any more.
-/

namespace Workbench

open JavaScript

/-! ### The target after the statements -/

/-- The rows of the target after its statements, in the order of the source. -/
def syncedRows (keys : List ℕ) (target inserted updated deleted : List Item) :
    List (List Cell) :=
  ((target.map Item.cells ++ inserted.map Item.cells).map (updated.foldl (updateRow keys))).filter
    fun row => deleted.all fun item => keyOf keys row ≠ keyOf keys item.cells

section Synced

variable {input : CompareInput} {p : Prepared}

/-- The rows that come out of a comparison. -/
def Prepared.synced (p : Prepared) (width : ℕ) : List (List Cell) :=
  syncedRows p.keys p.target (p.source.filter (isNew p)) (p.source.filter (isChanged width p))
    (p.target.filter (isGone p))

variable {row : List Cell} {width : ℕ} {keys : List ℕ}

theorem mem_synced :
  row ∈ p.synced width ↔
    ∃ item, (item ∈ p.target ∨ item ∈ p.source ∧ isNew p item)
      ∧ (p.source.filter (isChanged width p)).foldl (updateRow p.keys) item.cells = row
      ∧ ∀ gone ∈ p.target, isGone p gone → keyOf p.keys row ≠ keyOf p.keys gone.cells
  := by
  unfold Prepared.synced syncedRows
  rw [← List.map_append, List.mem_filter, List.map_map, List.mem_map]
  simp only [List.mem_append, List.mem_filter, Function.comp_apply, List.all_eq_true,
    decide_eq_true_eq, and_imp]
  constructor
  · rintro ⟨⟨item, hitem, rfl⟩, hkept⟩
    exact ⟨item, hitem, rfl, hkept⟩
  · rintro ⟨item, hitem, rfl, hkept⟩
    exact ⟨⟨item, hitem, rfl⟩, hkept⟩

theorem Ready.keyOf_updated (h : Ready input p) {item : Item} (hitem : item ∈ p.source ++ p.target)
    (items : List Item) :
  keyOf p.keys (items.foldl (updateRow p.keys) item.cells) = keyOf p.keys item.cells
    ∧ (items.foldl (updateRow p.keys) item.cells).length = input.srcColumns.length
  := by
  have hlength : item.cells.length = input.srcColumns.length := (h.good item hitem).length
  have hplaces : ∀ i ∈ p.keys, i < item.cells.length := fun i hi => hlength ▸ h.key_lt i hi
  obtain ⟨hkey, hrow⟩ := foldl_updateRow items hplaces
  exact ⟨hkey, hrow.trans hlength⟩

theorem Ready.keys_synced (h : Ready input p) (k : List (Bool × Text)) :
  k ∈ (p.synced input.srcColumns.length).map (keyOf p.keys)
    ↔ k ∈ p.source.map fun item => keyOf p.keys item.cells
  := by
  rw [List.mem_map, List.mem_map]
  constructor
  · rintro ⟨row, hrow, rfl⟩
    obtain ⟨item, hitem | ⟨hitem, _⟩, rfl, hkept⟩ := mem_synced.mp hrow
    · rw [(h.keyOf_updated (List.mem_append_right _ hitem) _).1] at hkept ⊢
      by_contra hnone
      refine hkept item hitem ((h.isGone_iff hitem).mpr ?_) rfl
      intro s hs heq
      exact hnone ⟨s, hs, heq⟩
    · rw [(h.keyOf_updated (List.mem_append_left _ hitem) _).1]
      exact ⟨item, hitem, rfl⟩
  · rintro ⟨s, hs, rfl⟩
    have hkept : ∀ gone ∈ p.target, isGone p gone →
        keyOf p.keys s.cells ≠ keyOf p.keys gone.cells := fun gone hgone hisGone =>
      (h.isGone_iff hgone).mp hisGone s hs
    by_cases hnew : isNew p s
    · obtain ⟨hkey, _⟩ := h.keyOf_updated (List.mem_append_left p.target hs)
        (p.source.filter (isChanged input.srcColumns.length p))
      refine ⟨_, mem_synced.mpr ⟨s, .inr ⟨hs, hnew⟩, rfl, ?_⟩, hkey⟩
      rwa [hkey]
    · rw [h.isNew_iff hs] at hnew
      push Not at hnew
      obtain ⟨t, ht, heq⟩ := hnew
      obtain ⟨hkey, _⟩ := h.keyOf_updated (List.mem_append_right p.source ht)
        (p.source.filter (isChanged input.srcColumns.length p))
      refine ⟨_, mem_synced.mpr ⟨t, .inl ht, rfl, ?_⟩, hkey.trans heq⟩
      rwa [hkey, heq]

theorem Ready.nodup_synced (h : Ready input p)
    (hsource : (p.source.map fun item => keyOf p.keys item.cells).Nodup)
    (htarget : (p.target.map fun item => keyOf p.keys item.cells).Nodup) :
  ((p.synced input.srcColumns.length).map (keyOf p.keys)).Nodup
  := by
  have hkeys : ((p.target.map Item.cells ++ (p.source.filter (isNew p)).map Item.cells).map
        ((p.source.filter (isChanged input.srcColumns.length p)).foldl (updateRow p.keys))).map
          (keyOf p.keys)
      = p.target.map (fun item => keyOf p.keys item.cells)
        ++ (p.source.filter (isNew p)).map fun item => keyOf p.keys item.cells := by
    rw [← List.map_append, List.map_map, List.map_map, ← List.map_append]
    apply List.map_congr_left
    intro item hitem
    have hmem : item ∈ p.source ++ p.target := by
      obtain hitem | hitem := List.mem_append.mp hitem
      · exact List.mem_append_right _ hitem
      · exact List.mem_append_left _ (List.mem_of_mem_filter hitem)
    exact (h.keyOf_updated hmem _).1
  have hall : (p.target.map (fun item => keyOf p.keys item.cells)
      ++ (p.source.filter (isNew p)).map fun item => keyOf p.keys item.cells).Nodup := by
    apply List.Nodup.append htarget
    · exact hsource.sublist (List.filter_sublist.map _)
    · intro k hold hnew
      obtain ⟨t, ht, rfl⟩ := List.mem_map.mp hold
      obtain ⟨s, hs, heq⟩ := List.mem_map.mp hnew
      obtain ⟨hs, hisNew⟩ := List.mem_filter.mp hs
      exact (h.isNew_iff hs).mp hisNew t ht heq.symm
  unfold Prepared.synced syncedRows
  apply List.Nodup.sublist (List.filter_sublist.map (keyOf p.keys))
  rwa [hkeys]

theorem sameCell_self {cell : Cell} (h : cell.value ≠ .number .nan) :
  sameCell cell cell
  := by
  unfold sameCell
  rw [valuesEqual_self h]
  simp

theorem sameCell_of_keyForm {a b : Cell} (h : a.keyForm = b.keyForm)
    (ha : unsafeKey a.value = false) (hb : unsafeKey b.value = false) :
  sameCell a b
  := by
  obtain ⟨v, binary⟩ := a
  obtain ⟨w, binary'⟩ := b
  obtain ⟨rfl, htext⟩ := Prod.mk.inj h
  cases binary with
  | false =>
    have hequal : valuesEqual v w := valuesEqual_of_toText ha hb (by simpa using htext)
    simp [sameCell, hequal]
  | true => simpa [sameCell] using htext

theorem Ready.same_self (h : Ready input p) (hnan : ∀ item ∈ p.source, .number .nan ∉ item.row)
    {s : Item} (hs : s ∈ p.source) {c : ℕ} (hc : c < input.srcColumns.length) :
  sameCell (cellOf s.cells c) (cellOf s.cells c)
  := by
  have hc : c < s.row.length := by
    rw [h.row_length s (List.mem_append_left _ hs)]
    exact hc
  apply sameCell_self
  rw [cellOf_cells hc]
  intro heq
  apply hnan s hs
  rw [← heq]
  simp [cellAt, List.getD_eq_getElem?_getD, hc]

theorem Ready.same_synced (h : Ready input p)
    (hsource : (p.source.map fun item => keyOf p.keys item.cells).Nodup)
    (htarget : (p.target.map fun item => keyOf p.keys item.cells).Nodup)
    (hnan : ∀ item ∈ p.source, .number .nan ∉ item.row) {s : Item} (hs : s ∈ p.source)
    (hrow : row ∈ p.synced input.srcColumns.length)
    (hkey : keyOf p.keys s.cells = keyOf p.keys row) :
  ∀ c < input.srcColumns.length, sameCell (cellOf s.cells c) (cellOf row c)
  := by
  intro c hc
  have hunique : ∀ u ∈ p.source, keyOf p.keys s.cells = keyOf p.keys u.cells → s = u :=
    fun u hu heq => List.inj_on_of_nodup_map hsource hs hu heq
  obtain ⟨item, hitem | ⟨hitem, hnew⟩, rfl, _⟩ := mem_synced.mp hrow
  · have hmem := List.mem_append_right p.source hitem
    rw [(h.keyOf_updated hmem _).1] at hkey
    have hlength := (h.good item hmem).length
    by_cases hchanged : isChanged input.srcColumns.length p s
    · rw [foldl_updateRow_of_mem (hsource.sublist (List.filter_sublist.map _))
        (fun i hi => hlength ▸ h.key_lt i hi) (List.mem_filter.mpr ⟨hs, hchanged⟩) hkey.symm,
        cellOf_mixed (hlength ▸ hc)]
      split
      · rename_i hi
        apply sameCell_of_keyForm
        · exact List.map_inj_left.mp hkey c hi
        · exact (h.good s (List.mem_append_left _ hs)).safe c hi
        · exact (h.good item hmem).safe c hi
      · exact h.same_self hnan hs hc
    · rw [foldl_updateRow_of_ne]
      · by_contra hdifferent
        rw [Bool.not_eq_true] at hdifferent
        exact hchanged ((h.isChanged_iff htarget hs hitem hkey.symm).mpr ⟨c, hc, hdifferent⟩)
      · intro u hu heq
        obtain ⟨hu, huchanged⟩ := List.mem_filter.mp hu
        rw [hunique u hu (hkey.trans heq)] at hchanged
        exact hchanged huchanged
  · rw [(h.keyOf_updated (List.mem_append_left _ hitem) _).1] at hkey
    obtain rfl := hunique item hitem hkey
    rw [foldl_updateRow_of_ne]
    · exact h.same_self hnan hs hc
    · intro u hu heq
      obtain ⟨hu, huchanged⟩ := List.mem_filter.mp hu
      obtain rfl := hunique u hu heq
      obtain ⟨t, ht, heq⟩ := h.exists_of_isChanged hs huchanged
      exact (h.isNew_iff hs).mp hnew t ht heq

theorem GoodRow.binary_cellOf (h : GoodRow width keys row) {c : ℕ} (hc : c < width)
    (hbinary : (cellOf row c).binary) :
  validBinaryHex (cellOf row c).value
  := by
  have hmem : cellOf row c ∈ row := by
    rw [← h.length] at hc
    simp [cellOf, List.getD_eq_getElem?_getD, hc]
  exact h.binary _ hmem hbinary

theorem GoodRow.mixed {row other : List Cell} (h : GoodRow width keys row)
    (hother : GoodRow width keys other) (hkeys : ∀ i ∈ keys, i < width) :
  GoodRow width keys (Workbench.mixed keys row other)
  := by
  constructor
  · exact List.length_mapIdx.trans h.length
  · intro cell hcell hbinary
    obtain ⟨c, hc, rfl⟩ := List.mem_mapIdx.mp hcell
    split at hbinary
    · rename_i hi
      rw [if_pos hi]
      exact h.binary _ (List.getElem_mem hc) hbinary
    · rename_i hi
      rw [if_neg hi]
      exact hother.binary_cellOf (h.length ▸ hc) hbinary
  · intro i hi
    rw [cellOf_mixed (h.length ▸ hkeys i hi), if_pos hi]
    exact h.safe i hi

theorem GoodRow.foldl {items : List Item} (h : GoodRow width keys row)
    (hitems : ∀ item ∈ items, GoodRow width keys item.cells) (hkeys : ∀ i ∈ keys, i < width) :
  GoodRow width keys (items.foldl (updateRow keys) row)
  := by
  induction items generalizing row with
  | nil => exact h
  | cons item items ih =>
    apply ih _ fun i hi => hitems i (List.mem_cons_of_mem _ hi)
    unfold updateRow
    split
    · exact h.mixed (hitems item (List.mem_cons_self ..)) hkeys
    · exact h

theorem Ready.good_synced (h : Ready input p) :
  ∀ row ∈ p.synced input.srcColumns.length, GoodRow input.srcColumns.length p.keys row
  := by
  intro row hrow
  obtain ⟨item, hitem, rfl, _⟩ := mem_synced.mp hrow
  have hmem : item ∈ p.source ++ p.target := by
    obtain hitem | ⟨hitem, _⟩ := hitem
    · exact List.mem_append_right _ hitem
    · exact List.mem_append_left _ hitem
  apply (h.good item hmem).foldl _ h.key_lt
  intro u hu
  exact h.good u (List.mem_append_left _ (List.mem_of_mem_filter hu))

theorem Ready.contents_synced (h : Ready input p) {diff : CompareDiff}
    (hdiff : diff.Consists input (p.source.filter (isNew p))
      (p.source.filter (isChanged input.srcColumns.length p)) (p.target.filter (isGone p))) :
  ((genSyncStatements diff true).foldl (SyncStatement.run input.tgtColumns)
      input.target.contents).map (reorder input.tgtColumns input.srcColumns)
    = p.synced input.srcColumns.length
  := by
  obtain ⟨hnodup, _, _, hsub, _, hrows⟩ := columnsMismatch_eq_false.mp h.columns
  have hcontents : ∀ row ∈ input.target.contents, row.length = input.tgtColumns.length := by
    intro row hrow
    obtain ⟨r, hr, rfl⟩ := List.mem_mapIdx.mp hrow
    rw [List.length_mapIdx]
    exact hrows _ (List.getElem_mem hr)
  have hlength : ∀ (items : List Item) (q : Item → Bool), items ⊆ p.source ++ p.target →
      ∀ item ∈ items.filter q, item.row.length = input.srcColumns.length :=
    fun items q hitems item hitem => h.row_length item (hitems (List.mem_of_mem_filter hitem))
  have hsource := fun q => hlength p.source q fun item => List.mem_append_left _
  have htarget := fun q => hlength p.target q fun item => List.mem_append_right _
  have hnames : ∀ item : Item, ∀ name ∈ (item.whereCells input.srcColumns input.pkNames).map
      Prod.fst, name ∈ input.srcColumns := by
    intro item name hname
    obtain ⟨v, hv, rfl⟩ := List.mem_map.mp hname
    obtain ⟨name, hpk, rfl⟩ := List.mem_map.mp hv
    exact h.pk_mem name hpk
  rw [hdiff.genSyncStatements_eq h]
  rw [(map_reorder_foldl hsub hcontents ?_).1]
  · have hrowsLength : ∀ row ∈ p.target.map Item.cells
        ++ (p.source.filter (isNew p)).map Item.cells, row.length = input.srcColumns.length := by
      intro row hrow
      rw [← List.map_append] at hrow
      obtain ⟨item, hitem, rfl⟩ := List.mem_map.mp hrow
      rw [length_cells]
      obtain hitem | hitem := List.mem_append.mp hitem
      · exact h.row_length item (List.mem_append_right _ hitem)
      · exact hsource _ item hitem
    rw [← h.target_cells, List.foldl_append, List.foldl_append,
      foldl_inserts hnodup (hsource _), foldl_updates hnodup (hsource _) h.pk_mem hrowsLength,
      foldl_deletes (htarget _) h.pk_mem, ← h.keys]
    rfl
  · intro st hst
    obtain hst | hst := List.mem_append.mp hst
    · obtain hst | hst := List.mem_append.mp hst
      · obtain ⟨item, _, rfl⟩ := List.mem_map.mp hst
        simp [SyncStatement.keyNames]
      · obtain ⟨item, _, hsome⟩ := List.mem_filterMap.mp hst
        split at hsome
        · cases hsome
        · obtain rfl := Option.some.inj hsome
          exact hnames item
    · obtain ⟨item, _, rfl⟩ := List.mem_map.mp hst
      exact hnames item

theorem Ready.length_synced (h : Ready input p) (sts : List SyncStatement) :
  ∀ row ∈ sts.foldl (SyncStatement.run input.tgtColumns) input.target.contents,
    row.length = input.tgtColumns.length
  := by
  obtain ⟨_, _, _, _, _, hrows⟩ := columnsMismatch_eq_false.mp h.columns
  have hcontents : ∀ row ∈ input.target.contents, row.length = input.tgtColumns.length := by
    intro row hrow
    obtain ⟨r, hr, rfl⟩ := List.mem_mapIdx.mp hrow
    rw [List.length_mapIdx]
    exact hrows _ (List.getElem_mem hr)
  revert hcontents
  generalize input.target.contents = rows
  intro hcontents
  induction sts generalizing rows with
  | nil => exact hcontents
  | cons st sts ih => exact ih _ (length_run st hcontents)

end Synced

/-! ### The comparison with the target after the statements -/

section Again

variable {input : CompareInput} {p : Prepared} {contents : List (List Cell)}

theorem columns_perm (h : columnsMismatch input = false) :
  input.srcColumns.Perm input.tgtColumns
  := by
  obtain ⟨hnodup, _, hlength, hsub, _, _⟩ := columnsMismatch_eq_false.mp h
  exact (hnodup.subperm hsub).perm_of_length_le hlength.ge

theorem binary_of_reorder (h : columnsMismatch input = false) {row : List Cell}
    (hlength : row.length = input.tgtColumns.length)
    (hbinary : ∀ cell ∈ reorder input.tgtColumns input.srcColumns row,
      cell.binary → validBinaryHex cell.value) :
  ∀ cell ∈ row, cell.binary → validBinaryHex cell.value
  := by
  obtain ⟨_, hnodup, _, _, _, _⟩ := columnsMismatch_eq_false.mp h
  intro cell hcell
  obtain ⟨c, hc, rfl⟩ := List.getElem_of_mem hcell
  have hc' : c < input.tgtColumns.length := hlength ▸ hc
  apply hbinary
  apply List.mem_map.mpr
  refine ⟨input.tgtColumns[c], (columns_perm h).mem_iff.mpr (List.getElem_mem hc'), ?_⟩
  rw [hnodup.idxOf_getElem c hc']
  simp [cellOf, List.getD_eq_getElem?_getD, hc]

theorem Ready.withTarget (h : Ready input p)
    (hlength : ∀ row ∈ contents, row.length = input.tgtColumns.length)
    (hgood : ∀ row ∈ contents.map (reorder input.tgtColumns input.srcColumns),
      GoodRow input.srcColumns.length p.keys row) :
  (Table.ofContents input.tgtColumns contents).contents = contents
    ∧ ∃ q, Ready (input.withTarget (Table.ofContents input.tgtColumns contents)) q
      ∧ q.keys = p.keys ∧ q.source = p.source
      ∧ q.target.map Item.cells = contents.map (reorder input.tgtColumns input.srcColumns)
  := by
  have hbinary : ∀ row ∈ contents, ∀ cell ∈ row, cell.binary → validBinaryHex cell.value :=
    fun row hrow => binary_of_reorder h.columns (hlength row hrow)
      (hgood _ (List.mem_map_of_mem hrow)).binary
  have hcontents : (Table.ofContents input.tgtColumns contents).contents = contents :=
    contents_ofContents hbinary
  refine ⟨hcontents, ?_⟩
  generalize ht : Table.ofContents input.tgtColumns contents = t at hcontents ⊢
  have hcolumns : columnsMismatch (input.withTarget t) = false := by
    obtain ⟨hsrc, htgt, hsame, hsub, hrows, _⟩ := columnsMismatch_eq_false.mp h.columns
    rw [← ht]
    refine columnsMismatch_eq_false.mpr ⟨hsrc, htgt, hsame, hsub, hrows, ?_⟩
    intro row hrow
    obtain ⟨cells, hcells, rfl⟩ := List.mem_map.mp hrow
    rw [List.length_map]
    exact hlength cells hcells
  have hplaces : ∀ cell ∈ t.binaryCells, GoodPlace t.rows t.columns cell := by
    rw [← ht]
    intro cell hcell
    obtain ⟨r, c, hr, hc, rfl, hmarked⟩ := mem_binaryCells.mp hcell
    refine ⟨r, c, rfl, ?_, ?_, .inr ?_⟩
    · simpa [Table.ofContents] using hr
    · exact hlength _ (List.getElem_mem hr) ▸ hc
    · have hvalid := hbinary _ (List.getElem_mem hr) _ (List.getElem_mem hc) hmarked
      simpa [Table.ofContents, cellAt, List.getD_eq_getElem?_getD, hr, hc] using hvalid
  obtain ⟨binary, hrows⟩ := exists_binaryRows hplaces
  have htcolumns : t.columns = input.tgtColumns := by rw [← ht]; rfl
  have hcells : (List.zipWith
        (targetItem (input.srcColumns.map fun c => t.columns.idxOf c)) t.rows binary).map
          Item.cells
      = contents.map (reorder input.tgtColumns input.srcColumns) := by
    have hsame : (List.zipWith
          (targetItem (input.srcColumns.map fun c => t.columns.idxOf c)) t.rows binary).map
            Item.cells
        = t.contents.map (reorder t.columns input.srcColumns) := targetItem_cells hcolumns hrows
    rw [hsame, hcontents, htcolumns]
  refine ⟨⟨p.keys, p.source, List.zipWith
    (targetItem (input.srcColumns.map fun c => t.columns.idxOf c)) t.rows binary⟩,
    ⟨hcolumns, h.pk_ne, h.pk_nodup, h.pk_mem, h.keys, h.source, ⟨binary, hrows, rfl⟩, ?_⟩,
    rfl, rfl, hcells⟩
  intro item hitem i hi
  obtain hitem | hitem := List.mem_append.mp hitem
  · exact h.safe item (List.mem_append_left _ hitem) i hi
  · have hrow := hgood _ (hcells ▸ List.mem_map_of_mem (f := Item.cells) hitem)
    have hplace : i < item.row.length := by
      rw [← length_cells, hrow.length]
      exact h.key_lt i hi
    have hsafe := hrow.safe i hi
    rwa [cellOf_cells hplace] at hsafe

end Again

/-! ### Convergence -/

theorem computeDiff_nothing {input : CompareInput} {q : Prepared} (h : Ready input q)
    (hsource : (q.source.map fun item => keyOf q.keys item.cells).Nodup)
    (htarget : (q.target.map fun item => keyOf q.keys item.cells).Nodup)
    (hkeys : ∀ k, k ∈ (q.target.map fun item => keyOf q.keys item.cells)
      ↔ k ∈ q.source.map fun item => keyOf q.keys item.cells)
    (hsame : ∀ s ∈ q.source, ∀ t ∈ q.target, keyOf q.keys s.cells = keyOf q.keys t.cells →
      ∀ c < input.srcColumns.length, sameCell (cellOf s.cells c) (cellOf t.cells c)) :
  ∃ diff, computeDiff input = .ok diff ∧ diff.inserts = [] ∧ diff.updates = []
    ∧ diff.deletes = []
  := by
  have hinserted : q.source.filter (isNew q) = [] := by
    rw [List.filter_eq_nil_iff]
    intro s hs hnew
    obtain ⟨t, ht, heq⟩ := List.mem_map.mp
      ((hkeys (keyOf q.keys s.cells)).mpr (List.mem_map_of_mem hs))
    exact (h.isNew_iff hs).mp hnew t ht heq
  have hupdated : q.source.filter (isChanged input.srcColumns.length q) = [] := by
    rw [List.filter_eq_nil_iff]
    intro s hs hchanged
    obtain ⟨t, ht, heq⟩ := h.exists_of_isChanged hs hchanged
    obtain ⟨c, hc, hdifferent⟩ := (h.isChanged_iff htarget hs ht heq).mp hchanged
    rw [hsame s hs t ht heq.symm c hc] at hdifferent
    cases hdifferent
  have hdeleted : q.target.filter (isGone q) = [] := by
    rw [List.filter_eq_nil_iff]
    intro t ht hgone
    obtain ⟨s, hs, heq⟩ := List.mem_map.mp
      ((hkeys (keyOf q.keys t.cells)).mp (List.mem_map_of_mem ht))
    exact (h.isGone_iff ht).mp hgone s hs heq
  have hparts := consists_differenceOf input q
  rw [hinserted, hupdated, hdeleted] at hparts
  refine ⟨_, computeDiff_eq_ok.mpr ⟨q, h, ?_, ?_, rfl⟩, hparts.inserts, ?_, hparts.deletes⟩
  · exact (nodup_keyOf fun t ht => h.rowKey t (List.mem_append_right _ ht)).mpr htarget
  · exact (nodup_keyOf fun s hs => h.rowKey s (List.mem_append_left _ hs)).mpr hsource
  · exact List.map_eq_nil_iff.mp hparts.updates

/-- The statements bring the target to the source, binary values up to case, and then there is no
difference any more. -/
theorem compare_converges (input : CompareInput) (diff : CompareDiff)
    (h : computeDiff input = .ok diff) (hnan : ∀ row ∈ input.srcRows, .number .nan ∉ row) :
  Table.EqualUpTo (fun a b => sameCell a b) input.source (synchronized input diff)
    ∧ ∃ again, computeDiff (input.withTarget (synchronized input diff)) = .ok again
      ∧ again.inserts = [] ∧ again.updates = [] ∧ again.deletes = []
  := by
  obtain ⟨p, hp, htarget, hsource, rfl⟩ := computeDiff_eq_ok.mp h
  rw [nodup_keyOf fun t ht => hp.rowKey t (List.mem_append_right _ ht)] at htarget
  rw [nodup_keyOf fun s hs => hp.rowKey s (List.mem_append_left _ hs)] at hsource
  have hrows := hp.contents_synced (consists_differenceOf input p)
  have hlength := hp.length_synced (genSyncStatements (differenceOf input p) true)
  unfold synchronized
  generalize (genSyncStatements (differenceOf input p) true).foldl
    (SyncStatement.run input.tgtColumns) input.target.contents = contents at hrows hlength ⊢
  have hnumbers : ∀ item ∈ p.source, .number .nan ∉ item.row := by
    obtain ⟨binary, _, hitems⟩ := hp.source
    rw [hitems]
    intro item hitem
    obtain ⟨r, hr, rfl⟩ := List.getElem_of_mem hitem
    rw [List.getElem_zipWith]
    exact hnan _ (List.getElem_mem _)
  have hgood := hp.good_synced
  rw [← hrows] at hgood
  obtain ⟨hcontents, q, hq, hkeys, hqsource, hqtarget⟩ := hp.withTarget hlength hgood
  rw [hrows] at hqtarget hgood
  have hnodup := hp.nodup_synced hsource htarget
  have hsame : ∀ s ∈ p.source, ∀ row ∈ p.synced input.srcColumns.length,
      keyOf p.keys s.cells = keyOf p.keys row →
      ∀ c < input.srcColumns.length, sameCell (cellOf s.cells c) (cellOf row c) :=
    fun s hs row hrow heq => hp.same_synced hsource htarget hnumbers hs hrow heq
  constructor
  · refine ⟨columns_perm hp.columns, ?_⟩
    have hreordered : (Table.ofContents input.tgtColumns contents).contents.map
        (reorder (Table.ofContents input.tgtColumns contents).columns input.source.columns)
        = p.synced input.srcColumns.length := by
      rw [hcontents]
      exact hrows
    rw [hreordered, ← hp.source_cells]
    apply Places.exists_perm_forall₂ (f := keyOf p.keys) (g := keyOf p.keys)
    · rw [List.map_map]
      apply (List.perm_ext_iff_of_nodup hsource hnodup).mpr
      intro k
      exact (hp.keys_synced k).symm
    · intro cells hcells row hrow heq
      obtain ⟨s, hs, rfl⟩ := List.mem_map.mp hcells
      have hleft := (hp.good s (List.mem_append_left _ hs)).length
      have hright := (hgood row hrow).length
      apply List.forall₂_iff_get.mpr
      refine ⟨hleft.trans hright.symm, fun c hc hc' => ?_⟩
      have hcell := hsame s hs row hrow heq c (hleft ▸ hc)
      simpa [cellOf, List.getD_eq_getElem?_getD, hc, hc'] using hcell
  · have htargetKeys : q.target.map (fun item => keyOf q.keys item.cells)
        = (p.synced input.srcColumns.length).map (keyOf p.keys) := by
      rw [← hqtarget, hkeys, List.map_map]
      rfl
    apply computeDiff_nothing hq
    · rwa [hkeys, hqsource]
    · rwa [htargetKeys]
    · intro k
      rw [htargetKeys, hkeys, hqsource]
      exact hp.keys_synced k
    · rw [hkeys, hqsource]
      intro s hs t ht heq
      apply hsame s hs t.cells _ heq
      rw [← hqtarget]
      exact List.mem_map_of_mem ht

/-- A comparison with a row to insert, one to update, one to delete, and another order of columns. -/
def exampleInput : CompareInput where
  srcColumns := ["id", "v"]
  srcRows := [[.number .zero, .string "a"], [.boolean true, .string "0xAB"]]
  srcBinaryCells := [(1, 1)]
  tgtColumns := ["v", "id"]
  tgtRows := [[.string "b", .string "0"], [.null, .string "gone"]]
  tgtBinaryCells := []
  pkNames := ["id"]

theorem compare_converges_exampleInput :
  ∃ diff, computeDiff exampleInput = .ok diff
    ∧ Table.EqualUpTo (fun a b => sameCell a b) exampleInput.source
      (synchronized exampleInput diff)
    ∧ ∃ again, computeDiff (exampleInput.withTarget (synchronized exampleInput diff)) = .ok again
      ∧ again.inserts = [] ∧ again.updates = [] ∧ again.deletes = []
  := by
  refine ⟨_, rfl, compare_converges exampleInput _ rfl ?_⟩
  simp [exampleInput]

/-- A binary value that both tables have, in another case. -/
def hexCaseInput : CompareInput where
  srcColumns := ["id", "v"]
  srcRows := [[.string "k", .string "0xAB"]]
  srcBinaryCells := [(0, 1)]
  tgtColumns := ["id", "v"]
  tgtRows := [[.string "k", .string "0xab"]]
  tgtBinaryCells := [(0, 1)]
  pkNames := ["id"]

/-- Binary values are not brought to the case of the source, so they are not equal as values. -/
theorem compare_keeps_case :
  ¬ ∀ (input : CompareInput) (diff : CompareDiff), computeDiff input = .ok diff →
    Table.EqualUpTo (fun a b => valuesEqual a.value b.value) input.source
        (synchronized input diff)
      ∧ ∃ again, computeDiff (input.withTarget (synchronized input diff)) = .ok again
        ∧ again.inserts = [] ∧ again.updates = [] ∧ again.deletes = []
  := by
  intro h
  obtain ⟨⟨_, rows, hperm, hall⟩, _⟩ := h hexCaseInput (emptyDiff hexCaseInput) rfl
  have htarget : (synchronized hexCaseInput (emptyDiff hexCaseInput)).contents.map
      (reorder ["id", "v"] ["id", "v"])
      = [[⟨.string "k", false⟩, ⟨.string "0xab", true⟩]] := rfl
  have hrows : rows = [[⟨.string "k", false⟩, ⟨.string "0xab", true⟩]] :=
    List.perm_singleton.mp (hperm.trans (.of_eq htarget))
  have hsource : hexCaseInput.source.contents
      = [[⟨.string "k", false⟩, ⟨.string "0xAB", true⟩]] := rfl
  rw [hrows, hsource] at hall
  obtain _ | ⟨_ | ⟨_, _ | ⟨hvalues, _⟩⟩, _⟩ := hall
  revert hvalues
  decide

end Workbench
