import Mathlib.Data.List.Duplicate

/-!
# Tables with a key

Rows are written to a table one by one: a row with the key of a row of the table overwrites
that row, and another row is inserted.  A statement that writes several rows either goes
through them, or compares all of them with the table as it was.  Where no row of the table is
hit twice by the second kind, both leave the same table (`merge_eq_foldl`).
-/

namespace KeyedTable

variable {ρ σ κ : Type} [DecidableEq κ]

/-- How rows `σ` are written to a table of rows `ρ` with keys `κ`. -/
structure Writer (ρ σ κ : Type) where
  key : ρ → κ
  insert : σ → ρ
  overwrite : ρ → σ → ρ
  key_overwrite : ∀ r s, key (overwrite r s) = key r

variable (w : Writer ρ σ κ)

/-- The key of a row that is written. -/
def Writer.keyOf (s : σ) : κ :=
  w.key (w.insert s)

/-- Write one row. -/
def upsertRow (table : List ρ) (s : σ) : List ρ :=
  if w.keyOf s ∈ table.map w.key then
    table.map fun r => if w.key r = w.keyOf s then w.overwrite r s else r
  else table ++ [w.insert s]

/-- Write rows one by one, refusing a row that hits one of the keys written before it. -/
def upsertOnce (touched : List κ) : List ρ → List σ → Option (List ρ)
  | table, [] => some table
  | table, s :: rows =>
      if w.keyOf s ∈ touched then none
      else upsertOnce (w.keyOf s :: touched) (upsertRow w table s) rows

/-- Write the first of the rows that has the key of a row of the table. -/
def overwriteFirst (rows : List σ) (r : ρ) : ρ :=
  match rows.find? (w.keyOf · = w.key r) with
  | some s => w.overwrite r s
  | none => r

/-- Compare all rows with the table as it was. -/
def merge (table : List ρ) (rows : List σ) : List ρ :=
  table.map (overwriteFirst w rows)
    ++ (rows.filter (w.keyOf · ∉ table.map w.key)).map w.insert

/-- Compare all rows with the table as it was, refusing to update a row twice and to insert a
key twice. -/
def mergeInto (updates : Bool) (table : List ρ) (rows : List σ) : Option (List ρ) :=
  if updates = true ∧ ∃ r ∈ table, 2 ≤ (rows.map w.keyOf).count (w.key r) then none
  else if ¬ ((rows.filter (w.keyOf · ∉ table.map w.key)).map w.keyOf).Nodup then none
  else some (merge w table rows)

variable {w}

theorem map_key_upsertRow (table : List ρ) (s : σ) :
  (upsertRow w table s).map w.key
    = if w.keyOf s ∈ table.map w.key then table.map w.key else table.map w.key ++ [w.keyOf s]
  := by
  unfold upsertRow
  split
  · rw [List.map_map]
    apply List.map_congr_left
    intro r _
    simp only [Function.comp_apply]
    split
    · apply w.key_overwrite
    · rfl
  · rw [List.map_append, List.map_singleton]
    rfl

theorem mem_map_key_upsertRow (table : List ρ) (s : σ) (k : κ) :
  k ∈ (upsertRow w table s).map w.key ↔ k ∈ table.map w.key ∨ k = w.keyOf s
  := by
  rw [map_key_upsertRow]
  split
  · rename_i hmem
    constructor
    · apply Or.inl
    · rintro (hk | rfl)
      · exact hk
      · exact hmem
  · rw [List.mem_append, List.mem_singleton]

theorem mem_map_key_foldl (rows : List σ) (table : List ρ) (k : κ) :
  k ∈ (rows.foldl (upsertRow w) table).map w.key ↔ k ∈ table.map w.key ∨ k ∈ rows.map w.keyOf
  := by
  induction rows generalizing table with
  | nil => simp
  | cons s rows ih =>
    rw [List.foldl_cons, ih, mem_map_key_upsertRow, List.map_cons, List.mem_cons, or_assoc]

theorem overwriteFirst_cons_of_ne {s : σ} {rows : List σ} {r : ρ} (h : w.keyOf s ≠ w.key r) :
  overwriteFirst w (s :: rows) r = overwriteFirst w rows r
  := by
  rw [overwriteFirst, List.find?_cons_of_neg (by simpa using h), overwriteFirst]

theorem overwriteFirst_of_notMem {rows : List σ} {r : ρ} (h : w.key r ∉ rows.map w.keyOf) :
  overwriteFirst w rows r = r
  := by
  have hnone : rows.find? (w.keyOf · = w.key r) = none := by
    rw [List.find?_eq_none]
    intro s hs heq
    exact h (List.mem_map.mpr ⟨s, hs, by simpa using heq⟩)
  rw [overwriteFirst, hnone]

/-- If a key that is written twice is in the table and overwriting does nothing, comparing with the
table as it was is writing one by one. -/
theorem merge_eq_foldl (rows : List σ) (table : List ρ)
    (h : ∀ k, List.Duplicate k (rows.map w.keyOf) →
      k ∈ table.map w.key ∧ ∀ r s, w.overwrite r s = r) :
  merge w table rows = rows.foldl (upsertRow w) table
  := by
  induction rows generalizing table with
  | nil =>
    have hsame : table.map (overwriteFirst w []) = table :=
      List.map_id'' (fun r => overwriteFirst_of_notMem (by simp)) table
    rw [merge, hsame]
    apply List.append_nil
  | cons s rows ih =>
    have hrest : ∀ k, List.Duplicate k (rows.map w.keyOf) →
        k ∈ (upsertRow w table s).map w.key ∧ ∀ r s, w.overwrite r s = r := by
      intro k hk
      obtain ⟨hmem, hsame⟩ := h k (hk.duplicate_cons _)
      exact ⟨(mem_map_key_upsertRow table s k).mpr (.inl hmem), hsame⟩
    rw [List.foldl_cons, ← ih _ hrest]
    by_cases hs : w.keyOf s ∈ table.map w.key
    · -- the row overwrites, and the keys of the table stay
      have hkeys : (upsertRow w table s).map w.key = table.map w.key := by
        rw [map_key_upsertRow, if_pos hs]
      rw [merge, merge, hkeys, List.filter_cons_of_neg (by simpa using hs), upsertRow, if_pos hs,
        List.map_map]
      congr 1
      apply List.map_congr_left
      intro r _
      simp only [Function.comp_apply]
      split
      · rename_i heq
        by_cases hmem : w.keyOf s ∈ rows.map w.keyOf
        · obtain ⟨-, hsame⟩ := h _ (List.duplicate_cons_self_iff.mpr hmem)
          have hid : ∀ rows r, overwriteFirst w rows r = r := by
            intro rows r
            unfold overwriteFirst
            split
            · apply hsame
            · rfl
          rw [hid, hid, hsame]
        · rw [overwriteFirst, List.find?_cons_of_pos (by simpa using heq.symm)]
          have hkey : w.key (w.overwrite r s) ∉ rows.map w.keyOf := by
            rw [w.key_overwrite, heq]
            exact hmem
          exact (overwriteFirst_of_notMem hkey).symm
      · rename_i hne
        exact overwriteFirst_cons_of_ne (Ne.symm hne)
    · -- the row is inserted, and none of the others has its key
      have hmem : w.keyOf s ∉ rows.map w.keyOf := fun hmem =>
        hs (h _ (List.duplicate_cons_self_iff.mpr hmem)).1
      have hkeys : (upsertRow w table s).map w.key = table.map w.key ++ [w.keyOf s] := by
        rw [map_key_upsertRow, if_neg hs]
      have hothers : table.map (overwriteFirst w (s :: rows))
          = table.map (overwriteFirst w rows) := by
        apply List.map_congr_left
        intro r hr
        apply overwriteFirst_cons_of_ne
        intro heq
        exact hs (List.mem_map.mpr ⟨r, hr, heq.symm⟩)
      have hfilter : rows.filter (w.keyOf · ∉ table.map w.key ++ [w.keyOf s])
          = rows.filter (w.keyOf · ∉ table.map w.key) := by
        apply List.filter_congr
        intro s' hs'
        have hne : w.keyOf s' ≠ w.keyOf s := fun heq =>
          hmem (List.mem_map.mpr ⟨s', hs', heq⟩)
        simp [hne]
      rw [merge, merge, hkeys, hfilter, hothers, List.filter_cons_of_pos (by simpa using hs),
        upsertRow, if_neg hs, List.map_append, List.map_singleton,
        overwriteFirst_of_notMem hmem, List.map_cons, List.append_assoc, List.singleton_append]

theorem upsertOnce_eq (touched : List κ) (table : List ρ) (rows : List σ) :
  upsertOnce w touched table rows
    = if (rows.map w.keyOf).Nodup ∧ ∀ k ∈ rows.map w.keyOf, k ∉ touched then
        some (rows.foldl (upsertRow w) table)
      else none
  := by
  induction rows generalizing touched table with
  | nil => simp [upsertOnce]
  | cons s rows ih =>
    rw [upsertOnce, ih]
    split
    · rename_i hmem
      rw [if_neg (by simp [hmem])]
    · rename_i hmem
      congr 1
      rw [List.map_cons, List.nodup_cons, List.forall_mem_cons, eq_iff_iff]
      simp only [List.mem_cons, not_or]
      constructor
      · rintro ⟨hnodup, hall⟩
        exact ⟨⟨fun h => (hall _ h).1 rfl, hnodup⟩, hmem, fun k hk => (hall k hk).2⟩
      · rintro ⟨⟨hself, hnodup⟩, -, hall⟩
        exact ⟨hnodup, fun k hk => ⟨fun heq => hself (heq ▸ hk), hall k hk⟩⟩

/-- Rows are refused as a whole exactly if a key is among them twice, unless it is in the table
and nothing is updated; otherwise they are written as if one by one. -/
theorem mergeInto_eq {updates : Bool} {table : List ρ} {rows : List σ}
    (h : updates = false → ∀ r s, w.overwrite r s = r) :
  mergeInto w updates table rows
    = if ∃ k ∈ rows.map w.keyOf, List.Duplicate k (rows.map w.keyOf)
        ∧ (updates = true ∨ k ∉ table.map w.key) then none
      else some (rows.foldl (upsertRow w) table)
  := by
  have hnodup : ((rows.filter (w.keyOf · ∉ table.map w.key)).map w.keyOf).Nodup
      ↔ ∀ k, List.Duplicate k (rows.map w.keyOf) → k ∈ table.map w.key := by
    have hfilter : (rows.filter (w.keyOf · ∉ table.map w.key)).map w.keyOf
        = (rows.map w.keyOf).filter (· ∉ table.map w.key) := by
      rw [List.filter_map]
      rfl
    rw [hfilter, List.nodup_iff_forall_not_duplicate]
    simp only [List.duplicate_iff_two_le_count]
    constructor
    · intro hall k hk
      by_contra hnot
      apply hall k
      rw [List.count_filter (by simpa using hnot)]
      exact hk
    · intro hall k hk
      have hmem := List.count_pos_iff.mp (Nat.lt_of_lt_of_le Nat.zero_lt_two hk)
      have hnot := (List.mem_filter.mp hmem).2
      rw [List.count_filter (p := (decide <| · ∉ table.map w.key)) hnot] at hk
      exact of_decide_eq_true hnot (hall k hk)
  unfold mergeInto
  split
  · rename_i hupdates
    obtain ⟨hupdates, r, hr, hcount⟩ := hupdates
    have hk := List.duplicate_iff_two_le_count.mpr hcount
    rw [if_pos ⟨w.key r, hk.mem, hk, .inl hupdates⟩]
  · rename_i hupdates
    split
    · rename_i hdup
      rw [hnodup] at hdup
      push Not at hdup
      obtain ⟨k, hk, hmem⟩ := hdup
      rw [if_pos ⟨k, hk.mem, hk, .inr hmem⟩]
    · rename_i hdup
      have hknown := hnodup.mp (not_not.mp hdup)
      have hsame : ∀ k, List.Duplicate k (rows.map w.keyOf) → updates = false := by
        intro k hk
        obtain ⟨r, hr, rfl⟩ := List.mem_map.mp (hknown k hk)
        by_contra htrue
        exact hupdates ⟨Bool.of_not_eq_false htrue, r, hr, List.duplicate_iff_two_le_count.mp hk⟩
      rw [if_neg, merge_eq_foldl rows table fun k hk => ⟨hknown k hk, h (hsame k hk)⟩]
      rintro ⟨k, -, hk, htrue | hmem⟩
      · rw [hsame k hk] at htrue
        cases htrue
      · exact hmem (hknown k hk)

/-- Batches are all written exactly if none of them is refused by the table the rows before it
leave. -/
theorem foldlM_eq_some_iff {β : Type} (exec : List ρ → β → Option (List ρ)) (rowsOf : β → List σ)
    (refused : List κ → List κ → Prop)
    (hok : ∀ table b, ¬ refused (table.map w.key) ((rowsOf b).map w.keyOf) →
      exec table b = some ((rowsOf b).foldl (upsertRow w) table))
    (hrefused : ∀ table b, refused (table.map w.key) ((rowsOf b).map w.keyOf) →
      exec table b = none)
    (batches : List β) (table : List ρ) :
  batches.foldlM exec table = some ((batches.flatMap rowsOf).foldl (upsertRow w) table)
    ↔ ∀ earlier b later, batches = earlier ++ b :: later →
      ¬ refused (((earlier.flatMap rowsOf).foldl (upsertRow w) table).map w.key)
        ((rowsOf b).map w.keyOf)
  := by
  induction batches generalizing table with
  | nil => simp
  | cons b batches ih =>
    rw [List.foldlM_cons]
    by_cases hb : refused (table.map w.key) ((rowsOf b).map w.keyOf)
    · rw [hrefused table b hb]
      constructor
      · intro h
        cases h
      · intro h
        exact absurd hb (h [] b batches rfl)
    · rw [hok table b hb, Option.bind_eq_bind, Option.bind_some, List.flatMap_cons,
        List.foldl_append, ih]
      constructor
      · intro h earlier b' later heq
        cases earlier with
        | nil =>
          cases heq
          exact hb
        | cons b'' earlier =>
          cases heq
          rw [List.flatMap_cons, List.foldl_append]
          exact h earlier b' later rfl
      · intro h earlier b' later heq
        have hlater := h (b :: earlier) b' later (by rw [heq, List.cons_append])
        rwa [List.flatMap_cons, List.foldl_append] at hlater

end KeyedTable
