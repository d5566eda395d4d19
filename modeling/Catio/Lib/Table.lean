import Mathlib.Data.List.AList

/-!
# Tables

Finite maps whose keys are distinct, over the association lists of Mathlib: keeping the
entries that pass a test, changing an entry in place, and counting entries.
-/

/-- A table of values by distinct keys. -/
abbrev Table (κ ν : Type) :=
  AList fun _ : κ => ν

namespace Table

variable {κ ν : Type}

/-- The entries that pass a test. -/
def retain (p : κ → ν → Bool) (t : Table κ ν) : Table κ ν where
  entries := t.entries.filter fun e => p e.1 e.2
  nodupKeys := t.nodupKeys.sublist List.filter_sublist

/-- The number of entries that pass a test. -/
def count (p : κ → ν → Bool) (t : Table κ ν) : ℕ :=
  t.entries.countP fun e => p e.1 e.2

/-- The number of entries. -/
def size (t : Table κ ν) : ℕ :=
  t.entries.length

/-- The entry of a key, changed in place. -/
def changed [DecidableEq κ] (k : κ) (f : ν → ν) (e : Σ _ : κ, ν) : Σ _ : κ, ν :=
  if e.1 = k then ⟨e.1, f e.2⟩ else e

theorem changed_fst [DecidableEq κ] (k : κ) (f : ν → ν) (e : Σ _ : κ, ν) :
  (changed k f e).1 = e.1
  := by
  unfold changed
  split
  · rfl
  · rfl

/-- Change the value of a key, if the key is there. -/
def modify [DecidableEq κ] (k : κ) (f : ν → ν) (t : Table κ ν) : Table κ ν where
  entries := t.entries.map (changed k f)
  nodupKeys := by
    have hkeys : (t.entries.map (changed k f)).map Sigma.fst = t.entries.map Sigma.fst := by
      rw [List.map_map]
      apply List.map_congr_left
      intro e _
      apply changed_fst
    rw [List.NodupKeys, List.keys, hkeys]
    exact t.nodupKeys

theorem size_eq_count (t : Table κ ν) :
  t.size = t.count fun _ _ => true
  := by
  simp [size, count]

theorem count_retain_le (p q : κ → ν → Bool) (t : Table κ ν) :
  count p (t.retain q) ≤ count p t
  := List.filter_sublist.countP_le

theorem size_retain_le (p : κ → ν → Bool) (t : Table κ ν) :
  (t.retain p).size ≤ t.size
  := List.length_filter_le _ _

theorem entries_perm_retain (p : κ → ν → Bool) (t : Table κ ν) :
  t.entries.Perm
    ((t.entries.filter fun e => p e.1 e.2) ++ (t.retain fun k v => !p k v).entries)
  := (List.filter_append_perm (fun e => p e.1 e.2) t.entries).symm

section

variable [DecidableEq κ] {k k' : κ} {v : ν} {t : Table κ ν}

theorem lookup_eq_some :
  t.lookup k = some v ↔ ⟨k, v⟩ ∈ t.entries
  := AList.mem_lookup_iff

theorem mem_iff_exists_lookup :
  k ∈ t ↔ ∃ v, t.lookup k = some v
  := by
  rw [← AList.lookup_isSome, Option.isSome_iff_exists]

@[simp]
theorem lookup_retain (p : κ → ν → Bool) (t : Table κ ν) (k : κ) :
  (t.retain p).lookup k = (t.lookup k).filter (p k)
  := by
  ext v
  rw [lookup_eq_some, Option.filter_eq_some_iff, lookup_eq_some, retain, List.mem_filter]

@[simp]
theorem lookup_modify_self (k : κ) (f : ν → ν) (t : Table κ ν) :
  (t.modify k f).lookup k = (t.lookup k).map f
  := by
  ext v
  rw [lookup_eq_some, modify, List.mem_map]
  constructor
  · rintro ⟨⟨k', v'⟩, hmem, heq⟩
    have hkey : k' = k := (changed_fst k f ⟨k', v'⟩).symm.trans (congrArg Sigma.fst heq)
    subst hkey
    rw [changed, if_pos rfl] at heq
    cases heq
    rw [lookup_eq_some.mpr hmem]
    rfl
  · intro hmem
    obtain ⟨v', hv', rfl⟩ := Option.map_eq_some_iff.mp hmem
    exact ⟨⟨k, v'⟩, lookup_eq_some.mp hv', by rw [changed, if_pos rfl]⟩

@[simp]
theorem lookup_modify_ne (f : ν → ν) (t : Table κ ν) (h : k' ≠ k) :
  (t.modify k f).lookup k' = t.lookup k'
  := by
  ext v
  rw [lookup_eq_some, lookup_eq_some, modify, List.mem_map]
  constructor
  · rintro ⟨⟨k₀, v₀⟩, hmem, heq⟩
    have hkey : k₀ = k' := (changed_fst k f ⟨k₀, v₀⟩).symm.trans (congrArg Sigma.fst heq)
    subst hkey
    rw [changed, if_neg h] at heq
    cases heq
    exact hmem
  · intro hmem
    exact ⟨⟨k', v⟩, hmem, by rw [changed, if_neg h]⟩

theorem lookup_modify_eq_some {f : ν → ν} :
  (t.modify k f).lookup k' = some v
    ↔ ∃ w, t.lookup k' = some w ∧ v = if k' = k then f w else w
  := by
  by_cases hk : k' = k
  · subst hk
    rw [lookup_modify_self, Option.map_eq_some_iff]
    simp only [if_pos, eq_comm]
  · rw [lookup_modify_ne _ _ hk]
    simp only [if_neg hk, exists_eq_right']

@[simp]
theorem mem_modify {f : ν → ν} :
  k' ∈ t.modify k f ↔ k' ∈ t
  := by
  simp only [mem_iff_exists_lookup, lookup_modify_eq_some]
  constructor
  · rintro ⟨v, w, hw, -⟩
    exact ⟨w, hw⟩
  · rintro ⟨w, hw⟩
    exact ⟨_, w, hw, rfl⟩

theorem modify_of_notMem {f : ν → ν} (h : k ∉ t) :
  t.modify k f = t
  := by
  apply AList.ext
  have hentries : t.entries.map (changed k f) = t.entries.map id := by
    apply List.map_congr_left
    intro e he
    rw [changed, if_neg]
    · rfl
    · rintro rfl
      exact h (List.mem_map_of_mem he)
  exact hentries.trans (List.map_id _)

theorem mem_of_mem_retain {p : κ → ν → Bool} (h : k ∈ t.retain p) :
  k ∈ t
  := by
  obtain ⟨v, hv⟩ := mem_iff_exists_lookup.mp h
  rw [lookup_retain, Option.filter_eq_some_iff] at hv
  exact mem_iff_exists_lookup.mpr ⟨v, hv.1⟩

@[simp]
theorem size_modify (k : κ) (f : ν → ν) (t : Table κ ν) :
  (t.modify k f).size = t.size
  := List.length_map _

/-! ### Entries up to their order -/

theorem entries_perm_of_lookup {t t' : Table κ ν} (h : ∀ k, t.lookup k = t'.lookup k) :
  t.entries.Perm t'.entries
  := by
  apply List.lookup_ext t.nodupKeys t'.nodupKeys
  intro k v
  have hk : t.entries.dlookup k = t'.entries.dlookup k := h k
  rw [hk]

theorem entries_perm_erase (h : t.lookup k = some v) :
  t.entries.Perm (⟨k, v⟩ :: (t.erase k).entries)
  := by
  have hinsert : t.entries.Perm (t.insert k v).entries := by
    apply entries_perm_of_lookup
    intro k'
    by_cases hk : k' = k
    · subst hk
      rw [h, AList.lookup_insert]
    · rw [AList.lookup_insert_ne hk]
  exact hinsert

theorem entries_perm_modify {f : ν → ν} (h : t.lookup k = some v) :
  (t.modify k f).entries.Perm (⟨k, f v⟩ :: (t.erase k).entries)
  := by
  have hinsert : (t.modify k f).entries.Perm (t.insert k (f v)).entries := by
    apply entries_perm_of_lookup
    intro k'
    by_cases hk : k' = k
    · subst hk
      rw [lookup_modify_self, h, AList.lookup_insert]
      rfl
    · rw [lookup_modify_ne _ _ hk, AList.lookup_insert_ne hk]
  exact hinsert

theorem entries_insert_of_notMem (h : k ∉ t) :
  (t.insert k v).entries = ⟨k, v⟩ :: t.entries
  := by
  rw [AList.entries_insert, List.kerase_of_notMem_keys h]

/-! ### Counting -/

theorem count_insert_le (p : κ → ν → Bool) (k : κ) (v : ν) (t : Table κ ν) :
  count p (t.insert k v) ≤ count p t + if p k v then 1 else 0
  := by
  simp only [count, AList.entries_insert, List.countP_cons]
  apply Nat.add_le_add_right
  apply (List.kerase_sublist k t.entries).countP_le

theorem count_erase_le (p : κ → ν → Bool) (k : κ) (t : Table κ ν) :
  count p (t.erase k) ≤ count p t
  := (List.kerase_sublist k t.entries).countP_le

theorem count_retain_lt {p q : κ → ν → Bool} (h : t.lookup k = some v) (hp : p k v)
    (hq : q k v = false) :
  count p (t.retain q) < count p t
  := by
  have hsplit := List.countP_eq_countP_filter_add t.entries (fun e => p e.1 e.2)
    fun e => q e.1 e.2
  have hremoved : 0 < List.countP (fun e => p e.1 e.2)
      (t.entries.filter fun e => !q e.1 e.2) := by
    rw [List.countP_pos_iff]
    use ⟨k, v⟩
    rw [List.mem_filter, hq]
    exact ⟨⟨lookup_eq_some.mp h, rfl⟩, hp⟩
  change List.countP _ (t.entries.filter _) < _
  unfold count
  omega

theorem count_modify {p : κ → ν → Bool} {f : ν → ν} (h : ∀ v, p k (f v) = p k v) (t : Table κ ν) :
  count p (t.modify k f) = count p t
  := by
  simp only [count, modify, List.countP_map]
  apply List.countP_congr
  rintro ⟨k', v⟩ -
  simp only [Function.comp, changed]
  split
  · rename_i heq
    subst heq
    rw [h]
  · rfl

end

end Table
