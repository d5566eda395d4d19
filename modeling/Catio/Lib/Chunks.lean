import Mathlib.Data.List.Basic
import Catio.Lib.Result

/-!
# Chunks of a list

A list cut into chunks of the same length, the last of which may be shorter.  What is computed of
each element and its place is the same for chunks of any length (`batched_chunksOf`).
-/

/-- The chunks of a list, of so many elements each. -/
def chunksOf {α : Type*} (n : ℕ) (xs : List α) : List (List α) :=
  (List.range ((xs.length + n - 1) / n)).map fun i => (xs.drop (i * n)).take n

namespace Chunks

variable {α : Type*}

theorem flatten_first (n k : ℕ) (xs : List α) :
  ((List.range k).map fun i => (xs.drop (i * n)).take n).flatten = xs.take (k * n)
  := by
  induction k with
  | zero => simp
  | succ k ih =>
    rw [List.range_succ, List.map_append, List.flatten_append, ih, Nat.succ_mul, List.take_add]
    simp

theorem flatten_chunksOf {n : ℕ} (hn : 0 < n) (xs : List α) :
  (chunksOf n xs).flatten = xs
  := by
  rw [chunksOf, flatten_first, List.take_of_length_le]
  have hceil := Nat.lt_div_mul_add (a := xs.length + n - 1) hn
  omega

theorem chunksOf_zipIdx (n : ℕ) (xs : List α) :
  chunksOf n xs.zipIdx = (chunksOf n xs).zipIdx.map fun (chunk, i) => chunk.zipIdx (i * n)
  := by
  apply List.ext_getElem?
  intro i
  simp only [chunksOf, List.length_zipIdx, List.getElem?_map, List.getElem?_zipIdx]
  cases hi : (List.range ((xs.length + n - 1) / n))[i]? with
  | none => rfl
  | some j =>
    obtain ⟨hlt, rfl⟩ := List.getElem?_eq_some_iff.mp hi
    rw [List.getElem_range]
    simp only [Option.map_some, Option.some.injEq, Nat.zero_add]
    apply List.ext_getElem?
    intro k
    simp only [List.getElem?_take, List.getElem?_drop, List.getElem?_zipIdx]
    split
    · simp [Nat.add_comm]
    · rfl

theorem flatten_chunksOf_zipIdx {n : ℕ} (hn : 0 < n) (xs : List α) :
  ((chunksOf n xs).zipIdx.map fun (chunk, i) => chunk.zipIdx (i * n)).flatten = xs.zipIdx
  := by
  rw [← chunksOf_zipIdx, flatten_chunksOf hn]

theorem ne_nil_of_mem_chunksOf {n : ℕ} (hn : 0 < n) {xs chunk : List α}
    (h : chunk ∈ chunksOf n xs) :
  chunk ≠ []
  := by
  obtain ⟨i, hi, rfl⟩ := List.mem_map.mp h
  have hle := (Nat.lt_div_iff_mul_lt hn).mp (List.mem_range.mp hi)
  rw [Ne, List.take_eq_nil_iff, List.drop_eq_nil_iff]
  have hmul := Nat.mul_comm n i
  omega

theorem length_le_of_mem_chunksOf {n : ℕ} {xs chunk : List α} (h : chunk ∈ chunksOf n xs) :
  chunk.length ≤ n
  := by
  obtain ⟨i, -, rfl⟩ := List.mem_map.mp h
  apply List.length_take_le

/-! ### Batches -/

section

variable {ε β γ : Type}

/-- However long a batch may be, the batches hold the same elements in order, or there is the same
error. No batch is empty or too long. -/
structure Batched (build : ℕ → Except ε (List γ)) (batch : List β → γ)
    (whole : Except ε (List β)) : Prop where
  error : ∀ e, whole = .error e → ∀ size, build size = .error e
  ok : ∀ ys, whole = .ok ys → ∀ size, ∃ groups : List (List β), groups.flatten = ys
    ∧ build size = .ok (groups.map batch)
    ∧ ∀ group ∈ groups, group ≠ [] ∧ group.length ≤ max size 1

theorem mapM_chunksOf {α : Type} {n : ℕ} (hn : 0 < n) (f : α → Except ε β) (xs : List α) :
  xs.mapM f = ((chunksOf n xs).mapM (List.mapM f)).map List.flatten
  := by
  rw [← Result.mapM_flatten, flatten_chunksOf hn]

/-- What is computed of the elements with their places, in chunks, is what is computed of all of
them. -/
theorem batched_chunksOf {α : Type} (f : α × ℕ → Except ε β) (batch : List β → γ) (xs : List α) :
  Batched
    (fun size => (chunksOf (max size 1) xs).zipIdx.mapM fun (chunk, i) =>
      ((chunk.zipIdx (i * max size 1)).mapM f).map batch)
    batch (xs.zipIdx.mapM f)
  := by
  have hsize (size : ℕ) : 0 < max size 1 := by omega
  have hbuild (size : ℕ) : ((chunksOf (max size 1) xs).zipIdx.mapM fun (chunk, i) =>
      ((chunk.zipIdx (i * max size 1)).mapM f).map batch)
        = ((chunksOf (max size 1) xs.zipIdx).mapM (List.mapM f)).map
          (List.map batch) := by
    rw [← Result.mapM_map, chunksOf_zipIdx, List.mapM_map]
    rfl
  constructor
  · intro e he size
    rw [mapM_chunksOf (hsize size)] at he
    rw [hbuild]
    cases hgroups : (chunksOf (max size 1) xs.zipIdx).mapM (List.mapM f) with
    | error e' =>
      rw [hgroups] at he
      cases he
      rfl
    | ok groups =>
      rw [hgroups] at he
      cases he
  · intro ys hys size
    rw [mapM_chunksOf (hsize size)] at hys
    rw [hbuild]
    obtain ⟨groups, hgroups, rfl⟩ := Result.map_ok.mp hys
    rw [hgroups]
    refine ⟨groups, rfl, rfl, ?_⟩
    intro group hgroup
    obtain ⟨chunk, hchunk, hall⟩ := Result.exists_left (Result.mapM_ok.mp hgroups) hgroup
    have hlength := Result.length_of_mapM hall
    have hne := ne_nil_of_mem_chunksOf (hsize size) hchunk
    rw [← List.length_pos_iff, hlength] at hne
    rw [← hlength]
    exact ⟨List.length_pos_iff.mp hne, length_le_of_mem_chunksOf hchunk⟩

end

end Chunks
