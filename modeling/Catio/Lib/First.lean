import Mathlib.Data.List.Basic

/-!
# Changing the first match

The first element of a list that satisfies a predicate is replaced or removed.  What a filter
keeps of the list is changed in the same way, if the filter keeps the element, and is left as it
was, if it does not.
-/

namespace First

variable {α : Type}

/-- Replace the first match, or remove it. -/
def changeFirst (p : α → Bool) (f : α → Option α) : List α → Option (List α)
  | [] => none
  | x :: xs => if p x then some ((f x).toList ++ xs) else (changeFirst p f xs).map (x :: ·)

section

variable {p q : α → Bool} {f g : α → Option α} {l l' : List α}

theorem changeFirst_cons_of_pos {x : α} {xs : List α} (hp : p x) :
  changeFirst p f (x :: xs) = some ((f x).toList ++ xs)
  := if_pos hp

theorem changeFirst_cons_of_neg {x : α} {xs : List α} (hp : ¬ p x) :
  changeFirst p f (x :: xs) = (changeFirst p f xs).map (x :: ·)
  := if_neg hp

theorem changeFirst_filter (hpq : ∀ x ∈ l, p x → q x)
    (hkeeps : ∀ x ∈ l, p x → ∀ y, f x = some y → q y) :
  (changeFirst p f l).map (List.filter q) = changeFirst p f (l.filter q)
  := by
  induction l with
  | nil => rfl
  | cons x xs ih =>
    rw [List.forall_mem_cons] at hpq hkeeps
    have hrest := ih hpq.2 hkeeps.2
    by_cases hp : p x
    · have hq := hpq.1 hp
      rw [List.filter_cons_of_pos hq, changeFirst_cons_of_pos hp, changeFirst_cons_of_pos hp,
        Option.map_some, List.filter_append]
      cases hf : f x with
      | none => rfl
      | some y =>
        have hy := hkeeps.1 hp y hf
        simp [hy]
    · rw [changeFirst_cons_of_neg hp, Option.map_map]
      by_cases hq : q x
      · rw [List.filter_cons_of_pos hq, changeFirst_cons_of_neg hp, ← hrest, Option.map_map]
        congr 1
        funext ys
        exact List.filter_cons_of_pos hq
      · rw [List.filter_cons_of_neg hq, ← hrest]
        congr 1
        funext ys
        exact List.filter_cons_of_neg hq

theorem filter_of_changeFirst (hchanged : changeFirst p f l = some l')
    (hpq : ∀ x ∈ l, p x → q x = false) (hdrops : ∀ x ∈ l, p x → ∀ y, f x = some y → q y = false) :
  l'.filter q = l.filter q
  := by
  induction l generalizing l' with
  | nil => cases hchanged
  | cons x xs ih =>
    rw [List.forall_mem_cons] at hpq hdrops
    by_cases hp : p x
    · rw [changeFirst_cons_of_pos hp] at hchanged
      cases hchanged
      have hx := hpq.1 hp
      rw [List.filter_append, List.filter_cons_of_neg (by simp [hx])]
      cases hf : f x with
      | none => rfl
      | some y =>
        have hy := hdrops.1 hp y hf
        simp [hy]
    · rw [changeFirst_cons_of_neg hp] at hchanged
      obtain ⟨ys, hys, rfl⟩ := Option.map_eq_some_iff.mp hchanged
      rw [List.filter_cons, List.filter_cons, ih hys hpq.2 hdrops.2]

theorem exists_mem_of_changeFirst (hchanged : changeFirst p f l = some l') :
  ∃ x ∈ l, p x ∧ ∀ y, f x = some y → y ∈ l'
  := by
  induction l generalizing l' with
  | nil => cases hchanged
  | cons x xs ih =>
    by_cases hp : p x
    · rw [changeFirst_cons_of_pos hp] at hchanged
      cases hchanged
      refine ⟨x, by simp, hp, ?_⟩
      intro y hy
      rw [hy]
      simp
    · rw [changeFirst_cons_of_neg hp] at hchanged
      obtain ⟨ys, hys, rfl⟩ := Option.map_eq_some_iff.mp hchanged
      obtain ⟨x', hx', hp', hy⟩ := ih hys
      exact ⟨x', List.mem_cons_of_mem _ hx', hp', fun y h => List.mem_cons_of_mem _ (hy y h)⟩

end

end First
