import Mathlib.Data.List.Forall2

/-!
# Fallible results

What it takes for a composed `Except` result to be a success.
-/

namespace Result

variable {ε ε' α β : Type}

variable {f : α → Except ε β} {x : Except ε α} {xs : List α} {ys : List β}

theorem bind_ok {b : β} :
  (x >>= f) = .ok b ↔ ∃ a, x = .ok a ∧ f a = .ok b
  := by
  cases x with
  | error e => simp [bind, Except.bind]
  | ok a => simp [bind, Except.bind]

theorem map_ok {f : α → β} {b : β} :
  x.map f = .ok b ↔ ∃ a, x = .ok a ∧ f a = b
  := by
  cases x with
  | error e => simp [Except.map]
  | ok a => simp [Except.map]

theorem mapError_ok {f : ε → ε'} {a : α} :
  x.mapError f = .ok a ↔ x = .ok a
  := by
  cases x with
  | error e => simp [Except.mapError]
  | ok b => simp [Except.mapError]

theorem toOption_bind :
  (x.bind f).toOption = x.toOption.bind fun a => (f a).toOption
  := by
  cases x with
  | error e => rfl
  | ok a => rfl

theorem toOption_map {f : α → β} :
  (x.map f).toOption = x.toOption.map f
  := by
  cases x with
  | error e => rfl
  | ok a => rfl

theorem toOption_mapError {f : ε → ε'} :
  (x.mapError f).toOption = x.toOption
  := by
  cases x with
  | error e => rfl
  | ok a => rfl

theorem toOption_eq_none :
  x.toOption = none ↔ ∃ e, x = .error e
  := by
  cases x with
  | error e => simp [Except.toOption]
  | ok a => simp [Except.toOption]

theorem toOption_eq_some {a : α} :
  x.toOption = some a ↔ x = .ok a
  := by
  cases x with
  | error e => simp [Except.toOption]
  | ok b => simp [Except.toOption]

theorem bind_map {β' : Type} {f' : α → Except ε β'} {g : β → β'} (h : ∀ a, f' a = (f a).map g) :
  (x >>= f') = (x >>= f).map g
  := by
  cases x with
  | error e => rfl
  | ok a => exact h a

theorem foldlM_map {σ σ' : Type} {f : σ → α → Except ε σ} {f' : σ' → α → Except ε σ'} {g : σ → σ'}
    (h : ∀ s x, f' (g s) x = (f s x).map g) (xs : List α) (s : σ) :
  xs.foldlM f' (g s) = (xs.foldlM f s).map g
  := by
  induction xs generalizing s with
  | nil => rfl
  | cons x xs ih =>
    rw [List.foldlM_cons, List.foldlM_cons, h]
    cases f s x with
    | error e => rfl
    | ok s' => exact ih s'

theorem mapM_ok :
  xs.mapM f = .ok ys ↔ List.Forall₂ (fun x y => f x = .ok y) xs ys
  := by
  induction xs generalizing ys with
  | nil => simp [pure, Except.pure, eq_comm]
  | cons x xs ih =>
    rw [List.mapM_cons, List.forall₂_cons_left_iff]
    simp only [bind_ok, ih]
    constructor
    · rintro ⟨y, hy, ys', hys, hall⟩
      exact ⟨y, ys', hy, hys, (Except.ok.inj hall).symm⟩
    · rintro ⟨y, ys', hy, hys, rfl⟩
      exact ⟨y, hy, ys', hys, rfl⟩

theorem exists_mapM_ok {f : α → Except ε β} {xs : List α} :
  (∃ ys, xs.mapM f = .ok ys) ↔ ¬∃ x ∈ xs, ∃ e, f x = .error e
  := by
  induction xs with
  | nil => simp [pure, Except.pure]
  | cons x xs ih =>
    rw [List.mapM_cons]
    simp only [bind_ok, List.exists_mem_cons_iff, not_or, ← ih]
    cases f x with
    | error e => simp
    | ok y => simp [pure, Except.pure]

theorem length_of_mapM (h : xs.mapM f = .ok ys) :
  xs.length = ys.length
  := (mapM_ok.mp h).length_eq

theorem mapM_flatten (xss : List (List α)) :
  xss.flatten.mapM f = (xss.mapM (List.mapM f)).map List.flatten
  := by
  induction xss with
  | nil => rfl
  | cons xs xss ih =>
    rw [List.flatten_cons, List.mapM_append, List.mapM_cons, ih]
    cases xs.mapM f with
    | error e => rfl
    | ok ys =>
      cases xss.mapM (List.mapM f) with
      | error e => rfl
      | ok yss => rfl

theorem mapM_map {γ : Type} {g : β → γ} (xs : List α) :
  (xs.mapM fun x => (f x).map g) = (xs.mapM f).map (List.map g)
  := by
  induction xs with
  | nil => rfl
  | cons x xs ih =>
    rw [List.mapM_cons, List.mapM_cons, ih]
    cases f x with
    | error e => rfl
    | ok y =>
      cases xs.mapM f with
      | error e => rfl
      | ok ys => rfl

theorem exists_left {R : α → β → Prop} (h : List.Forall₂ R xs ys) {y : β} (hy : y ∈ ys) :
  ∃ x ∈ xs, R x y
  := by
  induction h with
  | nil => cases hy
  | @cons a b xs ys hab _ ih =>
    rcases List.mem_cons.mp hy with rfl | hy
    · use a, List.mem_cons_self
    · obtain ⟨x, hx, hxy⟩ := ih hy
      use x, List.mem_cons_of_mem a hx

theorem exists_right {R : α → β → Prop} (h : List.Forall₂ R xs ys) {x : α} (hx : x ∈ xs) :
  ∃ y ∈ ys, R x y
  := exists_left h.flip hx

end Result
