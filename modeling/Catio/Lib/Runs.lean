import Mathlib.Data.List.Induction

/-!
# Runs

Runs of a labelled transition system from a start state, with the labels of their steps in
order, and what holds in all states that runs reach.
-/

/-- The system can run from the start state to a state by steps with these labels. -/
inductive Runs {σ ε : Type} (step : σ → ε → σ → Prop) (start : σ) : List ε → σ → Prop where
  | start : Runs step start [] start
  | snoc {es : List ε} {s s' : σ} {e : ε} (before : Runs step start es s) (last : step s e s') :
      Runs step start (es ++ [e]) s'

namespace Runs

variable {σ ε : Type} {step : σ → ε → σ → Prop} {start : σ} {es : List ε} {s s' : σ}

theorem invariant {P : σ → Prop} (init : P start) (keeps : ∀ s e s', P s → step s e s' → P s')
    (h : Runs step start es s) :
  P s
  := by
  induction h with
  | start => exact init
  | snoc _ last ih => exact keeps _ _ _ ih last

/-- What holds of the start without labels and is kept by each step with its label holds of
each run with all its labels. -/
theorem history {P : List ε → σ → Prop} (init : P [] start)
    (keeps : ∀ es s e s', P es s → step s e s' → P (es ++ [e]) s') (h : Runs step start es s) :
  P es s
  := by
  induction h with
  | start => exact init
  | snoc _ last ih => exact keeps _ _ _ _ ih last

theorem cons {s₀ : σ} {e : ε} (h : Runs step s es s') (first : step s₀ e s) :
  Runs step s₀ (e :: es) s'
  := by
  induction h with
  | start => exact Runs.start.snoc first
  | snoc _ last ih => exact ih.snoc last

theorem of_nil (h : Runs step start [] s) :
  s = start
  := by
  generalize hall : ([] : List ε) = all at h
  cases h with
  | start => rfl
  | snoc before last => simp at hall

/-- The last step of a run. -/
theorem of_snoc {e : ε} (h : Runs step start (es ++ [e]) s) :
  ∃ s₀, Runs step start es s₀ ∧ step s₀ e s
  := by
  generalize hall : es ++ [e] = all at h
  cases h with
  | start => simp at hall
  | snoc before last =>
    obtain ⟨rfl, heq⟩ := List.append_inj' hall rfl
    cases heq
    exact ⟨_, before, last⟩

/-- A run is a run of the labels in front, and then of those behind. -/
theorem of_append {es' : List ε} (h : Runs step start (es ++ es') s) :
  ∃ s₀, Runs step start es s₀ ∧ Runs step s₀ es' s
  := by
  induction es' using List.reverseRecOn generalizing s with
  | nil =>
    rw [List.append_nil] at h
    exact ⟨s, h, .start⟩
  | append_singleton es' e ih =>
    rw [← List.append_assoc] at h
    obtain ⟨s', before, last⟩ := h.of_snoc
    obtain ⟨s₀, front, back⟩ := ih before
    exact ⟨s₀, front, back.snoc last⟩

/-- The first step of a run. -/
theorem of_cons {e : ε} (h : Runs step start (e :: es) s) :
  ∃ s₀, step start e s₀ ∧ Runs step s₀ es s
  := by
  have hparts : Runs step start ([e] ++ es) s := h
  obtain ⟨s₀, front, back⟩ := hparts.of_append
  have hone : Runs step start ([] ++ [e]) s₀ := front
  obtain ⟨s', before, last⟩ := hone.of_snoc
  rw [before.of_nil] at last
  exact ⟨s₀, last, back⟩

end Runs
