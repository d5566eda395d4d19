import Catio.Lib.Program

/-!
# Programs under a contract

A contract says which answers an outside may give, after all that has happened.  `wpUnder` is
the weakest precondition of a program as long as the outside keeps the contract: what has to
hold so that the program ends with the given properties if each answer keeps it.
-/

namespace Program

variable {κ : Type} {ρ : κ → Type} {σ ε ε' α β : Type}

/-- As long as the outside keeps the contract `G`, the program ends with a result, a state and a
history that satisfy `Q`, or with an error and `E`. -/
def wpUnder (G : List (Event ρ) → Event ρ → Prop) (Q : α → σ → List (Event ρ) → Prop)
    (E : ε → σ → List (Event ρ) → Prop) : Program κ ρ σ ε α → σ → List (Event ρ) → Prop
  | .done a, s, h => Q a s h
  | .fail e, s, h => E e s h
  | .get next, s, h => wpUnder G Q E (next s) s h
  | .set s next, _, h => wpUnder G Q E next s h
  | .call c next, s, h => ∀ r : ρ c, G h ⟨c, r⟩ → wpUnder G Q E (next r) s (h ++ [⟨c, r⟩])

section

variable {G : List (Event ρ) → Event ρ → Prop} {Q : α → σ → List (Event ρ) → Prop}
  {E : ε → σ → List (Event ρ) → Prop} {s : σ} {h : List (Event ρ)}

theorem wpUnder_bind {Q : β → σ → List (Event ρ) → Prop} (p : Program κ ρ σ ε α)
    (f : α → Program κ ρ σ ε β) :
  wpUnder G Q E (p >>= f) s h ↔ wpUnder G (fun a s' h' => wpUnder G Q E (f a) s' h') E p s h
  := by
  induction p generalizing s h with
  | done a => rfl
  | fail e => rfl
  | get next ih => exact ih s
  | set s' next ih => exact ih
  | call c next ih => exact forall_congr' fun r => imp_congr_right fun _ => ih r

@[simp]
theorem wpUnder_load_bind {Q : β → σ → List (Event ρ) → Prop} {f : σ → Program κ ρ σ ε β} :
  wpUnder G Q E (load >>= f) s h ↔ wpUnder G Q E (f s) s h
  := Iff.rfl

variable {p : Program κ ρ σ ε α}

theorem wpUnder_mono {Q' : α → σ → List (Event ρ) → Prop} {E' : ε → σ → List (Event ρ) → Prop}
    (hp : wpUnder G Q E p s h) (hQ : ∀ a s' h', Q a s' h' → Q' a s' h')
    (hE : ∀ e s' h', E e s' h' → E' e s' h') :
  wpUnder G Q' E' p s h
  := by
  induction p generalizing s h with
  | done a => exact hQ a s h hp
  | fail e => exact hE e s h hp
  | get next ih => exact ih s hp
  | set s' next ih => exact ih hp
  | call c next ih => exact fun r hr => ih r (hp r hr)

theorem wpUnder_seq {R : α → σ → List (Event ρ) → Prop} {Q : β → σ → List (Event ρ) → Prop}
    {f : α → Program κ ρ σ ε β} (hp : wpUnder G R E p s h)
    (hf : ∀ a s' h', R a s' h' → wpUnder G Q E (f a) s' h') :
  wpUnder G Q E (p >>= f) s h
  := by
  rw [wpUnder_bind]
  apply wpUnder_mono hp hf
  intro e s' h' hE
  exact hE

theorem wpUnder_attempt {Q : Except ε α → σ → List (Event ρ) → Prop}
    {E : ε' → σ → List (Event ρ) → Prop} (p : Program κ ρ σ ε α) :
  wpUnder G Q E p.attempt s h
    ↔ wpUnder G (fun a => Q (.ok a)) (fun e => Q (.error e)) p s h
  := by
  induction p generalizing s h with
  | done a => rfl
  | fail e => rfl
  | get next ih => exact ih s
  | set s' next ih => exact ih
  | call c next ih => exact forall_congr' fun r => imp_congr_right fun _ => ih r

theorem wpUnder_attempt_seq {R : α → σ → List (Event ρ) → Prop} {R' : ε → σ → List (Event ρ) → Prop}
    {Q : β → σ → List (Event ρ) → Prop} {E : ε' → σ → List (Event ρ) → Prop}
    {f : Except ε α → Program κ ρ σ ε' β} (hp : wpUnder G R R' p s h)
    (hok : ∀ a s' h', R a s' h' → wpUnder G Q E (f (.ok a)) s' h')
    (herror : ∀ e s' h', R' e s' h' → wpUnder G Q E (f (.error e)) s' h') :
  wpUnder G Q E (p.attempt >>= f) s h
  := by
  rw [wpUnder_bind, wpUnder_attempt]
  apply wpUnder_mono hp hok herror

theorem wpUnder_ite {c : Prop} [Decidable c] (p q : Program κ ρ σ ε α) :
  wpUnder G Q E (if c then p else q) s h
    ↔ (c → wpUnder G Q E p s h) ∧ (¬ c → wpUnder G Q E q s h)
  := by
  by_cases hc : c
  · simp [hc]
  · simp [hc]

theorem wpUnder_run (o : Outside ρ) (hp : wpUnder G Q E p s h) (hG : Always G (run o p s h).2.2) :
  match run o p s h with
  | (.ok a, s', h') => Q a s' h'
  | (.error e, s', h') => E e s' h'
  := by
  induction p generalizing s h with
  | done a => exact hp
  | fail e => exact hp
  | get next ih => exact ih s hp hG
  | set s' next ih => exact ih hp hG
  | call c next ih =>
    apply ih (o h c) (hp (o h c) _) hG
    -- The answer is in the history of the run, behind what happened before it.
    obtain ⟨after, hafter⟩ := run_history (P := fun h' => h ++ [⟨c, o h c⟩] <+: h') o
      (wp_extends (next (o h c)))
    apply hG h _ after
    change (run o (next (o h c)) s (h ++ [⟨c, o h c⟩])).2.2 = _
    rw [← hafter]
    simp

end

end Program
