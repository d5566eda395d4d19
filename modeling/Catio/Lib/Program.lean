import Mathlib.Data.List.Basic

/-!
# Programs that call the outside

A fallible program with a mutable state, which survives a failure, calls the outside (files, tokens,
clocks, databases) and goes on with the answers.  `run` runs it against an outside whose answers may
depend on all that has happened, and keeps the history.  `wp` is the weakest precondition: what has
to hold so that it ends with the given properties, whatever the outside answers.
-/

/-- A program: it is done, it fails, it reads or writes its state, or it calls the outside
and goes on with the answer. -/
inductive Program (κ : Type) (ρ : κ → Type) (σ ε α : Type) where
  | done (a : α)
  | fail (e : ε)
  | get (next : σ → Program κ ρ σ ε α)
  | set (s : σ) (next : Program κ ρ σ ε α)
  | call (c : κ) (next : ρ c → Program κ ρ σ ε α)

namespace Program

variable {κ : Type} {ρ : κ → Type} {σ ε ε' α β τ : Type}

/-- First one program, then another with its result. -/
def bind (p : Program κ ρ σ ε α) (f : α → Program κ ρ σ ε β) : Program κ ρ σ ε β :=
  match p with
  | .done a => f a
  | .fail e => .fail e
  | .get next => .get fun s => (next s).bind f
  | .set s next => .set s (next.bind f)
  | .call c next => .call c fun r => (next r).bind f

instance : Monad (Program κ ρ σ ε) where
  pure := .done
  bind := bind

/-- A computed result, or its error. -/
def ofExcept : Except ε α → Program κ ρ σ ε α
  | .ok a => .done a
  | .error e => .fail e

instance : MonadLift (Except ε) (Program κ ρ σ ε) where
  monadLift := ofExcept

/-- Run a program up to its result or its error, which is handed on as a value. -/
def attempt : Program κ ρ σ ε α → Program κ ρ σ ε' (Except ε α)
  | .done a => .done (.ok a)
  | .fail e => .done (.error e)
  | .get next => .get fun s => (next s).attempt
  | .set s next => .set s next.attempt
  | .call c next => .call c fun r => (next r).attempt

/-- The state. -/
def load : Program κ ρ σ ε σ :=
  .get .done

/-- Change the state. -/
def update (f : σ → σ) : Program κ ρ σ ε Unit :=
  .get fun s => .set (f s) (.done ())

/-- Call the outside for its answer. -/
def ask (c : κ) : Program κ ρ σ ε (ρ c) :=
  .call c .done

/-! ### Running a program -/

/-- A call and its answer. -/
abbrev Event (ρ : κ → Type) :=
  Σ c, ρ c

/-- An outside answers a call, given all that has happened. -/
abbrev Outside (ρ : κ → Type) :=
  List (Event ρ) → (c : κ) → ρ c

/-- The result, the state and the history of a program that is run against an outside, in
a state and after a history. -/
def run (o : Outside ρ) :
    Program κ ρ σ ε α → σ → List (Event ρ) → Except ε α × σ × List (Event ρ)
  | .done a, s, h => (.ok a, s, h)
  | .fail e, s, h => (.error e, s, h)
  | .get next, s, h => run o (next s) s h
  | .set s next, _, h => run o next s h
  | .call c next, s, h => run o (next (o h c)) s (h ++ [⟨c, o h c⟩])

/-! ### Weakest preconditions -/

/-- Whatever the outside answers, the program ends with a result, a state and a history that satisfy
`Q`, or with an error and `E`. -/
def wp (Q : α → σ → List (Event ρ) → Prop) (E : ε → σ → List (Event ρ) → Prop) :
    Program κ ρ σ ε α → σ → List (Event ρ) → Prop
  | .done a, s, h => Q a s h
  | .fail e, s, h => E e s h
  | .get next, s, h => wp Q E (next s) s h
  | .set s next, _, h => wp Q E next s h
  | .call c next, s, h => ∀ r : ρ c, wp Q E (next r) s (h ++ [⟨c, r⟩])

section

variable {Q : α → σ → List (Event ρ) → Prop} {E : ε → σ → List (Event ρ) → Prop}
  {s : σ} {h : List (Event ρ)}

@[simp]
theorem wp_pure (a : α) : wp Q E (pure a) s h ↔ Q a s h := Iff.rfl

@[simp]
theorem wp_fail (e : ε) : wp Q E (.fail e) s h ↔ E e s h := Iff.rfl

@[simp]
theorem wp_load {Q : σ → σ → List (Event ρ) → Prop} :
  wp Q E load s h ↔ Q s s h
  := Iff.rfl

@[simp]
theorem wp_update {Q : Unit → σ → List (Event ρ) → Prop} (f : σ → σ) :
  wp Q E (update f) s h ↔ Q () (f s) h
  := Iff.rfl

@[simp]
theorem wp_ask {c : κ} {Q : ρ c → σ → List (Event ρ) → Prop} :
  wp Q E (ask c) s h ↔ ∀ r : ρ c, Q r s (h ++ [⟨c, r⟩])
  := Iff.rfl

/-- The rule of composition. -/
@[simp]
theorem wp_bind {Q : β → σ → List (Event ρ) → Prop} (p : Program κ ρ σ ε α)
    (f : α → Program κ ρ σ ε β) :
  wp Q E (p >>= f) s h ↔ wp (fun a s' h' => wp Q E (f a) s' h') E p s h
  := by
  induction p generalizing s h with
  | done a => rfl
  | fail e => rfl
  | get next ih => exact ih s
  | set s' next ih => exact ih
  | call c next ih => exact forall_congr' fun r => ih r

theorem wp_ask_bind {Q : β → σ → List (Event ρ) → Prop} {c : κ} {f : ρ c → Program κ ρ σ ε β} :
  wp Q E (ask c >>= f) s h ↔ ∀ r : ρ c, wp Q E (f r) s (h ++ [⟨c, r⟩])
  := Iff.rfl

theorem wp_load_bind {Q : β → σ → List (Event ρ) → Prop} {f : σ → Program κ ρ σ ε β} :
  wp Q E (load >>= f) s h ↔ wp Q E (f s) s h
  := Iff.rfl

theorem wp_update_bind {Q : β → σ → List (Event ρ) → Prop} {f : σ → σ}
    {g : Unit → Program κ ρ σ ε β} :
  wp Q E (update f >>= g) s h ↔ wp Q E (g ()) (f s) h
  := Iff.rfl

@[simp]
theorem wp_ofExcept (x : Except ε α) :
  wp Q E (ofExcept x) s h ↔ (∀ a, x = .ok a → Q a s h) ∧ (∀ e, x = .error e → E e s h)
  := by
  cases x with
  | ok a => simp [ofExcept, wp]
  | error e => simp [ofExcept]

@[simp]
theorem wp_lift (x : Except ε α) :
  wp Q E (liftM x : Program κ ρ σ ε α) s h
    ↔ (∀ a, x = .ok a → Q a s h) ∧ (∀ e, x = .error e → E e s h)
  := wp_ofExcept x

/-- An attempt ends with a result in both cases. -/
@[simp]
theorem wp_attempt {Q : Except ε α → σ → List (Event ρ) → Prop} {E : ε' → σ → List (Event ρ) → Prop}
    (p : Program κ ρ σ ε α) :
  wp Q E p.attempt s h ↔ wp (fun a => Q (.ok a)) (fun e => Q (.error e)) p s h
  := by
  induction p generalizing s h with
  | done a => rfl
  | fail e => rfl
  | get next ih => exact ih s
  | set s' next ih => exact ih
  | call c next ih => exact forall_congr' fun r => ih r

@[simp]
theorem wp_ite {c : Prop} [Decidable c] (p q : Program κ ρ σ ε α) :
  wp Q E (if c then p else q) s h ↔ (c → wp Q E p s h) ∧ (¬ c → wp Q E q s h)
  := by
  by_cases hc : c
  · simp [hc]
  · simp [hc]

variable {p : Program κ ρ σ ε α}

/-- The rule of consequence. -/
theorem wp_mono {Q' : α → σ → List (Event ρ) → Prop} {E' : ε → σ → List (Event ρ) → Prop}
    (hp : wp Q E p s h) (hQ : ∀ a s' h', Q a s' h' → Q' a s' h')
    (hE : ∀ e s' h', E e s' h' → E' e s' h') :
  wp Q' E' p s h
  := by
  induction p generalizing s h with
  | done a => exact hQ a s h hp
  | fail e => exact hE e s h hp
  | get next ih => exact ih s hp
  | set s' next ih => exact ih hp
  | call c next ih => exact fun r => ih r (hp r)

/-- Every program ends. -/
theorem wp_true (p : Program κ ρ σ ε α) :
  wp (fun _ _ _ => True) (fun _ _ _ => True) p s h
  := by
  induction p generalizing s h with
  | done a => trivial
  | fail e => trivial
  | get next ih => exact ih s
  | set s' next ih => exact ih
  | call c next ih => exact fun r => ih r

/-- The rule of conjunction. -/
theorem wp_and {Q' : α → σ → List (Event ρ) → Prop} {E' : ε → σ → List (Event ρ) → Prop}
    (hp : wp Q E p s h) (hp' : wp Q' E' p s h) :
  wp (fun a s h => Q a s h ∧ Q' a s h) (fun e s h => E e s h ∧ E' e s h) p s h
  := by
  induction p generalizing s h with
  | done a => exact ⟨hp, hp'⟩
  | fail e => exact ⟨hp, hp'⟩
  | get next ih => exact ih s hp hp'
  | set s' next ih => exact ih hp hp'
  | call c next ih => exact fun r => ih r (hp r) (hp' r)

/-- What happened before a program runs stays in the history. -/
theorem wp_extends (p : Program κ ρ σ ε α) :
  wp (fun _ _ h' => h <+: h') (fun _ _ h' => h <+: h') p s h
  := by
  induction p generalizing s h with
  | done a => exact List.prefix_refl h
  | fail e => exact List.prefix_refl h
  | get next ih => exact ih s
  | set s' next ih => exact ih
  | call c next ih =>
    intro r
    apply wp_mono (ih r)
    · intro _ _ _ hle
      exact (List.prefix_append _ _).trans hle
    · intro _ _ _ hle
      exact (List.prefix_append _ _).trans hle

theorem wp_kept (hp : wp Q E p s h) :
  wp (fun a s' h' => Q a s' h' ∧ h <+: h') E p s h
  := by
  apply wp_mono (wp_and hp (wp_extends p))
  · intro _ _ _ hboth
    exact hboth
  · intro _ _ _ hboth
    exact hboth.1

/-- What is assumed of the whole history may be used of the history so far, if it is kept by
prefixes. -/
theorem wp_assume {P : List (Event ρ) → Prop}
    (kept : ∀ h h' : List (Event ρ), h <+: h' → P h' → P h)
    (hp : P h → wp (fun a s h => P h → Q a s h) (fun _ _ _ => True) p s h) :
  wp (fun a s h => P h → Q a s h) (fun _ _ _ => True) p s h
  := by
  by_cases hP : P h
  · exact hp hP
  · apply wp_mono (wp_extends p)
    · intro _ _ h' hle hP'
      exact absurd (kept h h' hle hP') hP
    · intro _ _ _ _
      trivial

/-- The rule of composition, with what holds between the two programs. -/
theorem wp_seq {R : α → σ → List (Event ρ) → Prop} {Q : β → σ → List (Event ρ) → Prop}
    {f : α → Program κ ρ σ ε β} (hp : wp R E p s h)
    (hf : ∀ a s' h', R a s' h' → wp Q E (f a) s' h') :
  wp Q E (p >>= f) s h
  := by
  rw [wp_bind]
  apply wp_mono hp hf
  intro e s' h' hE
  exact hE

/-- The rule of attempts: what comes after goes on with the result or with the error. -/
theorem wp_attempt_seq {R : α → σ → List (Event ρ) → Prop} {R' : ε → σ → List (Event ρ) → Prop}
    {Q : β → σ → List (Event ρ) → Prop} {E : ε' → σ → List (Event ρ) → Prop}
    {f : Except ε α → Program κ ρ σ ε' β} (hp : wp R R' p s h)
    (hok : ∀ a s' h', R a s' h' → wp Q E (f (.ok a)) s' h')
    (herror : ∀ e s' h', R' e s' h' → wp Q E (f (.error e)) s' h') :
  wp Q E (p.attempt >>= f) s h
  := by
  rw [wp_bind, wp_attempt]
  exact wp_mono hp hok herror

/-- The rule of loops over a list: what holds before each element, of the elements that
are left, holds at the end of none. -/
theorem wp_foldlM {b : τ → β → Program κ ρ σ ε τ} {I : τ → List β → σ → List (Event ρ) → Prop}
    (step : ∀ t x xs s h, I t (x :: xs) s h →
      wp (fun t' s' h' => I t' xs s' h') E (b t x) s h) :
  ∀ (xs : List β) (t : τ) (s : σ) (h : List (Event ρ)), I t xs s h →
    wp (fun t' s' h' => I t' [] s' h') E (xs.foldlM b t) s h
  | [], _, _, _, hI => hI
  | x :: xs, t, s, h, hI => by
      rw [List.foldlM_cons]
      apply wp_seq (step t x xs s h hI)
      intro t' s' h' hI'
      exact wp_foldlM step xs t' s' h' hI'

/-- A run ends as the weakest precondition says. -/
theorem wp_run (o : Outside ρ) (hp : wp Q E p s h) :
  match run o p s h with
  | (.ok a, s', h') => Q a s' h'
  | (.error e, s', h') => E e s' h'
  := by
  induction p generalizing s h with
  | done a => exact hp
  | fail e => exact hp
  | get next ih => exact ih s hp
  | set s' next ih => exact ih hp
  | call c next ih => exact ih (o h c) (hp (o h c))

/-- A run that ends with a result ends as the weakest precondition says. -/
theorem run_ok (o : Outside ρ) (hp : wp Q E p s h) {a : α} (ha : (run o p s h).1 = .ok a) :
  Q a (run o p s h).2.1 (run o p s h).2.2
  := by
  have hrun := wp_run o hp
  split at hrun
  · rename_i heq
    rw [heq] at ha ⊢
    cases ha
    exact hrun
  · rename_i heq
    rw [heq] at ha
    cases ha

/-- What holds of the history in both cases holds after a run. -/
theorem run_history (o : Outside ρ) {P : List (Event ρ) → Prop}
    (hp : wp (fun _ _ h => P h) (fun _ _ h => P h) p s h) :
  P (run o p s h).2.2
  := by
  have hrun := wp_run o hp
  split at hrun
  · rename_i heq
    rw [heq]
    exact hrun
  · rename_i heq
    rw [heq]
    exact hrun

end

/-! ### Calls of a kind -/

/-- All calls of the program are of a kind. -/
def OnlyCalls (P : κ → Prop) : Program κ ρ σ ε α → Prop
  | .done _ => True
  | .fail _ => True
  | .get next => ∀ s, (next s).OnlyCalls P
  | .set _ next => next.OnlyCalls P
  | .call c next => P c ∧ ∀ r, (next r).OnlyCalls P

section

variable {P P' : κ → Prop} {p : Program κ ρ σ ε α}

theorem onlyCalls_pure (a : α) : (pure a : Program κ ρ σ ε α).OnlyCalls P := trivial

theorem onlyCalls_ask {c : κ} (h : P c) :
  (ask c : Program κ ρ σ ε (ρ c)).OnlyCalls P
  := ⟨h, fun _ => trivial⟩

theorem onlyCalls_bind {f : α → Program κ ρ σ ε β} (hp : p.OnlyCalls P)
    (hf : ∀ a, (f a).OnlyCalls P) :
  (p >>= f).OnlyCalls P
  := by
  induction p with
  | done a => exact hf a
  | fail e => trivial
  | get next ih => exact fun s => ih s (hp s)
  | set s' next ih => exact ih hp
  | call c next ih => exact ⟨hp.1, fun r => ih r (hp.2 r)⟩

theorem onlyCalls_lift (x : Except ε α) :
  (liftM x : Program κ ρ σ ε α).OnlyCalls P
  := by
  cases x with
  | ok a => trivial
  | error e => trivial

theorem OnlyCalls.mono (hp : p.OnlyCalls P) (h : ∀ c, P c → P' c) :
  p.OnlyCalls P'
  := by
  induction p with
  | done a => trivial
  | fail e => trivial
  | get next ih => exact fun s => ih s (hp s)
  | set s' next ih => exact ih hp
  | call c next ih => exact ⟨h c hp.1, fun r => ih r (hp.2 r)⟩

theorem onlyCalls_attempt (hp : p.OnlyCalls P) :
  (p.attempt : Program κ ρ σ ε' (Except ε α)).OnlyCalls P
  := by
  induction p with
  | done a => trivial
  | fail e => trivial
  | get next ih => exact fun s => ih s (hp s)
  | set s' next ih => exact ih hp
  | call c next ih => exact ⟨hp.1, fun r => ih r (hp.2 r)⟩

/-- What a program adds to the history are calls of its kind. -/
theorem OnlyCalls.wp {s : σ} {h : List (Event ρ)} (hp : p.OnlyCalls P) :
  wp (fun _ _ h' => ∃ es, h' = h ++ es ∧ ∀ e ∈ es, P e.1)
    (fun _ _ h' => ∃ es, h' = h ++ es ∧ ∀ e ∈ es, P e.1) p s h
  := by
  induction p generalizing s h with
  | done a => exact ⟨[], by simp, by simp⟩
  | fail e => exact ⟨[], by simp, by simp⟩
  | get next ih => exact ih s (hp s)
  | set s' next ih => exact ih hp
  | call c next ih =>
    intro r
    have hcons : ∀ h' : List (Event ρ),
        (∃ es, h' = h ++ [⟨c, r⟩] ++ es ∧ ∀ e ∈ es, P e.1) →
          ∃ es, h' = h ++ es ∧ ∀ e ∈ es, P e.1 := by
      rintro h' ⟨es, rfl, hes⟩
      use ⟨c, r⟩ :: es
      constructor
      · simp
      · rw [List.forall_mem_cons]
        exact ⟨hp.1, hes⟩
    apply wp_mono (ih r (hp.2 r))
    · intro _ _ h'
      exact hcons h'
    · intro _ _ h'
      exact hcons h'

end

/-! ### What holds at each call -/

/-- Each event of the history is as it should be, given what happened before it. -/
def Always (P : List (Event ρ) → Event ρ → Prop) (h : List (Event ρ)) : Prop :=
  ∀ before e after, h = before ++ e :: after → P before e

section

variable {P : List (Event ρ) → Event ρ → Prop} {h es : List (Event ρ)} {e : Event ρ}

theorem always_nil :
  Always P []
  := by
  intro before e after heq
  simp at heq

theorem always_snoc :
  Always P (h ++ [e]) ↔ Always P h ∧ P h e
  := by
  constructor
  · intro hall
    constructor
    · rintro before e' after rfl
      exact hall before e' (after ++ [e]) (by simp)
    · exact hall h e [] rfl
  · rintro ⟨hbefore, hlast⟩ before e' after heq
    rcases List.eq_nil_or_concat after with rfl | ⟨after, e'', rfl⟩
    · obtain ⟨rfl, hone⟩ := List.append_inj' heq rfl
      obtain ⟨rfl, -⟩ := List.cons.inj hone
      exact hlast
    · have hlong : h ++ [e] = (before ++ e' :: after) ++ [e''] := by simpa using heq
      exact hbefore before e' after (List.append_inj' hlong rfl).1

/-- Further events that are as they should be whatever happens between. -/
theorem always_append (hbefore : Always P h) (hes : ∀ before, h <+: before → ∀ e ∈ es, P before e) :
  Always P (h ++ es)
  := by
  induction es generalizing h with
  | nil => simpa using hbefore
  | cons e es ih =>
    rw [List.append_cons]
    apply ih
    · rw [always_snoc]
      exact ⟨hbefore, hes h (List.prefix_refl h) e List.mem_cons_self⟩
    · intro before hle e' he'
      apply hes before _ e' (List.mem_cons_of_mem e he')
      exact (List.prefix_append h [e]).trans hle

end

/-- The answers in the history of a run are those of the outside. -/
theorem run_answers (o : Outside ρ) {p : Program κ ρ σ ε α} {s : σ} {h : List (Event ρ)}
    (hh : Always (fun before e => e.2 = o before e.1) h) :
  Always (fun before e => e.2 = o before e.1) (run o p s h).2.2
  := by
  induction p generalizing s h with
  | done a => exact hh
  | fail e => exact hh
  | get next ih => exact ih s hh
  | set s' next ih => exact ih hh
  | call c next ih =>
    apply ih (o h c)
    rw [always_snoc]
    exact ⟨hh, rfl⟩

/-! ### Runs of composed programs -/

/-- The run of a composition is the composition of the runs. -/
theorem run_bind (o : Outside ρ) (p : Program κ ρ σ ε α) (f : α → Program κ ρ σ ε β) (s : σ)
    (h : List (Event ρ)) :
  run o (p >>= f) s h
    = match run o p s h with
      | (.ok a, s', h') => run o (f a) s' h'
      | (.error e, s', h') => (.error e, s', h')
  := by
  induction p generalizing s h with
  | done a => rfl
  | fail e => rfl
  | get next ih => exact ih s s h
  | set s' next ih => exact ih s' h
  | call c next ih => exact ih (o h c) s (h ++ [⟨c, o h c⟩])

end Program
