import Mathlib.Data.List.Basic
import Mathlib.Data.List.Induction

/-!
# Deterministic runs

The states that a step function reaches along a list of events, and what holds in them: what each
event of a run finds (`Throughout`), and the induction along a run (`Steps.history`).
-/

namespace Steps

variable {σ ε : Type} (after : σ → ε → σ)

/-- Each event of a run finds this. -/
def Throughout (P : ε → σ → Prop) (es : List ε) (s : σ) : Prop :=
  ∀ pre e post, es = pre ++ e :: post → P e (pre.foldl after s)

variable {after} {P : ε → σ → Prop} {es : List ε} {e : ε} {s : σ}

theorem Throughout.init (h : Throughout after P (es ++ [e]) s) :
  Throughout after P es s ∧ P e (es.foldl after s)
  := by
  constructor
  · intro pre e' post heq
    apply h pre e' (post ++ [e])
    rw [heq]
    simp
  · exact h es e [] rfl

theorem throughout_nil :
  Throughout after P [] s
  := by
  intro pre e post heq
  simp at heq

/-- What each event of a run finds is what the first event finds at the start, and the others
after it. -/
theorem throughout_cons :
  Throughout after P (e :: es) s ↔ P e s ∧ Throughout after P es (after s e)
  := by
  constructor
  · intro h
    constructor
    · exact h [] e es rfl
    · intro pre e' post heq
      exact h (e :: pre) e' post (by rw [heq, List.cons_append])
  · rintro ⟨hfirst, hrest⟩ pre e' post heq
    cases pre with
    | nil =>
      cases heq
      exact hfirst
    | cons x pre =>
      rw [List.cons_append, List.cons.injEq] at heq
      obtain ⟨rfl, heq⟩ := heq
      exact hrest pre e' post heq

instance decidableThroughout [∀ e s, Decidable (P e s)] :
    ∀ es s, Decidable (Throughout after P es s)
  | [], _ => .isTrue throughout_nil
  | e :: es, s =>
      have := decidableThroughout es (after s e)
      decidable_of_iff (P e s ∧ Throughout after P es (after s e)) throughout_cons.symm

/-- What each event keeps holds of all events of a run and the state they reach. -/
theorem history {Q : List ε → σ → Prop} (init : Q [] s)
    (keeps : ∀ es e, Q es (es.foldl after s) → P e (es.foldl after s) →
      Q (es ++ [e]) (after (es.foldl after s) e))
    (h : Throughout after P es s) :
  Q es (es.foldl after s)
  := by
  induction es using List.reverseRecOn with
  | nil => exact init
  | append_singleton es e ih =>
    obtain ⟨hbefore, hlast⟩ := h.init
    rw [List.foldl_concat]
    exact keeps es e (ih hbefore) hlast

theorem invariant {Q : σ → Prop} (init : Q s) (keeps : ∀ s e, Q s → P e s → Q (after s e))
    (h : Throughout after P es s) :
  Q (es.foldl after s)
  := by
  apply history (Q := fun _ s => Q s) init _ h
  intro es e
  exact keeps _ e

/-- An event of a run that is one event longer is the last one, or an earlier one. -/
theorem snoc_cases {pre post : List ε} {x : ε} (h : es ++ [e] = pre ++ x :: post) :
  (es = pre ∧ e = x) ∨ ∃ post', es = pre ++ x :: post'
  := by
  obtain rfl | ⟨post', y, rfl⟩ := List.eq_nil_or_concat post
  · obtain ⟨heq, hlast⟩ := List.append_inj' h rfl
    cases hlast
    exact .inl ⟨heq, rfl⟩
  · rw [List.concat_eq_append, ← List.cons_append, ← List.append_assoc] at h
    exact .inr ⟨post', (List.append_inj' h rfl).1⟩

theorem Throughout.of_append {es' : List ε} (h : Throughout after P (es ++ es') s) :
  Throughout after P es s
  := by
  intro pre e post heq
  apply h pre e (post ++ es')
  rw [heq, List.append_assoc, List.cons_append]

end Steps

/-!
## What an owner sees of a shared machine

A machine that is shared by owners, and the view that each owner has of its state.  If an
operation changes the view of its own owner only, and as it would in the view itself, then the
view of an owner after a run is that of the run of the operations of the owner alone
(`Unwinding.run`), and they are answered in the same way (`Unwinding.answers`).
-/

/-- A machine: the state after an operation, and what the operation answers. -/
structure Machine (σ ο ρ : Type) where
  after : ο → σ → σ
  answer : ο → σ → ρ

namespace Machine

variable {σ ο ρ ω : Type} (m : Machine σ ο ρ)

/-- The state after operations. -/
def run (ops : List ο) (s : σ) : σ :=
  ops.foldl (fun s op => m.after op s) s

theorem run_snoc (ops : List ο) (op : ο) (s : σ) :
  m.run (ops ++ [op]) s = m.after op (m.run ops s)
  := by
  unfold run
  rw [List.foldl_append]
  rfl

/-- Each operation of a run finds this. -/
def Throughout (P : ο → σ → Prop) (ops : List ο) (s : σ) : Prop :=
  ∀ pre op post, ops = pre ++ op :: post → P op (m.run pre s)

variable {m} in
theorem Throughout.init {P : ο → σ → Prop} {ops : List ο} {op : ο} {s : σ}
    (h : m.Throughout P (ops ++ [op]) s) :
  m.Throughout P ops s ∧ P op (m.run ops s)
  := Steps.Throughout.init h

variable {m} in
theorem Throughout.of_append {P : ο → σ → Prop} {ops ops' : List ο} {s : σ}
    (h : m.Throughout P (ops ++ ops') s) :
  m.Throughout P ops s
  := Steps.Throughout.of_append h

/-- In states with an invariant, clear operations act on their owner's view only, and as they would
in it. -/
structure Unwinding (owner : ο → ω) (view : ω → σ → σ) (Inv : σ → Prop) (Clear : ο → σ → Prop) :
    Prop where
  keeps : ∀ op s, Inv s → Clear op s → Inv (m.after op s)
  other : ∀ op s, Inv s → Clear op s → ∀ w, owner op ≠ w → view w (m.after op s) = view w s
  own : ∀ op s, Inv s → Clear op s → view (owner op) (m.after op s) = m.after op (view (owner op) s)
  answer : ∀ op s, Inv s → Clear op s → m.answer op s = m.answer op (view (owner op) s)

namespace Unwinding

variable {m} {owner : ο → ω} {view : ω → σ → σ} {Inv : σ → Prop}
  {Clear : ο → σ → Prop} {s : σ} {ops : List ο}

/-- The invariant holds after a run. -/
theorem inv_run (u : m.Unwinding owner view Inv Clear) (hinv : Inv s)
    (hclear : m.Throughout Clear ops s) :
  Inv (m.run ops s)
  := by
  induction ops using List.reverseRecOn with
  | nil => exact hinv
  | append_singleton ops op ih =>
    obtain ⟨hbefore, hlast⟩ := hclear.init
    rw [run_snoc]
    exact u.keeps _ _ (ih hbefore) hlast

variable [DecidableEq ω]

/-- The view of an owner after a run is that of the operations of the owner. -/
theorem run (u : m.Unwinding owner view Inv Clear) (hinv : Inv s)
    (hclear : m.Throughout Clear ops s) (w : ω) :
  view w (m.run ops s) = m.run (ops.filter fun op => owner op = w) (view w s)
  := by
  induction ops using List.reverseRecOn with
  | nil => rfl
  | append_singleton ops op ih =>
    obtain ⟨hbefore, hlast⟩ := hclear.init
    have hinv' := u.inv_run hinv hbefore
    rw [run_snoc, List.filter_append, List.filter_singleton]
    by_cases hown : owner op = w
    · subst hown
      rw [decide_eq_true rfl, u.own _ _ hinv' hlast, ih hbefore]
      exact (run_snoc _ _ _ _).symm
    · rw [decide_eq_false hown, u.other _ _ hinv' hlast w hown, ih hbefore]
      exact congrArg (fun ops => m.run ops (view w s)) (List.append_nil _).symm

/-- An operation in a run is answered as it is behind the operations of its owner alone. -/
theorem answers (u : m.Unwinding owner view Inv Clear) (hinv : Inv s)
    (hclear : m.Throughout Clear ops s) {pre post : List ο} {op : ο}
    (heq : ops = pre ++ op :: post) :
  m.answer op (m.run pre s)
    = m.answer op (m.run (pre.filter fun op' => owner op' = owner op) (view (owner op) s))
  := by
  subst heq
  have hbefore := hclear.of_append
  rw [u.answer _ _ (u.inv_run hinv hbefore) (hclear pre op post rfl), u.run hinv hbefore]

omit [DecidableEq ω] in
theorem untouched (u : m.Unwinding owner view Inv Clear) (hinv : Inv s)
    (hclear : m.Throughout Clear ops s) {pre post : List ο} {op : ο} (heq : ops = pre ++ op :: post)
    {w : ω} (hother : owner op ≠ w) :
  view w (m.after op (m.run pre s)) = view w (m.run pre s)
  := by
  subst heq
  exact u.other _ _ (u.inv_run hinv hclear.of_append) (hclear pre op post rfl) w hother

end Unwinding

end Machine
