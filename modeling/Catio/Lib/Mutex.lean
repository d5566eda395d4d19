import Catio.Lib.Places
import Catio.Lib.Program
import Catio.Lib.Steps

/-!
# Operations under one lock

Threads run operations on a shared state, interleaved in any way.  Before it takes the lock an
operation may call the outside, but does not touch the state; with the lock it is a program on the
state.  One that writes the state once, at its end, takes effect at one moment of the run, as if it
ran alone (`tookEffect`), and a step changes the state only as the operation of its thread does
(`step_state`).
-/

namespace Mutex

variable {ι κ : Type} {ρ : κ → Type} {σ ε α : Type}

/-- An operation: what it does before it takes the lock gives what it does with the lock. -/
abbrev Operation (κ : Type) (ρ : κ → Type) (σ ε α : Type) :=
  Program κ ρ Unit ε (Program κ ρ σ ε α)

/-- A thread: it has not taken the lock yet, it has the lock, or it has ended. -/
inductive Thread (κ : Type) (ρ : κ → Type) (σ ε α : Type) where
  | preparing (p : Operation κ ρ σ ε α)
  | inside (p : Program κ ρ σ ε α)
  | ended (r : Except ε α)

/-- The state, the thread that has the lock, and the threads with their operations. -/
structure Shared (ι κ : Type) (ρ : κ → Type) (σ ε α : Type) where
  state : σ
  holder : Option ℕ
  threads : List (ι × Thread κ ρ σ ε α)

/-- What happens: an operation is called, or a thread makes a step, where the outside answers. -/
inductive Event (ι κ : Type) (ρ : κ → Type) where
  | call (op : ι)
  | step (i : ℕ) (answer : ∀ c, ρ c)

namespace Shared

/-- At the start. -/
def init (s : σ) : Shared ι κ ρ σ ε α :=
  ⟨s, none, []⟩

/-- A thread is changed. -/
def setThread (m : Shared ι κ ρ σ ε α) (i : ℕ) (op : ι) (t : Thread κ ρ σ ε α) :
    Shared ι κ ρ σ ε α :=
  { m with threads := m.threads.set i (op, t) }

/-- The thread that has the lock ends, and gives it back. -/
def release (m : Shared ι κ ρ σ ε α) (i : ℕ) (op : ι) (r : Except ε α) : Shared ι κ ρ σ ε α :=
  { m.setThread i op (.ended r) with holder := none }

/-- A step of a thread; a thread that waits for the lock, or has ended, stays as it is. -/
def step (m : Shared ι κ ρ σ ε α) (i : ℕ) (answer : ∀ c, ρ c) : Shared ι κ ρ σ ε α :=
  match m.threads[i]? with
  | none => m
  | some (op, .preparing (.done critical)) =>
      match m.holder with
      | none => { m.setThread i op (.inside critical) with holder := some i }
      | some _ => m
  | some (op, .preparing (.fail e)) => m.setThread i op (.ended (.error e))
  | some (op, .preparing (.get next)) => m.setThread i op (.preparing (next ()))
  | some (op, .preparing (.set _ next)) => m.setThread i op (.preparing next)
  | some (op, .preparing (.call c next)) => m.setThread i op (.preparing (next (answer c)))
  | some (op, .inside (.done a)) => m.release i op (.ok a)
  | some (op, .inside (.fail e)) => m.release i op (.error e)
  | some (op, .inside (.get next)) => m.setThread i op (.inside (next m.state))
  | some (op, .inside (.set s next)) => { m.setThread i op (.inside next) with state := s }
  | some (op, .inside (.call c next)) => m.setThread i op (.inside (next (answer c)))
  | some (_, .ended _) => m

/-- The state after an event, where operations have these programs. -/
def after (program : ι → Operation κ ρ σ ε α) (m : Shared ι κ ρ σ ε α) :
    Event ι κ ρ → Shared ι κ ρ σ ε α
  | .call op => { m with threads := m.threads ++ [(op, .preparing (program op))] }
  | .step i answer => m.step i answer

end Shared

/-- The state after a run. -/
def run (program : ι → Operation κ ρ σ ε α) (s₀ : σ) (es : List (Event ι κ ρ)) :
    Shared ι κ ρ σ ε α :=
  es.foldl (Shared.after program) (Shared.init s₀)

/-! ### What operations do alone -/

/-- The program writes its state once at most, and only ends after that. -/
def WritesLast : Program κ ρ σ ε α → Prop
  | .done _ => True
  | .fail _ => True
  | .get next => ∀ s, WritesLast (next s)
  | .set _ next => ∃ r, next = Program.ofExcept r
  | .call _ next => ∀ r, WritesLast (next r)

/-- The program does not write its state. -/
def OnlyReads : Program κ ρ σ ε α → Prop
  | .done _ => True
  | .fail _ => True
  | .get next => ∀ s, OnlyReads (next s)
  | .set _ _ => False
  | .call _ next => ∀ r, OnlyReads (next r)

section

variable {β ε' : Type} {p : Program κ ρ σ ε α}

/-- First it only reads, then it writes once. -/
theorem OnlyReads.writesLast_bind {f : α → Program κ ρ σ ε β} (hp : OnlyReads p)
    (hf : ∀ a, WritesLast (f a)) :
  WritesLast (p >>= f)
  := by
  induction p with
  | done a => exact hf a
  | fail e => trivial
  | get next ih => exact fun s => ih s (hp s)
  | set s next ih => cases hp
  | call c next ih => exact fun r => ih r (hp r)

/-- It writes once, and then only computes. -/
theorem WritesLast.bind_ofExcept {f : α → Program κ ρ σ ε β} (hp : WritesLast p)
    (hf : ∀ a, ∃ r, f a = Program.ofExcept r) :
  WritesLast (p >>= f)
  := by
  induction p with
  | done a =>
    obtain ⟨r, hr⟩ := hf a
    change WritesLast (f a)
    rw [hr]
    cases r with
    | ok b => trivial
    | error e => trivial
  | fail e => trivial
  | get next ih => exact fun s => ih s (hp s)
  | set s next ih =>
    obtain ⟨r, rfl⟩ := hp
    cases r with
    | ok a => exact hf a
    | error e => exact ⟨.error e, rfl⟩
  | call c next ih => exact fun r => ih r (hp r)

/-- An attempt writes when the program does. -/
theorem WritesLast.attempt (hp : WritesLast p) :
  WritesLast (p.attempt : Program κ ρ σ ε' (Except ε α))
  := by
  induction p with
  | done a => trivial
  | fail e => trivial
  | get next ih => exact fun s => ih s (hp s)
  | set s next ih =>
    obtain ⟨r, rfl⟩ := hp
    use .ok r
    cases r with
    | ok a => rfl
    | error e => rfl
  | call c next ih => exact fun r => ih r (hp r)

end

/-- A program writes once at most, at its end, and ends so in whatever state it starts and whatever
the outside answers. -/
def Does (spec : σ → Except ε α → σ → Prop) (p : Program κ ρ σ ε α) : Prop :=
  WritesLast p
    ∧ ∀ s, p.wp (fun a s' _ => spec s (.ok a) s') (fun e s' _ => spec s (.error e) s') s []

/-- An operation with the lock ends so; without it, it may only fail. -/
def Meets (spec : σ → Except ε α → σ → Prop) (p : Operation κ ρ σ ε α) : Prop :=
  p.wp (fun critical _ _ => Does spec critical) (fun _ _ _ => True) () []

/-- What a program does, with another form of its result. -/
theorem Does.map {β : Type} {spec : σ → Except ε β → σ → Prop} {p : Program κ ρ σ ε α} {f : α → β}
    (h : Does (fun s r s' => spec s (r.map f) s') p) :
  Does spec (f <$> p)
  := by
  constructor
  · apply h.1.bind_ofExcept
    intro a
    exact ⟨.ok (f a), rfl⟩
  · intro s
    exact (Program.wp_bind p _).mpr (h.2 s)

theorem Meets.map {β : Type} {spec : σ → Except ε β → σ → Prop} {p : Operation κ ρ σ ε α}
    {f : α → β} (h : Meets (fun s r s' => spec s (r.map f) s') p) :
  Meets spec (Program.bind p fun critical => .done (f <$> critical))
  := by
  apply Program.wp_seq h
  intro critical _ _ hdoes
  exact hdoes.map

/-! ### Runs -/

section

variable {program : ι → Operation κ ρ σ ε α} {spec : ι → σ → Except ε α → σ → Prop} {s₀ : σ}
  {es : List (Event ι κ ρ)} {m : Shared ι κ ρ σ ε α}

@[simp]
theorem run_snoc (e : Event ι κ ρ) :
  run program s₀ (es ++ [e]) = (run program s₀ es).after program e
  := List.foldl_concat ..

/-- When its thread had the lock, the state was as the operation leaves it, or it did all that it
does in one step. -/
def TookEffect (program : ι → Operation κ ρ σ ε α) (spec : ι → σ → Except ε α → σ → Prop) (s₀ : σ)
    (es : List (Event ι κ ρ)) (i : ℕ) (op : ι) (r : Except ε α) : Prop :=
  ∃ pre, pre <+: es ∧ (run program s₀ pre).holder = some i
    ∧ (spec op (run program s₀ pre).state r (run program s₀ pre).state
      ∨ ∃ answer, pre ++ [.step i answer] <+: es ∧ spec op (run program s₀ pre).state r
          (run program s₀ (pre ++ [.step i answer])).state)

/-- What a thread will do after a run, whatever the outside answers. -/
def Thread.Promises (program : ι → Operation κ ρ σ ε α) (spec : ι → σ → Except ε α → σ → Prop)
    (s₀ : σ) (es : List (Event ι κ ρ)) (i : ℕ) (op : ι) : Thread κ ρ σ ε α → Prop
  | .preparing p =>
      ∃ h, p.wp (fun critical _ _ => Does (spec op) critical) (fun _ _ _ => True) () h
  | .inside p =>
      (run program s₀ es).holder = some i
        ∧ ((WritesLast p ∧ ∃ h, p.wp (fun a s' _ => spec op (run program s₀ es).state (.ok a) s')
            (fun e s' _ => spec op (run program s₀ es).state (.error e) s')
            (run program s₀ es).state h)
          ∨ ∃ r, p = Program.ofExcept r ∧ TookEffect program spec s₀ es i op r)
  | .ended r => (∃ e, r = .error e) ∨ TookEffect program spec s₀ es i op r

/-- The threads do what they promise. -/
def Valid (program : ι → Operation κ ρ σ ε α) (spec : ι → σ → Except ε α → σ → Prop) (s₀ : σ)
    (es : List (Event ι κ ρ)) : Prop :=
  ∀ i op (t : Thread κ ρ σ ε α), (run program s₀ es).threads[i]? = some (op, t) →
    t.Promises program spec s₀ es i op

/-- What took effect in a run did so in a longer one. -/
theorem TookEffect.snoc {i : ℕ} {op : ι} {r : Except ε α} (h : TookEffect program spec s₀ es i op r)
    (e : Event ι κ ρ) :
  TookEffect program spec s₀ (es ++ [e]) i op r
  := by
  obtain ⟨pre, hpre, hholder, hspec⟩ := h
  use pre, hpre.trans (List.prefix_append es [e]), hholder
  obtain hspec | ⟨answer, hlater, hspec⟩ := hspec
  · exact .inl hspec
  · exact .inr ⟨answer, hlater.trans (List.prefix_append es [e]), hspec⟩

/-- A thread keeps its promise, if it is not inside or the state and the lock stay. -/
theorem Thread.Promises.snoc {i : ℕ} {op : ι} {t : Thread κ ρ σ ε α}
    (h : t.Promises program spec s₀ es i op) {e : Event ι κ ρ}
    (hsame : (∀ p, t ≠ .inside p) ∨ ((run program s₀ (es ++ [e])).state = (run program s₀ es).state
      ∧ (run program s₀ (es ++ [e])).holder = (run program s₀ es).holder)) :
  t.Promises program spec s₀ (es ++ [e]) i op
  := by
  cases t with
  | preparing p => exact h
  | inside p =>
    obtain hnot | ⟨hstate, hholder⟩ := hsame
    · exact absurd rfl (hnot p)
    · obtain ⟨hi, hrest⟩ := h
      unfold Thread.Promises
      rw [hstate, hholder]
      use hi
      obtain hunwritten | ⟨r, hr, heffect⟩ := hrest
      · exact .inl hunwritten
      · exact .inr ⟨r, hr, heffect.snoc e⟩
  | ended r =>
    obtain herror | heffect := h
    · exact .inl herror
    · exact .inr (heffect.snoc e)

variable {i : ℕ} {op : ι} {e : Event ι κ ρ} {r : Except ε α}

/-- One thread is changed, and keeps its promise; a thread that is inside finds the state and the
lock as they were. -/
theorem Valid.set (h : Valid program spec s₀ es) (op : ι) (t : Thread κ ρ σ ε α)
    (hthreads : (run program s₀ (es ++ [e])).threads = (run program s₀ es).threads.set i (op, t))
    (hothers : ∀ j, j ≠ i → (run program s₀ es).holder = some j →
      (run program s₀ (es ++ [e])).state = (run program s₀ es).state
        ∧ (run program s₀ (es ++ [e])).holder = (run program s₀ es).holder)
    (ht : t.Promises program spec s₀ (es ++ [e]) i op) :
  Valid program spec s₀ (es ++ [e])
  := by
  intro j op' t' hj
  rw [hthreads] at hj
  obtain ⟨rfl, heq⟩ | ⟨hne, hj⟩ := Places.getElem?_set hj
  · cases heq
    exact ht
  · have hkept := h j op' t' hj
    apply hkept.snoc
    cases t' with
    | preparing p => exact .inl fun _ => nofun
    | inside p => exact .inr (hothers j hne hkept.1)
    | ended r => exact .inl fun _ => nofun

/-- One thread is changed, keeps its promise, and nothing else happens. -/
theorem Valid.setThread (h : Valid program spec s₀ es) {t : Thread κ ρ σ ε α}
    (hstep : run program s₀ (es ++ [e]) = (run program s₀ es).setThread i op t)
    (ht : t.Promises program spec s₀ (es ++ [e]) i op) :
  Valid program spec s₀ (es ++ [e])
  := by
  apply h.set op t
  · rw [hstep]
    rfl
  · intro _ _ _
    rw [hstep]
    exact ⟨rfl, rfl⟩
  · exact ht

theorem Valid.holder (h : Valid program spec s₀ es) {p : Program κ ρ σ ε α}
    (hi : (run program s₀ es).threads[i]? = some (op, .inside p)) :
  (run program s₀ es).holder = some i
  := (h i op _ hi).1

theorem others_of_holder (hi : (run program s₀ es).holder = some i) :
  ∀ j, j ≠ i → (run program s₀ es).holder = some j →
    (run program s₀ (es ++ [e])).state = (run program s₀ es).state
      ∧ (run program s₀ (es ++ [e])).holder = (run program s₀ es).holder
  := by
  intro j hne hj
  rw [hi, Option.some.injEq] at hj
  exact absurd hj.symm hne

/-- A thread that ends with the lock has taken effect. -/
theorem Thread.Promises.tookEffect
    (h : (Thread.inside (Program.ofExcept r)).Promises program spec s₀ es i op) :
  TookEffect program spec s₀ es i op r
  := by
  obtain ⟨hholder, ⟨-, _, hspec⟩ | ⟨r', hr, heffect⟩⟩ := h
  · use es, List.prefix_rfl, hholder
    cases r with
    | ok a => exact .inl hspec
    | error e => exact .inl hspec
  · cases r with
    | ok a =>
      cases r' with
      | ok a' =>
        cases hr
        exact heffect
      | error e' => cases hr
    | error e =>
      cases r' with
      | ok a' => cases hr
      | error e' =>
        cases hr
        exact heffect

/-- A thread with the lock that has not come to its end has not written. -/
theorem Thread.Promises.unwritten {p : Program κ ρ σ ε α}
    (h : (Thread.inside p).Promises program spec s₀ es i op) (hp : ∀ r, p ≠ Program.ofExcept r) :
  (run program s₀ es).holder = some i ∧ WritesLast p
    ∧ ∃ h, p.wp (fun a s' _ => spec op (run program s₀ es).state (.ok a) s')
        (fun e s' _ => spec op (run program s₀ es).state (.error e) s') (run program s₀ es).state h
  := by
  obtain ⟨hholder, hunwritten | ⟨r, hr, -⟩⟩ := h
  · exact ⟨hholder, hunwritten⟩
  · exact absurd hr (hp r)

theorem get_ne_ofExcept (next : σ → Program κ ρ σ ε α) :
  ∀ r, Program.get next ≠ Program.ofExcept r
  | .ok _ => nofun
  | .error _ => nofun

theorem set_ne_ofExcept (s : σ) (next : Program κ ρ σ ε α) :
  ∀ r, Program.set s next ≠ Program.ofExcept r
  | .ok _ => nofun
  | .error _ => nofun

theorem call_ne_ofExcept (c : κ) (next : ρ c → Program κ ρ σ ε α) :
  ∀ r, Program.call c next ≠ Program.ofExcept r
  | .ok _ => nofun
  | .error _ => nofun

theorem spec_of_wp_ofExcept {s s' : σ} {hist : List (Program.Event ρ)}
    (h : (Program.ofExcept r : Program κ ρ σ ε α).wp (fun a s' _ => spec op s (.ok a) s')
      (fun e s' _ => spec op s (.error e) s') s' hist) :
  spec op s r s'
  := by
  cases r with
  | ok a => exact h
  | error e => exact h

/-- A step keeps what the threads promise. -/
theorem Valid.step (h : Valid program spec s₀ es) (i : ℕ) (answer : ∀ c, ρ c) :
  Valid program spec s₀ (es ++ [.step i answer])
  := by
  have hstep : run program s₀ (es ++ [.step i answer]) = (run program s₀ es).step i answer :=
    run_snoc _
  have hstays (hsame : run program s₀ (es ++ [.step i answer]) = run program s₀ es) :
      Valid program spec s₀ (es ++ [.step i answer]) := by
    intro j op t hj
    rw [hsame] at hj
    apply (h j op t hj).snoc
    rw [hsame]
    exact .inr ⟨rfl, rfl⟩
  unfold Shared.step at hstep
  split at hstep
  · exact hstays hstep
  · rename_i op critical hi
    obtain ⟨_, hlast, hdoes⟩ := h i op _ hi
    split at hstep
    · rename_i hfree
      apply h.set op (.inside critical)
      · rw [hstep]
        rfl
      · intro j _ hj
        rw [hfree] at hj
        cases hj
      · unfold Thread.Promises
        rw [hstep]
        exact ⟨rfl, .inl ⟨hlast, [], hdoes _⟩⟩
    · exact hstays hstep
  · rename_i op e hi
    exact h.setThread hstep (.inl ⟨e, rfl⟩)
  · rename_i op next hi
    obtain ⟨hist, hnext⟩ := h i op _ hi
    exact h.setThread hstep ⟨hist, hnext⟩
  · rename_i op s next hi
    obtain ⟨hist, hnext⟩ := h i op _ hi
    exact h.setThread hstep ⟨hist, hnext⟩
  · rename_i op c next hi
    obtain ⟨hist, hnext⟩ := h i op _ hi
    exact h.setThread hstep ⟨_, hnext (answer c)⟩
  · rename_i op a hi
    apply h.set op (.ended (.ok a)) (by rw [hstep]; rfl)
      (others_of_holder (h.holder hi))
    have hkept : (Thread.inside (Program.ofExcept (.ok a))).Promises program spec s₀ es i op :=
      h i op _ hi
    exact .inr (hkept.tookEffect.snoc _)
  · rename_i op e hi
    apply h.set op (.ended (.error e)) (by rw [hstep]; rfl)
      (others_of_holder (h.holder hi))
    exact .inl ⟨e, rfl⟩
  · rename_i op next hi
    obtain ⟨hholder, hlast, hist, hnext⟩ := (h i op _ hi).unwritten (get_ne_ofExcept next)
    apply h.setThread hstep
    unfold Thread.Promises
    rw [hstep]
    exact ⟨hholder, .inl ⟨hlast _, hist, hnext⟩⟩
  · rename_i op s next hi
    obtain ⟨hholder, ⟨r, rfl⟩, hist, hnext⟩ := (h i op _ hi).unwritten (set_ne_ofExcept s next)
    apply h.set op (.inside (Program.ofExcept r)) (by rw [hstep]; rfl)
      (others_of_holder (h.holder hi))
    have heffect : TookEffect program spec s₀ (es ++ [.step i answer]) i op r := by
      use es, List.prefix_append .., hholder
      right
      use answer, List.prefix_rfl
      rw [hstep]
      exact spec_of_wp_ofExcept hnext
    unfold Thread.Promises
    rw [hstep]
    exact ⟨hholder, .inr ⟨r, rfl, heffect⟩⟩
  · rename_i op c next hi
    obtain ⟨hholder, hlast, hist, hnext⟩ := (h i op _ hi).unwritten (call_ne_ofExcept c next)
    apply h.setThread hstep
    unfold Thread.Promises
    rw [hstep]
    exact ⟨hholder, .inl ⟨hlast _, _, hnext (answer c)⟩⟩
  · exact hstays hstep

/-- A call keeps what the threads promise. -/
theorem Valid.call (h : Valid program spec s₀ es) (hop : Meets (spec op) (program op)) :
  Valid program spec s₀ (es ++ [.call op])
  := by
  have hstep : run program s₀ (es ++ [.call op]) = (run program s₀ es).after program (.call op) :=
    run_snoc _
  intro j op' t hj
  rw [hstep] at hj
  obtain ⟨rfl, heq⟩ | hj := Places.getElem?_snoc hj
  · cases heq
    exact ⟨[], hop⟩
  · apply (h j op' t hj).snoc
    rw [hstep]
    exact .inr ⟨rfl, rfl⟩

/-- The threads do what they promise, in all runs. -/
theorem valid (hmeets : ∀ op, Meets (spec op) (program op)) (es : List (Event ι κ ρ)) :
  Valid program spec s₀ es
  := by
  induction es using List.reverseRecOn with
  | nil =>
    intro i op t h
    cases h
  | append_singleton es e ih =>
    cases e with
    | call op => exact ih.call (hmeets op)
    | step i answer => exact ih.step i answer

theorem tookEffect (hmeets : ∀ op, Meets (spec op) (program op)) {a : α}
    (h : (run program s₀ es).threads[i]? = some (op, .ended (.ok a))) :
  TookEffect program spec s₀ es i op (.ok a)
  := by
  obtain ⟨e, he⟩ | heffect := valid hmeets es i op _ h
  · cases he
  · exact heffect

/-- The result of an operation is settled: its thread only gives the lock back. -/
def Settled (m : Shared ι κ ρ σ ε α) (i : ℕ) (op : ι) (r : Except ε α) : Prop :=
  m.threads[i]? = some (op, .inside (Program.ofExcept r)) ∨ m.threads[i]? = some (op, .ended r)

/-- A step leaves the state, or a thread with the lock writes it. -/
theorem step_cases (m : Shared ι κ ρ σ ε α) (i : ℕ) (answer : ∀ c, ρ c) :
  (m.step i answer).state = m.state
    ∨ ∃ op s next, m.threads[i]? = some (op, .inside (.set s next))
      ∧ m.step i answer = { m.setThread i op (.inside next) with state := s }
  := by
  unfold Shared.step
  split
  case h_10 op s next hi => exact .inr ⟨op, s, next, hi, rfl⟩
  case h_2 =>
    left
    split
    · rfl
    · rfl
  all_goals exact .inl rfl

/-- A step changes the state only as the operation of its thread does, whose result is then
settled. -/
theorem step_state (hmeets : ∀ op, Meets (spec op) (program op)) (s₀ : σ) (es : List (Event ι κ ρ))
    (i : ℕ) (answer : ∀ c, ρ c) :
  (run program s₀ (es ++ [.step i answer])).state = (run program s₀ es).state
    ∨ ∃ op p r, (run program s₀ es).threads[i]? = some (op, .inside p)
      ∧ (run program s₀ es).holder = some i
      ∧ spec op (run program s₀ es).state r (run program s₀ (es ++ [.step i answer])).state
      ∧ Settled (run program s₀ (es ++ [.step i answer])) i op r
  := by
  have hstep : run program s₀ (es ++ [.step i answer]) = (run program s₀ es).step i answer :=
    run_snoc _
  rw [hstep]
  obtain hsame | ⟨op, s, next, hi, hwrites⟩ := step_cases (run program s₀ es) i answer
  · exact .inl hsame
  · right
    obtain ⟨hholder, ⟨r, rfl⟩, _, hnext⟩ :=
      (valid hmeets es i op _ hi).unwritten (set_ne_ofExcept s next)
    use op, .set s (Program.ofExcept r), r, hi, hholder
    rw [hwrites]
    constructor
    · exact spec_of_wp_ofExcept hnext
    · left
      obtain ⟨hlt, -⟩ := List.getElem?_eq_some_iff.mp hi
      exact List.getElem?_set_self hlt

/-- A step of one thread is none of another. -/
theorem step_threads_of_ne {i j : ℕ} (h : i ≠ j) (answer : ∀ c, ρ c) :
  (m.step i answer).threads[j]? = m.threads[j]?
  := by
  unfold Shared.step
  split
  case h_1 => rfl
  case h_2 =>
    split
    · exact List.getElem?_set_ne h
    · rfl
  case h_12 => rfl
  all_goals exact List.getElem?_set_ne h

/-- What is settled stays so. -/
theorem Settled.after {i : ℕ} {op : ι} {r : Except ε α} (h : Settled m i op r) (e : Event ι κ ρ) :
  Settled (m.after program e) i op r
  := by
  cases e with
  | call op' =>
    unfold Settled Shared.after
    obtain h | h := h
    · left
      obtain ⟨hlt, -⟩ := List.getElem?_eq_some_iff.mp h
      rw [List.getElem?_append_left hlt, h]
    · right
      obtain ⟨hlt, -⟩ := List.getElem?_eq_some_iff.mp h
      rw [List.getElem?_append_left hlt, h]
  | step j answer =>
    obtain rfl | hne := eq_or_ne j i
    · right
      change (m.step j answer).threads[j]? = _
      unfold Shared.step
      obtain h | h := h
      · obtain ⟨hlt, -⟩ := List.getElem?_eq_some_iff.mp h
        rw [h]
        cases r with
        | ok a => exact List.getElem?_set_self hlt
        | error e => exact List.getElem?_set_self hlt
      · rw [h]
        exact h
    · unfold Settled
      change (m.step j answer).threads[i]? = _ ∨ (m.step j answer).threads[i]? = _
      rw [step_threads_of_ne hne]
      exact h

/-- What is settled stays so in a longer run. -/
theorem Settled.run (h : Settled (run program s₀ es) i op r) (more : List (Event ι κ ρ)) :
  Settled (Mutex.run program s₀ (es ++ more)) i op r
  := by
  induction more using List.reverseRecOn with
  | nil => rwa [List.append_nil]
  | append_singleton more e ih =>
    rw [← List.append_assoc, run_snoc]
    exact ih.after e

end

end Mutex
