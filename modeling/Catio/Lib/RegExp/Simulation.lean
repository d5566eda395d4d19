import Catio.Lib.RegExp

/-!
# Matches in two texts

The positions of one text are related to those of another one, in another dialect.  A match passes
tests of letters and boundaries, each between the part of the expression from the boundary before
and the part up to the next one (`Exp.tests`).  If each test passed between its parts is passed in
the other text, the match is one there (`simulates`).
-/

namespace RegExp

/-! ### Tests of an expression -/

/-- A test, with what is matched in front of it and behind it. -/
structure Test where
  before : Exp
  test : Exp
  after : Exp
  deriving DecidableEq

namespace Exp

/-- The letters and the repeated letters of an expression are as they should be. -/
def uses (ok okStar : CharClass → Bool) : Exp → Bool
  | .letter c => ok c
  | .seq r s => r.uses ok okStar && s.uses ok okStar
  | .alt r s => r.uses ok okStar && s.uses ok okStar
  | .star (.letter c) => okStar c
  | .star r => r.uses ok okStar
  | _ => true

/-- What is matched up to a boundary, by an expression and by what is behind it. -/
def first : Exp → Exp → Exp
  | .empty, after => after
  | .seq r s, after => r.first (s.first after)
  | .alt r s, after => .alt (r.first after) (s.first after)
  | .boundary, _ => .empty
  | r, after => .seq r after

/-- What is matched since a boundary, by what is in front of an expression and by itself. -/
def last : Exp → Exp → Exp
  | .empty, before => before
  | .seq r s, before => s.last (r.last before)
  | .alt r s, before => .alt (r.last before) (s.last before)
  | .boundary, _ => .empty
  | r, before => .seq before r

/-- The tests of an expression between others. -/
def tests : Exp → Exp → Exp → List Test
  | .letter c, before, after => [⟨before, .letter c, after⟩]
  | .seq r s, before, after => r.tests before (s.first after) ++ s.tests (r.last before) after
  | .alt r s, before, after => r.tests before after ++ s.tests before after
  | .star r, before, after => r.tests (.seq before (.star r)) (.seq (.star r) after)
  | .boundary, before, after => [⟨before, .boundary, after⟩]
  | _, _, _ => []

theorem uses_star {ok okStar : CharClass → Bool} {r : Exp} (h : (star r).uses ok okStar) :
  (∃ c, r = .letter c ∧ okStar c) ∨ r.uses ok okStar
  := by
  cases r with
  | letter c => exact .inl ⟨c, rfl, h⟩
  | _ => exact .inr h

end Exp

section

variable {κ κ' : Type}

/-- There is a match from a position. -/
def Begins (d : Dialect κ) (r : Exp) (p : Position κ) : Prop :=
  ∃ q, Matches d r p q

/-- There is a match up to a position. -/
def Ends (d : Dialect κ) (r : Exp) (q : Position κ) : Prop :=
  ∃ p, Matches d r p q

/-- A test is passed at a position, between what is matched in front of it and behind it. -/
def Test.Passed (d : Dialect κ) (t : Test) (p : Position κ) : Prop :=
  Ends d t.before p ∧ ∃ q, Matches d t.test p q ∧ Begins d t.after q

instance (d : Dialect κ) (r : Exp) (p : Position κ) : Decidable (Begins d r p) :=
  decidable_of_iff (∃ q ∈ ends d r p, True) (by
    simp only [mem_ends, and_true]
    rfl)

instance [DecidableEq κ] (d : Dialect κ) (r : Exp) (q : Position κ) : Decidable (Ends d r q) :=
  decidable_of_iff (∃ p ∈ positions q.text, q ∈ ends d r p) (by
    simp only [mem_ends, mem_positions]
    constructor
    · rintro ⟨p, -, h⟩
      exact ⟨p, h⟩
    · rintro ⟨p, h⟩
      exact ⟨p, h.text_eq.symm, h⟩)

instance [DecidableEq κ] (d : Dialect κ) (t : Test) (p : Position κ) : Decidable (t.Passed d p) :=
  decidable_of_iff (Ends d t.before p ∧ ∃ q ∈ ends d t.test p, Begins d t.after q) (by
    simp only [mem_ends]
    rfl)

variable {d : Dialect κ} {r before after : Exp} {p q : Position κ}

theorem Begins.first (hmatch : Matches d r p q) (hafter : Begins d after q) :
  Begins d (r.first after) p
  := by
  induction r generalizing p q after with
  | empty =>
    cases hmatch
    exact hafter
  | seq r s ihr ihs =>
    obtain ⟨m, hr, hs⟩ := hmatch
    exact ihr hr (ihs hs hafter)
  | alt r s ihr ihs =>
    obtain hr | hs := hmatch
    · obtain ⟨m, hm⟩ := ihr hr hafter
      exact ⟨m, .inl hm⟩
    · obtain ⟨m, hm⟩ := ihs hs hafter
      exact ⟨m, .inr hm⟩
  | boundary => exact ⟨p, rfl⟩
  | letter | star | start | stop =>
    obtain ⟨m, hm⟩ := hafter
    exact ⟨m, q, hmatch, hm⟩

theorem Ends.last (hmatch : Matches d r p q) (hbefore : Ends d before p) :
  Ends d (r.last before) q
  := by
  induction r generalizing p q before with
  | empty =>
    cases hmatch
    exact hbefore
  | seq r s ihr ihs =>
    obtain ⟨m, hr, hs⟩ := hmatch
    exact ihs hs (ihr hr hbefore)
  | alt r s ihr ihs =>
    obtain hr | hs := hmatch
    · obtain ⟨m, hm⟩ := ihr hr hbefore
      exact ⟨m, .inl hm⟩
    · obtain ⟨m, hm⟩ := ihs hs hbefore
      exact ⟨m, .inr hm⟩
  | boundary => exact ⟨q, rfl⟩
  | letter | star | start | stop =>
    obtain ⟨m, hm⟩ := hbefore
    exact ⟨m, p, hm, hmatch⟩

/-! ### Simulation -/

variable (d) (d' : Dialect κ') (R : Position κ → Position κ' → Prop)

/-- The matches from a position are matches from a related one. -/
def Simulates (r r' : Exp) (p : Position κ) : Prop :=
  ∀ q p', Matches d r p q → R p p' → ∃ q', R q q' ∧ Matches d' r' p' q'

/-- Anchors, and letters and boundaries on which the dialects agree, are respected. A repeated
letter may be several in the other text. -/
structure Respects (text : List κ) (agree : Exp → Position κ → Prop)
    (ok okStar : CharClass → Bool) : Prop where
  text_eq : ∀ p p', R p p' → p.text = text
  letter : ∀ c p, ok c → agree (.letter c) p → Simulates d d' R (.letter c) (.letter c) p
  letters : ∀ c p, okStar c → agree (.letter c) p →
    Simulates d d' R (.letter c) (.star (.letter c)) p
  boundary : ∀ p p', R p p' → agree .boundary p → d.atBoundary p → d'.atBoundary p'
  start : ∀ p p', R p p' → p.before = [] → p'.before = []
  stop : ∀ p p', R p p' → p.after = [] → p'.after = []

def Agreed (text : List κ) (agree : Exp → Position κ → Prop) (tests : List Test) : Prop :=
  ∀ t ∈ tests, ∀ p : Position κ, p.text = text → t.Passed d p → agree t.test p

variable {d d' R} {text : List κ} {agree : Exp → Position κ → Prop}
  {ok okStar : CharClass → Bool} {p' : Position κ'}

theorem Agreed.left {ts us : List Test} (h : Agreed d text agree (ts ++ us)) :
  Agreed d text agree ts
  := fun t ht => h t (List.mem_append_left us ht)

theorem Agreed.right {ts us : List Test} (h : Agreed d text agree (ts ++ us)) :
  Agreed d text agree us
  := fun t ht => h t (List.mem_append_right ts ht)

theorem simulates_star {r' : Exp}
    (hstep : ∀ m n m', Ends d (.seq before (.star r)) m → Begins d (.seq (.star r) after) n →
      Matches d r m n → R m m' → ∃ n', R n n' ∧ Matches d' (.star r') m' n')
    (hbefore : Ends d before p) (hafter : Begins d after q) (hmatch : Matches d (.star r) p q)
    (hp : R p p') :
  ∃ q', R q q' ∧ Matches d' (.star r') p' q'
  := by
  obtain ⟨x, hx⟩ := hbefore
  obtain ⟨y, hy⟩ := hafter
  have hupto : ∀ n, Relation.ReflTransGen (Matches d r) p n →
      Relation.ReflTransGen (Matches d r) n q →
      ∃ n', R n n' ∧ Relation.ReflTransGen (Matches d' r') p' n' := by
    intro n hpn
    induction hpn with
    | refl =>
      intro _
      exact ⟨p', hp, .refl⟩
    | @tail m n hpm hmn ih =>
      intro hnq
      obtain ⟨m', hm, hpm'⟩ := ih (.head hmn hnq)
      obtain ⟨n', hn, hmn'⟩ := hstep m n m' ⟨x, p, hx, hpm⟩ ⟨y, q, hnq, hy⟩ hmn hm
      exact ⟨n', hn, hpm'.trans hmn'⟩
  exact hupto q hmatch .refl

theorem simulates_between (h : Respects d d' R text agree ok okStar) (huses : r.uses ok okStar)
    (hagreed : Agreed d text agree (r.tests before after)) (hbefore : Ends d before p)
    (hafter : Begins d after q) (hmatch : Matches d r p q) (hp : R p p') :
  ∃ q', R q q' ∧ Matches d' r p' q'
  := by
  induction r generalizing p q p' before after with
  | empty =>
    cases hmatch
    exact ⟨p', hp, rfl⟩
  | letter c =>
    apply h.letter c p huses _ q p' hmatch hp
    exact hagreed _ (List.mem_singleton_self _) p (h.text_eq p p' hp)
      ⟨hbefore, q, hmatch, hafter⟩
  | seq r s ihr ihs =>
    obtain ⟨hr, hs⟩ := (Bool.and_eq_true _ _).mp huses
    obtain ⟨m, hpm, hmq⟩ := hmatch
    obtain ⟨m', hm, hpm'⟩ := ihr hr hagreed.left hbefore (.first hmq hafter) hpm hp
    obtain ⟨q', hq, hmq'⟩ := ihs hs hagreed.right (.last hpm hbefore) hafter hmq hm
    exact ⟨q', hq, m', hpm', hmq'⟩
  | alt r s ihr ihs =>
    obtain ⟨hr, hs⟩ := (Bool.and_eq_true _ _).mp huses
    obtain hmatch | hmatch := hmatch
    · obtain ⟨q', hq, hmatch'⟩ := ihr hr hagreed.left hbefore hafter hmatch hp
      exact ⟨q', hq, .inl hmatch'⟩
    · obtain ⟨q', hq, hmatch'⟩ := ihs hs hagreed.right hbefore hafter hmatch hp
      exact ⟨q', hq, .inr hmatch'⟩
  | star r ih =>
    apply simulates_star _ hbefore hafter hmatch hp
    intro m n m' hbefore hafter hmatch hm
    obtain ⟨c, rfl, hc⟩ | hr := Exp.uses_star huses
    · apply h.letters c m hc _ n m' hmatch hm
      exact hagreed _ (List.mem_singleton_self _) m (h.text_eq m m' hm)
        ⟨hbefore, n, hmatch, hafter⟩
    · obtain ⟨n', hn, hmatch'⟩ := ih hr hagreed hbefore hafter hmatch hm
      exact ⟨n', hn, .single hmatch'⟩
  | boundary =>
    obtain ⟨rfl, hmatch⟩ := hmatch
    refine ⟨p', hp, rfl, h.boundary p p' hp ?_ hmatch⟩
    exact hagreed _ (List.mem_singleton_self _) p (h.text_eq p p' hp)
      ⟨hbefore, p, ⟨rfl, hmatch⟩, hafter⟩
  | start =>
    obtain ⟨rfl, hmatch⟩ := hmatch
    exact ⟨p', hp, rfl, h.start p p' hp hmatch⟩
  | stop =>
    obtain ⟨rfl, hmatch⟩ := hmatch
    exact ⟨p', hp, rfl, h.stop p p' hp hmatch⟩

theorem simulates (h : Respects d d' R text agree ok okStar) (huses : r.uses ok okStar)
    (hagreed : Agreed d text agree (r.tests .empty .empty)) :
  Simulates d d' R r r p
  := fun q _ hmatch hp => simulates_between h huses hagreed ⟨p, rfl⟩ ⟨q, rfl⟩ hmatch hp

end

end RegExp
