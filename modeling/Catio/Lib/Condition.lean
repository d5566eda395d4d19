import Mathlib.Data.Fintype.EquivFin

/-!
# Three-valued conditions

Conditions on a row, made of comparisons of a column with a constant, and of other ones that may hold
or not, by the connectives of Kleene's three values.  A condition entails that a column has a value
just when each way to make it true that does not contradict itself says so (`entails_iff`).
-/

/-- A comparison of a column with a constant, or a condition of which nothing is known. -/
inductive Atom (κ ν ω : Type) where
  | equal (column : κ) (value : ν)
  | other (a : ω)
  deriving DecidableEq

inductive Condition (κ ν ω : Type) where
  | atom (a : Atom κ ν ω)
  | and (p q : Condition κ ν ω)
  | or (p q : Condition κ ν ω)
  | not (p : Condition κ ν ω)
  deriving DecidableEq

/-- The values of the columns of a row, of which some are missing, and what the other conditions are
on it. -/
structure Situation (κ ν ω : Type) where
  value : κ → Option ν
  truth : ω → Option Bool

/-- The conjunction of three-valued truths. -/
def kleeneAnd : Option Bool → Option Bool → Option Bool
  | some false, _ | _, some false => some false
  | some true, some true => some true
  | _, _ => none

namespace Condition

variable {κ ν ω : Type}

/-! ### Ways to make a condition true -/

/-- All facts of one way and of another one. -/
def both {α : Type} (ways ways' : List (List α)) : List (List α) :=
  ways.flatMap fun way => ways'.map fun way' => way ++ way'

/-- The ways to make a condition true, or false: each is the truths of some atoms. -/
def ways : Bool → Condition κ ν ω → List (List (Atom κ ν ω × Bool))
  | b, .atom a => [[(a, b)]]
  | true, .and p q => both (ways true p) (ways true q)
  | false, .and p q => ways false p ++ ways false q
  | true, .or p q => ways true p ++ ways true q
  | false, .or p q => both (ways false p) (ways false q)
  | b, .not p => ways (!b) p

/-- Two truths of atoms exclude each other. -/
def Clashes : Atom κ ν ω × Bool → Atom κ ν ω × Bool → Prop
  | (.equal column value, true), (.equal column' value', true) => column = column' ∧ value ≠ value'
  | (a, b), (a', b') => a = a' ∧ b ≠ b'

/-- A way does not contradict itself. -/
def Consistent (way : List (Atom κ ν ω × Bool)) : Prop :=
  ∀ fact ∈ way, ∀ fact' ∈ way, ¬Clashes fact fact'

instance [DecidableEq κ] [DecidableEq ν] [DecidableEq ω] (fact fact' : Atom κ ν ω × Bool) :
    Decidable (Clashes fact fact') := by
  unfold Clashes
  split <;> infer_instance

instance [DecidableEq κ] [DecidableEq ν] [DecidableEq ω] (way : List (Atom κ ν ω × Bool)) :
    Decidable (Consistent way) :=
  inferInstanceAs (Decidable (∀ fact ∈ way, ∀ fact' ∈ way, ¬Clashes fact fact'))

theorem clashes_truths {a : Atom κ ν ω} :
  Clashes (a, true) (a, false)
  := by
  cases a <;> simp [Clashes]

/-! ### Truth -/

variable [DecidableEq ν] {s : Situation κ ν ω}

/-- What an atom is in a situation.  A missing value is neither equal to a constant nor not. -/
def truthOf (s : Situation κ ν ω) : Atom κ ν ω → Option Bool
  | .equal column value => (s.value column).map fun v => decide (v = value)
  | .other a => s.truth a

def eval (s : Situation κ ν ω) : Condition κ ν ω → Option Bool
  | .atom a => truthOf s a
  | .and p q => kleeneAnd (p.eval s) (q.eval s)
  | .or p q => (kleeneAnd ((p.eval s).map (!·)) ((q.eval s).map (!·))).map (!·)
  | .not p => (p.eval s).map (!·)

def Entails (p : Condition κ ν ω) (column : κ) (value : ν) : Prop :=
  ∀ s : Situation κ ν ω, p.eval s = some true → s.value column = some value

def Holds (s : Situation κ ν ω) (way : List (Atom κ ν ω × Bool)) : Prop :=
  ∀ fact ∈ way, truthOf s fact.1 = some fact.2

theorem truthOf_equal {column : κ} {value : ν} :
  truthOf s (.equal column value) = some true ↔ s.value column = some value
  := by
  rw [truthOf]
  cases s.value column <;> simp

theorem holds_append {way way' : List (Atom κ ν ω × Bool)} :
  Holds s (way ++ way') ↔ Holds s way ∧ Holds s way'
  := by
  exact List.forall_mem_append

theorem exists_both {ways ways' : List (List (Atom κ ν ω × Bool))} :
  (∃ way ∈ both ways ways', Holds s way)
    ↔ (∃ way ∈ ways, Holds s way) ∧ ∃ way ∈ ways', Holds s way
  := by
  simp only [both, List.mem_flatMap, List.mem_map]
  constructor
  · rintro ⟨_, ⟨way, hway, way', hway', rfl⟩, hholds⟩
    obtain ⟨hfirst, hlast⟩ := holds_append.mp hholds
    exact ⟨⟨way, hway, hfirst⟩, ⟨way', hway', hlast⟩⟩
  · rintro ⟨⟨way, hway, hfirst⟩, ⟨way', hway', hlast⟩⟩
    exact ⟨way ++ way', ⟨way, hway, way', hway', rfl⟩, holds_append.mpr ⟨hfirst, hlast⟩⟩

theorem exists_append {ways ways' : List (List (Atom κ ν ω × Bool))} :
  (∃ way ∈ ways ++ ways', Holds s way)
    ↔ (∃ way ∈ ways, Holds s way) ∨ ∃ way ∈ ways', Holds s way
  := by
  simp only [List.mem_append, or_and_right, exists_or]

theorem kleeneAnd_eq_true {x y : Option Bool} :
  kleeneAnd x y = some true ↔ x = some true ∧ y = some true
  := by
  rcases x with _ | _ | _ <;> rcases y with _ | _ | _ <;> simp [kleeneAnd]

theorem kleeneAnd_eq_false {x y : Option Bool} :
  kleeneAnd x y = some false ↔ x = some false ∨ y = some false
  := by
  rcases x with _ | _ | _ <;> rcases y with _ | _ | _ <;> simp [kleeneAnd]

theorem map_not_eq {x : Option Bool} {b : Bool} :
  x.map (!·) = some b ↔ x = some !b
  := by
  rcases x with _ | _ | _ <;> cases b <;> simp

theorem eval_eq_some_iff {p : Condition κ ν ω} {b : Bool} :
  p.eval s = some b ↔ ∃ way ∈ ways b p, Holds s way
  := by
  induction p generalizing b with
  | atom a => simp only [eval, ways, List.mem_singleton, exists_eq_left, Holds, forall_eq]
  | and p q ihp ihq =>
    cases b with
    | true => rw [eval, ways, kleeneAnd_eq_true, exists_both, ihp, ihq]
    | false => rw [eval, ways, kleeneAnd_eq_false, exists_append, ihp, ihq]
  | or p q ihp ihq =>
    cases b with
    | true =>
      rw [eval, ways, map_not_eq, Bool.not_true, kleeneAnd_eq_false, exists_append, map_not_eq,
        map_not_eq, Bool.not_false, ihp, ihq]
    | false =>
      rw [eval, ways, map_not_eq, Bool.not_false, kleeneAnd_eq_true, exists_both, map_not_eq,
        map_not_eq, Bool.not_true, ihp, ihq]
  | not p ih => rw [eval, ways, map_not_eq, ih]

/-! ### Entailment -/

theorem consistent_of_holds {way : List (Atom κ ν ω × Bool)} (h : Holds s way) :
  Consistent way
  := by
  intro fact hfact fact' hfact' hclash
  have htruth := h fact hfact
  have htruth' := h fact' hfact'
  unfold Clashes at hclash
  split at hclash
  · obtain ⟨rfl, hvalue⟩ := hclash
    rw [truthOf_equal] at htruth htruth'
    exact hvalue (Option.some.inj (htruth.symm.trans htruth'))
  · obtain ⟨rfl, htruths⟩ := hclash
    exact htruths (Option.some.inj (htruth.symm.trans htruth'))

/-- A way without a contradiction that does not give a column this value holds where it has another
one. -/
theorem exists_situation [Infinite ν] {way : List (Atom κ ν ω × Bool)} (hway : Consistent way)
    {column : κ} {value : ν} (h : (.equal column value, true) ∉ way) :
  ∃ s : Situation κ ν ω, Holds s way ∧ s.value column ≠ some value
  := by
  classical
  let mentioned := way.filterMap fun fact =>
    match fact.1 with
    | .equal _ v => some v
    | .other _ => none
  obtain ⟨fresh, hfresh⟩ := Infinite.exists_notMem_finset (value :: mentioned).toFinset
  rw [List.mem_toFinset, List.mem_cons, not_or] at hfresh
  have hnot : ∀ c v b, (.equal c v, b) ∈ way → fresh ≠ v := by
    rintro c v b hmem rfl
    exact hfresh.2 (List.mem_filterMap.mpr ⟨_, hmem, rfl⟩)
  -- a column has the value that the way says, or one that it does not mention
  let s : Situation κ ν ω :=
    { value := fun c => if h : ∃ v, (.equal c v, true) ∈ way then some h.choose else some fresh
      truth := fun a => some (decide ((.other a, true) ∈ way)) }
  have hsaid : ∀ c v, (.equal c v, true) ∈ way →
      ∃ w, s.value c = some w ∧ (.equal c w, true) ∈ way := by
    intro c v hmem
    have hexists : ∃ v, (.equal c v, true) ∈ way := ⟨v, hmem⟩
    exact ⟨hexists.choose, dif_pos hexists, hexists.choose_spec⟩
  have hunsaid : ∀ c v, (.equal c v, true) ∉ way → fresh ≠ v →
      ∃ w, s.value c = some w ∧ w ≠ v := by
    intro c v hnotsaid hne
    by_cases hexists : ∃ w, (.equal c w, true) ∈ way
    · obtain ⟨w, hmem⟩ := hexists
      obtain ⟨w', hw', hmem'⟩ := hsaid c w hmem
      refine ⟨w', hw', ?_⟩
      rintro rfl
      exact hnotsaid hmem'
    · exact ⟨fresh, dif_neg hexists, hne⟩
  have hunclashed : ∀ a b, (a, b) ∈ way → (a, !b) ∉ way := by
    intro a b hfact hmem
    cases b with
    | true => exact hway _ hfact _ hmem clashes_truths
    | false => exact hway _ hmem _ hfact clashes_truths
  refine ⟨s, ?_, ?_⟩
  · rintro ⟨a, b⟩ hfact
    have hother := hunclashed a b hfact
    cases a with
    | equal c v =>
      cases b with
      | true =>
        obtain ⟨w, hw, hmem⟩ := hsaid c v hfact
        have heq : w = v := by
          by_contra hne
          exact hway _ hmem _ hfact ⟨rfl, hne⟩
        rw [truthOf_equal, hw, heq]
      | false =>
        obtain ⟨w, hw, hne⟩ := hunsaid c v hother (hnot c v false hfact)
        rw [truthOf, hw, Option.map_some, decide_eq_false hne]
    | other a =>
      change some (decide ((.other a, true) ∈ way)) = some b
      cases b with
      | true => rw [decide_eq_true hfact]
      | false => exact congrArg some (decide_eq_false hother)
  · obtain ⟨w, hw, hne⟩ := hunsaid column value h hfresh.1
    rw [hw]
    rintro ⟨⟩
    exact hne rfl

theorem entails_iff [Infinite ν] {p : Condition κ ν ω} {column : κ} {value : ν} :
  p.Entails column value
    ↔ ∀ way ∈ ways true p, Consistent way → (.equal column value, true) ∈ way
  := by
  constructor
  · intro h way hmem hway
    by_contra hnot
    obtain ⟨s, hholds, hvalue⟩ := exists_situation hway hnot
    exact hvalue (h s (eval_eq_some_iff.mpr ⟨way, hmem, hholds⟩))
  · intro h s htrue
    obtain ⟨way, hmem, hholds⟩ := eval_eq_some_iff.mp htrue
    exact truthOf_equal.mp (hholds _ (h way hmem (consistent_of_holds hholds)))

end Condition
