import Mathlib.Data.List.Induction

/-!
# Chains of verdicts

Rules that are joined from left to right, each to what those before it say, by *and* or by *or*;
the first one counts by itself.  Some of the rules are not known, and count as met.  When the chain
says the same with them and without them is `verdict_eq_iff`.
-/

/-- How the rules are joined, which of them are met, and which are known. -/
structure Chain (α : Type*) where
  orJoined : α → Bool
  value : α → Bool
  known : α → Bool
  value_of_unknown : ∀ x, known x = false → value x = true

namespace Chain

variable {α : Type*} (c : Chain α)

/-- Join a rule to what those before it say. -/
def join (acc : Option Bool) (x : α) : Option Bool :=
  match acc with
  | none => some (c.value x)
  | some b => some (if c.orJoined x then b || c.value x else b && c.value x)

/-- What the rules say, if there are any. -/
def verdict (rules : List α) : Option Bool :=
  rules.foldl c.join none

@[simp] theorem verdict_nil :
  c.verdict [] = none
  := by
  rfl

theorem verdict_append (rules later : List α) :
  c.verdict (rules ++ later) = later.foldl c.join (c.verdict rules)
  := by
  rw [verdict, verdict, List.foldl_append]

theorem verdict_concat (rules : List α) (x : α) :
  c.verdict (rules ++ [x]) = c.join (c.verdict rules) x
  := by
  rw [verdict_append]
  rfl

variable {rules : List α} {before after : List α}

theorem verdict_eq_none_iff :
  c.verdict rules = none ↔ rules = []
  := by
  induction rules using List.reverseRecOn with
  | nil => simp
  | append_singleton rules x ih =>
    rw [verdict_concat]
    cases c.verdict rules <;> simp [join]

/-- A rule rejects, and no known rule behind it changes that. -/
structure Decides (before : List α) (x : α) (after : List α) : Prop where
  known : c.known x
  value : c.value x = false
  counts : c.orJoined x = false ∨ ∀ y ∈ before, c.known y = false
  after : ∀ y ∈ after, c.known y → c.value y = !c.orJoined y

/-- A rule that decides is overruled: by one behind it that is not known, or because it is not the
first one after all. -/
def Overruled (before : List α) (x : α) (after : List α) : Prop :=
  (∃ y ∈ after, c.known y = false ∧ c.orJoined y) ∨ (c.orJoined x ∧ before ≠ [])

variable {c}

theorem foldl_join_true (h : ∀ y ∈ rules, c.known y → c.value y = !c.orJoined y) :
  rules.foldl c.join (some true) = some true
  := by
  induction rules with
  | nil => rfl
  | cons y rules ih =>
    have hy : c.join (some true) y = some true := by
      cases hknown : c.known y with
      | true =>
        have hvalue := h y (by simp) hknown
        cases horJoined : c.orJoined y <;> simp [join, hvalue, horJoined]
      | false => simp [join, c.value_of_unknown y hknown]
    rw [List.foldl_cons, hy]
    apply ih
    intro z hz
    apply h z (List.mem_cons_of_mem y hz)

theorem foldl_join_false (h : ∀ y ∈ rules, c.known y → c.value y = !c.orJoined y) :
  rules.foldl c.join (some false)
    = some (rules.any fun y => !c.known y && c.orJoined y)
  := by
  induction rules with
  | nil => rfl
  | cons y rules ih =>
    have hrest : ∀ z ∈ rules, c.known z → c.value z = !c.orJoined z := by
      intro z hz
      apply h z (List.mem_cons_of_mem y hz)
    rw [List.foldl_cons, List.any_cons]
    cases hknown : c.known y with
    | true =>
      have hvalue := h y (by simp) hknown
      have hy : c.join (some false) y = some false := by
        cases horJoined : c.orJoined y <;> simp [join, hvalue, horJoined]
      rw [hy, ih hrest]
      rfl
    | false =>
      have hvalue := c.value_of_unknown y hknown
      cases horJoined : c.orJoined y with
      | true =>
        have hy : c.join (some false) y = some true := by simp [join, hvalue, horJoined]
        rw [hy, foldl_join_true hrest]
        rfl
      | false =>
        have hy : c.join (some false) y = some false := by simp [join, horJoined]
        rw [hy, ih hrest]
        rfl

theorem verdict_unknown (h : ∀ y ∈ rules, c.known y = false) (hne : rules ≠ []) :
  c.verdict rules = some true
  := by
  obtain _ | ⟨y, rules⟩ := rules
  · exact absurd rfl hne
  · have hy : c.join none y = some true := by
      rw [join, c.value_of_unknown y (h y (by simp))]
    rw [verdict, List.foldl_cons, hy]
    apply foldl_join_true
    intro z hz hknown
    rw [h z (List.mem_cons_of_mem y hz)] at hknown
    cases hknown

theorem any_unknown_filter (rules : List α) :
  ((rules.filter c.known).any fun y => !c.known y && c.orJoined y) = false
  := by
  rw [List.any_eq_false]
  intro y hy
  simp [(List.mem_filter.mp hy).2]

theorem verdict_filter_of_decides {x : α} (h : c.Decides before x after) :
  c.verdict ((before ++ x :: after).filter c.known) = some false
  := by
  have hx : c.join (c.verdict (before.filter c.known)) x = some false := by
    obtain hand | hfirst := h.counts
    · cases c.verdict (before.filter c.known) <;> simp [join, h.value, hand]
    · have hnil : before.filter c.known = [] := by simpa using hfirst
      rw [hnil, verdict_nil, join, h.value]
  rw [List.filter_append, List.filter_cons_of_pos h.known, verdict_append, List.foldl_cons, hx,
    foldl_join_false, any_unknown_filter]
  intro y hy
  exact h.after y (List.mem_filter.mp hy).1

theorem verdict_of_decides {x : α} (h : c.Decides before x after) :
  c.verdict (before ++ x :: after) = some true ↔ c.Overruled before x after
  := by
  have hany : (after.any fun y => !c.known y && c.orJoined y) = true
      ↔ ∃ y ∈ after, c.known y = false ∧ c.orJoined y := by
    simp
  rw [verdict_append, List.foldl_cons, Overruled]
  by_cases hx : c.orJoined x ∧ before ≠ []
  · obtain hand | hfirst := h.counts
    · simp [hand] at hx
    · have htrue : c.join (some true) x = some true := by simp [join, hx.1]
      rw [verdict_unknown hfirst hx.2, htrue, foldl_join_true h.after]
      simp [hx]
  · have hfalse : c.join (c.verdict before) x = some false := by
      by_cases hnil : before = []
      · rw [hnil, verdict_nil, join, h.value]
      · have hand : c.orJoined x = false := by simpa [hnil] using hx
        cases c.verdict before <;> simp [join, h.value, hand]
    rw [hfalse, foldl_join_false h.after, or_iff_left hx, Option.some_inj, hany]

theorem Decides.concat {x y : α} (h : c.Decides before x after)
    (hy : c.known y → c.value y = !c.orJoined y) :
  c.Decides before x (after ++ [y])
  := by
  refine ⟨h.known, h.value, h.counts, ?_⟩
  intro z hz
  obtain hz | hz := List.mem_append.mp hz
  · exact h.after z hz
  · obtain rfl := List.mem_singleton.mp hz
    exact hy

theorem exists_decides (h : c.verdict (rules.filter c.known) = some false) :
  ∃ before x after, rules = before ++ x :: after ∧ c.Decides before x after
  := by
  induction rules using List.reverseRecOn with
  | nil => cases h
  | append_singleton rules y ih =>
    have hlast : c.known y → c.value y = false → (c.orJoined y = false
        ∨ ∀ z ∈ rules, c.known z = false) →
        ∃ before x after, rules ++ [y] = before ++ x :: after ∧ c.Decides before x after := by
      intro hknown hvalue hcounts
      exact ⟨rules, y, [], rfl, hknown, hvalue, hcounts, by simp⟩
    have hearlier : c.verdict (rules.filter c.known) = some false →
        (c.known y → c.value y = !c.orJoined y) →
        ∃ before x after, rules ++ [y] = before ++ x :: after ∧ c.Decides before x after := by
      intro hrules hy
      obtain ⟨before, x, after, rfl, hdecides⟩ := ih hrules
      exact ⟨before, x, after ++ [y], by simp, hdecides.concat hy⟩
    cases hknown : c.known y with
    | false =>
      rw [List.filter_append, List.filter_cons_of_neg (by simp [hknown]), List.filter_nil,
        List.append_nil] at h
      apply hearlier h
      simp [hknown]
    | true =>
      rw [List.filter_append, List.filter_cons_of_pos hknown, List.filter_nil,
        verdict_concat] at h
      cases hrules : c.verdict (rules.filter c.known) with
      | none =>
        rw [hrules, join, Option.some_inj] at h
        apply hlast hknown h
        right
        simpa using c.verdict_eq_none_iff.mp hrules
      | some b =>
        rw [hrules, join, Option.some_inj] at h
        cases hor : c.orJoined y with
        | true =>
          rw [hor, if_pos rfl, Bool.or_eq_false_iff] at h
          apply hearlier (by rw [hrules, h.1])
          simp [h.2, hor]
        | false =>
          cases hvalue : c.value y with
          | true =>
            apply hearlier
            · simpa [hor, hvalue, hrules] using h
            · simp [hvalue, hor]
          | false => exact hlast hknown hvalue (.inl hor)

theorem verdict_true (h : (c.verdict (rules.filter c.known)).getD true = true) :
  (c.verdict rules).getD true = true
  := by
  induction rules using List.reverseRecOn with
  | nil => rfl
  | append_singleton rules y ih =>
    rw [verdict_concat]
    cases hknown : c.known y with
    | false =>
      rw [List.filter_append, List.filter_cons_of_neg (by simp [hknown]), List.filter_nil,
        List.append_nil] at h
      have hvalue := c.value_of_unknown y hknown
      cases hrules : c.verdict rules with
      | none => simp [join, hvalue]
      | some b =>
        have hb : b = true := by simpa [hrules] using ih h
        simp [join, hvalue, hb]
    | true =>
      rw [List.filter_append, List.filter_cons_of_pos hknown, List.filter_nil,
        verdict_concat] at h
      cases hrules : c.verdict rules with
      | none =>
        rw [c.verdict_eq_none_iff] at hrules
        rw [hrules] at h
        exact h
      | some b =>
        rw [hrules] at ih
        cases hreduced : c.verdict (rules.filter c.known) with
        | none =>
          rw [hreduced] at h ih
          have hb : b = true := ih rfl
          have hvalue : c.value y = true := h
          simp [join, hb, hvalue]
        | some b' =>
          rw [hreduced] at h ih
          cases b' with
          | true =>
            have hb : b = true := ih rfl
            rw [hb]
            exact h
          | false =>
            have hmet : c.orJoined y = true ∧ c.value y = true := by
              cases horJoined : c.orJoined y with
              | true => simpa [join, horJoined] using h
              | false => simp [join, horJoined] at h
            simp [join, hmet]

theorem verdict_eq_iff (rules : List α) :
  (c.verdict rules).getD true = (c.verdict (rules.filter c.known)).getD true
    ↔ ∀ before x after, rules = before ++ x :: after → c.Decides before x after →
      ¬c.Overruled before x after
  := by
  constructor
  · rintro heq before x after rfl hdecides hoverruled
    rw [(verdict_of_decides hdecides).mpr hoverruled, verdict_filter_of_decides hdecides] at heq
    cases heq
  · intro h
    cases hreduced : c.verdict (rules.filter c.known) with
    | none => exact verdict_true (by rw [hreduced]; rfl)
    | some b =>
      cases b with
      | true => exact verdict_true (by rw [hreduced]; rfl)
      | false =>
        obtain ⟨before, x, after, rfl, hdecides⟩ := exists_decides hreduced
        have hnot := mt (verdict_of_decides hdecides).mp (h before x after rfl hdecides)
        cases hfull : c.verdict (before ++ x :: after) with
        | none =>
          rw [c.verdict_eq_none_iff] at hfull
          simp at hfull
        | some b =>
          cases b with
          | true => exact absurd hfull hnot
          | false => rfl

end Chain
