import Catio.Lib.JavaScript.Literals
import Catio.Lib.Chain

/-!
# Filters of the data grid

The model of `components/dbviews/gridFilter.ts`: a list of rules for the values in some columns,
each of them joined to those before it by AND or by OR, and the rows that they leave over.  A column
is looked up by its name; a place below zero says that there is none.  Lower case is that of
Unicode, and comes as a function.
-/

namespace Workbench

open JavaScript

/-! ### Rules -/

/-- What a rule asks of a value. -/
inductive FilterMode where
  | equals
  | notEquals
  | like
  | notLike
  | greaterThan
  | lessThan
  | isNull
  | isNotNull
  deriving DecidableEq

/-- How a rule is joined to those before it. -/
inductive Conjunction where
  | and
  | or
  deriving DecidableEq

structure FilterRule where
  id : Text
  columnName : Text
  mode : FilterMode
  rawValue : Text
  conjunction : Conjunction
  deriving DecidableEq

/-- The operator takes a value. -/
def filterModeNeedsValue (mode : FilterMode) : Bool :=
  mode != .isNull && mode != .isNotNull

/-- A rule names a column, and has the value that it needs. -/
def isRuleComplete (rule : FilterRule) : Bool :=
  if rule.columnName = [] then false
  else if filterModeNeedsValue rule.mode && (trim rule.rawValue).length = 0 then false
  else true

/-! ### One rule on one row -/

/-- The number that a text stands for, if it is a literal of a finite one. -/
def literalNumber (text : Text) : Option ℚ :=
  (readLiteral text).bind Numeral.toNumber

/-- A text is compared as a number. -/
def isNumericLiteral (text : Text) : Bool :=
  if text = [] ∨ trim text ≠ text then false else (literalNumber text).isSome

/-- Compare as numbers if both are, and as strings otherwise. -/
def numericOrString (cellStr raw : Text) (numCmp : ℚ → ℚ → Bool) (strCmp : Text → Text → Bool) :
    Bool :=
  if isNumericLiteral cellStr && isNumericLiteral raw then
    numCmp ((literalNumber cellStr).getD 0) ((literalNumber raw).getD 0)
  else strCmp cellStr raw

/-- A row meets a rule.  A rule for an unknown column is met by all of them. -/
def evalRule (toLowerCase : Text → Text) (row : List Value) (rule : FilterRule)
    (columnLookup : Text → ℤ) : Bool :=
  let ci := columnLookup rule.columnName
  if ci < 0 then true
  else
    let cell := row.getD ci.toNat .undefined
    let raw := rule.rawValue
    let cellStr := if cell.isNullish then [] else cell.toText
    match rule.mode with
    | .isNull => cell.isNullish
    | .isNotNull => !cell.isNullish
    | .equals => numericOrString cellStr raw (fun a b => a = b) (fun a b => a = b)
    | .notEquals => !numericOrString cellStr raw (fun a b => a = b) (fun a b => a = b)
    | .like => toLowerCase raw <:+: toLowerCase cellStr
    | .notLike => !decide (toLowerCase raw <:+: toLowerCase cellStr)
    | .greaterThan => numericOrString cellStr raw (fun a b => a > b) (fun a b => ltUnits b a)
    | .lessThan => numericOrString cellStr raw (fun a b => a < b) (fun a b => ltUnits a b)

/-! ### The rules on the rows -/

/-- Join what a rule says to what those before it say. -/
def joinRule (toLowerCase : Text → Text) (columnLookup : Text → ℤ) (row : List Value) (acc : Bool)
    (rule : FilterRule) : Bool :=
  let r := evalRule toLowerCase row rule columnLookup
  if rule.conjunction = .or then acc || r else acc && r

/-- The rows that the complete rules leave over, or all of them if there is no such rule. -/
def filterRows (toLowerCase : Text → Text) (rows : List (List Value)) (rules : List FilterRule)
    (columnLookup : Text → ℤ) : List (List Value) :=
  match rules.filter isRuleComplete with
  | [] => rows
  | first :: rest =>
      rows.filter fun row =>
        rest.foldl (joinRule toLowerCase columnLookup row)
          (evalRule toLowerCase row first columnLookup)

end Workbench

/-!
## Rules that are ignored

Rules that are not complete are left out before the rows are looked at.  A rule for an unknown
column is met by every row instead: joined by OR it lets in what the rules before it reject, and in
front it takes the place of the first rule.  `filterRows_ignores_iff` says when the rows are those
of the other rules alone.
-/

namespace Workbench

open JavaScript

section

variable (toLowerCase : Text → Text) (columnLookup : Text → ℤ) (row : List Value)

/-- A rule has an effect: it is complete, and its column is known. -/
def isEffective (columnLookup : Text → ℤ) (rule : FilterRule) : Bool :=
  isRuleComplete rule && 0 ≤ columnLookup rule.columnName

/-- The rules as a chain of verdicts on a row. -/
def ruleChain : Chain FilterRule where
  orJoined rule := rule.conjunction = .or
  value rule := evalRule toLowerCase row rule columnLookup
  known rule := 0 ≤ columnLookup rule.columnName
  value_of_unknown := by
    intro rule hunknown
    have hlt : columnLookup rule.columnName < 0 := by simpa using hunknown
    unfold evalRule
    rw [if_pos hlt]

theorem foldl_joinRule (rest : List FilterRule) (acc : Bool) :
  rest.foldl (ruleChain toLowerCase columnLookup row).join (some acc)
    = some (rest.foldl (joinRule toLowerCase columnLookup row) acc)
  := by
  induction rest generalizing acc with
  | nil => rfl
  | cons rule rest ih =>
    have hstep : (ruleChain toLowerCase columnLookup row).join (some acc) rule
        = some (joinRule toLowerCase columnLookup row acc rule) := by
      simp [Chain.join, ruleChain, joinRule]
    rw [List.foldl_cons, hstep, ih, List.foldl_cons]

theorem filterRows_eq (rows : List (List Value)) (rules : List FilterRule) :
  filterRows toLowerCase rows rules columnLookup
    = rows.filter fun row =>
        ((ruleChain toLowerCase columnLookup row).verdict (rules.filter isRuleComplete)).getD true
  := by
  unfold filterRows
  cases rules.filter isRuleComplete with
  | nil => simp
  | cons first rest =>
    apply List.filter_congr
    intro row _
    rw [Chain.verdict, List.foldl_cons]
    change _ = (rest.foldl (ruleChain toLowerCase columnLookup row).join
      (some (evalRule toLowerCase row first columnLookup))).getD true
    rw [foldl_joinRule]
    rfl

theorem filter_isEffective (rules : List FilterRule) :
  rules.filter (isEffective columnLookup)
    = (rules.filter isRuleComplete).filter (ruleChain toLowerCase columnLookup row).known
  := by
  rw [List.filter_filter]
  apply List.filter_congr
  intro rule _
  simp [isEffective, ruleChain, Bool.and_comm]

theorem filter_isRuleComplete (rules : List FilterRule) :
  (rules.filter (isEffective columnLookup)).filter isRuleComplete
    = rules.filter (isEffective columnLookup)
  := by
  rw [List.filter_eq_self]
  intro rule hrule
  have heffective := (List.mem_filter.mp hrule).2
  exact (Bool.and_eq_true_iff.mp heffective).1

theorem filter_eq_filter_iff {α : Type*} {p q : α → Bool} {items : List α} :
  items.filter p = items.filter q ↔ ∀ x ∈ items, p x = q x
  := by
  constructor
  · intro h x hx
    rw [Bool.eq_iff_iff]
    have hmem : x ∈ items.filter p ↔ x ∈ items.filter q := by rw [h]
    simpa [hx] using hmem
  · exact List.filter_congr

/-! ### Overruled rejections -/

/-- A rule rejects a row, and no effective rule behind it changes that; its conjunction counts only
behind an effective rule. -/
structure Rejects (before : List FilterRule) (rule : FilterRule) (after : List FilterRule) :
    Prop where
  known : 0 ≤ columnLookup rule.columnName
  value : evalRule toLowerCase row rule columnLookup = false
  counts : rule.conjunction = .and ∨ ∀ r ∈ before, columnLookup r.columnName < 0
  after : ∀ r ∈ after, 0 ≤ columnLookup r.columnName →
    evalRule toLowerCase row r columnLookup = decide (r.conjunction = .and)

/-- A rule for an unknown column stands behind a rule and is joined by OR, or stands before it where
that is joined by OR itself. -/
def LetsIn (before : List FilterRule) (rule : FilterRule) (after : List FilterRule) : Prop :=
  (∃ r ∈ after, columnLookup r.columnName < 0 ∧ r.conjunction = .or)
    ∨ (rule.conjunction = .or ∧ before ≠ [])

theorem rejects_iff {before after : List FilterRule} {rule : FilterRule} :
  Rejects toLowerCase columnLookup row before rule after
    ↔ (ruleChain toLowerCase columnLookup row).Decides before rule after
  := by
  have hand : ∀ r : FilterRule, r.conjunction = .and ↔ ¬r.conjunction = .or := by
    intro r
    cases r.conjunction <;> simp
  constructor
  · intro h
    refine ⟨?_, h.value, ?_, ?_⟩
    · simpa [ruleChain] using h.known
    · simpa [ruleChain, hand] using h.counts
    · simpa [ruleChain, hand] using h.after
  · intro h
    refine ⟨?_, h.value, ?_, ?_⟩
    · simpa [ruleChain] using h.known
    · simpa [ruleChain, hand] using h.counts
    · simpa [ruleChain, hand] using h.after

theorem letsIn_iff {before after : List FilterRule} {rule : FilterRule} :
  LetsIn columnLookup before rule after
    ↔ (ruleChain toLowerCase columnLookup row).Overruled before rule after
  := by
  simp [LetsIn, Chain.Overruled, ruleChain]

end

/-- The rows are those that the effective rules alone leave over, and all of them if there is no
such rule. -/
def IgnoresRules (toLowerCase : Text → Text) (columnLookup : Text → ℤ) (rows : List (List Value))
    (rules : List FilterRule) : Prop :=
  filterRows toLowerCase rows rules columnLookup
      = filterRows toLowerCase rows (rules.filter (isEffective columnLookup)) columnLookup
    ∧ (rules.filter (isEffective columnLookup) = [] →
      filterRows toLowerCase rows rules columnLookup = rows)

theorem filterRows_of_none (toLowerCase : Text → Text) (columnLookup : Text → ℤ)
    (rows : List (List Value)) {rules : List FilterRule}
    (h : rules.filter (isEffective columnLookup) = []) :
  filterRows toLowerCase rows rules columnLookup = rows
  := by
  rw [filterRows_eq, List.filter_eq_self]
  intro row _
  apply Chain.verdict_true
  rw [← filter_isEffective, h]
  rfl

/-- Incomplete rules and rules for unknown columns are ignored just when on no row one of the latter
lets in what an effective rule rejects for good. -/
theorem filterRows_ignores_iff (toLowerCase : Text → Text) (columnLookup : Text → ℤ)
    (rows : List (List Value)) (rules : List FilterRule) :
  IgnoresRules toLowerCase columnLookup rows rules
    ↔ ∀ row ∈ rows, ∀ before rule after,
        rules.filter isRuleComplete = before ++ rule :: after →
        Rejects toLowerCase columnLookup row before rule after →
        ¬LetsIn columnLookup before rule after
  := by
  rw [IgnoresRules, and_iff_left (filterRows_of_none toLowerCase columnLookup rows), filterRows_eq,
    filterRows_eq, filter_isRuleComplete, filter_eq_filter_iff]
  apply forall₂_congr
  intro row _
  rw [filter_isEffective toLowerCase columnLookup row, Chain.verdict_eq_iff]
  simp only [rejects_iff, letsIn_iff toLowerCase columnLookup row]

/-- The row with a value in the only column is not null there, and yet is let in by a rule for a
column that does not exist. -/
theorem filterRows_not_ignored :
  ¬∀ (toLowerCase : Text → Text) (columnLookup : Text → ℤ) (rows : List (List Value))
      (rules : List FilterRule), IgnoresRules toLowerCase columnLookup rows rules
  := by
  intro h
  let known : FilterRule := ⟨"1", "a", .isNull, [], .and⟩
  let unknown : FilterRule := ⟨"2", "b", .isNull, [], .or⟩
  let columnLookup : Text → ℤ := fun name => if name = "a".toList then 0 else -1
  have heq := (h id columnLookup [[.boolean true]] [known, unknown]).1
  have hlength := congrArg List.length heq
  revert hlength
  decide

end Workbench
