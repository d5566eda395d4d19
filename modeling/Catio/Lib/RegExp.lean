import Catio.Lib.Text
import Mathlib.Logic.Relation

/-!
# Regular expressions

Regular expressions with word boundaries and anchors, over letters of any kind.  What a class
contains, and what belongs to a word, is up to a dialect.  An expression is a relation between
positions of a text (`Matches`), which a matcher decides (`isMatch_iff`), and it is read from its
usual notation (`parse`).
-/

namespace RegExp

/-! ### Expressions -/

/-- A class of letters: those in some ranges of code points and, if it is so, white space; or all
the other ones. -/
structure CharClass where
  negated : Bool
  ranges : List (ℕ × ℕ)
  space : Bool
  deriving DecidableEq

/-- The class of one character. -/
def CharClass.single (c : Char) : CharClass :=
  ⟨false, [(c.toNat, c.toNat)], false⟩

/-- The class of white space. -/
def CharClass.blank : CharClass :=
  ⟨false, [], true⟩

/-- A regular expression. -/
inductive Exp where
  | empty
  | letter (c : CharClass)
  | seq (r s : Exp)
  | alt (r s : Exp)
  | star (r : Exp)
  | boundary
  | start
  | stop
  deriving DecidableEq

/-- What letters are: the code points for which a letter is taken, white space, and the letters of
words. -/
structure Dialect (κ : Type) where
  variants : κ → List ℕ
  isSpace : κ → Bool
  isWord : κ → Bool

/-- A position in a text: what is before it, from right to left, and what is behind it. -/
@[ext]
structure Position (κ : Type) where
  before : List κ
  after : List κ
  deriving DecidableEq

section

variable {κ : Type} (d : Dialect κ)

/-- A letter belongs to a class. -/
def CharClass.holds (c : CharClass) (x : κ) : Bool :=
  ((d.variants x).any (fun v => c.ranges.any fun range => range.1 ≤ v ∧ v ≤ range.2)
    || (c.space && d.isSpace x)) != c.negated

/-- There is a letter of a word on one side only. -/
def Dialect.atBoundary (p : Position κ) : Bool :=
  p.before.head?.any d.isWord != p.after.head?.any d.isWord

def Position.text (p : Position κ) : List κ :=
  p.before.reverse ++ p.after

/-! ### Matches -/

/-- An expression matches what is between two positions. -/
def Matches : Exp → Position κ → Position κ → Prop
  | .empty => fun p q => p = q
  | .letter c => fun p q => ∃ x rest, p.after = x :: rest ∧ c.holds d x ∧ q = ⟨x :: p.before, rest⟩
  | .seq r s => Relation.Comp (Matches r) (Matches s)
  | .alt r s => fun p q => Matches r p q ∨ Matches s p q
  | .star r => Relation.ReflTransGen (Matches r)
  | .boundary => fun p q => p = q ∧ d.atBoundary p
  | .start => fun p q => p = q ∧ p.before = []
  | .stop => fun p q => p = q ∧ p.after = []

/-- An expression matches somewhere in a text. -/
def Matched (r : Exp) (text : List κ) : Prop :=
  ∃ p q : Position κ, p.text = text ∧ Matches d r p q

variable {d} {r s : Exp} {p q : Position κ}

theorem Matches.skips (h : Matches d r p q) :
  ∃ w, p.after = w ++ q.after ∧ q.before = w.reverse ++ p.before
  := by
  induction r generalizing p q with
  | empty =>
    cases h
    exact ⟨[], rfl, rfl⟩
  | letter c =>
    obtain ⟨x, rest, hafter, -, rfl⟩ := h
    exact ⟨[x], hafter, rfl⟩
  | seq r s ihr ihs =>
    obtain ⟨m, hr, hs⟩ := h
    obtain ⟨w, hw, hw'⟩ := ihr hr
    obtain ⟨v, hv, hv'⟩ := ihs hs
    refine ⟨w ++ v, ?_, ?_⟩
    · rw [hw, hv, List.append_assoc]
    · rw [hv', hw', List.reverse_append, List.append_assoc]
  | alt r s ihr ihs =>
    obtain h | h := h
    · exact ihr h
    · exact ihs h
  | star r ih =>
    induction h with
    | refl => exact ⟨[], rfl, rfl⟩
    | tail _ hlast ihead =>
      obtain ⟨w, hw, hw'⟩ := ihead
      obtain ⟨v, hv, hv'⟩ := ih hlast
      refine ⟨w ++ v, ?_, ?_⟩
      · rw [hw, hv, List.append_assoc]
      · rw [hv', hw', List.reverse_append, List.append_assoc]
  | boundary =>
    cases h.1
    exact ⟨[], rfl, rfl⟩
  | start =>
    cases h.1
    exact ⟨[], rfl, rfl⟩
  | stop =>
    cases h.1
    exact ⟨[], rfl, rfl⟩

theorem Matches.text_eq (h : Matches d r p q) :
  q.text = p.text
  := by
  obtain ⟨w, hafter, hbefore⟩ := h.skips
  unfold Position.text
  rw [hafter, hbefore, List.reverse_append, List.reverse_reverse, List.append_assoc]

theorem Matches.eq_of_length (h : Matches d r p q) (hlength : p.after.length ≤ q.after.length) :
  q = p
  := by
  obtain ⟨w, hafter, hbefore⟩ := h.skips
  have hempty : w = [] := by
    rw [hafter, List.length_append] at hlength
    exact List.eq_nil_of_length_eq_zero (by omega)
  subst hempty
  exact Position.ext hbefore hafter.symm

end

/-! ### What is matched -/

section

variable {κ : Type} (d : Dialect κ)

/-- An expression without boundaries and anchors. -/
def Exp.free : Exp → Bool
  | .empty => true
  | .letter _ => true
  | .seq r s => r.free && s.free
  | .alt r s => r.free && s.free
  | .star r => r.free
  | _ => false

/-- What an expression without boundaries and anchors matches. -/
def Spells : Exp → List κ → Prop
  | .empty => fun w => w = []
  | .letter c => fun w => ∃ x, c.holds d x ∧ w = [x]
  | .seq r s => fun w => ∃ u v, Spells r u ∧ Spells s v ∧ w = u ++ v
  | .alt r s => fun w => Spells r w ∨ Spells s w
  | .star r => fun w => ∃ parts : List (List κ), (∀ u ∈ parts, Spells r u) ∧ w = parts.flatten
  | _ => fun _ => False

/-- What is between two positions. -/
def Position.Skips (p : Position κ) (w : List κ) (q : Position κ) : Prop :=
  p.after = w ++ q.after ∧ q.before = w.reverse ++ p.before

variable {d} {r : Exp} {p q m : Position κ} {u v w : List κ}

theorem Position.skips_nil :
  p.Skips [] q ↔ p = q
  := by
  rw [Position.Skips, Position.ext_iff, List.nil_append, List.reverse_nil, List.nil_append, and_comm,
    eq_comm (a := q.before)]

theorem Position.Skips.trans (hu : p.Skips u m) (hv : m.Skips v q) :
  p.Skips (u ++ v) q
  := by
  constructor
  · rw [hu.1, hv.1, List.append_assoc]
  · rw [hv.2, hu.2, List.reverse_append, List.append_assoc]

theorem Position.Skips.split (h : p.Skips (u ++ v) q) :
  ∃ m, p.Skips u m ∧ Position.Skips m v q
  := by
  refine ⟨⟨u.reverse ++ p.before, v ++ q.after⟩, ⟨?_, rfl⟩, rfl, ?_⟩
  · rw [h.1, List.append_assoc]
  · rw [h.2, List.reverse_append, List.append_assoc]

theorem matches_iff_spells (h : r.free) :
  Matches d r p q ↔ ∃ w, Spells d r w ∧ p.Skips w q
  := by
  induction r generalizing p q with
  | empty =>
    constructor
    · rintro rfl
      exact ⟨[], rfl, Position.skips_nil.mpr rfl⟩
    · rintro ⟨_, rfl, hpq⟩
      exact Position.skips_nil.mp hpq
  | letter c =>
    constructor
    · rintro ⟨x, rest, hafter, hx, rfl⟩
      exact ⟨[x], ⟨x, hx, rfl⟩, hafter, rfl⟩
    · rintro ⟨_, ⟨x, hx, rfl⟩, hafter, hbefore⟩
      exact ⟨x, q.after, hafter, hx, Position.ext hbefore rfl⟩
  | seq r s ihr ihs =>
    rw [Exp.free, Bool.and_eq_true] at h
    constructor
    · rintro ⟨m, hr, hs⟩
      obtain ⟨u, hu, hpm⟩ := (ihr h.1).mp hr
      obtain ⟨v, hv, hmq⟩ := (ihs h.2).mp hs
      exact ⟨u ++ v, ⟨u, v, hu, hv, rfl⟩, hpm.trans hmq⟩
    · rintro ⟨_, ⟨u, v, hu, hv, rfl⟩, hpq⟩
      obtain ⟨m, hpm, hmq⟩ := hpq.split
      exact ⟨m, (ihr h.1).mpr ⟨u, hu, hpm⟩, (ihs h.2).mpr ⟨v, hv, hmq⟩⟩
  | alt r s ihr ihs =>
    rw [Exp.free, Bool.and_eq_true] at h
    change Matches d r p q ∨ Matches d s p q ↔ _
    rw [ihr h.1, ihs h.2, ← exists_or]
    apply exists_congr
    intro w
    exact or_and_right.symm
  | star r ih =>
    constructor
    · intro hstar
      induction hstar with
      | refl => exact ⟨[], ⟨[], List.forall_mem_nil _, rfl⟩, Position.skips_nil.mpr rfl⟩
      | tail _ hlast ihead =>
        obtain ⟨_, ⟨parts, hparts, rfl⟩, hpm⟩ := ihead
        obtain ⟨v, hv, hmq⟩ := (ih h).mp hlast
        refine ⟨parts.flatten ++ v, ⟨parts ++ [v], ?_, by simp⟩, hpm.trans hmq⟩
        exact List.forall_mem_append.mpr ⟨hparts, List.forall_mem_singleton.mpr hv⟩
    · rintro ⟨_, ⟨parts, hparts, rfl⟩, hpq⟩
      induction parts generalizing p with
      | nil =>
        rw [Position.skips_nil.mp hpq]
        exact .refl
      | cons v parts ihparts =>
        rw [List.flatten_cons] at hpq
        obtain ⟨m, hpm, hmq⟩ := hpq.split
        obtain ⟨hv, hrest⟩ := List.forall_mem_cons.mp hparts
        exact .head ((ih h).mpr ⟨v, hv, hpm⟩) (ihparts hrest hmq)
  | boundary => cases h
  | start => cases h
  | stop => cases h

theorem spells_alt {s : Exp} :
  Spells d (.alt r s) w ↔ Spells d r w ∨ Spells d s w
  := Iff.rfl

theorem spells_star_letter {c : CharClass} :
  Spells d (.star (.letter c)) w ↔ ∀ x ∈ w, c.holds d x
  := by
  constructor
  · rintro ⟨parts, hparts, rfl⟩ x hx
    obtain ⟨u, hu, hxu⟩ := List.mem_flatten.mp hx
    obtain ⟨y, hy, rfl⟩ := hparts u hu
    rw [List.mem_singleton.mp hxu]
    exact hy
  · intro h
    refine ⟨w.map fun x => [x], ?_, (List.flatMap_singleton' w).symm⟩
    intro u hu
    obtain ⟨x, hx, rfl⟩ := List.mem_map.mp hu
    exact ⟨x, h x hx, rfl⟩

theorem matched_alt {s : Exp} {text : List κ} :
  Matched d (.alt r s) text ↔ Matched d r text ∨ Matched d s text
  := by
  unfold Matched
  simp only [Matches, and_or_left, exists_or]

theorem matched_boundary_seq (h : r.free) {text : List κ} :
  Matched d (.seq .boundary r) text
    ↔ ∃ before w after, text = before ++ (w ++ after) ∧ Spells d r w
      ∧ d.atBoundary ⟨before.reverse, w ++ after⟩
  := by
  constructor
  · rintro ⟨p, q, rfl, m, ⟨rfl, hboundary⟩, hr⟩
    obtain ⟨w, hw, hpq⟩ := (matches_iff_spells h).mp hr
    refine ⟨p.before.reverse, w, q.after, ?_, hw, ?_⟩
    · rw [Position.text, hpq.1]
    · rw [List.reverse_reverse, ← hpq.1]
      exact hboundary
  · rintro ⟨before, w, after, rfl, hw, hboundary⟩
    refine ⟨⟨before.reverse, w ++ after⟩, ⟨w.reverse ++ before.reverse, after⟩, ?_, _,
      ⟨rfl, hboundary⟩, (matches_iff_spells h).mpr ⟨w, hw, rfl, rfl⟩⟩
    rw [Position.text, List.reverse_reverse]

theorem matched_boundaries (h : r.free) {text : List κ} :
  Matched d (.seq .boundary (.seq r .boundary)) text
    ↔ ∃ before w after, text = before ++ (w ++ after) ∧ Spells d r w
      ∧ d.atBoundary ⟨before.reverse, w ++ after⟩ ∧ d.atBoundary ⟨w.reverse ++ before.reverse, after⟩
  := by
  constructor
  · rintro ⟨p, q, rfl, m, ⟨rfl, hboundary⟩, m', hr, rfl, hboundary'⟩
    obtain ⟨w, hw, hpq⟩ := (matches_iff_spells h).mp hr
    refine ⟨p.before.reverse, w, m'.after, ?_, hw, ?_, ?_⟩
    · rw [Position.text, hpq.1]
    · rw [List.reverse_reverse, ← hpq.1]
      exact hboundary
    · rw [List.reverse_reverse, ← hpq.2]
      exact hboundary'
  · rintro ⟨before, w, after, rfl, hw, hboundary, hboundary'⟩
    refine ⟨⟨before.reverse, w ++ after⟩, ⟨w.reverse ++ before.reverse, after⟩, ?_, _,
      ⟨rfl, hboundary⟩, _, (matches_iff_spells h).mpr ⟨w, hw, rfl, rfl⟩, rfl, hboundary'⟩
    rw [Position.text, List.reverse_reverse]

end

/-! ### The matcher -/

section

variable {κ : Type}

/-- What is reached by steps that skip something. -/
def closure (f : Position κ → List (Position κ)) : ℕ → Position κ → List (Position κ)
  | 0, p => [p]
  | n + 1, p =>
      p :: ((f p).filter fun q => q.after.length < p.after.length).flatMap (closure f n)

/-- Where the matches from a position end. -/
def ends (d : Dialect κ) : Exp → Position κ → List (Position κ)
  | .empty, p => [p]
  | .letter c, p =>
      match p.after with
      | x :: rest => if c.holds d x then [⟨x :: p.before, rest⟩] else []
      | [] => []
  | .seq r s, p => (ends d r p).flatMap (ends d s)
  | .alt r s, p => ends d r p ++ ends d s p
  | .star r, p => closure (ends d r) p.after.length p
  | .boundary, p => if d.atBoundary p then [p] else []
  | .start, p => if p.before.isEmpty then [p] else []
  | .stop, p => if p.after.isEmpty then [p] else []

def positions (text : List κ) : List (Position κ) :=
  (List.range (text.length + 1)).map fun i => ⟨(text.take i).reverse, text.drop i⟩

/-- An expression matches somewhere in a text. -/
def isMatch (d : Dialect κ) (r : Exp) (text : List κ) : Bool :=
  (positions text).any fun p => !(ends d r p).isEmpty

variable {d : Dialect κ} {r : Exp} {p q : Position κ}

theorem closure_mono {f : Position κ → List (Position κ)} {m n : ℕ} (hle : m ≤ n)
    (h : q ∈ closure f m p) :
  q ∈ closure f n p
  := by
  induction n generalizing m p with
  | zero =>
    rw [Nat.le_zero.mp hle] at h
    exact h
  | succ n ih =>
    cases m with
    | zero =>
      rw [List.mem_singleton.mp h]
      exact List.mem_cons_self
    | succ m =>
      obtain rfl | h := List.mem_cons.mp h
      · exact List.mem_cons_self
      · obtain ⟨x, hx, hq⟩ := List.mem_flatMap.mp h
        apply List.mem_cons_of_mem
        exact List.mem_flatMap.mpr ⟨x, hx, ih (Nat.le_of_succ_le_succ hle) hq⟩

theorem mem_closure_iff {f : Position κ → List (Position κ)}
    (hf : ∀ p q, q ∈ f p ↔ Matches d r p q) :
  q ∈ closure f p.after.length p ↔ Relation.ReflTransGen (Matches d r) p q
  := by
  constructor
  · generalize p.after.length = n
    intro h
    induction n generalizing p with
    | zero =>
      rw [List.mem_singleton.mp h]
    | succ n ih =>
      obtain rfl | h := List.mem_cons.mp h
      · exact .refl
      · obtain ⟨x, hx, hq⟩ := List.mem_flatMap.mp h
        exact .head ((hf p x).mp (List.mem_filter.mp hx).1) (ih hq)
  · intro h
    induction h using Relation.ReflTransGen.head_induction_on with
    | refl =>
      cases q.after.length with
      | zero => exact List.mem_singleton_self q
      | succ n => exact List.mem_cons_self
    | @head p m hstep _ ih =>
      obtain hlt | hge := Nat.lt_or_ge m.after.length p.after.length
      · obtain ⟨n, hn⟩ := Nat.exists_eq_add_one_of_ne_zero (Nat.ne_zero_of_lt hlt)
        have hle : m.after.length ≤ n := by omega
        rw [hn]
        apply List.mem_cons_of_mem
        refine List.mem_flatMap.mpr ⟨m, List.mem_filter.mpr ⟨(hf p m).mpr hstep, ?_⟩, ?_⟩
        · exact decide_eq_true hlt
        · exact closure_mono hle ih
      · rw [hstep.eq_of_length hge] at ih
        exact ih

/-- The matcher finds the matches. -/
theorem mem_ends :
  q ∈ ends d r p ↔ Matches d r p q
  := by
  induction r generalizing p q with
  | empty =>
    change q ∈ [p] ↔ p = q
    rw [List.mem_singleton, eq_comm]
  | letter c =>
    unfold ends Matches
    split
    · rename_i x rest hafter
      rw [hafter]
      constructor
      · intro h
        split at h
        · rename_i hc
          exact ⟨x, rest, rfl, hc, List.mem_singleton.mp h⟩
        · cases h
      · rintro ⟨x, rest, heq, hc, rfl⟩
        cases heq
        rw [if_pos hc]
        exact List.mem_singleton_self _
    · rename_i hafter
      rw [hafter]
      constructor
      · intro h
        cases h
      · rintro ⟨x, rest, heq, -⟩
        cases heq
  | seq r s ihr ihs =>
    unfold ends Matches
    rw [List.mem_flatMap]
    constructor
    · rintro ⟨m, hm, hq⟩
      exact ⟨m, ihr.mp hm, ihs.mp hq⟩
    · rintro ⟨m, hm, hq⟩
      exact ⟨m, ihr.mpr hm, ihs.mpr hq⟩
  | alt r s ihr ihs =>
    unfold ends Matches
    rw [List.mem_append, ihr, ihs]
  | star r ih => exact mem_closure_iff fun p q => ih
  | boundary =>
    unfold ends Matches
    split
    · rename_i h
      rw [List.mem_singleton, eq_comm, and_iff_left h]
    · rename_i h
      constructor
      · intro hq
        cases hq
      · rintro ⟨-, hp⟩
        exact absurd hp h
  | start =>
    unfold ends Matches
    split
    · rename_i h
      rw [List.mem_singleton, eq_comm, and_iff_left (List.isEmpty_iff.mp h)]
    · rename_i h
      constructor
      · intro hq
        cases hq
      · rintro ⟨-, hp⟩
        exact absurd (List.isEmpty_iff.mpr hp) h
  | stop =>
    unfold ends Matches
    split
    · rename_i h
      rw [List.mem_singleton, eq_comm, and_iff_left (List.isEmpty_iff.mp h)]
    · rename_i h
      constructor
      · intro hq
        cases hq
      · rintro ⟨-, hp⟩
        exact absurd (List.isEmpty_iff.mpr hp) h

theorem mem_positions {text : List κ} :
  p ∈ positions text ↔ p.text = text
  := by
  unfold positions Position.text
  rw [List.mem_map]
  constructor
  · rintro ⟨i, -, rfl⟩
    simp
  · rintro rfl
    refine ⟨p.before.length, ?_, ?_⟩
    · rw [List.mem_range, List.length_append, List.length_reverse]
      omega
    · rw [← List.length_reverse]
      simp

theorem isMatch_iff {text : List κ} :
  isMatch d r text ↔ Matched d r text
  := by
  unfold isMatch Matched
  rw [List.any_eq_true]
  constructor
  · rintro ⟨p, hp, h⟩
    cases hends : ends d r p with
    | nil =>
      rw [hends] at h
      cases h
    | cons q qs =>
      refine ⟨p, q, mem_positions.mp hp, mem_ends.mp ?_⟩
      rw [hends]
      exact List.mem_cons_self
  · rintro ⟨p, q, hp, h⟩
    refine ⟨p, mem_positions.mpr hp, ?_⟩
    cases hends : ends d r p with
    | nil =>
      rw [← mem_ends, hends] at h
      cases h
    | cons q qs => rfl

end

/-! ### Notation -/

/-- The character that is meant by one behind a backslash. -/
def escaped (c : Char) : Option Char :=
  if c = 'n' then some '\n' else if c.isAlphanum then none else some c

/-- The ranges of a class up to its bracket, and what follows. -/
def parseRanges : ℕ → Text → Option (List (ℕ × ℕ) × Text)
  | 0, _ => none
  | _ + 1, [] => none
  | _ + 1, ']' :: rest => some ([], rest)
  | n + 1, '\\' :: c :: rest => do
      let x ← escaped c
      let (ranges, rest) ← parseRanges n rest
      some ((x.toNat, x.toNat) :: ranges, rest)
  | n + 1, lo :: '-' :: hi :: rest => do
      let (ranges, rest) ← parseRanges n rest
      some ((lo.toNat, hi.toNat) :: ranges, rest)
  | n + 1, c :: rest => do
      let (ranges, rest) ← parseRanges n rest
      some ((c.toNat, c.toNat) :: ranges, rest)

/-- How often an expression is to be matched, and what follows. -/
def repeated (r : Exp) : Text → List Exp × Text
  | '*' :: '?' :: rest => ([.star r], rest)
  | '*' :: rest => ([.star r], rest)
  | '+' :: rest => ([r, .star r], rest)
  | '?' :: rest => ([.alt r .empty], rest)
  | '{' :: n :: '}' :: rest => (List.replicate (n.toNat - '0'.toNat) r, rest)
  | rest => ([r], rest)

mutual

/-- The expression of alternatives, and what follows. -/
def parseAlt : ℕ → Text → Option (Exp × Text)
  | 0, _ => none
  | n + 1, t => do
      let (r, rest) ← parseSeq n t
      match rest with
      | '|' :: rest => do
          let (s, rest) ← parseAlt n rest
          some (.alt r s, rest)
      | rest => some (r, rest)

/-- The expression of one alternative, and what follows. -/
def parseSeq : ℕ → Text → Option (Exp × Text)
  | 0, _ => none
  | _ + 1, [] => some (.empty, [])
  | _ + 1, '|' :: rest => some (.empty, '|' :: rest)
  | _ + 1, ')' :: rest => some (.empty, ')' :: rest)
  | n + 1, t => do
      let (r, rest) ← parseAtom n t
      let (copies, rest) := repeated r rest
      let (s, rest) ← parseSeq n rest
      some (copies.foldr .seq s, rest)

/-- The expression of one group, class, anchor or character, and what follows. -/
def parseAtom : ℕ → Text → Option (Exp × Text)
  | 0, _ => none
  | n + 1, '(' :: '?' :: ':' :: rest => do
      let (r, rest) ← parseAlt n rest
      match rest with
      | ')' :: rest => some (r, rest)
      | _ => none
  | n + 1, '[' :: '^' :: rest => do
      let (ranges, rest) ← parseRanges n rest
      some (.letter ⟨true, ranges, false⟩, rest)
  | n + 1, '[' :: rest => do
      let (ranges, rest) ← parseRanges n rest
      some (.letter ⟨false, ranges, false⟩, rest)
  | _ + 1, '^' :: rest => some (.start, rest)
  | _ + 1, '$' :: rest => some (.stop, rest)
  | _ + 1, '\\' :: 'b' :: rest => some (.boundary, rest)
  | _ + 1, '\\' :: 's' :: rest => some (.letter .blank, rest)
  | _ + 1, '\\' :: c :: rest => do
      let x ← escaped c
      some (.letter (.single x), rest)
  | _ + 1, c :: rest =>
      if c ∈ ("\\()[]{}*+?.|" : Text) then none else some (.letter (.single c), rest)
  | _ + 1, [] => none

end

/-- The expression that is written so. -/
def parse (t : Text) : Option Exp :=
  match parseAlt (t.length + 2) t with
  | some (r, []) => some r
  | _ => none

end RegExp
