import Mathlib.Data.Bool.AllAny
import Catio.Workbench.AiSqlExecution
import Catio.Workbench.AiSqlExecution.WhereClause

/-!
# Scoped updates

When an update whose risk is low is scoped, so that its condition entails that a column like a key has
a certain value (`classifyStatement_scoped_iff`).  What the risk is depends on a comparison that is
looked for anywhere behind the first `WHERE`: it may be one of two alternatives, it may be negated, or
in a subquery, and the other side of it may be a column.
-/

namespace Workbench.AiSqlExecution

open JavaScript RegExp

/-! ### Letters -/

theorem toNat_toLower (c : Char) :
  c.toLower.toNat = if 65 ≤ c.toNat ∧ c.toNat ≤ 90 then c.toNat + 32 else c.toNat
  := by
  have hrange : c.val ≥ 'A'.val ∧ c.val ≤ 'Z'.val ↔ 65 ≤ c.toNat ∧ c.toNat ≤ 90 := by
    rw [ge_iff_le, UInt32.le_iff_toNat_le, UInt32.le_iff_toNat_le]
    rfl
  unfold Char.toLower
  split
  · rename_i h
    rw [if_pos (hrange.mp h), Char.toNat_mk, UInt32.toNat_add]
    have hle := (hrange.mp h).2
    rw [← Char.toNat_val] at hle ⊢
    change (c.val.toNat + 32) % 2 ^ 32 = _
    omega
  · rename_i h
    rw [if_neg fun h' => h (hrange.mpr h')]

variable {w : Text} {statement : Text} {text : Text} {c x : Char}

theorem mem_asciiCases (hc : c.toLower = c) :
  c.toNat ∈ asciiCases x.toNat ↔ x.toLower = c
  := by
  rw [← Char.toNat_inj, toNat_toLower] at hc
  rw [← Char.toNat_inj, toNat_toLower, asciiCases]
  split_ifs at hc ⊢ <;> simp only [List.mem_cons, List.not_mem_nil, or_false] <;> omega

theorem toLower_eq_iff (hc : c.isAlpha = false) :
  x.toLower = c ↔ x = c
  := by
  have hrange : ¬(65 ≤ c.toNat ∧ c.toNat ≤ 90 ∨ 97 ≤ c.toNat ∧ c.toNat ≤ 122) := by
    rw [← Text.isAlpha_iff, hc]
    exact Bool.false_ne_true
  rw [← Char.toNat_inj, ← Char.toNat_inj, toNat_toLower]
  split_ifs <;> omega

theorem holds_ranges {ranges : List (ℕ × ℕ)} {negated : Bool} {x : Char} :
  (CharClass.mk negated ranges false).holds caseless x
    ↔ ((∃ v ∈ asciiCases x.toNat, ∃ range ∈ ranges, range.1 ≤ v ∧ v ≤ range.2) ↔ negated = false)
  := by
  unfold CharClass.holds caseless
  rw [Bool.false_and, Bool.or_false, bne_iff_ne, ne_eq]
  cases negated <;> simp

theorem holds_chars {chars : Text} (hchars : ∀ c ∈ chars, c.toLower = c) {x : Char} :
  (∃ v ∈ asciiCases x.toNat, ∃ range ∈ chars.map fun c => (c.toNat, c.toNat),
      range.1 ≤ v ∧ v ≤ range.2)
    ↔ x.toLower ∈ chars
  := by
  simp only [List.mem_map]
  constructor
  · rintro ⟨v, hv, _, ⟨c, hc, rfl⟩, hle, hge⟩
    obtain rfl := le_antisymm hle hge
    rw [(mem_asciiCases (hchars c hc)).mp hv]
    exact hc
  · intro hmem
    refine ⟨x.toLower.toNat, ?_, _, ⟨_, hmem, rfl⟩, le_rfl, le_rfl⟩
    exact (mem_asciiCases (hchars _ hmem)).mpr rfl

theorem holds_single (hc : c.toLower = c) :
  (CharClass.single c).holds caseless x ↔ x.toLower = c
  := by
  have hchars := @holds_chars [c] (by simpa using hc) x
  rw [CharClass.single, holds_ranges, iff_true_right rfl]
  exact hchars.trans List.mem_singleton

theorem isWordChar_iff (c : Char) :
  Text.isWordChar c ↔ 48 ≤ c.toNat ∧ c.toNat ≤ 57 ∨ 65 ≤ c.toNat ∧ c.toNat ≤ 90 ∨ c.toNat = 95
    ∨ 97 ≤ c.toNat ∧ c.toNat ≤ 122
  := by
  have hunderscore : c = '_' ↔ c.toNat = 95 := by
    rw [← Char.toNat_inj]
    rfl
  have hdigit : c.isDigit ↔ 48 ≤ c.toNat ∧ c.toNat ≤ 57 := by
    simp [Char.isDigit, UInt32.le_iff_toNat_le]
  rw [Text.isWordChar, Char.isAlphanum, Bool.or_eq_true, Bool.or_eq_true, Text.isAlpha_iff, hdigit,
    beq_iff_eq, hunderscore]
  tauto

theorem toLower_mem_iff {chars : Text} (hchars : ∀ c ∈ chars, c.isAlpha = false) {x : Char} :
  x.toLower ∈ chars ↔ x ∈ chars
  := by
  constructor
  · intro h
    rwa [(toLower_eq_iff (hchars _ h)).mp rfl]
  · intro h
    rwa [(toLower_eq_iff (hchars _ h)).mpr rfl]

theorem holds_wordAnd {chars : Text} (hchars : ∀ c ∈ chars, c.isAlpha = false) {x : Char} :
  (wordAnd chars).holds caseless x ↔ Text.isWordChar x ∨ x ∈ chars
  := by
  have hword : (∃ v ∈ asciiCases x.toNat, ∃ range ∈ wordRanges, range.1 ≤ v ∧ v ≤ range.2)
      ↔ Text.isWordChar x := by
    rw [isWordChar_iff, asciiCases]
    simp only [wordRanges, List.mem_cons, List.not_mem_nil, or_false, exists_eq_or_imp,
      exists_eq_left]
    split_ifs <;> simp only [List.mem_cons, List.not_mem_nil, or_false, exists_eq_or_imp,
      exists_eq_left] <;> omega
  have hother := (@holds_chars chars (fun c hc => (toLower_eq_iff (hchars c hc)).mpr rfl) x).trans
    (toLower_mem_iff hchars)
  rw [wordAnd, holds_ranges, iff_true_right rfl, ← hword, ← hother]
  simp only [List.mem_append, or_and_right, exists_or, and_or_left]

theorem holds_not_quote {quote x : Char} (hquote : quote.isAlpha = false) :
  (CharClass.mk true [(quote.toNat, quote.toNat)] false).holds caseless x ↔ x ≠ quote
  := by
  have hchars : ∀ c ∈ [quote], c.isAlpha = false := by simpa using hquote
  have hquotes := (@holds_chars [quote] (fun c hc => (toLower_eq_iff (hchars c hc)).mpr rfl) x).trans
    (toLower_mem_iff hchars)
  rw [List.mem_singleton] at hquotes
  rw [holds_ranges, ne_eq, ← hquotes]
  simp

/-! ### Words -/

theorem spells_letter {c : CharClass} {p : Char → Prop} (h : ∀ x, c.holds caseless x ↔ p x) :
  Spells caseless (.letter c) w ↔ ∃ x, p x ∧ w = [x]
  := by
  rw [Spells]
  exact exists_congr fun x => and_congr_left' (h x)

theorem spells_star {c : CharClass} {p : Char → Prop} (h : ∀ x, c.holds caseless x ↔ p x) :
  Spells caseless (.star (.letter c)) w ↔ ∀ x ∈ w, p x
  := by
  rw [spells_star_letter]
  exact forall₂_congr fun x _ => h x

theorem spells_blanks :
  Spells caseless blanks w ↔ ∀ x ∈ w, isBlank x
  := by
  apply spells_star
  intro x
  simp [CharClass.blank, CharClass.holds, caseless]

theorem spells_symbol {c : Char} (hc : c.isAlpha = false) :
  Spells caseless (.letter (.single c)) w ↔ w = [c]
  := by
  rw [spells_letter fun x => (holds_single ((toLower_eq_iff hc).mpr rfl)).trans (toLower_eq_iff hc)]
  simp

theorem spells_spelled {t : Text} (ht : ∀ c ∈ t, c.toLower = c) :
  Spells caseless (spelled t) w ↔ Text.toAsciiLowercase w = t
  := by
  induction t generalizing w with
  | nil =>
    change w = [] ↔ _
    rw [Text.toAsciiLowercase, List.map_eq_nil_iff]
  | cons c t ih =>
    obtain ⟨hc, ht⟩ := List.forall_mem_cons.mp ht
    change (∃ u v, Spells caseless (.letter (.single c)) u ∧ Spells caseless (spelled t) v
      ∧ w = u ++ v) ↔ _
    simp only [spells_letter fun x => holds_single hc, ih ht]
    constructor
    · rintro ⟨_, v, ⟨x, rfl, rfl⟩, rfl, rfl⟩
      rfl
    · intro h
      obtain ⟨x, v, rfl, hx, hv⟩ := List.map_eq_cons_iff.mp h
      exact ⟨[x], v, ⟨x, hx, rfl⟩, hv, rfl⟩

/-! ### What is looked for -/

def boundaryBetween (before after : Text) : Bool :=
  before.getLast?.any Text.isWordChar != after.head?.any Text.isWordChar

/-- A character of the name of a column, as it is looked for. -/
def IsNameChar (c : Char) : Prop :=
  Text.isWordChar c ∨ c ∈ "\"\x60.[]".toList

def isKeyLike (name : Text) : Bool :=
  ["id".toList, "uuid", "key"].any fun key => decide (key <:+: Text.toAsciiLowercase name)

/-- A value that is compared starts here: a literal that is not empty, or a word. -/
def StartsValue (t : Text) : Prop :=
  (∃ quote inside rest, isQuote quote ∧ inside ≠ [] ∧ quote ∉ inside
      ∧ t = quote :: (inside ++ quote :: rest))
    ∨ ∃ c rest, (Text.isWordChar c ∨ c ∈ ".-".toList) ∧ t = c :: rest

/-- Somewhere something like a key is compared with a value. -/
def ComparesKey (text : Text) : Prop :=
  ∃ before name spaces spaces' rest,
    text = before ++ (name ++ (spaces ++ '=' :: (spaces' ++ rest)))
      ∧ boundaryBetween before name ∧ (∀ c ∈ name, IsNameChar c) ∧ isKeyLike name
      ∧ (∀ c ∈ spaces, isBlank c) ∧ (∀ c ∈ spaces', isBlank c) ∧ StartsValue rest

/-- Somewhere there is `1 = 1` or `TRUE`. -/
def NamesTautology (text : Text) : Prop :=
  ∃ before word after, text = before ++ (word ++ after)
    ∧ boundaryBetween before word ∧ boundaryBetween word after
    ∧ (Text.toAsciiLowercase word = "true"
      ∨ ∃ spaces spaces', word = '1' :: (spaces ++ '=' :: (spaces' ++ ['1']))
        ∧ (∀ c ∈ spaces, isBlank c) ∧ ∀ c ∈ spaces', isBlank c)

theorem atBoundary_iff {before word after : Text} (hword : word ≠ []) :
  caseless.atBoundary ⟨before.reverse, word ++ after⟩ = boundaryBetween before word
  := by
  rw [Dialect.atBoundary, boundaryBetween, List.head?_reverse, List.head?_append_of_ne_nil _ hword]
  rfl

theorem atBoundary_iff' {before word after : Text} (hword : word ≠ []) :
  caseless.atBoundary ⟨word.reverse ++ before.reverse, after⟩ = boundaryBetween word after
  := by
  rw [Dialect.atBoundary, boundaryBetween, ← List.reverse_append, List.head?_reverse,
    List.getLast?_append_of_ne_nil _ hword]
  rfl

/-! ### What is found -/

theorem spells_quotedValue {quote : Char} (hquote : quote.isAlpha = false) :
  Spells caseless (quotedValue quote) w
    ↔ ∃ inside, inside ≠ [] ∧ quote ∉ inside ∧ w = quote :: (inside ++ [quote])
  := by
  have hinside : ∀ x, (CharClass.mk true [(quote.toNat, quote.toNat)] false).holds caseless x
      ↔ x ≠ quote := fun x => holds_not_quote hquote
  constructor
  · rintro ⟨u, v, hu, ⟨u₁, v₁, hu₁, ⟨u₂, v₂, hu₂, hv₂, rfl⟩, rfl⟩, rfl⟩
    rw [spells_symbol hquote] at hu hv₂
    rw [spells_star hinside] at hu₂
    obtain ⟨x, hx, rfl⟩ := (spells_letter hinside).mp hu₁
    refine ⟨x :: u₂, List.cons_ne_nil x u₂, ?_, by rw [hu, hv₂]; rfl⟩
    rw [List.mem_cons, not_or]
    exact ⟨hx.symm, fun hmem => hu₂ quote hmem rfl⟩
  · rintro ⟨inside, hne, hnot, rfl⟩
    obtain ⟨x, inside, rfl⟩ := List.exists_cons_of_ne_nil hne
    rw [List.mem_cons, not_or] at hnot
    refine ⟨[quote], _, (spells_symbol hquote).mpr rfl, ⟨[x], _,
      (spells_letter hinside).mpr ⟨x, fun h => hnot.1 h.symm, rfl⟩, ⟨inside, [quote], ?_,
        (spells_symbol hquote).mpr rfl, rfl⟩, rfl⟩, rfl⟩
    rw [spells_star hinside]
    rintro y hy rfl
    exact hnot.2 hy

theorem startsValue_iff {t : Text} :
  StartsValue t ↔ ∃ value rest, Spells caseless comparedValue value ∧ t = value ++ rest
  := by
  have hword : ∀ x, (wordAnd ".-").holds caseless x ↔ Text.isWordChar x ∨ x ∈ ".-".toList :=
    fun x => holds_wordAnd (List.all_iff_forall_prop.mp (by decide))
  have hquoted : ∀ quote : Char, quote.isAlpha = false →
      ((∃ value rest, Spells caseless (quotedValue quote) value ∧ t = value ++ rest)
        ↔ ∃ inside rest, inside ≠ [] ∧ quote ∉ inside ∧ t = quote :: (inside ++ quote :: rest)) := by
    intro quote hquote
    simp only [spells_quotedValue hquote]
    constructor
    · rintro ⟨_, rest, ⟨inside, hne, hnot, rfl⟩, rfl⟩
      exact ⟨inside, rest, hne, hnot, by simp⟩
    · rintro ⟨inside, rest, hne, hnot, rfl⟩
      exact ⟨_, rest, ⟨inside, hne, hnot, rfl⟩, by simp⟩
  have hwords : (∃ value rest, Spells caseless
        (.seq (.letter (wordAnd ".-")) (.star (.letter (wordAnd ".-")))) value ∧ t = value ++ rest)
      ↔ ∃ c rest, (Text.isWordChar c ∨ c ∈ ".-".toList) ∧ t = c :: rest := by
    constructor
    · rintro ⟨_, rest, ⟨u, v, hu, -, rfl⟩, rfl⟩
      obtain ⟨x, hx, rfl⟩ := (spells_letter hword).mp hu
      exact ⟨x, v ++ rest, hx, rfl⟩
    · rintro ⟨c, rest, hc, rfl⟩
      exact ⟨[c], rest, ⟨[c], [], (spells_letter hword).mpr ⟨c, hc, rfl⟩,
        (spells_star hword).mpr (List.forall_mem_nil _), rfl⟩, rfl⟩
  simp only [comparedValue, spells_alt, or_and_right, exists_or, hquoted '\'' rfl, hquoted '"' rfl,
    hquoted '\x60' rfl, hwords]
  simp only [StartsValue, isQuote, Bool.or_eq_true, beq_iff_eq, or_and_right, exists_or,
    exists_and_left, exists_eq_left, or_assoc]

theorem isWordChar_toLower (c : Char) :
  Text.isWordChar c.toLower = Text.isWordChar c
  := by
  rw [Bool.eq_iff_iff, isWordChar_iff, isWordChar_iff, toNat_toLower]
  split <;> omega

theorem spells_keyWords :
  Spells caseless keyWords w
    ↔ Text.toAsciiLowercase w ∈ ["id".toList, "_id".toList, "uuid".toList, "key".toList]
  := by
  have hspelled : ∀ {t w : Text}, (t.all fun c => decide (c.toLower = c)) →
      (Spells caseless (spelled t) w ↔ Text.toAsciiLowercase w = t) :=
    fun ht => spells_spelled (List.all_iff_forall_prop.mp ht)
  have hid := @hspelled "id" w (by decide)
  have hunderscore := @hspelled "_id" w (by decide)
  have huuid := @hspelled "uuid" w (by decide)
  have hkey := @hspelled "key" w (by decide)
  simp only [keyWords, spells_alt, hid, hunderscore, huuid, hkey, List.mem_cons, List.not_mem_nil,
    or_false]

theorem keyWord_facts (h : Spells caseless keyWords w) :
  (∀ c ∈ w, IsNameChar c) ∧ isKeyLike w
  := by
  rw [spells_keyWords] at h
  constructor
  · intro c hc
    have hmem : c.toLower ∈ Text.toAsciiLowercase w := List.mem_map_of_mem hc
    have hall : ["id".toList, "_id".toList, "uuid".toList, "key".toList].all
        (·.all Text.isWordChar) := rfl
    left
    rw [← isWordChar_toLower]
    exact List.all_eq_true.mp (List.all_eq_true.mp hall _ h) _ hmem
  · have hall : ["id".toList, "_id".toList, "uuid".toList, "key".toList].all fun word =>
        ["id".toList, "uuid", "key"].any fun key => decide (key <:+: word) := by decide
    exact List.all_eq_true.mp hall _ h

theorem isKeyLike_iff {name : Text} :
  isKeyLike name ↔ ∃ u w v, Spells caseless keyWords w ∧ name = u ++ (w ++ v)
  := by
  constructor
  · intro h
    obtain ⟨key, hkey, hinfix⟩ := List.any_eq_true.mp h
    obtain ⟨s, t, heq⟩ := of_decide_eq_true hinfix
    obtain ⟨u, w, rfl, hlower, -⟩ := List.map_eq_append_iff.mp heq.symm
    obtain ⟨u, w, rfl, -, rfl⟩ := List.map_eq_append_iff.mp hlower
    refine ⟨u, w, _, spells_keyWords.mpr ?_, List.append_assoc _ _ _⟩
    have hall : ["id".toList, "uuid", "key"].all fun key =>
        ["id".toList, "_id".toList, "uuid".toList, "key".toList].contains key := rfl
    exact List.contains_iff_mem.mp (List.all_eq_true.mp hall _ hkey)
  · rintro ⟨u, w, v, hw, rfl⟩
    obtain ⟨key, hkey, hinfix⟩ := List.any_eq_true.mp (keyWord_facts hw).2
    refine List.any_eq_true.mpr ⟨key, hkey, decide_eq_true ?_⟩
    refine (of_decide_eq_true hinfix).trans ⟨Text.toAsciiLowercase u, Text.toAsciiLowercase v, ?_⟩
    simp [Text.toAsciiLowercase]

theorem spells_name {r : Exp} :
  Spells caseless (.seq nameChars (.seq keyWords (.seq nameChars r))) w
    ↔ ∃ name v, (∀ c ∈ name, IsNameChar c) ∧ isKeyLike name ∧ Spells caseless r v ∧ w = name ++ v
  := by
  have hname : ∀ w, Spells caseless nameChars w ↔ ∀ c ∈ w, IsNameChar c :=
    fun w => spells_star fun x => holds_wordAnd (List.all_iff_forall_prop.mp (by decide))
  constructor
  · rintro ⟨u, _, hu, ⟨key, _, hkey, ⟨v, rest, hv, hrest, rfl⟩, rfl⟩, rfl⟩
    refine ⟨u ++ (key ++ v), rest, ?_, isKeyLike_iff.mpr ⟨u, key, v, hkey, rfl⟩, hrest, by simp⟩
    intro c hc
    rcases List.mem_append.mp hc with hc | hc
    · exact (hname u).mp hu c hc
    · rcases List.mem_append.mp hc with hc | hc
      · exact (keyWord_facts hkey).1 c hc
      · exact (hname v).mp hv c hc
  · rintro ⟨name, rest, hchars, hlike, hrest, rfl⟩
    obtain ⟨u, key, v, hkey, rfl⟩ := isKeyLike_iff.mp hlike
    refine ⟨u, _, (hname u).mpr fun c hc => hchars c (by simp [hc]), ⟨key, _, hkey,
      ⟨v, rest, (hname v).mpr fun c hc => hchars c (by simp [hc]), hrest, rfl⟩, rfl⟩, by simp⟩

theorem ne_nil_of_isKeyLike {name : Text} (h : isKeyLike name) :
  name ≠ []
  := by
  rintro rfl
  cases h

theorem matched_keyComparison :
  Matched caseless keyComparison text ↔ ComparesKey text
  := by
  have hequal : ∀ w, Spells caseless (.letter (.single '=')) w ↔ w = ['='] :=
    fun w => spells_symbol rfl
  have hboundary : ∀ {before name v : Text}, isKeyLike name →
      caseless.atBoundary ⟨before.reverse, name ++ v⟩ = boundaryBetween before name :=
    fun h => atBoundary_iff (ne_nil_of_isKeyLike h)
  unfold keyComparison ComparesKey
  rw [matched_boundary_seq rfl]
  simp only [spells_name]
  constructor
  · rintro ⟨before, _, after, rfl, ⟨name, _, hchars, hlike, ⟨spaces, _, hspaces, ⟨u, _, hu,
      ⟨spaces', value, hspaces', hvalue, rfl⟩, rfl⟩, rfl⟩, rfl⟩, hbefore⟩
    rw [(hequal u).mp hu]
    rw [List.append_assoc, hboundary hlike] at hbefore
    exact ⟨before, name, spaces, spaces', value ++ after, by simp, hbefore, hchars, hlike,
      spells_blanks.mp hspaces, spells_blanks.mp hspaces',
      startsValue_iff.mpr ⟨value, after, hvalue, rfl⟩⟩
  · rintro ⟨before, name, spaces, spaces', rest, rfl, hbefore, hchars, hlike, hspaces, hspaces',
      hrest⟩
    obtain ⟨value, after, hvalue, rfl⟩ := startsValue_iff.mp hrest
    refine ⟨before, name ++ (spaces ++ (['='] ++ (spaces' ++ value))), after, by simp,
      ⟨name, _, hchars, hlike, ⟨spaces, _, spells_blanks.mpr hspaces, ⟨['='], _,
        (hequal _).mpr rfl, ⟨spaces', value, spells_blanks.mpr hspaces', hvalue, rfl⟩, rfl⟩, rfl⟩,
        rfl⟩, ?_⟩
    rw [List.append_assoc, hboundary hlike]
    exact hbefore

theorem matched_bounded {r : Exp} (hr : r.free) (hne : ¬Spells caseless r []) :
  Matched caseless (bounded r) text
    ↔ ∃ before word after, text = before ++ (word ++ after) ∧ boundaryBetween before word
      ∧ boundaryBetween word after ∧ Spells caseless r word
  := by
  unfold bounded
  rw [matched_boundaries hr]
  apply exists_congr
  intro before
  apply exists_congr
  intro word
  apply exists_congr
  intro after
  apply and_congr_right
  rintro -
  constructor
  · rintro ⟨hword, hbefore, hafter⟩
    have hnil : word ≠ [] := by
      rintro rfl
      exact hne hword
    rw [atBoundary_iff hnil] at hbefore
    rw [atBoundary_iff' hnil] at hafter
    exact ⟨hbefore, hafter, hword⟩
  · rintro ⟨hbefore, hafter, hword⟩
    have hnil : word ≠ [] := by
      rintro rfl
      exact hne hword
    rw [atBoundary_iff hnil, atBoundary_iff' hnil]
    exact ⟨hword, hbefore, hafter⟩

theorem matched_tautology :
  Matched caseless tautology text ↔ NamesTautology text
  := by
  have hone : ∀ w, Spells caseless (.letter (.single '1')) w ↔ w = ['1'] := fun w => spells_symbol rfl
  have hequal : ∀ w, Spells caseless (.letter (.single '=')) w ↔ w = ['='] :=
    fun w => spells_symbol rfl
  have hones : ∀ w, Spells caseless (.seq (.letter (.single '1')) (.seq blanks
        (.seq (.letter (.single '=')) (.seq blanks (.letter (.single '1')))))) w
      ↔ ∃ spaces spaces', w = '1' :: (spaces ++ '=' :: (spaces' ++ ['1']))
        ∧ (∀ c ∈ spaces, isBlank c) ∧ ∀ c ∈ spaces', isBlank c := by
    intro w
    constructor
    · rintro ⟨u, _, hu, ⟨spaces, _, hspaces, ⟨v, _, hv, ⟨spaces', u', hspaces', hu', rfl⟩, rfl⟩,
        rfl⟩, rfl⟩
      rw [(hone u).mp hu, (hequal v).mp hv, (hone u').mp hu']
      exact ⟨spaces, spaces', rfl, spells_blanks.mp hspaces, spells_blanks.mp hspaces'⟩
    · rintro ⟨spaces, spaces', rfl, hspaces, hspaces'⟩
      exact ⟨['1'], _, (hone _).mpr rfl, ⟨spaces, _, spells_blanks.mpr hspaces, ⟨['='], _,
        (hequal _).mpr rfl, ⟨spaces', ['1'], spells_blanks.mpr hspaces', (hone _).mpr rfl, rfl⟩,
        rfl⟩, rfl⟩, rfl⟩
  have htrue : ∀ w, Spells caseless (spelled "true") w ↔ Text.toAsciiLowercase w = "true" :=
    fun w => spells_spelled (List.all_iff_forall_prop.mp (by decide))
  have hsplit : Matched caseless tautology text
      ↔ Matched caseless (bounded (.seq (.letter (.single '1')) (.seq blanks
          (.seq (.letter (.single '=')) (.seq blanks (.letter (.single '1'))))))) text
        ∨ Matched caseless (bounded (spelled "true")) text := matched_alt
  rw [hsplit, matched_bounded rfl (by simp [hones]), matched_bounded rfl (by rw [htrue]; decide),
    NamesTautology]
  simp only [hones, htrue]
  rw [or_comm]
  simp only [← exists_or, ← and_or_left]

theorem isScopedUpdate_iff :
  isScopedUpdate statement
    ↔ ∃ behind, behindWhere none (maskStringLiterals statement) = some behind
      ∧ ¬NamesTautology behind ∧ ComparesKey behind
  := by
  rw [isScopedUpdate]
  cases behindWhere none (maskStringLiterals statement) with
  | none => simp
  | some behind =>
    simp only [Option.some_inj, exists_eq_left']
    rw [← matched_tautology, ← matched_keyComparison, ← isMatch_iff, ← isMatch_iff]
    cases isMatch caseless tautology behind <;> simp

/-! ### What an update is scoped to -/

instance : Infinite Constant :=
  Infinite.of_injective Constant.text fun _ _ h => Constant.text.inj h

/-- The condition of an update entails that a column like a key has some constant value. -/
def Scoped (statement : Text) : Prop :=
  ∃ p, whereCondition statement = some p
    ∧ ∃ column value, isKeyLike column ∧ p.Entails column value

/-- Each way to make the condition true without contradicting itself has one comparison of a column
like a key with a constant. -/
def Pinned (statement : Text) : Prop :=
  ∃ p, whereCondition statement = some p
    ∧ ∃ column value, isKeyLike column
      ∧ ∀ way ∈ p.ways true, Condition.Consistent way → (.equal column value, true) ∈ way

theorem scoped_iff_pinned :
  Scoped statement ↔ Pinned statement
  := by
  simp only [Scoped, Pinned, Condition.entails_iff]

/-! ### Categories of updates -/

theorem not_startsWith {word : Text} {c : Char} {rest statement : Text}
    (h : startsWith [word] statement) (hword : word = c :: rest) {words : List Text}
    (hwords : ∀ word' ∈ words, word'.head?.any (· ≠ c)) :
  startsWith words statement = false
  := by
  subst hword
  simp only [startsWith, List.any_cons, List.any_nil, Bool.or_false, Bool.and_eq_true,
    beq_iff_eq] at h
  obtain ⟨d, statement, rfl⟩ : ∃ d tail, statement = d :: tail := by
    cases statement with
    | nil => cases h.1
    | cons d tail => exact ⟨d, tail, rfl⟩
  have hd : d.toUpper = c := (List.cons.inj h.1).1
  rw [startsWith, List.any_eq_false]
  intro word' hmem
  have hother := hwords word' hmem
  cases word' with
  | nil => cases hother
  | cons c' rest' =>
    have hne : c' ≠ c := of_decide_eq_true hother
    rw [Bool.not_eq_true, Bool.and_eq_false_iff]
    refine .inl (beq_false_of_ne fun heq => hne ?_)
    exact (List.cons.inj heq).1.symm.trans hd

theorem classifyStatement_update (h : startsWith ["UPDATE"] statement) :
  classifyStatement statement
    = if isScopedUpdate statement then .lowRiskWrite else .dangerous
  := by
  have hother : ∀ words : List Text, (∀ word' ∈ words, word'.head?.any (· ≠ 'U')) →
      startsWith words statement = false :=
    fun words hwords => not_startsWith h rfl hwords
  rw [classifyStatement, hother ["EXPLAIN"] (by decide),
    hother ["SELECT", "WITH", "SHOW", "DESCRIBE", "DESC"] (by decide),
    hother ["DROP", "TRUNCATE", "ALTER", "RENAME"] (by decide), hother ["CREATE"] (by decide),
    hother ["INSERT"] (by decide), h]
  rfl

/-- An update of low risk is scoped exactly if a comparison of something like a key, without a
tautology, is the comparison of such a column with a constant in each way to make the condition
true. -/
theorem classifyStatement_scoped_iff {statement : Text} (h : startsWith ["UPDATE"] statement) :
  (classifyStatement statement = .lowRiskWrite → Scoped statement)
    ↔ ∀ behind, behindWhere none (maskStringLiterals statement) = some behind → ComparesKey behind →
      ¬NamesTautology behind → Pinned statement
  := by
  have hrisk : classifyStatement statement = .lowRiskWrite ↔ isScopedUpdate statement := by
    rw [classifyStatement_update h]
    cases isScopedUpdate statement <;> simp
  rw [hrisk, isScopedUpdate_iff, scoped_iff_pinned]
  constructor
  · intro hscoped behind hbehind hcompares htautology
    exact hscoped ⟨behind, hbehind, htautology, hcompares⟩
  · rintro hpinned ⟨behind, hbehind, htautology, hcompares⟩
    exact hpinned behind hbehind hcompares htautology

theorem classifyStatement_scoped_iff_id :
  (classifyStatement "UPDATE t SET x = 1 WHERE id = 5" = .lowRiskWrite
      → Scoped "UPDATE t SET x = 1 WHERE id = 5")
    ↔ ∀ behind, behindWhere none (maskStringLiterals "UPDATE t SET x = 1 WHERE id = 5") = some behind →
      ComparesKey behind → ¬NamesTautology behind → Pinned "UPDATE t SET x = 1 WHERE id = 5"
  := by
  exact classifyStatement_scoped_iff (by decide)

/-- A column that is compared with itself is taken for one with a constant. -/
theorem lowRiskWrite_self :
  ¬∀ statement, startsWith ["UPDATE"] statement → classifyStatement statement = .lowRiskWrite →
    Scoped statement
  := by
  intro h
  have hupdate : startsWith ["UPDATE"] "UPDATE t SET x = 1 WHERE id = id" := by decide
  have hrisk : classifyStatement "UPDATE t SET x = 1 WHERE id = id" = .lowRiskWrite := by
    rw [classifyStatement_update hupdate]
    decide +kernel
  obtain ⟨p, hp, column, value, -, hpinned⟩ := scoped_iff_pinned.mp (h _ hupdate hrisk)
  have hself : whereCondition "UPDATE t SET x = 1 WHERE id = id"
      = some (.atom (.other [.word "id", .symbol '=', .word "id"])) := by decide +kernel
  rw [hself] at hp
  obtain rfl := Option.some.inj hp
  have hmem := hpinned _ (List.mem_singleton_self _) (by decide)
  simp at hmem

end Workbench.AiSqlExecution
