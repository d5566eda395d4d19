import Mathlib.Algebra.Group.Int.Defs
import Mathlib.Algebra.GroupWithZero.Nat
import Mathlib.Data.Char
import Mathlib.Data.List.DropRight
import Mathlib.Data.List.Infix
import Mathlib.Data.List.Lex

/-!
# Text

Text is a list of Unicode scalar values.  The operations are those of a Rust `str`:
white space, trimming, ASCII case, lines, replacing a character, joining and the length
of the UTF-8 encoding.
-/

abbrev Text := List Char

/-- A string literal as a text. -/
instance : Coe String Text := ⟨String.toList⟩

/-! ### Instances with a name -/

instance lawfulBEqText : LawfulBEq Text := inferInstance

instance lawfulBEqPlace : LawfulBEq (ℕ × ℕ) := inferInstance

instance lawfulBEqIndex : LawfulBEq (Option ℕ) := inferInstance

/-- The base of the decimal digits. -/
instance neZeroTen : NeZero 10 := ⟨by decide⟩

namespace Text

/-! ### Character classes -/

/-- The Unicode property `White_Space`. -/
def isWhitespace (c : Char) : Bool :=
  let n := c.toNat
  (0x09 ≤ n && n ≤ 0x0D) || n == 0x20 || n == 0x85 || n == 0xA0 || n == 0x1680
    || (0x2000 ≤ n && n ≤ 0x200A) || n == 0x2028 || n == 0x2029 || n == 0x202F
    || n == 0x205F || n == 0x3000

/-- Space, tab, line feed, form feed and carriage return. -/
def isAsciiWhitespace (c : Char) : Bool :=
  c == ' ' || c == '\t' || c == '\n' || c == '\x0c' || c == '\r'

theorem isAlpha_eq (c : Char) :
  c.isAlpha = (decide (c.val ≥ 'A'.val ∧ c.val ≤ 'Z'.val)
    || (decide (c.val ≥ 'a'.val) && decide (c.val ≤ 'z'.val)))
  := rfl

theorem isAlpha_iff (c : Char) :
  c.isAlpha ↔ 65 ≤ c.toNat ∧ c.toNat ≤ 90 ∨ 97 ≤ c.toNat ∧ c.toNat ≤ 122
  := by
  rw [isAlpha_eq]
  simp [UInt32.le_iff_toNat_le]

/-- An ASCII letter or digit, or an underscore. -/
def isWordChar (c : Char) : Bool :=
  c.isAlphanum || c == '_'

/-- An ASCII letter, or an underscore. -/
def isWordStart (c : Char) : Bool :=
  c.isAlpha || c == '_'

variable {t : Text} {c : Char}

theorem isWordChar_of_isWordStart (h : isWordStart c) :
  isWordChar c
  := by
  simp only [isWordStart, Bool.or_eq_true] at h
  simp only [isWordChar, Char.isAlphanum, Bool.or_eq_true]
  tauto

/-! ### Trimming -/

/-- The text without the white space at its start. -/
def trimStart (t : Text) : Text :=
  t.dropWhile isWhitespace

/-- The text without the white space at its end. -/
def trimEnd (t : Text) : Text :=
  t.rdropWhile isWhitespace

/-- The text without the white space at its start and at its end. -/
def trim (t : Text) : Text :=
  trimEnd (trimStart t)

theorem trimStart_concat (hc : isWhitespace c) (t : Text) :
  trimStart (t ++ [c]) = if trimStart t = [] then [] else trimStart t ++ [c]
  := by
  rw [trimStart, trimStart, List.dropWhile_append, List.dropWhile_cons_of_pos hc]
  simp only [List.isEmpty_iff, List.dropWhile_nil]

theorem trimBy_append {p : Char → Bool} {s t : Text} (h : ∀ c ∈ t, p c) :
  ((s ++ t).dropWhile p).rdropWhile p = (s.dropWhile p).rdropWhile p
  := by
  have hend : ∀ u : Text, (u ++ t).rdropWhile p = u.rdropWhile p := by
    intro u
    rw [List.rdropWhile, List.reverse_append, List.dropWhile_append_of_pos]
    · rfl
    · intro c hc
      apply h c (List.mem_reverse.mp hc)
  rw [List.dropWhile_append]
  split
  · rename_i hs
    rw [List.dropWhile_eq_nil_iff.mpr h, List.isEmpty_iff.mp hs]
  · apply hend

theorem trim_append_blank {s t : Text} (h : ∀ c ∈ t, isWhitespace c) :
  trim (s ++ t) = trim s
  := by
  apply trimBy_append h

theorem head_trim (h : (trim t).head? = some c) :
  isWhitespace c = false
  := by
  obtain ⟨rest, hrest⟩ : trim t <+: trimStart t := List.rdropWhile_prefix _ _
  have hstart : (t.dropWhile isWhitespace).head? = some c := by
    rw [trimStart] at hrest
    rw [← hrest, List.head?_append, h]
    rfl
  have hnot := List.head?_dropWhile_not isWhitespace t
  rw [hstart] at hnot
  exact hnot

theorem getLast_trim (h : (trim t).getLast? = some c) :
  isWhitespace c = false
  := by
  have hne : (trimStart t).rdropWhile isWhitespace ≠ [] := by
    intro hnil
    rw [trim, trimEnd, hnil] at h
    cases h
  have hlast := List.rdropWhile_last_not isWhitespace (trimStart t) hne
  rw [trim, trimEnd, List.getLast?_eq_some_getLast hne, Option.some_inj] at h
  rw [h] at hlast
  simpa using hlast

theorem mem_of_mem_trim (h : c ∈ trim t) :
  c ∈ t
  := by
  have hstart : trim t <+: trimStart t := List.rdropWhile_prefix _ _
  exact (List.dropWhile_suffix _).subset (hstart.subset h)

theorem trim_eq_self_iff {s : Text} :
  trim s = s ↔ (∀ c ∈ s.head?, isWhitespace c = false) ∧ ∀ c ∈ s.getLast?, isWhitespace c = false
  := by
  constructor
  · intro h
    constructor
    · intro c hc
      rw [← h] at hc
      exact head_trim hc
    · intro c hc
      rw [← h] at hc
      exact getLast_trim hc
  · rintro ⟨hhead, hlast⟩
    have hstart : trimStart s = s := by
      apply List.dropWhile_eq_self_iff.mpr
      intro hpos
      have hc := hhead s[0] (by rw [List.head?_eq_getElem?, List.getElem?_eq_getElem hpos]; rfl)
      simp [hc]
    rw [trim, hstart]
    apply List.rdropWhile_eq_self_iff.mpr
    intro hne
    have hc := hlast (s.getLast hne) (List.getLast?_eq_some_getLast hne)
    simp [hc]

theorem trim_trim (s : Text) :
  trim (trim s) = trim s
  := by
  rw [trim_eq_self_iff]
  exact ⟨fun _ hc => head_trim hc, fun _ hc => getLast_trim hc⟩

theorem trimStart_of_trim {s : Text} (h : trim s = s) :
  trimStart s = s
  := by
  apply List.dropWhile_eq_self_iff.mpr
  intro hpos
  have hc := (trim_eq_self_iff.mp h).1 s[0]
    (by rw [List.head?_eq_getElem?, List.getElem?_eq_getElem hpos]; rfl)
  simp [hc]

theorem trim_of_ends {c d : Char} (hc : isWhitespace c = false) (hd : isWhitespace d = false)
    (t : Text) :
  trim (c :: (t ++ [d])) = c :: (t ++ [d])
  := by
  have hstart : trimStart (c :: (t ++ [d])) = c :: (t ++ [d]) := by
    rw [trimStart, List.dropWhile_cons_of_neg]
    simp [hc]
  rw [trim, hstart, trimEnd, ← List.cons_append, List.rdropWhile_concat_neg]
  simp [hd]

theorem trim_of_visible (h : ∀ c ∈ t, isWhitespace c = false) :
  trim t = t
  := by
  have hstart : trimStart t = t := by
    apply List.dropWhile_eq_self_iff.mpr
    intro hpos
    simp [h]
  rw [trim, hstart]
  apply List.rdropWhile_eq_self_iff.mpr
  intro hne
  simp [h]

/-! ### Lines -/

/-- What stands behind the last line feed. -/
def lastLine (t : Text) : Text :=
  t.rtakeWhile (· ≠ '\n')

def beforeLastLine (t : Text) : Text :=
  t.rdropWhile (· ≠ '\n')

theorem lastLine_of_not_mem (h : '\n' ∉ t) :
  lastLine t = t
  := by
  apply List.rtakeWhile_eq_self_iff.mpr
  grind

theorem beforeLastLine_of_not_mem (h : '\n' ∉ t) :
  beforeLastLine t = []
  := by
  apply List.rdropWhile_eq_nil_iff.mpr
  grind

/-- A line without the carriage return at its end. -/
def stripReturn (line : Text) : Text :=
  if line.getLast? = some '\r' then line.dropLast else line

/-- The lines of a text: line feeds end them, and what stands behind the last one is a line
unless it is empty. -/
def lines (t : Text) : List Text :=
  let parts := t.splitOn '\n'
  parts.dropLast.map stripReturn ++ (parts.getLast?.filter (· ≠ [])).toList

theorem lines_records {records : List Text} (h : ∀ r ∈ records, '\n' ∉ r) :
  lines (records.flatMap (· ++ ['\n'])) = records.map stripReturn
  := by
  have split : (records.flatMap (· ++ ['\n'])).splitOn '\n' = records ++ [[]] := by
    induction records with
    | nil => rfl
    | cons r records ih =>
      obtain ⟨hr, hrest⟩ := List.forall_mem_cons.mp h
      have hnone : ∀ c ∈ r, (c == '\n') = false := by
        intro c hc
        rw [beq_eq_false_iff_ne]
        rintro rfl
        exact hr hc
      rw [List.flatMap_cons, List.append_assoc, List.singleton_append, List.splitOn,
        List.splitOnP_append_cons_of_forall_mem hnone _ (by simp)]
      rw [← List.splitOn, ih hrest]
      rfl
  rw [lines, split]
  simp only [List.dropLast_concat, List.getLast?_concat]
  simp

theorem lines_of_not_mem {t : Text} (h : '\n' ∉ t) :
  lines t = if t = [] then [] else [t]
  := by
  have hsplit : t.splitOn '\n' = [t] := by
    apply List.splitOnP_eq_singleton
    intro c hc
    rw [beq_eq_false_iff_ne]
    rintro rfl
    exact h hc
  rw [lines, hsplit]
  split
  · rename_i hnil
    rw [hnil]
    rfl
  · rename_i hne
    simp [hne]

theorem lines_flatMap {records : List Text} (h : ∀ r ∈ records, '\n' ∉ r ∧ r.getLast? ≠ some '\r') :
  lines (records.flatMap (· ++ ['\n'])) = records
  := by
  rw [lines_records (fun r hr => (h r hr).1), List.map_congr_left (g := id), List.map_id]
  intro r hr
  rw [stripReturn, if_neg (h r hr).2, id]

variable {c : Char} {t before after : Text}

theorem append_of_splitOn {t first : Text} {rest : List Text} (h : t.splitOn c = first :: rest) :
  (∃ y, t = first ++ y) ∧ ∀ part ∈ rest, ∃ x y, t = x ++ c :: (part ++ y)
  := by
  induction t generalizing first rest with
  | nil =>
    rw [List.splitOn, List.splitOnP_nil] at h
    obtain ⟨rfl, rfl⟩ := List.cons.inj h
    exact ⟨⟨[], rfl⟩, by simp⟩
  | cons d t ih =>
    obtain ⟨first', rest', hsplit⟩ : ∃ first' rest', t.splitOn c = first' :: rest' :=
      List.exists_cons_of_ne_nil (List.splitOnP_ne_nil _ t)
    obtain ⟨⟨y, hfirst⟩, hrest⟩ := ih hsplit
    rw [List.splitOn, List.splitOnP_cons_eq_if_modifyHead, ← List.splitOn, hsplit] at h
    split at h
    · rename_i hd
      obtain ⟨rfl, rfl⟩ := List.cons.inj h
      obtain rfl : d = c := by simpa using hd
      refine ⟨⟨d :: t, rfl⟩, ?_⟩
      intro part hpart
      rcases List.mem_cons.mp hpart with rfl | hpart
      · exact ⟨[], y, by rw [← hfirst]; rfl⟩
      · obtain ⟨x, y, hpart⟩ := hrest part hpart
        exact ⟨d :: x, y, by rw [hpart]; rfl⟩
    · obtain ⟨rfl, rfl⟩ := List.cons.inj h
      refine ⟨⟨y, by rw [hfirst]; rfl⟩, ?_⟩
      intro part hpart
      obtain ⟨x, y, hpart⟩ := hrest part hpart
      exact ⟨d :: x, y, by rw [hpart]; rfl⟩

theorem mem_of_mem_splitOnP {α : Type*} {p : α → Bool} {xs piece : List α}
    (h : piece ∈ xs.splitOnP p) {x : α} (hx : x ∈ piece) :
  x ∈ xs ∧ p x = false
  := by
  induction xs generalizing piece with
  | nil =>
    rw [List.splitOnP_nil, List.mem_singleton] at h
    rw [h] at hx
    cases hx
  | cons y xs ih =>
    have htail {s : List α} (hs : s ∈ xs.splitOnP p) (hxs : x ∈ s) :
        x ∈ y :: xs ∧ p x = false :=
      ⟨List.mem_cons_of_mem y (ih hs hxs).1, (ih hs hxs).2⟩
    obtain ⟨first, rest, hsplit⟩ := List.exists_cons_of_ne_nil (List.splitOnP_ne_nil p xs)
    rw [hsplit] at htail
    rw [List.splitOnP_cons_eq_if_modifyHead, hsplit] at h
    split at h
    · rcases List.mem_cons.mp h with rfl | hpiece
      · cases hx
      · apply htail hpiece hx
    · rename_i hy
      rcases List.mem_cons.mp h with rfl | hpiece
      · rcases List.mem_cons.mp hx with rfl | hx
        · exact ⟨List.mem_cons_self, by simpa using hy⟩
        · apply htail List.mem_cons_self hx
      · apply htail (List.mem_cons_of_mem first hpiece) hx

theorem not_mem_of_mem_lines {t line : Text} (h : line ∈ lines t) :
  '\n' ∉ line
  := by
  rcases List.mem_append.mp h with h | h
  · obtain ⟨part, hpart, rfl⟩ := List.mem_map.mp h
    have hnot : '\n' ∉ part := by
      intro hmem
      simpa using (mem_of_mem_splitOnP (List.dropLast_subset _ hpart) hmem).2
    rw [stripReturn]
    split
    · exact mt (fun hmem => List.dropLast_subset part hmem) hnot
    · exact hnot
  · rw [Option.mem_toList, Option.filter_eq_some_iff] at h
    intro hmem
    simpa using (mem_of_mem_splitOnP (List.mem_of_getLast? h.1) hmem).2

theorem append_of_mem_lines {t line : Text} (h : line ∈ lines t) :
  ∃ x y, t = x ++ (line ++ y) ∧ (x = [] ∨ x.getLast? = some '\n')
  := by
  obtain ⟨part, hpart, y, hy⟩ : ∃ part ∈ t.splitOn '\n', line <+: part := by
    rcases List.mem_append.mp h with h | h
    · obtain ⟨part, hpart, rfl⟩ := List.mem_map.mp h
      refine ⟨part, (List.dropLast_subset _) hpart, ?_⟩
      rw [stripReturn]
      split
      · exact List.dropLast_prefix part
      · exact List.prefix_refl part
    · rw [Option.mem_toList, Option.filter_eq_some_iff] at h
      exact ⟨line, List.mem_of_getLast? h.1, List.prefix_refl line⟩
  obtain ⟨first, rest, hsplit⟩ : ∃ first rest, t.splitOn '\n' = first :: rest :=
    List.exists_cons_of_ne_nil (List.splitOnP_ne_nil _ t)
  obtain ⟨⟨z, hfirst⟩, hrest⟩ := append_of_splitOn hsplit
  rw [hsplit] at hpart
  rcases List.mem_cons.mp hpart with rfl | hpart
  · refine ⟨[], y ++ z, ?_, .inl rfl⟩
    rw [hfirst, ← hy]
    simp
  · obtain ⟨x, z, hx⟩ := hrest part hpart
    refine ⟨x ++ ['\n'], y ++ z, ?_, .inr List.getLast?_concat⟩
    rw [hx, ← hy]
    simp

/-- The lines that a line feed ends, and what stands behind the last line feed. -/
def endedLines : Text → List Text × Text
  | [] => ([], [])
  | c :: t =>
      if c = '\n' then ([] :: (endedLines t).1, (endedLines t).2)
      else
        match endedLines t with
        | ([], rest) => ([], c :: rest)
        | (line :: lines, rest) => ((c :: line) :: lines, rest)

theorem endedLines_append (s t : Text) :
  endedLines (s ++ t)
    = ((endedLines s).1 ++ (endedLines ((endedLines s).2 ++ t)).1,
      (endedLines ((endedLines s).2 ++ t)).2)
  := by
  induction s with
  | nil => rfl
  | cons c s ih =>
    rw [List.cons_append, endedLines, endedLines]
    split_ifs with hc
    · rw [ih]
      rfl
    · rw [ih]
      cases hs : endedLines s with
      | mk lines rest =>
        cases lines with
        | nil =>
          simp only [List.nil_append, List.cons_append]
          rw [endedLines, if_neg hc]
        | cons line lines => rfl

theorem endedLines_rest (t : Text) :
  endedLines (endedLines t).2 = ([], (endedLines t).2)
  := by
  induction t with
  | nil => rfl
  | cons c t ih =>
    rw [endedLines]
    split_ifs with hc
    · exact ih
    · cases ht : endedLines t with
      | mk lines rest =>
        rw [ht] at ih
        cases lines with
        | nil =>
          dsimp only at ih ⊢
          rw [endedLines, if_neg hc, ih]
        | cons line lines => exact ih

theorem endedLines_line {line : Text} (h : '\n' ∉ line) (rest : Text) :
  endedLines (line ++ '\n' :: rest) = (line :: (endedLines rest).1, (endedLines rest).2)
  := by
  induction line with
  | nil => rfl
  | cons c line ih =>
    rw [List.mem_cons, not_or] at h
    rw [List.cons_append, endedLines, if_neg (Ne.symm h.1), ih h.2]

/-! ### ASCII case -/

/-- The text with ASCII letters in upper case. -/
def toAsciiUppercase (t : Text) : Text :=
  t.map Char.toUpper

/-- The text with ASCII letters in lower case. -/
def toAsciiLowercase (t : Text) : Text :=
  t.map Char.toLower

/-- Equality up to the case of ASCII letters. -/
def eqIgnoreAsciiCase (s t : Text) : Bool :=
  toAsciiLowercase s == toAsciiLowercase t

theorem utf8Size_toLower (c : Char) :
  c.toLower.utf8Size = c.utf8Size
  := by
  unfold Char.toLower
  split
  · unfold Char.utf8Size
    grind
  · rfl

theorem toLower_eq_zero (c : Char) :
  c.toLower = '\x00' ↔ c = '\x00'
  := by
  unfold Char.toLower
  split
  · rw [Char.ext_iff, Char.ext_iff]
    grind
  · rfl

/-! ### Prefixes and suffixes -/

/-- The text without its last `n` characters. -/
def dropEnd (t : Text) (n : ℕ) : Text :=
  t.take (t.length - n)

/-- What stands behind a prefix. -/
def stripPrefix (p t : Text) : Option Text :=
  if p.isPrefixOf t then some (t.drop p.length) else none

theorem stripPrefix_append (p t : Text) :
  stripPrefix p (p ++ t) = some t
  := by
  rw [stripPrefix, if_pos (List.isPrefixOf_iff_prefix.mpr (List.prefix_append p t)),
    List.drop_left]

theorem stripPrefix_eq_some {p t u : Text} (h : stripPrefix p t = some u) :
  t = p ++ u
  := by
  unfold stripPrefix at h
  split at h
  · rename_i hprefix
    cases h
    exact (List.prefix_iff_eq_append.mp (List.isPrefixOf_iff_prefix.mp hprefix)).symm
  · cases h

theorem stripPrefix_concat {p : Text} (hc : c ∉ p) (t : Text) :
  stripPrefix p (t ++ [c]) = (stripPrefix p t).map fun u => u ++ [c]
  := by
  by_cases h : p <+: t
  · obtain ⟨u, rfl⟩ := h
    rw [List.append_assoc, stripPrefix_append, stripPrefix_append, Option.map_some]
  · have h' : ¬ p <+: t ++ [c] := by
      rw [List.prefix_concat_iff, not_or]
      exact ⟨fun heq => hc (heq ▸ List.mem_append_right t List.mem_cons_self), h⟩
    rw [stripPrefix, if_neg (mt List.isPrefixOf_iff_prefix.mp h'), stripPrefix,
      if_neg (mt List.isPrefixOf_iff_prefix.mp h), Option.map_none]

/-- The parts before and behind the first `c`. -/
def splitOnce (c : Char) (t : Text) : Option (Text × Text) :=
  if c ∈ t then some (t.takeWhile (· ≠ c), (t.dropWhile (· ≠ c)).tail) else none

theorem splitOnce_eq_some (h : splitOnce c t = some (before, after)) :
  t = before ++ c :: after
  := by
  rw [splitOnce] at h
  split at h
  · rename_i hmem
    obtain ⟨rfl, rfl⟩ := Prod.mk.inj (Option.some.inj h)
    have hrest : t.dropWhile (· ≠ c) = c :: (t.dropWhile (· ≠ c)).tail := by
      cases hdrop : t.dropWhile (· ≠ c) with
      | nil =>
        have hnone := List.dropWhile_eq_nil_iff.mp hdrop c hmem
        simp at hnone
      | cons d rest =>
        have hd := List.head?_dropWhile_not (fun d => decide (d ≠ c)) t
        rw [hdrop] at hd
        simp at hd
        rw [hd]
        rfl
    rw [← hrest, List.takeWhile_append_dropWhile]
  · cases h

theorem not_mem_of_splitOnce (h : splitOnce c t = some (before, after)) :
  c ∉ before
  := by
  rw [splitOnce] at h
  split at h
  · obtain ⟨rfl, -⟩ := Prod.mk.inj (Option.some.inj h)
    intro hmem
    simpa using List.mem_takeWhile_imp hmem
  · cases h

theorem splitOnce_append {before after : Text} (h : c ∉ before) :
  splitOnce c (before ++ c :: after) = some (before, after)
  := by
  have hall : ∀ x ∈ before, decide (x ≠ c) = true := by
    intro x hx
    rw [decide_eq_true_eq]
    rintro rfl
    exact h hx
  rw [splitOnce, if_pos (by simp), List.takeWhile_append_of_pos hall,
    List.takeWhile_cons_of_neg (by simp), List.append_nil, List.dropWhile_append_of_pos hall,
    List.dropWhile_cons_of_neg (by simp), List.tail_cons]

/-- The parts before and behind the last `c`. -/
def rsplitOnce (c : Char) (t : Text) : Option (Text × Text) :=
  if c ∈ t then some ((t.rdropWhile (· ≠ c)).dropLast, t.rtakeWhile (· ≠ c)) else none

theorem rsplitOnce_eq_some (h : rsplitOnce c t = some (before, after)) :
  t = before ++ c :: after
  := by
  unfold rsplitOnce at h
  split at h
  · rename_i hmem
    cases h
    have hne : t.rdropWhile (· ≠ c) ≠ [] := by
      rw [Ne, List.rdropWhile_eq_nil_iff]
      intro hall
      simpa using hall c hmem
    have hlast : (t.rdropWhile (· ≠ c)).getLast hne = c := by
      simpa using List.rdropWhile_last_not (· ≠ c) t hne
    have hsplit : t.rdropWhile (· ≠ c) ++ t.rtakeWhile (· ≠ c) = t :=
      List.rdropWhile_append_rtakeWhile
    conv_lhs => rw [← hsplit, ← List.dropLast_append_getLast hne, hlast]
    simp
  · cases h

theorem rsplitOnce_append {before after : Text} (h : c ∉ after) :
  rsplitOnce c (before ++ c :: after) = some (before, after)
  := by
  have hall : ∀ x ∈ after, decide (x ≠ c) = true := by
    intro x hx
    rw [decide_eq_true_eq]
    rintro rfl
    exact h hx
  have hdrop : List.rdropWhile (· ≠ c) (before ++ c :: after) = before ++ [c] := by
    rw [List.append_cons, List.rdropWhile, List.reverse_append,
      List.dropWhile_append_of_pos fun x hx => hall x (List.mem_reverse.mp hx),
      List.reverse_concat, List.dropWhile_cons_of_neg (by simp), List.reverse_cons,
      List.reverse_reverse]
  have htake : List.rtakeWhile (· ≠ c) (before ++ c :: after) = after := by
    have hparts := List.rdropWhile_append_rtakeWhile (p := (· ≠ c)) (l := before ++ c :: after)
    rw [hdrop, List.append_assoc] at hparts
    simpa using hparts
  unfold rsplitOnce
  rw [if_pos (by simp), hdrop, htake, List.dropLast_concat]

/-- The parts before and behind the first occurrence of a separator. -/
def splitOnceText (sep : Text) : Text → Option (Text × Text)
  | [] => if sep = [] then some ([], []) else none
  | c :: t =>
      if sep.isPrefixOf (c :: t) then some ([], (c :: t).drop sep.length)
      else (splitOnceText sep t).map fun (before, after) => (c :: before, after)

theorem splitOnceText_eq_some {sep t before after : Text}
    (h : splitOnceText sep t = some (before, after)) :
  t = before ++ sep ++ after
  := by
  induction t generalizing before with
  | nil =>
    unfold splitOnceText at h
    split at h
    · rename_i hempty
      cases h
      rw [hempty]
      rfl
    · cases h
  | cons c t ih =>
    unfold splitOnceText at h
    split at h
    · rename_i hprefix
      cases h
      exact (List.prefix_iff_eq_append.mp (List.isPrefixOf_iff_prefix.mp hprefix)).symm
    · obtain ⟨⟨front, back⟩, hsplit, heq⟩ := Option.map_eq_some_iff.mp h
      cases heq
      rw [ih hsplit]
      rfl

theorem not_infix_of_splitOnceText {sep t before after : Text} (hsep : sep ≠ [])
    (h : splitOnceText sep t = some (before, after)) :
  ¬ sep <:+: before
  := by
  induction t generalizing before with
  | nil =>
    rw [splitOnceText, if_neg hsep] at h
    cases h
  | cons c t ih =>
    rw [splitOnceText] at h
    split at h
    · cases h
      intro hinfix
      exact hsep (List.infix_nil.mp hinfix)
    · rename_i hprefix
      obtain ⟨⟨front, back⟩, hsplit, heq⟩ := Option.map_eq_some_iff.mp h
      cases heq
      intro hinfix
      rcases List.infix_cons_iff.mp hinfix with hstart | hlater
      · apply hprefix
        rw [List.isPrefixOf_iff_prefix, splitOnceText_eq_some hsplit]
        apply hstart.trans
        rw [List.append_assoc, ← List.cons_append]
        apply List.prefix_append
      · exact ih hsplit hlater

theorem not_infix_of_splitOnceText_none {sep t : Text} (hsep : sep ≠ [])
    (h : splitOnceText sep t = none) :
  ¬ sep <:+: t
  := by
  induction t with
  | nil =>
    intro hinfix
    exact hsep (List.infix_nil.mp hinfix)
  | cons c t ih =>
    rw [splitOnceText] at h
    split at h
    · cases h
    · rename_i hprefix
      intro hinfix
      rcases List.infix_cons_iff.mp hinfix with hstart | hlater
      · exact hprefix (List.isPrefixOf_iff_prefix.mpr hstart)
      · exact ih (Option.map_eq_none_iff.mp h) hlater

theorem splitOnceText_of_not_infix {sep t : Text} (h : ¬ sep <:+: t) :
  splitOnceText sep t = none
  := by
  cases hsplit : splitOnceText sep t with
  | none => rfl
  | some parts =>
    apply absurd _ h
    rw [splitOnceText_eq_some hsplit, List.append_assoc]
    exact (List.prefix_append sep parts.2).isInfix.trans (List.suffix_append parts.1 _).isInfix

theorem splitOnceText_append {sep before after : Text} (hsep : sep ≠ [])
    (h : ¬ sep <:+: before ++ sep.dropLast) :
  splitOnceText sep (before ++ sep ++ after) = some (before, after)
  := by
  induction before with
  | nil =>
    have hprefix : sep <+: [] ++ sep ++ after := List.prefix_append sep after
    cases sep with
    | nil => exact absurd rfl hsep
    | cons c sep =>
      rw [List.nil_append, List.cons_append] at hprefix ⊢
      rw [splitOnceText, if_pos (List.isPrefixOf_iff_prefix.mpr hprefix)]
      simp
  | cons c before ih =>
    have hprefix : ¬ sep <+: c :: (before ++ sep ++ after) := by
      intro hprefix
      have hshort : c :: (before ++ sep.dropLast) <+: c :: (before ++ sep ++ after) := by
        rw [List.cons_prefix_cons, List.append_assoc, List.prefix_append_right_inj]
        exact ⟨rfl, (List.dropLast_prefix sep).trans (List.prefix_append sep after)⟩
      have hlength : sep.length ≤ (c :: (before ++ sep.dropLast)).length := by
        simp only [List.length_cons, List.length_append, List.length_dropLast]
        omega
      exact h (List.prefix_of_prefix_length_le hprefix hshort hlength).isInfix
    have hrest : ¬ sep <:+: before ++ sep.dropLast := by
      intro hinfix
      exact h (List.infix_cons hinfix)
    rw [List.cons_append, List.cons_append, splitOnceText, if_neg, ih hrest]
    · rfl
    · rwa [List.isPrefixOf_iff_prefix]

/-! ### Replacing and joining -/

/-- Every `c` replaced by `by_`. -/
def replaceChar (c : Char) (by_ : Text) (t : Text) : Text :=
  t.flatMap (fun d => if d = c then by_ else [d])

theorem replaceChar_of_not_mem {by_ t : Text} (h : c ∉ t) :
  replaceChar c by_ t = t
  := by
  induction t with
  | nil => rfl
  | cons d t ih =>
    simp only [List.mem_cons, not_or] at h
    simp only [replaceChar, List.flatMap_cons, if_neg (Ne.symm h.1), List.singleton_append]
    congr 1
    apply ih h.2

theorem mem_replaceChar_double {c d : Char} (h : d ≠ c) (t : Text) :
  d ∈ replaceChar c [c, c] t ↔ d ∈ t
  := by
  unfold replaceChar
  rw [List.mem_flatMap]
  constructor
  · rintro ⟨e, he, hd⟩
    split at hd
    · rw [List.mem_pair, or_self] at hd
      exact absurd hd h
    · rwa [List.mem_singleton.mp hd]
  · intro hd
    exact ⟨d, hd, by rw [if_neg h]; exact List.mem_singleton_self _⟩

/-- The parts with the separator between them. -/
def join (sep : Text) (parts : List Text) : Text :=
  (parts.intersperse sep).flatten

theorem join_concat (sep : Text) (parts : List Text) (last : Text) :
  join sep (parts ++ [last]) = parts.flatMap (· ++ sep) ++ last
  := by
  induction parts with
  | nil => simp [join]
  | cons part parts ih =>
    have hcons : join sep (part :: (parts ++ [last])) = part ++ sep ++ join sep (parts ++ [last])
        := by
      cases parts with
      | nil => simp [join]
      | cons next parts => simp [join]
    rw [List.cons_append, hcons, ih, List.flatMap_cons, List.append_assoc _ _ last]

theorem join_append (sep : Text) {parts : List Text} (h : parts ≠ []) :
  join sep parts ++ sep = parts.flatMap (· ++ sep)
  := by
  obtain rfl | ⟨parts, last, rfl⟩ := List.eq_nil_or_concat parts
  · exact absurd rfl h
  · rw [List.concat_eq_append, join_concat, List.flatMap_append, List.flatMap_singleton,
      List.append_assoc]

theorem join_singleton (sep t : Text) :
  join sep [t] = t
  := by
  simp [join]

theorem join_cons_cons (sep s t : Text) (parts : List Text) :
  join sep (s :: t :: parts) = s ++ sep ++ join sep (t :: parts)
  := by
  simp [join]

/-! ### Parts of texts -/

theorem infix_of_append_cons {l s t : Text} (hc : c ∉ l) (h : l <:+: s ++ c :: t) :
  l <:+: s ∨ l <:+: t
  := by
  rcases List.infix_append_iff.mp h with hs | ht | ⟨l₁, l₂, rfl, hs, ht⟩
  · exact .inl hs
  · rcases List.infix_cons_iff.mp ht with hprefix | hinfix
    · rcases List.prefix_cons_iff.mp hprefix with rfl | ⟨l, rfl, -⟩
      · exact .inl (List.nil_infix)
      · exact absurd List.mem_cons_self hc
    · exact .inr hinfix
  · rcases List.prefix_cons_iff.mp ht with rfl | ⟨l, rfl, -⟩
    · rw [List.append_nil]
      exact .inl hs.isInfix
    · exact absurd (List.mem_append_right _ List.mem_cons_self) hc

theorem infix_of_join {l : Text} (hne : l ≠ []) (hc : c ∉ l) {parts : List Text}
    (h : l <:+: join [c] parts) :
  ∃ t ∈ parts, l <:+: t
  := by
  induction parts with
  | nil => exact absurd (List.infix_nil.mp h) hne
  | cons s parts ih =>
    cases parts with
    | nil =>
      rw [join_singleton] at h
      exact ⟨s, List.mem_singleton_self s, h⟩
    | cons t parts =>
      rw [join_cons_cons, List.append_assoc] at h
      rcases infix_of_append_cons hc h with hs | hmore
      · exact ⟨s, List.mem_cons_self, hs⟩
      · obtain ⟨r, hr, hinfix⟩ := ih hmore
        exact ⟨r, List.mem_cons_of_mem s hr, hinfix⟩

theorem prefix_of_append_cons {l s t : Text} (hc : c ∉ l) (h : l <+: s ++ c :: t) :
  l <+: s
  := by
  induction s generalizing l with
  | nil =>
    rcases List.prefix_cons_iff.mp h with rfl | ⟨l, rfl, -⟩
    · apply List.prefix_refl
    · exact absurd List.mem_cons_self hc
  | cons d s ih =>
    rcases List.prefix_cons_iff.mp h with rfl | ⟨l, rfl, hl⟩
    · apply List.nil_prefix
    · rw [List.cons_prefix_cons]
      exact ⟨rfl, ih (fun hmem => hc (List.mem_cons_of_mem d hmem)) hl⟩

theorem infix_of_head_not_mem {α : Type*} {l s t : List α} {c : α} (hc : c ∉ s)
    (h : (c :: l) <:+: s ++ t) :
  (c :: l) <:+: t
  := by
  induction s with
  | nil => exact h
  | cons d s ih =>
    rw [List.mem_cons, not_or] at hc
    rcases List.infix_cons_iff.mp h with hprefix | hinfix
    · exact absurd (List.cons_prefix_cons.mp hprefix).1 hc.1
    · exact ih hc.2 hinfix

/-! ### Words -/

/-- The words of a text: its longest parts without white space. -/
def splitWhitespace (t : Text) : List Text :=
  (t.splitOnP isWhitespace).filter (· ≠ [])

/-! ### Numbers and bytes -/

/-- The decimal digits of a number. -/
def ofNat (n : ℕ) : Text :=
  Nat.toDigits 10 n

theorem ofNat_injective :
  Function.Injective ofNat
  := by
  have hback : ∀ n, Nat.ofDigitChars 10 (ofNat n) 0 = n :=
    fun n => Nat.ofDigitChars_toDigits (by decide) (by decide)
  exact Function.LeftInverse.injective (g := fun t => Nat.ofDigitChars 10 t 0) hback

/-- A byte as two hexadecimal digits in lower case. -/
def hexByte (b : UInt8) : Text :=
  [Nat.digitChar (b.toNat / 16), Nat.digitChar (b.toNat % 16)]

/-- An ASCII hexadecimal digit. -/
def isHexDigit (c : Char) : Bool :=
  c.isDigit || ('a' ≤ c && c ≤ 'f') || ('A' ≤ c && c ≤ 'F')

theorem isWordChar_of_isHexDigit (h : isHexDigit c) :
  isWordChar c
  := by
  simp only [isHexDigit, Bool.or_eq_true, Bool.and_eq_true, decide_eq_true_eq] at h
  simp only [isWordChar, Char.isAlphanum, isAlpha_eq, Bool.or_eq_true, Bool.and_eq_true,
    decide_eq_true_eq, beq_iff_eq]
  simp only [Char.le_def, UInt32.le_iff_toNat_le] at h
  simp only [ge_iff_le, UInt32.le_iff_toNat_le]
  grind

/-- The scalar value of a code point, if it is one. -/
def charFromU32 (n : ℕ) : Option Char :=
  if n.isValidChar then some (Char.ofNat n) else none

/-! ### UTF-8 length -/

/-- The number of bytes of the UTF-8 encoding. -/
def utf8Len (t : Text) : ℕ :=
  (t.map Char.utf8Size).sum

@[simp]
theorem utf8Len_toAsciiLowercase (t : Text) :
  utf8Len (toAsciiLowercase t) = utf8Len t
  := by
  unfold utf8Len toAsciiLowercase
  rw [List.map_map]
  congr 2
  ext c
  exact utf8Size_toLower c

end Text
