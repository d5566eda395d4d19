import Catio.Lib.RegExp

/-!
# Two dialects of regular expressions

The dialect of Rust, on characters, where words and cases are those of Unicode; and that of
ECMAScript without its flag `u`, on the units of UTF-16, where they are those of ASCII.  A class of
ASCII ranges holds the same ASCII characters in both of them, and it holds both units of a character
beyond the first plane or neither.
-/

namespace RegExp

/-! ### Dialects -/

/-- An ASCII letter or digit, or an underscore. -/
def isAsciiWord (n : ℕ) : Bool :=
  (48 ≤ n ∧ n ≤ 57) ∨ (65 ≤ n ∧ n ≤ 90) ∨ n = 95 ∨ (97 ≤ n ∧ n ≤ 122)

/-- The cases of an ASCII letter; other code points have one. -/
def asciiCases (n : ℕ) : List ℕ :=
  if 65 ≤ n ∧ n ≤ 90 then [n, n + 32] else if 97 ≤ n ∧ n ≤ 122 then [n, n - 32] else [n]

/-- The letters outside of ASCII that fold to an ASCII letter: the long s and the Kelvin sign. -/
def foldedCases (c : Char) : List ℕ :=
  if c = '\u017f' then ['s'.toNat, 'S'.toNat]
  else if c = '\u212a' then ['k'.toNat, 'K'.toNat]
  else []

/-- The dialect of Rust, for classes in ASCII. Letters of words outside of ASCII are up to Unicode;
white space is not. -/
def rust (unicodeWord : Char → Bool) (ignoreCase : Bool) : Dialect Char where
  variants c := if ignoreCase then foldedCases c ++ asciiCases c.toNat else [c.toNat]
  isSpace := Text.isWhitespace
  isWord c :=
    if c.toNat < 128 then isAsciiWord c.toNat else unicodeWord c && !Text.isWhitespace c

/-- The dialect of ECMAScript, for classes in ASCII. -/
def ecmaScript (ignoreCase : Bool) : Dialect ℕ where
  variants u := if ignoreCase then asciiCases u else [u]
  isSpace u :=
    (0x09 ≤ u && u ≤ 0x0D) || u == 0x20 || u == 0xA0 || u == 0x1680
      || (0x2000 ≤ u && u ≤ 0x200A) || u == 0x2028 || u == 0x2029 || u == 0x202F
      || u == 0x205F || u == 0x3000 || u == 0xFEFF
  isWord := isAsciiWord

/-- The units of a character in UTF-16. -/
def units (c : Char) : List ℕ :=
  if c.toNat < 0x10000 then [c.toNat]
  else [0xD800 + (c.toNat - 0x10000) / 0x400, 0xDC00 + (c.toNat - 0x10000) % 0x400]

def utf16 (text : List Char) : List ℕ :=
  text.flatMap units

/-! ### Letters in both dialects -/

def CharClass.ascii (c : CharClass) : Bool :=
  c.ranges.all fun range => range.2 < 128

/-- A class of letters in ASCII or white space. -/
def CharClass.plain (c : CharClass) : Bool :=
  c.ascii && !c.negated

section

variable {unicodeWord : Char → Bool} {ignoreCase : Bool} {c : CharClass} {x : Char}

theorem asciiCases_of_ge {n : ℕ} (h : 128 ≤ n) :
  asciiCases n = [n]
  := by
  unfold asciiCases
  rw [if_neg (by omega), if_neg (by omega)]

theorem no_range {n : ℕ} (hc : c.ascii) (hn : 128 ≤ n) :
  c.ranges.any (fun range => range.1 ≤ n ∧ n ≤ range.2) = false
  := by
  rw [List.any_eq_false]
  intro range hrange h
  have hlt := of_decide_eq_true (List.all_eq_true.mp hc range hrange)
  have hle := (of_decide_eq_true h).2
  omega

theorem holds_surrogate {u : ℕ} (hc : c.ascii) (hu : 0xD800 ≤ u) (hu' : u < 0xE000) :
  c.holds (ecmaScript ignoreCase) u = c.negated
  := by
  have hvariants : (ecmaScript ignoreCase).variants u = [u] := by
    unfold ecmaScript
    dsimp only
    rw [asciiCases_of_ge (by omega)]
    split
    · rfl
    · rfl
  have hspace : (ecmaScript ignoreCase).isSpace u = false := by
    unfold ecmaScript
    rw [Bool.eq_false_iff]
    simp only [ne_eq, Bool.or_eq_true, Bool.and_eq_true, decide_eq_true_eq, beq_iff_eq]
    omega
  unfold CharClass.holds
  rw [hvariants, hspace, List.any_cons, no_range hc (by omega)]
  simp

theorem holds_astral (hc : c.ascii) (hx : 0x10000 ≤ x.toNat) :
  c.holds (rust unicodeWord ignoreCase) x = c.negated
  := by
  have hvariants : (rust unicodeWord ignoreCase).variants x = [x.toNat] := by
    have hs : x ≠ '\u017f' := by
      rintro rfl
      exact absurd hx (by decide)
    have hk : x ≠ '\u212a' := by
      rintro rfl
      exact absurd hx (by decide)
    unfold rust foldedCases
    dsimp only
    rw [if_neg hs, if_neg hk, asciiCases_of_ge (by omega)]
    split
    · rfl
    · rfl
  have hspace : (rust unicodeWord ignoreCase).isSpace x = false := by
    change Text.isWhitespace x = false
    unfold Text.isWhitespace
    rw [Bool.eq_false_iff]
    simp only [ne_eq, Bool.or_eq_true, Bool.and_eq_true, decide_eq_true_eq, beq_iff_eq]
    omega
  unfold CharClass.holds
  rw [hvariants, hspace, List.any_cons, no_range hc (by omega)]
  simp

theorem units_astral (hx : 0x10000 ≤ x.toNat) :
  ∃ hi lo, units x = [hi, lo] ∧ (0xD800 ≤ hi ∧ hi < 0xE000) ∧ 0xD800 ≤ lo ∧ lo < 0xE000
  := by
  have hmax : x.toNat < 0x110000 := by
    obtain hlt | ⟨-, hlt⟩ := x.valid
    · exact hlt.trans (by decide)
    · exact hlt
  refine ⟨_, _, if_neg (by omega), ?_, ?_⟩
  · omega
  · omega

end

end RegExp
