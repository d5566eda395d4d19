import Catio.Lib.JavaScript
import Mathlib.Data.Int.Log
import Mathlib.Data.Rat.Floor

/-!
# Numeric literals of ECMAScript

White space as `trim` has it, and the number that a decimal literal stands for.  Here a finite
number is the rational that it is: what a literal says, rounded to double precision.
-/

namespace JavaScript

/-! ### White space -/

/-- White space and line terminators. -/
def isBlank (c : Char) : Bool :=
  Text.isWhitespace c && c.toNat != 0x85 || c.toNat == 0xFEFF

/-- `trim`. -/
def trim (text : Text) : Text :=
  (text.dropWhile isBlank).rdropWhile isBlank

theorem trim_trim (t : Text) :
  trim (trim t) = trim t
  := by
  have hstart : (trim t).dropWhile isBlank = trim t := by
    obtain ⟨rest, hrest⟩ : trim t <+: t.dropWhile isBlank := List.rdropWhile_prefix _ _
    apply List.dropWhile_eq_self_iff.mpr
    intro hpos
    have hnot := List.head?_dropWhile_not isBlank t
    rw [← hrest, List.head?_append, List.head?_eq_getElem?, List.getElem?_eq_getElem hpos] at hnot
    simpa using hnot
  change ((trim t).dropWhile isBlank).rdropWhile isBlank = trim t
  rw [hstart]
  exact List.rdropWhile_idempotent isBlank (t.dropWhile isBlank)

theorem trim_sublist (t : Text) :
  (trim t).Sublist t
  := by
  exact (List.rdropWhile_prefix _ _).sublist.trans (List.dropWhile_sublist _)

/-! ### Double precision -/

/-- The integer nearest to a number that is not negative, of two the even one. -/
def roundHalfEven (x : ℚ) : ℕ :=
  let below := ⌊x⌋₊
  if 2 * (x - below) < 1 ∨ (2 * (x - below) = 1 ∧ below % 2 = 0) then below else below + 1

/-- The double that is nearest to a number that is not negative, unless that is infinite. -/
def nearestDouble (x : ℚ) : Option ℚ :=
  let ulp : ℚ := 2 ^ max (Int.log 2 x - 52) (-1074)
  let nearest := roundHalfEven (x / ulp) * ulp
  if nearest < 2 ^ 1024 then some nearest else none

/-- Read a literal, which is what matches `/^[+-]?(?:\d+\.?\d*|\.\d+)(?:[eE][+-]?\d+)?$/`. -/
def readLiteral (text : Text) : Option Numeral :=
  let (negative, text) := readSign text
  let integer := text.takeWhile Char.isDigit
  let (fraction, rest) := readFraction (text.dropWhile Char.isDigit)
  if integer = [] ∧ fraction.getD [] = [] then none
  else (readExponent rest).map fun exponent =>
    { negative := negative, integer := integer, fraction := fraction, exponent := exponent }

/-- What a literal says, without its sign. -/
def Numeral.magnitude (n : Numeral) : ℚ :=
  let fraction := n.fraction.getD []
  let exponent : ℤ := match n.exponent with
    | none => 0
    | some (negative, digits) =>
        if negative then -(Nat.ofDigitChars 10 digits 0 : ℤ) else Nat.ofDigitChars 10 digits 0
  Nat.ofDigitChars 10 (n.integer ++ fraction) 0 * 10 ^ (exponent - fraction.length)

/-- `Number` of a literal, unless it is infinite. -/
def Numeral.toNumber (n : Numeral) : Option ℚ :=
  (nearestDouble n.magnitude).map fun x => if n.negative then -x else x

/-- The order of strings: by their units of UTF-16. -/
def ltUnits (s t : Text) : Prop :=
  s.flatMap utf16Units < t.flatMap utf16Units

instance (s t : Text) : Decidable (ltUnits s t) :=
  inferInstanceAs (Decidable (_ < _))

end JavaScript
