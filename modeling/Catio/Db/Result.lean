import Catio.Lib.JavaScript.Literals

/-!
# Decimals of 128 bits

The model of `decimal_i128_to_string` of `db/result.rs`: a mantissa of 128 bits with its scale as a
text, which denotes the number exactly (`decimalI128ToString_denotes`).
-/

namespace Db

open JavaScript

/-- `unsigned_abs`: the magnitude of a number of 128 bits, in as many. -/
def unsignedAbs (value : BitVec 128) : BitVec 128 :=
  if value.msb then -value else value

def decimalI128ToString (value : BitVec 128) (scale : Int8) : Text :=
  if scale = 0 then intText value.toInt
  else if scale < 0 then
    intText value.toInt ++ List.replicate (-scale.toInt16).toInt.toNat '0'
  else
    let digits := Text.ofNat (unsignedAbs value).toNat
    let scale := scale.toInt.toNat
    let sign : Text := if value.toInt < 0 then ['-'] else []
    if scale < digits.length then
      let (whole, fraction) := digits.splitAt (digits.length - scale)
      sign ++ whole ++ '.' :: fraction
    else sign ++ "0." ++ digits.leftpad scale '0'

theorem toNat_unsignedAbs (value : BitVec 128) :
  (unsignedAbs value).toNat = value.toInt.natAbs
  := by
  have habs : (unsignedAbs value).toNat = value.abs.toNat := rfl
  have hlt := value.isLt
  rw [habs, BitVec.toNat_abs, BitVec.toInt_eq_msb_cond]
  split <;> omega

theorem toInt_neg_scale (scale : Int8) :
  (-scale.toInt16).toInt = -scale.toInt
  := by
  have hlow := scale.le_toInt
  have hhigh := scale.toInt_lt
  rw [Int16.toInt_neg, Int8.toInt_toInt16]
  apply Int.bmod_eq_of_le <;> omega

def decimalNumeral (value scale : ℤ) : Numeral :=
  let digits := Text.ofNat value.natAbs
  let places := scale.toNat
  { negative := value < 0
    integer :=
      if scale ≤ 0 then digits ++ List.replicate (-scale).toNat '0'
      else if places < digits.length then digits.take (digits.length - places) else ['0']
    fraction :=
      if scale ≤ 0 then none
      else if places < digits.length then some (digits.drop (digits.length - places))
      else some (digits.leftpad places '0')
    exponent := none }

theorem all_isDigit_replicate (n : ℕ) :
  (List.replicate n '0').all Char.isDigit
  := by
  rw [List.all_eq_true]
  intro c hc
  rw [List.eq_of_mem_replicate hc]
  rfl

theorem good_decimalNumeral (value scale : ℤ) :
  (decimalNumeral value scale).Good
  := by
  have hdigits := all_isDigit_ofNat value.natAbs
  have hne : Text.ofNat value.natAbs ≠ [] := Nat.toDigits_ne_nil
  have hzeros := all_isDigit_replicate
  unfold decimalNumeral
  generalize Text.ofNat value.natAbs = digits at hdigits hne
  dsimp only
  constructor
  · dsimp only
    split_ifs with hscale hplaces
    · simp [hne]
    · rw [Ne, List.take_eq_nil_iff, not_or]
      exact ⟨by omega, hne⟩
    · simp
  · dsimp only
    split_ifs
    · rw [List.all_append, hdigits, hzeros, Bool.and_self]
    · exact List.all_eq_true.mpr fun c hc =>
        List.all_eq_true.mp hdigits c (List.mem_of_mem_take hc)
    · rfl
  · intro fraction hfraction
    dsimp only at hfraction
    split_ifs at hfraction
    · obtain rfl := Option.some.inj hfraction
      exact List.all_eq_true.mpr fun c hc =>
        List.all_eq_true.mp hdigits c (List.mem_of_mem_drop hc)
    · obtain rfl := Option.some.inj hfraction
      rw [List.leftpad, List.all_append, hzeros, hdigits, Bool.and_self]
  · intro negative exponent hexponent
    cases hexponent

theorem toText_decimalNumeral (value : BitVec 128) (scale : Int8) :
  (decimalNumeral value.toInt scale.toInt).toText = decimalI128ToString value scale
  := by
  have hsign : intText value.toInt
      = (if value.toInt < 0 then ['-'] else []) ++ Text.ofNat value.toInt.natAbs := by
    unfold intText
    split <;> rfl
  have hzero : scale = 0 ↔ scale.toInt = 0 := by
    rw [← Int8.toInt_inj]
    rfl
  have hneg : scale < 0 ↔ scale.toInt < 0 := Int8.lt_iff_toInt_lt
  unfold decimalI128ToString
  rw [hsign, toNat_unsignedAbs, toInt_neg_scale]
  simp only [hzero, hneg, Numeral.toText, decimalNumeral, decide_eq_true_eq, exponentText,
    List.append_nil]
  generalize Text.ofNat value.toInt.natAbs = digits
  generalize (if value.toInt < 0 then ['-'] else [] : Text) = sign
  by_cases hlow : scale.toInt ≤ 0
  · rw [if_pos hlow, if_pos hlow, fractionText, List.append_nil]
    rcases hlow.lt_or_eq with hlt | heq
    · rw [if_neg hlt.ne, if_pos hlt, List.append_assoc]
    · rw [if_pos heq, heq]
      simp
  · have hnotZero : ¬scale.toInt = 0 := by omega
    have hnotNeg : ¬scale.toInt < 0 := by omega
    rw [if_neg hlow, if_neg hlow, if_neg hnotZero, if_neg hnotNeg, List.splitAt_eq]
    split
    · rw [fractionText, List.append_assoc]
    · rw [List.append_assoc]
      rfl

def signedValue (n : Numeral) : ℚ :=
  if n.negative then -n.magnitude else n.magnitude

theorem signedValue_decimalNumeral (value scale : ℤ) :
  signedValue (decimalNumeral value scale) = value * 10 ^ (-scale)
  := by
  have hdigits : Nat.ofDigitChars 10 (Text.ofNat value.natAbs) 0 = value.natAbs :=
    Nat.ofDigitChars_toDigits (by decide) (by decide)
  have hmagnitude : (decimalNumeral value scale).magnitude = value.natAbs * 10 ^ (-scale) := by
    unfold Numeral.magnitude decimalNumeral
    dsimp only
    split_ifs with hscale hplaces
    · obtain ⟨n, hn⟩ : ∃ n : ℕ, -scale = n := ⟨(-scale).toNat, by omega⟩
      rw [hn, Option.getD_none, List.append_nil, Nat.ofDigitChars_append, hdigits,
        Nat.ofDigitChars_replicate_zero, Int.toNat_natCast]
      simp [mul_comm]
    · have hlength : (0 : ℤ) - (scale.toNat : ℤ) = -scale := by omega
      rw [Option.getD_some, List.take_append_drop, hdigits, List.length_drop, Nat.sub_sub_self
        hplaces.le, hlength]
    · have hzero : Nat.ofDigitChars 10 ['0'] 0 = 0 := rfl
      have hlength : (0 : ℤ) - (scale.toNat : ℤ) = -scale := by omega
      rw [Option.getD_some, List.leftpad, Nat.ofDigitChars_append, hzero, Nat.ofDigitChars_append,
        Nat.ofDigitChars_replicate_zero, Nat.mul_zero, hdigits, ← List.leftpad,
        List.length_leftpad, Nat.max_eq_left (Nat.not_lt.mp hplaces), hlength]
  have hvalue : (value : ℚ) = if value < 0 then -(value.natAbs : ℚ) else value.natAbs := by
    rw [Nat.cast_natAbs]
    split
    · rename_i h
      rw [abs_of_neg h]
      simp
    · rename_i h
      rw [abs_of_nonneg (not_lt.mp h)]
  rw [signedValue, hmagnitude, hvalue]
  simp only [decimalNumeral, decide_eq_true_eq]
  split <;> ring

/-- The text denotes the mantissa times a power of ten, with a sign just when it is negative, and as
many digits behind the point as the scale says. -/
theorem decimalI128ToString_denotes (value : BitVec 128) (scale : Int8) :
  ∃ n, readNumeral (decimalI128ToString value scale) = some n
    ∧ signedValue n = value.toInt * 10 ^ (-scale.toInt)
    ∧ (n.negative ↔ value.toInt < 0) ∧ n.exponent = none
    ∧ n.fraction.map List.length = if 0 < scale.toInt then some scale.toInt.toNat else none
  := by
  refine ⟨decimalNumeral value.toInt scale.toInt, ?_, signedValue_decimalNumeral _ _,
    decide_eq_true_iff, rfl, ?_⟩
  · rw [← toText_decimalNumeral]
    exact readNumeral_toText (good_decimalNumeral _ _)
  · unfold decimalNumeral
    dsimp only
    by_cases hlow : scale.toInt ≤ 0
    · rw [if_pos hlow, if_neg (not_lt.mpr hlow)]
      rfl
    · rw [if_neg hlow, if_pos (not_le.mp hlow)]
      split
      · rename_i hplaces
        rw [Option.map_some, List.length_drop, Nat.sub_sub_self hplaces.le]
      · rename_i hplaces
        rw [Option.map_some, List.length_leftpad, Nat.max_eq_left (Nat.not_lt.mp hplaces)]

example : decimalI128ToString (BitVec.intMin 128) 38
    = "-1.70141183460469231731687303715884105728" := by decide +kernel

end Db
