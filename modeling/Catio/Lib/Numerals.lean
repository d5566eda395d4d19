import Catio.Lib.Words
import Mathlib.Tactic.IntervalCases

/-!
# Numerals

What `str::parse` and `from_str_radix` read as an unsigned number: decimal or hexadecimal digits,
perhaps with a sign before, whose value is below a limit.  A number below the limit is read back
from its digits.
-/

namespace Text

/-- A number below the limit. -/
def parseUnsigned (limit : ℕ) (t : Text) : Option ℕ :=
  let digits := (stripPrefix "+" t).getD t
  let value := Nat.ofDigitChars 10 digits 0
  if digits ≠ [] ∧ digits.all Char.isDigit ∧ value < limit then some value else none

theorem isDigit_of_mem_ofNat {n : ℕ} {c : Char} (h : c ∈ ofNat n) :
  c.isDigit
  := Nat.isDigit_of_mem_toDigits (by decide) (by decide) h

theorem ofNat_ne_nil (n : ℕ) :
  ofNat n ≠ []
  := Nat.toDigits_ne_nil

theorem isWhitespace_of_ascii {c : Char} (h : 0x21 ≤ c.toNat ∧ c.toNat < 0x80) :
  isWhitespace c = false
  := by
  simp only [isWhitespace, Bool.or_eq_false_iff, Bool.and_eq_false_iff, decide_eq_false_iff_not,
    beq_eq_false_iff_ne]
  omega

theorem isWhitespace_of_isDigit {c : Char} (h : c.isDigit) :
  isWhitespace c = false
  := by
  apply isWhitespace_of_ascii
  rw [Char.isDigit_iff_toNat] at h
  change 48 ≤ c.toNat ∧ c.toNat ≤ 57 at h
  omega

theorem isWhitespace_of_isHexDigit {c : Char} (h : isHexDigit c) :
  isWhitespace c = false
  := by
  simp only [isHexDigit, Bool.or_eq_true, Bool.and_eq_true, decide_eq_true_eq] at h
  rcases h with (h | ⟨hle, hge⟩) | ⟨hle, hge⟩
  · exact isWhitespace_of_isDigit h
  · apply isWhitespace_of_ascii
    change 97 ≤ c.toNat at hle
    change c.toNat ≤ 102 at hge
    omega
  · apply isWhitespace_of_ascii
    change 65 ≤ c.toNat at hle
    change c.toNat ≤ 70 at hge
    omega

theorem isWord_ofNat (n : ℕ) :
  IsWord (ofNat n)
  := ⟨ofNat_ne_nil n, fun _ hc => isWhitespace_of_isDigit (isDigit_of_mem_ofNat hc)⟩

theorem parseUnsigned_ofNat {limit n : ℕ} (h : n < limit) :
  parseUnsigned limit (ofNat n) = some n
  := by
  have hsign : stripPrefix "+" (ofNat n) = none := by
    cases hprefix : stripPrefix "+" (ofNat n) with
    | none => rfl
    | some rest =>
      have hmem : '+' ∈ ofNat n := by
        rw [stripPrefix_eq_some hprefix]
        simp
      have hnot : ('+').isDigit = false := by decide
      rw [isDigit_of_mem_ofNat hmem] at hnot
      cases hnot
  have hvalue : Nat.ofDigitChars 10 (ofNat n) 0 = n :=
    Nat.ofDigitChars_toDigits (by decide) (by decide)
  rw [parseUnsigned, hsign, Option.getD_none, hvalue, if_pos]
  refine ⟨ofNat_ne_nil n, ?_, h⟩
  rw [List.all_eq_true]
  intro c hc
  exact isDigit_of_mem_ofNat hc

theorem isDigit_of_parseUnsigned {limit : ℕ} {t : Text} {n : ℕ}
    (h : parseUnsigned limit t = some n) :
  ∀ c ∈ t, c = '+' ∨ c.isDigit
  := by
  unfold parseUnsigned at h
  dsimp only at h
  split at h
  · rename_i hdigits
    obtain ⟨-, hall, -⟩ := hdigits
    rw [List.all_eq_true] at hall
    cases hplus : stripPrefix "+" t with
    | none =>
      rw [hplus] at hall
      intro c hc
      exact .inr (hall c hc)
    | some digits =>
      rw [hplus] at hall
      rw [stripPrefix_eq_some hplus]
      intro c hc
      rcases List.mem_append.mp hc with hsign | hc
      · exact .inl (by simpa using hsign)
      · exact .inr (hall c hc)
  · cases h

/-! ### Hexadecimal digits -/

/-- The hexadecimal digits of a number. -/
def hex (n : ℕ) : Text :=
  Nat.toDigits 16 n

def hexDigitValue (c : Char) : ℕ :=
  if c.isDigit then c.toNat - '0'.toNat
  else if c.toNat < 'a'.toNat then c.toNat - 'A'.toNat + 10
  else c.toNat - 'a'.toNat + 10

/-- The number with the digits. -/
def ofHexDigits (digits : Text) : ℕ :=
  digits.foldl (fun n c => 16 * n + hexDigitValue c) 0

/-- A number below the limit, from hexadecimal digits. -/
def fromStrRadix16 (limit : ℕ) (t : Text) : Option ℕ :=
  let digits := (stripPrefix "+" t).getD t
  let value := ofHexDigits digits
  if digits ≠ [] ∧ digits.all isHexDigit ∧ value < limit then some value else none

theorem fromStrRadix16_digits {limit : ℕ} {digits : Text} (hne : digits ≠ [])
    (hhex : digits.all isHexDigit = true) (h : ofHexDigits digits < limit) :
  fromStrRadix16 limit digits = some (ofHexDigits digits)
  := by
  have hsign : stripPrefix "+" digits = none := by
    cases hprefix : stripPrefix "+" digits with
    | none => rfl
    | some rest =>
      have hmem : '+' ∈ digits := by
        rw [stripPrefix_eq_some hprefix]
        simp
      exact absurd (List.all_eq_true.mp hhex '+' hmem) (by decide)
  rw [fromStrRadix16, hsign, Option.getD_none, if_pos ⟨hne, hhex, h⟩]

theorem hexDigitValue_digitChar {d : ℕ} (h : d < 16) :
  hexDigitValue d.digitChar = d ∧ isHexDigit d.digitChar = true
  := by
  interval_cases d <;> decide

theorem hex_spec (n : ℕ) :
  ofHexDigits (hex n) = n ∧ (hex n).all isHexDigit = true
  := by
  induction n using Nat.strongRecOn with
  | ind n ih =>
    rw [hex, Nat.toDigits_eq_if (by decide)]
    split
    · rename_i hsmall
      obtain ⟨hvalue, hdigit⟩ := hexDigitValue_digitChar hsmall
      simp [ofHexDigits, hvalue, hdigit]
    · have hlt : n / 16 < n := by omega
      obtain ⟨hfold, hall⟩ := ih (n / 16) hlt
      obtain ⟨hvalue, hdigit⟩ := hexDigitValue_digitChar (Nat.mod_lt n (by decide : 0 < 16))
      rw [hex] at hfold hall
      rw [ofHexDigits] at hfold
      rw [ofHexDigits, List.foldl_append, hfold, List.all_append, hall]
      simp only [List.foldl_cons, List.foldl_nil, hvalue, List.all_cons, hdigit, List.all_nil,
        Bool.and_self, and_true]
      omega

theorem fromStrRadix16_hex {limit n : ℕ} (h : n < limit) :
  fromStrRadix16 limit (hex n) = some n
  := by
  obtain ⟨hvalue, hall⟩ := hex_spec n
  have hne : hex n ≠ [] := Nat.toDigits_ne_nil
  rw [fromStrRadix16_digits hne hall (by rwa [hvalue]), hvalue]

end Text
