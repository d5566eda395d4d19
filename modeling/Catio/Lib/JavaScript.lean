import Catio.Lib.Json

/-!
# Values of ECMAScript

The values of ECMAScript that can be written down, and their texts.  All that a number is used for
here is its text, so a number is modelled by the shortest decimal that the language writes it with:
two numbers are the same just when these are (there is one zero, since both are written `0`).  The
text of a finite number is a numeral (`readNumeral_toText`).
-/

namespace JavaScript

/-! ### Numbers -/

/-- A finite number other than zero, as its shortest decimal `0.digits × 10 ^ point`, within double
precision. -/
structure Decimal where
  negative : Bool
  digits : List (Fin 10)
  point : ℤ
  nonempty : digits ≠ []
  head_ne : digits.head? ≠ some 0
  last_ne : digits.getLast? ≠ some 0
  length_le : digits.length ≤ 17
  le_point : -323 ≤ point
  point_le : point ≤ 309

instance : DecidableEq Decimal := fun a b =>
  decidable_of_iff (a.negative = b.negative ∧ a.digits = b.digits ∧ a.point = b.point) (by
    cases a
    cases b
    simp)

inductive Number where
  | nan
  | infinity (negative : Bool)
  | zero
  | decimal (d : Decimal)
  deriving DecidableEq

/-- `Number.isFinite`. -/
def Number.isFinite : Number → Bool
  | .nan => false
  | .infinity _ => false
  | .zero => true
  | .decimal _ => true

/-- A decimal numeral, by its parts.  The digits of the exponent come with its sign. -/
structure Numeral where
  negative : Bool
  integer : Text
  fraction : Option Text
  exponent : Option (Bool × Text)
  deriving DecidableEq

/-- The fraction of a numeral with its point. -/
def fractionText : Option Text → Text
  | none => []
  | some digits => '.' :: digits

/-- The exponent of a numeral with its letter. -/
def exponentText : Option (Bool × Text) → Text
  | none => []
  | some (negative, digits) => 'e' :: (if negative then '-' else '+') :: digits

def Numeral.toText (n : Numeral) : Text :=
  (if n.negative then ['-'] else []) ++ (n.integer ++ (fractionText n.fraction
    ++ exponentText n.exponent))

/-- The numeral that a decimal is written as: without an exponent when the point is near. -/
def Decimal.numeral (d : Decimal) : Numeral :=
  let digits := d.digits.map Json.digit
  if digits.length ≤ d.point ∧ d.point ≤ 21 then
    { negative := d.negative
      integer := digits ++ List.replicate (d.point.toNat - digits.length) '0'
      fraction := none
      exponent := none }
  else if 0 < d.point ∧ d.point ≤ 21 then
    { negative := d.negative
      integer := digits.take d.point.toNat
      fraction := some (digits.drop d.point.toNat)
      exponent := none }
  else if -6 < d.point ∧ d.point ≤ 0 then
    { negative := d.negative
      integer := ['0']
      fraction := some (List.replicate (-d.point).toNat '0' ++ digits)
      exponent := none }
  else
    { negative := d.negative
      integer := digits.take 1
      fraction := if digits.length = 1 then none else some (digits.drop 1)
      exponent := some (d.point - 1 < 0, Text.ofNat (d.point - 1).natAbs) }

/-- `String` of a number. -/
def Number.toText : Number → Text
  | .nan => "NaN"
  | .infinity negative => if negative then "-Infinity" else "Infinity"
  | .zero => "0"
  | .decimal d => d.numeral.toText

/-- The double nearest to a natural number, of two the even one; from `2 ^ 1024` on, where the
language has the infinite number, with the same precision. -/
def toDouble (n : ℕ) : ℕ :=
  if n < 2 ^ 53 then n
  else
    let ulp := 2 ^ (n.log2 - 52)
    let below := n / ulp
    if 2 * (n % ulp) < ulp ∨ (2 * (n % ulp) = ulp ∧ below % 2 = 0) then below * ulp
    else (below + 1) * ulp

/-- `Number.isSafeInteger` of an integer. -/
def isSafeInteger (n : ℤ) : Bool :=
  n.natAbs < 2 ^ 53

/-- The text of an integer. -/
def intText (n : ℤ) : Text :=
  if n < 0 then '-' :: Text.ofNat n.natAbs else Text.ofNat n.natAbs

/-! ### Reading of numerals -/

/-- Take the sign off a text. -/
def readSign : Text → Bool × Text
  | '-' :: t => (true, t)
  | '+' :: t => (false, t)
  | t => (false, t)

/-- Take the point and the digits after it off a text. -/
def readFraction : Text → Option Text × Text
  | '.' :: t => (some (t.takeWhile Char.isDigit), t.dropWhile Char.isDigit)
  | t => (none, t)

/-- Read what is left of a numeral as its exponent. -/
def readExponent : Text → Option (Option (Bool × Text))
  | [] => some none
  | c :: t =>
      let (negative, digits) := readSign t
      if (c = 'e' ∨ c = 'E') ∧ digits ≠ [] ∧ digits.all Char.isDigit then
        some (some (negative, digits))
      else none

/-- Read a numeral, which is what matches `/^([+-]?)(\d+)(?:\.(\d*))?(?:e([+-]?\d+))?$/i`. -/
def readNumeral (t : Text) : Option Numeral :=
  let (negative, t) := readSign t
  let integer := t.takeWhile Char.isDigit
  let (fraction, rest) := readFraction (t.dropWhile Char.isDigit)
  if integer = [] then none
  else (readExponent rest).map fun exponent =>
    { negative := negative, integer := integer, fraction := fraction, exponent := exponent }

/-- The parts of a numeral are digits where they have to be. -/
structure Numeral.Good (n : Numeral) : Prop where
  integer_ne : n.integer ≠ []
  integer : n.integer.all Char.isDigit
  fraction : ∀ digits, n.fraction = some digits → digits.all Char.isDigit
  exponent : ∀ negative digits, n.exponent = some (negative, digits) →
    digits ≠ [] ∧ digits.all Char.isDigit

theorem span_digits {digits rest : Text} (hdigits : digits.all Char.isDigit)
    (hrest : ∀ c ∈ rest.head?, Char.isDigit c = false) :
  (digits ++ rest).takeWhile Char.isDigit = digits
    ∧ (digits ++ rest).dropWhile Char.isDigit = rest
  := by
  induction digits with
  | nil =>
    cases rest with
    | nil => simp
    | cons c rest => simpa using hrest c
  | cons c digits ih =>
    obtain ⟨hc, hdigits⟩ : c.isDigit ∧ digits.all Char.isDigit := by simpa using hdigits
    simp [hc, ih hdigits]

theorem readExponent_exponentText {exponent : Option (Bool × Text)}
    (h : ∀ negative digits, exponent = some (negative, digits) →
      digits ≠ [] ∧ digits.all Char.isDigit) :
  readExponent (exponentText exponent) = some exponent
  := by
  obtain _ | ⟨negative, digits⟩ := exponent
  · rfl
  · obtain ⟨hne, hdigits⟩ := h negative digits rfl
    cases negative <;> simp [exponentText, readExponent, readSign, hne, hdigits]

theorem head_exponentText (exponent : Option (Bool × Text)) :
  ∀ c ∈ (exponentText exponent).head?, Char.isDigit c = false
  := by
  obtain _ | ⟨negative, digits⟩ := exponent
  · simp [exponentText]
  · simp [exponentText]

theorem readFraction_fractionText {fraction : Option Text} (exponent : Option (Bool × Text))
    (h : ∀ digits, fraction = some digits → digits.all Char.isDigit) :
  readFraction (fractionText fraction ++ exponentText exponent)
    = (fraction, exponentText exponent)
  := by
  obtain _ | digits := fraction
  · obtain _ | ⟨negative, digits⟩ := exponent
    · rfl
    · rfl
  · obtain ⟨htake, hdrop⟩ := span_digits (h digits rfl) (head_exponentText exponent)
    simp only [fractionText, List.cons_append, readFraction, htake, hdrop]

theorem head_fractionText (fraction : Option Text) (exponent : Option (Bool × Text)) :
  ∀ c ∈ (fractionText fraction ++ exponentText exponent).head?, Char.isDigit c = false
  := by
  obtain _ | digits := fraction
  · exact head_exponentText exponent
  · simp [fractionText]

theorem readSign_sign {digits : Text} (negative : Bool) (hne : digits ≠ [])
    (hdigits : digits.all Char.isDigit) (rest : Text) :
  readSign ((if negative then ['-'] else []) ++ (digits ++ rest)) = (negative, digits ++ rest)
  := by
  cases negative with
  | true => rfl
  | false =>
    obtain _ | ⟨c, digits⟩ := digits
    · exact absurd rfl hne
    · have hc : c.isDigit := by simp_all
      have hminus : c ≠ '-' := by
        rintro rfl
        exact absurd hc (by decide)
      have hplus : c ≠ '+' := by
        rintro rfl
        exact absurd hc (by decide)
      simp only [Bool.false_eq_true, ↓reduceIte, List.nil_append, List.cons_append]
      unfold readSign
      split <;> simp_all

theorem readNumeral_toText {n : Numeral} (h : n.Good) :
  readNumeral n.toText = some n
  := by
  obtain ⟨htake, hdrop⟩ := span_digits h.integer (head_fractionText n.fraction n.exponent)
  unfold readNumeral Numeral.toText
  rw [readSign_sign _ h.integer_ne h.integer]
  simp only [htake, hdrop, readFraction_fractionText _ h.fraction,
    readExponent_exponentText h.exponent, if_neg h.integer_ne, Option.map_some]

theorem isDigit_digit (d : Fin 10) :
  (Json.digit d).isDigit
  := by
  revert d
  decide

theorem all_isDigit_digits (ds : List (Fin 10)) :
  (ds.map Json.digit).all Char.isDigit
  := by
  simp [isDigit_digit]

theorem all_isDigit_ofNat (n : ℕ) :
  (Text.ofNat n).all Char.isDigit
  := by
  rw [List.all_eq_true]
  intro c hc
  exact Nat.isDigit_of_mem_toDigits (by decide) (by decide) hc

theorem Decimal.good_numeral (d : Decimal) :
  d.numeral.Good
  := by
  have hne : d.digits.map Json.digit ≠ [] := by simp [d.nonempty]
  have hdigits : ∀ c ∈ d.digits.map Json.digit, c.isDigit :=
    List.all_eq_true.mp (all_isDigit_digits d.digits)
  have hzeros : ∀ n, ∀ c ∈ List.replicate n '0', c.isDigit := by
    intro n c hc
    rw [List.eq_of_mem_replicate hc]
    rfl
  unfold Decimal.numeral
  simp only
  generalize d.digits.map Json.digit = digits at hne hdigits
  split
  · constructor
    · simp [hne]
    · rw [List.all_append, Bool.and_eq_true, List.all_eq_true, List.all_eq_true]
      exact ⟨hdigits, hzeros _⟩
    · simp
    · simp
  split
  · rename_i hinside
    constructor
    · rw [Ne, List.take_eq_nil_iff]
      rintro (hzero | hnil)
      · omega
      · exact hne hnil
    · exact List.all_eq_true.mpr fun c hc => hdigits c (List.mem_of_mem_take hc)
    · rintro _ ⟨⟩
      exact List.all_eq_true.mpr fun c hc => hdigits c (List.mem_of_mem_drop hc)
    · simp
  split
  · constructor
    · simp
    · rfl
    · rintro _ ⟨⟩
      rw [List.all_append, Bool.and_eq_true, List.all_eq_true, List.all_eq_true]
      exact ⟨hzeros _, hdigits⟩
    · simp
  · constructor
    · simp [List.take_eq_nil_iff, hne]
    · exact List.all_eq_true.mpr fun c hc => hdigits c (List.mem_of_mem_take hc)
    · intro fraction hfraction
      split at hfraction
      · cases hfraction
      · obtain rfl := Option.some.inj hfraction
        exact List.all_eq_true.mpr fun c hc => hdigits c (List.mem_of_mem_drop hc)
    · rintro _ _ ⟨⟩
      exact ⟨Nat.toDigits_ne_nil, all_isDigit_ofNat _⟩

theorem Decimal.readNumeral_toText (d : Decimal) :
  readNumeral d.numeral.toText = some d.numeral
  := by
  apply JavaScript.readNumeral_toText
  exact d.good_numeral

theorem Decimal.numeral_parts (d : Decimal) :
  (d.numeral.fraction.getD []).length ≤ 23
    ∧ (d.numeral.exponent = none
      ∨ d.numeral.exponent = some (decide (d.point - 1 < 0), Text.ofNat (d.point - 1).natAbs))
  := by
  have hlength := d.length_le
  unfold Decimal.numeral
  simp only
  split
  · exact ⟨by simp, .inl rfl⟩
  split
  · apply And.intro
    · simp only [Option.getD_some, List.length_drop, List.length_map]
      omega
    · exact .inl rfl
  split
  · apply And.intro
    · simp only [Option.getD_some, List.length_append, List.length_replicate, List.length_map]
      omega
    · exact .inl rfl
  · apply And.intro
    · split
      · simp
      · simp only [Option.getD_some, List.length_drop, List.length_map]
        omega
    · exact .inr rfl

theorem toDouble_of_lt {n : ℕ} (h : n < 2 ^ 53) :
  toDouble n = n
  := by
  unfold toDouble
  rw [if_pos h]

/-! ### Values -/

/-- A value.  Objects come with their own fields, each name once. -/
inductive Value where
  | undefined
  | null
  | boolean (b : Bool)
  | number (n : Number)
  | string (s : Text)
  | array (items : List Value)
  | object (fields : List (Text × Value))

/-- `value == null`. -/
def Value.isNullish : Value → Bool
  | .undefined => true
  | .null => true
  | _ => false

/-- `typeof value === 'number'`. -/
def Value.isNumber : Value → Bool
  | .number _ => true
  | _ => false

/-- `typeof value === 'object'` of a value that is not `null`. -/
def Value.isObject : Value → Bool
  | .array _ => true
  | .object _ => true
  | _ => false

/-- `a === b`.  Two objects count as different ones. -/
def Value.strictEqual : Value → Value → Bool
  | .undefined, .undefined => true
  | .null, .null => true
  | .boolean a, .boolean b => a = b
  | .number a, .number b => a = b ∧ a ≠ .nan
  | .string a, .string b => a = b
  | _, _ => false

mutual

/-- `String(value)`. -/
def Value.toText : Value → Text
  | .undefined => "undefined"
  | .null => "null"
  | .boolean b => if b then "true" else "false"
  | .number n => n.toText
  | .string s => s
  | .array items => Text.join [','] (itemTexts items)
  | .object _ => "[object Object]"

/-- The texts of the items of an array, where what is missing has none. -/
def itemTexts : List Value → List Text
  | [] => []
  | item :: items => (if item.isNullish then [] else item.toText) :: itemTexts items

end

/-- `JSON.stringify` of a value that is no object. -/
def Value.stringify : Value → Option Text
  | .null => some "null"
  | .boolean b => some (if b then "true" else "false")
  | .number n => some (if n.isFinite then n.toText else "null")
  | .string s => some (Json.quote s)
  | _ => none

mutual

/-- `JSON.stringify`. -/
def Value.toJson : Value → Option Text
  | .array items => some ('[' :: Text.join [','] (itemJsons items) ++ [']'])
  | .object fields => some ('{' :: Text.join [','] (fieldJsons fields) ++ ['}'])
  | value => value.stringify

/-- The items of an array as JSON, where what is missing is `null`. -/
def itemJsons : List Value → List Text
  | [] => []
  | item :: items => item.toJson.getD "null" :: itemJsons items

/-- The fields of an object as JSON, without those that are missing. -/
def fieldJsons : List (Text × Value) → List Text
  | [] => []
  | (name, value) :: fields =>
      match value.toJson with
      | some text => (Json.quote name ++ ':' :: text) :: fieldJsons fields
      | none => fieldJsons fields

end

/-! ### Order of strings -/

def utf16Units (c : Char) : List ℕ :=
  if c.toNat < 0x10000 then [c.toNat]
  else [0xD800 + (c.toNat - 0x10000) / 0x400, 0xDC00 + (c.toNat - 0x10000) % 0x400]

/-- The order in which strings are sorted. -/
def leUnits (s t : Text) : Prop :=
  s.flatMap utf16Units ≤ t.flatMap utf16Units

instance (s t : Text) : Decidable (leUnits s t) :=
  inferInstanceAs (Decidable (_ ≤ _))

/-! ### Integers -/

/-- The natural number of decimal digits. -/
def ofDigits (digits : List (Fin 10)) : ℕ :=
  digits.foldl (fun (n : ℕ) (d : Fin 10) => 10 * n + d.val) 0

theorem ofDigits_concat (digits : List (Fin 10)) (d : Fin 10) :
  ofDigits (digits ++ [d]) = 10 * ofDigits digits + d
  := by
  rw [ofDigits, List.foldl_append]
  rfl

theorem toDigits_ofDigits {digits : List (Fin 10)} (hne : digits ≠ [])
    (hhead : digits.head? ≠ some 0) :
  0 < ofDigits digits ∧ Nat.toDigits 10 (ofDigits digits) = digits.map Json.digit
  := by
  induction digits using List.reverseRecOn with
  | nil => exact absurd rfl hne
  | append_singleton digits d ih =>
    rw [ofDigits_concat, List.map_append]
    by_cases hnil : digits = []
    · subst hnil
      have hd : d ≠ 0 := fun hd => hhead (congrArg some hd)
      have hpos : 0 < d.val := Nat.pos_of_ne_zero fun h => hd (Fin.ext h)
      have hvalue : 10 * ofDigits [] + d.val = d.val := Nat.zero_add _
      rw [hvalue, Nat.toDigits_of_lt_base d.isLt]
      exact ⟨hpos, rfl⟩
    · have hfirst : digits.head? ≠ some 0 := by
        rwa [List.head?_append_of_ne_nil _ hnil] at hhead
      obtain ⟨hpos, hdigits⟩ := ih hnil hfirst
      constructor
      · omega
      · calc Nat.toDigits 10 (10 * ofDigits digits + d)
          _ = Nat.toDigits 10 (ofDigits digits) ++ Nat.toDigits 10 d :=
            (Nat.toDigits_append_toDigits (by decide) hpos d.isLt).symm
          _ = digits.map Json.digit ++ [d].map Json.digit := by
            rw [hdigits, Nat.toDigits_of_lt_base d.isLt]
            rfl

/-- An integer by its sign and its digits. -/
def signed (negative : Bool) (n : ℕ) : ℤ :=
  if negative then -n else n

theorem intText_signed {negative : Bool} {n : ℕ} (h : 0 < n) :
  intText (signed negative n) = (if negative then ['-'] else []) ++ Nat.toDigits 10 n
  := by
  unfold intText signed
  cases negative with
  | true =>
    have hneg : -(n : ℤ) < 0 := by omega
    simp only [↓reduceIte, if_pos hneg, Int.natAbs_neg, Int.natAbs_natCast]
    rfl
  | false =>
    have hpos : ¬(n : ℤ) < 0 := by omega
    simp only [Bool.false_eq_true, ↓reduceIte, if_neg hpos, Int.natAbs_natCast]
    rfl

/-- The digits of a decimal without a fraction, up to its point. -/
def Decimal.integerDigits (d : Decimal) : List (Fin 10) :=
  d.digits ++ List.replicate (d.point.toNat - d.digits.length) 0

def Number.IsInteger : Number → ℤ → Prop
  | .zero, n => n = 0
  | .decimal d, n => d.digits.length ≤ d.point ∧ n = signed d.negative (ofDigits d.integerDigits)
  | _, _ => False

theorem Number.toText_integer {a : Number} {n : ℤ} (h : a.IsInteger n) (hsafe : isSafeInteger n) :
  a.toText = intText n
  := by
  cases a with
  | nan => exact h.elim
  | infinity negative => exact h.elim
  | zero =>
    obtain rfl : n = 0 := h
    rfl
  | decimal d =>
    obtain ⟨hpoint, rfl⟩ := h
    have hne : d.integerDigits ≠ [] := by
      rw [Decimal.integerDigits, Ne, List.append_eq_nil_iff]
      exact fun hnil => d.nonempty hnil.1
    have hhead : d.integerDigits.head? ≠ some 0 := by
      rw [Decimal.integerDigits, List.head?_append_of_ne_nil _ d.nonempty]
      exact d.head_ne
    obtain ⟨hpos, hdigits⟩ := toDigits_ofDigits hne hhead
    have hlength : d.integerDigits.length ≤ 16 := by
      have hbound : ofDigits d.integerDigits < 10 ^ 16 := by
        have hsmall : (signed d.negative (ofDigits d.integerDigits)).natAbs < 2 ^ 53 :=
          of_decide_eq_true hsafe
        have habs : (signed d.negative (ofDigits d.integerDigits)).natAbs
            = ofDigits d.integerDigits := by
          unfold signed
          split <;> omega
        omega
      have hle := (Nat.length_toDigits_le_iff (by decide) (by decide)).mpr hbound
      rwa [hdigits, List.length_map] at hle
    rw [Decimal.integerDigits, List.length_append, List.length_replicate] at hlength
    have hnear : (d.digits.map Json.digit).length ≤ d.point ∧ d.point ≤ 21 := by
      rw [List.length_map]
      omega
    have hnumeral : d.numeral = {
        negative := d.negative
        integer := d.digits.map Json.digit
          ++ List.replicate (d.point.toNat - (d.digits.map Json.digit).length) '0'
        fraction := none
        exponent := none } := if_pos hnear
    have hzero : Json.digit 0 = '0' := rfl
    rw [intText_signed hpos, hdigits, Number.toText, hnumeral, Decimal.integerDigits,
      List.map_append, List.map_replicate, hzero, List.length_map]
    simp only [Numeral.toText, fractionText, exponentText, List.append_nil]

end JavaScript

namespace Json

structure Number.IsInteger (v : Number) (n : ℤ) : Prop where
  value : n = JavaScript.signed v.negative (JavaScript.ofDigits v.digits)
  head : v.digits.head? = some 0 → v.digits = [0] ∧ v.negative = false
  fraction : v.fraction = []
  exponent : v.exponent = none

theorem Number.toText_integer {v : Number} {n : ℤ} (h : v.IsInteger n) :
  v.toText = JavaScript.intText n
  := by
  obtain ⟨rfl, hhead, hfraction, hexponent⟩ := h
  rw [Number.toText, hfraction, hexponent, if_pos rfl, List.append_nil, List.append_nil]
  by_cases hzero : v.digits.head? = some 0
  · obtain ⟨hdigits, hpositive⟩ := hhead hzero
    rw [hdigits, hpositive]
    rfl
  · obtain ⟨hpos, hdigits⟩ := JavaScript.toDigits_ofDigits v.nonempty hzero
    rw [JavaScript.intText_signed hpos, hdigits]

end Json
