import Catio.Workbench.CompareTables.Statements

/-!
# Equality of values

Which values count as the same in a cell, and which rows have the same key.  The normal form of a
number determines the number (`numeric_injective`), but strings are compared by their texts, so a
number can be the same as two different strings.  Keys are compared by their texts as well
(`lookup_iff`).
-/

namespace Workbench

open JavaScript

/-! ### Normal forms of numbers -/

theorem addExponent_eq {exponent : ℤ} {suffix : ℕ} (h : (exponent + suffix).natAbs < 2 ^ 53) :
  addExponent exponent suffix = exponent + suffix
  := by
  unfold addExponent
  dsimp only
  rw [toDouble_of_lt h]
  split <;> omega

theorem dropWhile_zeros (zeros : ℕ) {rest : Text} (h : rest.head? ≠ some '0') :
  (List.replicate zeros '0' ++ rest).dropWhile (· = '0') = rest
  := by
  induction zeros with
  | zero =>
    cases rest with
    | nil => rfl
    | cons c rest => simpa using h
  | succ zeros ih => simpa [List.replicate_succ] using ih

theorem takeWhile_zeros (zeros : ℕ) {rest : Text} (h : rest.head? ≠ some '0') :
  (List.replicate zeros '0' ++ rest).takeWhile (· = '0') = List.replicate zeros '0'
  := by
  induction zeros with
  | zero =>
    cases rest with
    | nil => rfl
    | cons c rest => simpa using h
  | succ zeros ih => simpa [List.replicate_succ] using ih

theorem normalize_of_digits {text digits : Text} {m : Numeral} {zeros suffix : ℕ} {point : ℤ}
    (hread : readNumeral text = some m)
    (hdigits : m.integer ++ m.fraction.getD []
      = List.replicate zeros '0' ++ (digits ++ List.replicate suffix '0'))
    (hne : digits ≠ []) (hhead : digits.head? ≠ some '0') (hlast : digits.getLast? ≠ some '0')
    (hsafe : isSafeInteger (lastExponent m)) (hpoint : lastExponent m + suffix = point)
    (hsmall : point.natAbs < 2 ^ 53) :
  normalize text = some ((if m.negative then ['-'] else []) ++ digits ++ 'e' :: intText point)
  := by
  have hdrop : (m.integer ++ m.fraction.getD []).dropWhile (· = '0')
      = digits ++ List.replicate suffix '0' := by
    rw [hdigits]
    apply dropWhile_zeros
    rwa [List.head?_append_of_ne_nil _ hne]
  have hsuffix : ((digits ++ List.replicate suffix '0').reverse.takeWhile (· = '0')).length
      = suffix := by
    rw [List.reverse_append, List.reverse_replicate, takeWhile_zeros, List.length_replicate]
    rwa [List.head?_reverse]
  have htake : (digits ++ List.replicate suffix '0').take
      ((digits ++ List.replicate suffix '0').length - suffix) = digits := by
    simp
  unfold normalize
  rw [hread, Option.bind_some]
  dsimp only
  rw [hdrop, if_neg (by simp [hne]), if_pos hsafe, hsuffix, htake, addExponent_eq (hpoint ▸ hsmall),
    hpoint]

/-- A decimal is written with its digits, some zeros around them, and the exponent of the last
one. -/
theorem numeral_digits (d : Decimal) :
  ∃ zeros suffix : ℕ, d.numeral.negative = d.negative
    ∧ d.numeral.integer ++ d.numeral.fraction.getD []
      = List.replicate zeros '0' ++ (d.digits.map Json.digit ++ List.replicate suffix '0')
    ∧ lastExponent d.numeral + suffix = d.point - d.digits.length
  := by
  have hlow := d.le_point
  have hhigh := d.point_le
  have hexponent : toDouble (Nat.ofDigitChars 10 (Text.ofNat (d.point - 1).natAbs) 0)
      = (d.point - 1).natAbs := by
    rw [Text.ofNat, Nat.ofDigitChars_toDigits (by decide) (by decide)]
    apply toDouble_of_lt
    omega
  have hpos : 0 < (d.digits.map Json.digit).length := by simp [List.length_pos_iff, d.nonempty]
  have hlength : (d.digits.map Json.digit).length = d.digits.length := List.length_map _
  unfold Decimal.numeral
  rw [← hlength]
  generalize d.digits.map Json.digit = digits at hpos
  dsimp only
  split
  · rename_i hnear
    refine ⟨0, d.point.toNat - digits.length, rfl, ?_, ?_⟩
    · simp
    · simp only [lastExponent, Option.getD_none, List.length_nil]
      omega
  split
  · refine ⟨0, 0, rfl, ?_, ?_⟩
    · simp
    · simp only [lastExponent, Option.getD_some, List.length_drop]
      omega
  split
  · refine ⟨1 + (-d.point).toNat, 0, rfl, ?_, ?_⟩
    · simp [List.replicate_add]
    · simp only [lastExponent, Option.getD_some, List.length_append, List.length_replicate]
      omega
  · refine ⟨0, 0, rfl, ?_, ?_⟩
    · split
      · rename_i hone
        simp [List.take_of_length_le (Nat.le_of_eq hone)]
      · rw [Option.getD_some, List.take_append_drop]
        simp
    · have hfraction : (Option.getD (if digits.length = 1 then none else some (digits.drop 1))
          []).length = digits.length - 1 := by
        split
        · rename_i hone
          rw [hone]
          rfl
        · simp
      simp only [lastExponent, hfraction, hexponent, decide_eq_true_eq]
      split <;> omega

theorem normalize_decimal (d : Decimal) :
  normalize d.numeral.toText
    = some ((if d.negative then ['-'] else []) ++ d.digits.map Json.digit
      ++ 'e' :: intText (d.point - d.digits.length))
  := by
  have hlength := d.length_le
  have hlow := d.le_point
  have hhigh := d.point_le
  have hne : d.digits.map Json.digit ≠ [] := by simp [d.nonempty]
  have hzero : ∀ digit : Fin 10, Json.digit digit = '0' → digit = 0 := by decide
  have hhead : (d.digits.map Json.digit).head? ≠ some '0' := by
    rw [List.head?_map]
    intro h
    obtain ⟨digit, hdigit, hchar⟩ := Option.map_eq_some_iff.mp h
    exact d.head_ne (hzero digit hchar ▸ hdigit)
  have hlast : (d.digits.map Json.digit).getLast? ≠ some '0' := by
    rw [List.getLast?_map]
    intro h
    obtain ⟨digit, hdigit, hchar⟩ := Option.map_eq_some_iff.mp h
    exact d.last_ne (hzero digit hchar ▸ hdigit)
  obtain ⟨zeros, suffix, hnegative, hdigits, hpoint⟩ := numeral_digits d
  rw [← hnegative]
  apply normalize_of_digits d.readNumeral_toText hdigits hne hhead hlast
    (isSafeInteger_lastExponent d) hpoint
  omega

theorem intText_injective :
  Function.Injective intText
  := by
  have hminus : ∀ (n : ℕ) (t : Text), Text.ofNat n ≠ '-' :: t := by
    intro n t h
    have hdigit := List.all_eq_true.mp (all_isDigit_ofNat n) '-' (h ▸ List.mem_cons_self)
    exact absurd hdigit (by decide)
  intro a b h
  unfold intText at h
  split at h
  · split at h
    · have habs := Text.ofNat_injective (List.cons.inj h).2
      omega
    · exact absurd h.symm (hminus _ _)
  · split at h
    · exact absurd h (hminus _ _)
    · have habs := Text.ofNat_injective h
      omega

theorem sign_digits_inj {a b : Bool} {ds es : List (Fin 10)}
    (h : (if a then ['-'] else []) ++ ds.map Json.digit
      = (if b then ['-'] else []) ++ es.map Json.digit) (hds : ds ≠ []) (hes : es ≠ []) :
  a = b ∧ ds = es
  := by
  have hdigit : ∀ d e : Fin 10, Json.digit d = Json.digit e → d = e := by decide
  have hminus : ∀ d : Fin 10, Json.digit d ≠ '-' := by decide
  have hmap : Function.Injective (List.map Json.digit) :=
    List.map_injective_iff.mpr fun d e => hdigit d e
  cases ds with
  | nil => exact absurd rfl hds
  | cons d ds =>
    cases es with
    | nil => exact absurd rfl hes
    | cons e es =>
      cases a <;> cases b
      · exact ⟨rfl, hmap h⟩
      · exact absurd (List.cons.inj h).1 (hminus d)
      · exact absurd (List.cons.inj h).1.symm (hminus e)
      · exact ⟨rfl, hmap (List.cons.inj h).2⟩

theorem numeric_injective {n m : Number} (hn : n.isFinite) (hm : m.isFinite)
    (h : normalize n.toText = normalize m.toText) :
  n = m
  := by
  have hzero : ∀ d : Decimal, normalize Number.zero.toText ≠ normalize d.numeral.toText := by
    intro d h
    rw [normalize_decimal] at h
    have hmem : 'e' ∈ "0".toList := by
      rw [Option.some.inj h]
      simp
    exact absurd hmem (by decide)
  have he : ∀ d : Decimal, 'e' ∉ (if d.negative then ['-'] else []) ++ d.digits.map Json.digit := by
    intro d hmem
    rw [List.mem_append, List.mem_map] at hmem
    rcases hmem with hsign | ⟨digit, -, hdigit⟩
    · split at hsign <;> simp at hsign
    · revert digit
      decide
  cases n with
  | nan => cases hn
  | infinity negative => cases hn
  | zero =>
    cases m with
    | nan => cases hm
    | infinity negative => cases hm
    | zero => rfl
    | decimal d => exact absurd h (hzero d)
  | decimal d =>
    cases m with
    | nan => cases hm
    | infinity negative => cases hm
    | zero => exact absurd h.symm (hzero d)
    | decimal d' =>
      have htexts : normalize d.numeral.toText = normalize d'.numeral.toText := h
      rw [normalize_decimal, normalize_decimal] at htexts
      have hsplit := congrArg (Text.splitOnce 'e') (Option.some.inj htexts)
      rw [Text.splitOnce_append (he d), Text.splitOnce_append (he d')] at hsplit
      obtain ⟨hdigits, hexponent⟩ := Prod.mk.inj (Option.some.inj hsplit)
      obtain ⟨hnegative, hdigits⟩ := sign_digits_inj hdigits d.nonempty d'.nonempty
      have hpoint : d.point = d'.point := by
        have hint := intText_injective hexponent
        rw [hdigits] at hint
        omega
      cases d
      cases d'
      simp_all

/-! ### Equality -/

/-- A value is a string or a truth value. -/
def isScalar : Value → Bool
  | .boolean _ => true
  | .string _ => true
  | _ => false

theorem strictEqual_comm (a b : Value) :
  a.strictEqual b = b.strictEqual a
  := by
  have hnumbers : ∀ n m : Number, (n = m ∧ n ≠ .nan) ↔ (m = n ∧ m ≠ .nan) := by
    intro n m
    constructor
    · rintro ⟨rfl, hn⟩
      exact ⟨rfl, hn⟩
    · rintro ⟨rfl, hm⟩
      exact ⟨rfl, hm⟩
  cases a <;> cases b <;> try rfl
  · exact decide_eq_decide.mpr eq_comm
  · exact decide_eq_decide.mpr (hnumbers _ _)
  · exact decide_eq_decide.mpr eq_comm

theorem valuesEqual_comm (a b : Value) :
  valuesEqual a b = valuesEqual b a
  := by
  have hnumeric : ((numeric a).isSome && decide (numeric a = numeric b))
      = ((numeric b).isSome && decide (numeric b = numeric a)) := by
    by_cases h : numeric a = numeric b
    · rw [h]
    · have h' : numeric b ≠ numeric a := Ne.symm h
      simp [h, h']
  unfold valuesEqual
  rw [strictEqual_comm, Bool.or_comm a.isNullish, Bool.and_comm a.isNullish,
    Bool.or_comm a.isNumber, Bool.or_comm a.isObject, hnumeric]
  simp only [eq_comm]

variable {a b : Value} {n : Number}

theorem valuesEqual_number (hn : n.isFinite) (b : Value) :
  valuesEqual (.number n) b ↔ numeric b = normalize n.toText
  := by
  have hsome : (numeric (.number n)).isSome := by
    rw [numeric_number hn]
    exact isSome_normalize hn
  rw [← numeric_number hn]
  unfold valuesEqual
  split
  · rename_i hstrict
    have hb : b = .number n := by
      cases b <;> simp_all [Value.strictEqual]
    simp [hb]
  split
  · rename_i hnullish
    have hnone : numeric b = none := by
      cases b <;> simp_all [Value.isNullish, numeric]
    rw [hnone]
    constructor
    · intro h
      simp [Value.isNullish] at h
    · intro h
      rw [← h] at hsome
      cases hsome
  · rw [if_pos (by simp [Value.isNumber]), hsome, Bool.true_and, decide_eq_true_eq]
    exact eq_comm

theorem valuesEqual_infinite (hn : n.isFinite = false) (b : Value) :
  valuesEqual (.number n) b ↔ b = .number n ∧ n ≠ .nan
  := by
  have hnone : numeric (.number n) = none := by simp [numeric, hn]
  unfold valuesEqual
  rw [hnone]
  split
  · rename_i hstrict
    have hb : b = .number n ∧ n ≠ .nan := by
      cases b with
      | number m =>
        obtain ⟨rfl, hnan⟩ := of_decide_eq_true hstrict
        exact ⟨rfl, hnan⟩
      | _ => cases hstrict
    exact iff_of_true rfl hb
  · rename_i hstrict
    have hb : ¬(b = .number n ∧ n ≠ .nan) := by
      rintro ⟨rfl, hnan⟩
      exact hstrict (by simp [Value.strictEqual, hnan])
    simp [hb, Value.isNullish, Value.isNumber]

theorem valuesEqual_nullish {a : Value} (ha : a.isNullish) (b : Value) :
  valuesEqual a b ↔ b.isNullish
  := by
  unfold valuesEqual
  split
  · rename_i hstrict
    cases a <;> cases b <;> simp_all [Value.strictEqual, Value.isNullish]
  · simp [ha]

theorem valuesEqual_scalar (ha : isScalar a) (hb : isScalar b) :
  valuesEqual a b ↔ a.toText = b.toText
  := by
  unfold valuesEqual
  split
  · rename_i hstrict
    cases a <;> cases b <;> simp_all [Value.strictEqual, isScalar]
  · cases a <;> cases b <;> simp_all [isScalar, Value.isNullish, Value.isNumber, Value.isObject]

theorem stableJson_ne (ha : a.isObject) (hb : isScalar b) :
  stableJson a ≠ stableJson b
  := by
  have hopen : (stableJson a).head? = some '[' ∨ (stableJson a).head? = some '\x7b' := by
    cases a with
    | array items => exact .inl (by rw [stableJson]; rfl)
    | object fields => exact .inr (by rw [stableJson]; rfl)
    | _ => cases ha
  intro h
  rw [h] at hopen
  cases b with
  | boolean x => cases x <;> simp [stableJson, Value.stringify] at hopen
  | string s => simp [stableJson, Value.stringify, Json.quote] at hopen
  | _ => cases hb

theorem valuesEqual_object {a : Value} (ha : a.isObject) (b : Value) :
  valuesEqual a b ↔ b.isObject ∧ stableJson a = stableJson b
  := by
  unfold valuesEqual
  cases b with
  | undefined => cases a <;> simp_all [Value.strictEqual, Value.isNullish, Value.isObject]
  | null => cases a <;> simp_all [Value.strictEqual, Value.isNullish, Value.isObject]
  | number n =>
    cases a <;> simp_all [Value.strictEqual, Value.isNullish, Value.isObject, Value.isNumber,
      numeric]
  | boolean x =>
    have hne := stableJson_ne (b := .boolean x) ha rfl
    cases a <;> simp_all [Value.strictEqual, Value.isNullish, Value.isObject, Value.isNumber]
  | string s =>
    have hne := stableJson_ne (b := .string s) ha rfl
    cases a <;> simp_all [Value.strictEqual, Value.isNullish, Value.isObject, Value.isNumber]
  | array items =>
    cases a <;> simp_all [Value.strictEqual, Value.isNullish, Value.isObject, Value.isNumber]
  | object fields =>
    cases a <;> simp_all [Value.strictEqual, Value.isNullish, Value.isObject, Value.isNumber]

/-! ### Strings that are one number -/

/-- A string is written like a finite number, in any notation. -/
def Writes (s : Text) (n : Number) : Prop :=
  n.isFinite ∧ normalize s = normalize n.toText

/-- A number that is written in one way before and in another way after it. -/
def Bridges (a b c : Value) : Prop :=
  ∃ (s t : Text) (n : Number), a = .string s ∧ b = .number n ∧ c = .string t
    ∧ Writes s n ∧ Writes t n ∧ s ≠ t

/-- A number, and a string that writes it in another way than its text. -/
def Rewrites (a b : Value) : Prop :=
  ∃ (s : Text) (n : Number), (a = .number n ∧ b = .string s ∨ a = .string s ∧ b = .number n)
    ∧ Writes s n ∧ s ≠ n.toText

theorem number_or_string (hn : n.isFinite) {a : Value} (h : numeric a = normalize n.toText) :
  a = .number n ∨ ∃ s, a = .string s ∧ Writes s n
  := by
  have hsome := isSome_normalize hn
  rw [← h] at hsome
  cases a with
  | number m =>
    have hm : m.isFinite := by
      by_contra hm
      simp [numeric, hm] at hsome
    rw [numeric_number hm] at h
    exact .inl (congrArg Value.number (numeric_injective hm hn h))
  | string s => exact .inr ⟨s, rfl, hn, h⟩
  | _ => cases hsome

theorem kind_cases (a : Value) :
  a.isNullish ∨ (∃ n, a = .number n) ∨ isScalar a ∨ a.isObject
  := by
  cases a with
  | undefined => exact .inl rfl
  | null => exact .inl rfl
  | boolean b => exact .inr (.inr (.inl rfl))
  | number n => exact .inr (.inl ⟨n, rfl⟩)
  | string s => exact .inr (.inr (.inl rfl))
  | array items => exact .inr (.inr (.inr rfl))
  | object fields => exact .inr (.inr (.inr rfl))

theorem valuesEqual_of_scalar (ha : isScalar a) (h : valuesEqual a b) :
  isScalar b ∧ a.toText = b.toText ∨ ∃ (s : Text) (n : Number),
    a = .string s ∧ b = .number n ∧ Writes s n
  := by
  rcases kind_cases b with hb | ⟨n, rfl⟩ | hb | hb
  · rw [valuesEqual_comm, valuesEqual_nullish hb] at h
    cases a <;> simp_all [isScalar, Value.isNullish]
  · right
    rw [valuesEqual_comm] at h
    by_cases hn : n.isFinite
    · rw [valuesEqual_number hn] at h
      rcases number_or_string hn h with rfl | ⟨s, rfl, hs⟩
      · cases ha
      · exact ⟨s, n, rfl, rfl, hs⟩
    · obtain ⟨rfl, -⟩ := (valuesEqual_infinite (Bool.eq_false_iff.mpr hn) a).mp h
      cases ha
  · exact .inl ⟨hb, (valuesEqual_scalar ha hb).mp h⟩
  · rw [valuesEqual_comm, valuesEqual_object hb] at h
    cases a <;> simp_all [isScalar, Value.isObject]

theorem eq_string {a : Value} (ha : isScalar a) {s : Text} (hs : Writes s n) (h : a.toText = s) :
  a = .string s
  := by
  cases a with
  | boolean b =>
    have hsome := isSome_normalize hs.1
    rw [← hs.2, ← h] at hsome
    cases b <;> exact absurd hsome (by decide)
  | string t => exact congrArg Value.string h
  | _ => cases ha

theorem valuesEqual_trans {a b c : Value} (hab : valuesEqual a b) (hbc : valuesEqual b c) :
  valuesEqual a c ↔ ¬Bridges a b c
  := by
  rcases kind_cases b with hb | ⟨n, rfl⟩ | hb | hb
  · have ha : a.isNullish := (valuesEqual_nullish hb a).mp (valuesEqual_comm a b ▸ hab)
    have hc : c.isNullish := (valuesEqual_nullish hb c).mp hbc
    apply iff_of_true ((valuesEqual_nullish ha c).mpr hc)
    rintro ⟨s, t, n, rfl, -⟩
    cases ha
  · rw [valuesEqual_comm] at hab
    by_cases hn : n.isFinite
    · rw [valuesEqual_number hn] at hab hbc
      rcases number_or_string hn hab with rfl | ⟨s, rfl, hs⟩
      · apply iff_of_true ((valuesEqual_number hn c).mpr hbc)
        rintro ⟨s, t, m, hstring, -⟩
        cases hstring
      · rcases number_or_string hn hbc with rfl | ⟨t, rfl, ht⟩
        · apply iff_of_true
          · rw [valuesEqual_comm]
            exact (valuesEqual_number hn _).mpr hab
          · rintro ⟨s, t, m, -, -, hstring, -⟩
            cases hstring
        · rw [valuesEqual_scalar rfl rfl]
          constructor
          · rintro heq ⟨s', t', m, ⟨⟩, -, ⟨⟩, -, -, hne⟩
            exact hne heq
          · intro hbridges
            by_contra hne
            exact hbridges ⟨s, t, n, rfl, rfl, rfl, hs, ht, hne⟩
    · have hinfinite := Bool.eq_false_iff.mpr hn
      obtain ⟨rfl, -⟩ := (valuesEqual_infinite hinfinite a).mp hab
      apply iff_of_true hbc
      rintro ⟨s, t, m, hstring, -⟩
      cases hstring
  · have hbridges : ¬Bridges a b c := by
      rintro ⟨s, t, n, -, rfl, -⟩
      cases hb
    apply iff_of_true _ hbridges
    rw [valuesEqual_comm] at hab
    rcases valuesEqual_of_scalar hb hab with ⟨ha, htexts⟩ | ⟨s, n, rfl, rfl, hs⟩
    · rcases valuesEqual_of_scalar hb hbc with ⟨hc, htexts'⟩ | ⟨s, n, rfl, rfl, hs⟩
      · exact (valuesEqual_scalar ha hc).mpr (htexts.symm.trans htexts')
      · obtain rfl := eq_string ha hs htexts.symm
        exact hbc
    · rcases valuesEqual_of_scalar hb hbc with ⟨hc, htexts⟩ | ⟨s', m, ⟨⟩, rfl, hs'⟩
      · obtain rfl := eq_string hc hs htexts.symm
        exact (valuesEqual_number hs.1 _).mpr hs.2
      · rw [valuesEqual_number hs.1, numeric_number hs'.1, ← hs.2, ← hs'.2]
  · obtain ⟨ha, hjson⟩ := (valuesEqual_object hb a).mp (valuesEqual_comm a b ▸ hab)
    obtain ⟨hc, hjson'⟩ := (valuesEqual_object hb c).mp hbc
    apply iff_of_true ((valuesEqual_object ha c).mpr ⟨hc, hjson.symm.trans hjson'⟩)
    rintro ⟨s, t, n, rfl, -⟩
    cases ha

/-! ### Keys -/

theorem toText_eq_iff (ha : unsafeKey a = false) (hb : unsafeKey b = false) :
  a.toText = b.toText ↔ valuesEqual a b ∧ ¬Rewrites a b
  := by
  constructor
  · intro h
    refine ⟨valuesEqual_of_toText ha hb h, ?_⟩
    rintro ⟨s, n, ⟨rfl, rfl⟩ | ⟨rfl, rfl⟩, -, hne⟩
    · exact hne h.symm
    · exact hne h
  · rintro ⟨h, hrewrites⟩
    have hnumber : ∀ {n : Number} {b : Value}, unsafeKey (.number n) = false →
        valuesEqual (.number n) b → ¬Rewrites (.number n) b → n.toText = b.toText := by
      intro n b hn h hrewrites
      have hfinite : n.isFinite := by simpa [unsafeKey] using hn
      rcases number_or_string hfinite ((valuesEqual_number hfinite b).mp h) with rfl | ⟨s, rfl, hs⟩
      · rfl
      · by_contra hne
        exact hrewrites ⟨s, n, .inl ⟨rfl, rfl⟩, hs, fun heq => hne heq.symm⟩
    rcases kind_cases a with hnull | ⟨n, rfl⟩ | hscalar | hobject
    · cases a <;> simp_all [unsafeKey, Value.isNullish]
    · exact hnumber ha h hrewrites
    · rcases valuesEqual_of_scalar hscalar h with ⟨-, htexts⟩ | ⟨s, n, rfl, rfl, hs⟩
      · exact htexts
      · rw [valuesEqual_comm] at h
        refine (hnumber hb h ?_).symm
        rintro ⟨s', n', hpair, hwrites⟩
        exact hrewrites ⟨s', n', hpair.symm.imp And.symm And.symm, hwrites⟩
    · cases a <;> simp_all [unsafeKey, Value.isObject]

theorem find?_rowKey {keys : List ℕ} {target : List Item} {key : Text} {t : Item}
    (hnodup : (target.map fun item => rowKey item keys).Nodup) (ht : t ∈ target) :
  (target.find? fun item => decide (rowKey item keys = key)) = some t ↔ rowKey t keys = key
  := by
  constructor
  · intro h
    have hkey := List.find?_some h
    exact of_decide_eq_true hkey
  · intro h
    have hsome : (target.find? fun item => decide (rowKey item keys = key)).isSome := by
      rw [List.find?_isSome]
      exact ⟨t, ht, decide_eq_true h⟩
    obtain ⟨found, hfound⟩ := Option.isSome_iff_exists.mp hsome
    have hkey := List.find?_some hfound
    rw [hfound, List.inj_on_of_nodup_map hnodup (List.mem_of_find?_eq_some hfound) ht
      ((of_decide_eq_true hkey).trans h.symm)]

theorem Ready.rowKey_eq_iff {input : CompareInput} {p : Prepared} (h : Ready input p) {s t : Item}
    (hs : s ∈ p.source ++ p.target) (ht : t ∈ p.source ++ p.target)
    (hplain : ∀ i ∈ p.keys, i ∉ s.binary ∧ i ∉ t.binary) :
  Workbench.rowKey s p.keys = Workbench.rowKey t p.keys
    ↔ ∀ i ∈ p.keys, (cellAt s.row i).toText = (cellAt t.row i).toText
  := by
  rw [h.rowKey s hs, h.rowKey t ht, keysText_injective.eq_iff, keyOf, keyOf, List.map_inj_left]
  apply forall₂_congr
  intro i hi
  obtain ⟨hsi, hti⟩ := hplain i hi
  have hlt := h.key_lt i hi
  rw [cellOf_cells (h.row_length s hs ▸ hlt), cellOf_cells (h.row_length t ht ▸ hlt)]
  simp [Cell.keyForm, hsi, hti]

theorem lookup_iff {input : CompareInput} {p : Prepared} {map : List (Text × Item)}
    (hp : prepare input = .ok p) (hmap : targetMap p.keys p.target [] = .ok map) {s t : Item}
    (hs : s ∈ p.source) (ht : t ∈ p.target) (hplain : ∀ i ∈ p.keys, i ∉ s.binary ∧ i ∉ t.binary) :
  map.lookup (rowKey s p.keys) = some t
    ↔ (∀ i ∈ p.keys, valuesEqual (cellAt s.row i) (cellAt t.row i))
      ∧ ∀ i ∈ p.keys, ¬Rewrites (cellAt s.row i) (cellAt t.row i)
  := by
  have hready := prepare_eq_ok.mp hp
  have hs' := List.mem_append_left p.target hs
  have ht' := List.mem_append_right p.source ht
  obtain ⟨⟨hnodup, -⟩, rfl⟩ := targetMap_eq_ok.mp hmap
  rw [List.nil_append, lookup_byKey, find?_rowKey hnodup ht, eq_comm,
    hready.rowKey_eq_iff hs' ht' hplain, ← forall₂_and]
  apply forall₂_congr
  intro i hi
  exact toText_eq_iff (hready.safe s hs' i hi) (hready.safe t ht' i hi)

/-! ### Equality and identity -/

def one : Number :=
  .decimal {
    negative := false, digits := [1], point := 1
    nonempty := Json.one_ne_nil
    head_ne := by decide
    last_ne := by decide
    length_le := by decide
    le_point := by decide
    point_le := by decide }

/-- A key that is the number one before and a string after. -/
def oneInput : CompareInput where
  srcColumns := ["id"]
  srcRows := [[.number one]]
  srcBinaryCells := []
  tgtColumns := ["id"]
  tgtRows := [[.string "1.0"]]
  tgtBinaryCells := []
  pkNames := ["id"]

end Workbench
