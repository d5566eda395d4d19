import Catio.Lib.Text
import Mathlib.Data.List.Lex
import Mathlib.Tactic.IntervalCases

/-!
# Dates of log files

The model of `civil_from_days`, `fmt_date` and `fmt_datetime` of `mcp/mod.rs`, and of their copies in
`server_mcp.rs`.  The date of a day is that of the Gregorian calendar, which is counted out here by
the lengths of years and months, and the texts are in the order of time (`dates_exact`).
-/

namespace Mcp

/-! ### The routines -/

/-- The year, the month and the day of a number of days since 1970-01-01. -/
def civilFromDays (z : ℤ) : ℤ × ℕ × ℕ :=
  let z := z + 719468
  let era := (if z ≥ 0 then z else z - 146096).tdiv 146097
  let doe := z - era * 146097
  let yoe := (doe - doe.tdiv 1460 + doe.tdiv 36524 - doe.tdiv 146096).tdiv 365
  let y := yoe + era * 400
  let doy := doe - (365 * yoe + yoe.tdiv 4 - yoe.tdiv 100)
  let mp := (5 * doy + 2).tdiv 153
  let d := (doy - (153 * mp + 2).tdiv 5 + 1).toNat
  let m := (if mp < 10 then mp + 3 else mp - 9).toNat
  (if m ≤ 2 then y + 1 else y, m, d)

/-- `{n:0width$}`, where the sign counts. -/
def padded (width : ℕ) (n : ℤ) : Text :=
  if n < 0 then '-' :: (Text.ofNat n.natAbs).leftpad (width - 1) '0'
  else (Text.ofNat n.natAbs).leftpad width '0'

/-- The date of a time in seconds. -/
def fmtDate (epoch : ℤ) : Text :=
  let (y, m, d) := civilFromDays (epoch / 86400)
  padded 4 y ++ "-" ++ padded 2 m ++ "-" ++ padded 2 d

/-- The date and the time of day of a time in seconds. -/
def fmtDatetime (epoch : ℤ) : Text :=
  let (y, m, d) := civilFromDays (epoch / 86400)
  let s := epoch % 86400
  padded 4 y ++ "-" ++ padded 2 m ++ "-" ++ padded 2 d ++ "T" ++ padded 2 (s / 3600) ++ ":"
    ++ padded 2 (s % 3600 / 60) ++ ":" ++ padded 2 (s % 60) ++ "Z"

/-- The copy of `civil_from_days` in the server head. -/
def ServerHead.civilFromDays (z : ℤ) : ℤ × ℕ × ℕ :=
  let z := z + 719468
  let era := (if z ≥ 0 then z else z - 146096).tdiv 146097
  let doe := z - era * 146097
  let yoe := (doe - doe.tdiv 1460 + doe.tdiv 36524 - doe.tdiv 146096).tdiv 365
  let y := yoe + era * 400
  let doy := doe - (365 * yoe + yoe.tdiv 4 - yoe.tdiv 100)
  let mp := (5 * doy + 2).tdiv 153
  let d := (doy - (153 * mp + 2).tdiv 5 + 1).toNat
  let m := (if mp < 10 then mp + 3 else mp - 9).toNat
  (if m ≤ 2 then y + 1 else y, m, d)

/-- The copy of `fmt_datetime`. -/
def ServerHead.fmtDatetime (epoch : ℤ) : Text :=
  let (y, m, d) := civilFromDays (epoch / 86400)
  let s := epoch % 86400
  padded 4 y ++ "-" ++ padded 2 m ++ "-" ++ padded 2 d ++ "T" ++ padded 2 (s / 3600) ++ ":"
    ++ padded 2 (s % 3600 / 60) ++ ":" ++ padded 2 (s % 60) ++ "Z"

/-! ### The calendar -/

def isLeap (y : ℕ) : Bool :=
  y % 4 = 0 ∧ (y % 100 ≠ 0 ∨ y % 400 = 0)

/-- The number of days of a month, in a leap year or not. -/
def monthLength (leap : Bool) : ℕ → ℕ
  | 2 => if leap then 29 else 28
  | 4 | 6 | 9 | 11 => 30
  | _ => 31

def daysBeforeMonth (leap : Bool) (m : ℕ) : ℕ :=
  ((List.range m).tail.map (monthLength leap)).sum

def daysBeforeYear : ℕ → ℕ
  | 0 => 0
  | y + 1 => daysBeforeYear y + if isLeap y then 366 else 365

structure IsDate (y m d : ℕ) : Prop where
  month : 1 ≤ m ∧ m ≤ 12
  day : 1 ≤ d ∧ d ≤ monthLength (isLeap y) m

def daysTo (y m d : ℕ) : ℕ :=
  daysBeforeYear y + daysBeforeMonth (isLeap y) m + (d - 1)

def dayNumber (y m d : ℕ) : ℤ :=
  daysTo y m d - daysTo 1970 1 1

theorem isLeap_iff {y : ℕ} :
  isLeap y ↔ y % 4 = 0 ∧ (y % 100 ≠ 0 ∨ y % 400 = 0)
  := decide_eq_true_iff

theorem daysBeforeYear_eq (y : ℕ) :
  daysBeforeYear y + (y + 99) / 100 = 365 * y + (y + 3) / 4 + (y + 399) / 400
  := by
  induction y with
  | zero => rfl
  | succ y ih =>
    rw [daysBeforeYear]
    split
    · rename_i h
      rw [isLeap_iff] at h
      omega
    · rename_i h
      rw [isLeap_iff] at h
      omega

theorem daysTo_epoch :
  daysTo 1970 1 1 = 719528
  := by
  have h := daysBeforeYear_eq 1970
  have hmonth : daysBeforeMonth (isLeap 1970) 1 = 0 := rfl
  rw [daysTo, hmonth]
  omega

/-! ### Eras -/

/-- The days of the years before one, of an era that starts on the first of March. -/
def marchDays (y : ℕ) : ℕ :=
  365 * y + y / 4 - y / 100 + y / 400

theorem daysBeforeYear_succ (y : ℕ) :
  daysBeforeYear (y + 1) = marchDays y + 366
  := by
  have h := daysBeforeYear_eq (y + 1)
  unfold marchDays
  omega

theorem daysBeforeYear_march (y : ℕ) :
  daysBeforeYear y = marchDays y + if isLeap y then 0 else 1
  := by
  have h := daysBeforeYear_succ y
  rw [daysBeforeYear] at h
  split_ifs at h ⊢ <;> omega

theorem marchDays_add (y n : ℕ) :
  marchDays (y + 400 * n) = marchDays y + 146097 * n
  := by
  unfold marchDays
  omega

/-- What is divided by 365 to the year of an era. -/
def spread (doe : ℕ) : ℕ :=
  (doe - doe / 1460) + (doe / 36524 - doe / 36524 / 4)

theorem spread_mono {m n : ℕ} (h : m ≤ n) :
  spread m ≤ spread n
  := by
  have hfour : m / 36524 ≤ n / 36524 := Nat.div_le_div_right h
  unfold spread
  generalize m / 36524 = i at hfour ⊢
  generalize n / 36524 = j at hfour ⊢
  omega

theorem exists_year {doe n : ℕ} (h : doe < marchDays n) :
  ∃ y < n, marchDays y ≤ doe ∧ doe < marchDays (y + 1)
  := by
  induction n with
  | zero => cases h
  | succ n ih =>
    by_cases hn : doe < marchDays n
    · obtain ⟨y, hy, hdays⟩ := ih hn
      exact ⟨y, by omega, hdays⟩
    · exact ⟨n, by omega, by omega, h⟩

theorem spread_bounds :
  ∀ y < 400, 365 * y ≤ spread (marchDays y) ∧ spread (marchDays (y + 1) - 1) < 365 * (y + 1)
  := by decide +kernel

theorem spread_div {doe y : ℕ} (hy : y < 400) (hlow : marchDays y ≤ doe)
    (hhigh : doe < marchDays (y + 1)) :
  spread doe / 365 = y
  := by
  have hfirst := spread_mono hlow
  have hlast : spread doe ≤ spread (marchDays (y + 1) - 1) := spread_mono (by omega)
  have hbounds := spread_bounds y hy
  omega

/-! ### Months -/

theorem months :
  ∀ leap : Bool, ∀ doy < 366, (doy = 365 → leap) →
    let mp := (5 * doy + 2) / 153
    let d := doy - (153 * mp + 2) / 5 + 1
    let m := if mp < 10 then mp + 3 else mp - 9
    (153 * mp + 2) / 5 ≤ doy ∧ mp < 12 ∧ d ≤ monthLength leap m
      ∧ daysBeforeMonth leap m + (d - 1) + (if m ≤ 2 then 306 else 0)
        = doy + (if m ≤ 2 then 0 else if leap then 60 else 59)
  := by decide +kernel

theorem civilFromDays_march {z era : ℤ} {yoe doy : ℕ} (hyoe : yoe < 400)
    (hdoy : marchDays yoe + doy < marchDays (yoe + 1))
    (hz : z + 719468 = era * 146097 + (marchDays yoe + doy : ℕ)) :
  let mp := (5 * doy + 2) / 153
  let m := if mp < 10 then mp + 3 else mp - 9
  (153 * mp + 2) / 5 ≤ doy →
    civilFromDays z = (if m ≤ 2 then yoe + era * 400 + 1 else yoe + era * 400, m,
      doy - (153 * mp + 2) / 5 + 1)
  := by
  intro mp m hfirst
  have hyear : spread (marchDays yoe + doy) / 365 = yoe := spread_div hyoe (by omega) hdoy
  have hmarch : marchDays yoe = 365 * yoe + yoe / 4 - yoe / 100 := by
    unfold marchDays
    omega
  have hsmall : marchDays yoe + doy < 146097 := by
    unfold marchDays at hdoy ⊢
    omega
  generalize hdoe : marchDays yoe + doy = doe at hz hyear hsmall
  have hera : (if z + 719468 ≥ 0 then z + 719468 else z + 719468 - 146096).tdiv 146097 = era := by
    split
    · rw [Int.tdiv_eq_ediv_of_nonneg (by omega)]
      omega
    · have hneg : z + 719468 - 146096 = -(146096 - (z + 719468)) := by omega
      rw [hneg, Int.neg_tdiv, Int.tdiv_eq_ediv_of_nonneg (by omega)]
      omega
  have hday : z + 719468 - era * 146097 = doe := by omega
  have hyears : ((doe : ℤ) - (doe : ℤ).tdiv 1460 + (doe : ℤ).tdiv 36524
      - (doe : ℤ).tdiv 146096).tdiv 365 = yoe := by
    have hfour : doe / 36524 / 4 = doe / 146096 := Nat.div_div_eq_div_mul _ _ _
    rw [spread, hfour] at hyear
    rw [Int.tdiv_eq_ediv_of_nonneg (a := (doe : ℤ)) (by omega),
      Int.tdiv_eq_ediv_of_nonneg (a := (doe : ℤ)) (by omega),
      Int.tdiv_eq_ediv_of_nonneg (a := (doe : ℤ)) (by omega),
      Int.tdiv_eq_ediv_of_nonneg (by omega)]
    omega
  have hdays : (doe : ℤ) - (365 * (yoe : ℤ) + (yoe : ℤ).tdiv 4 - (yoe : ℤ).tdiv 100) = doy := by
    rw [Int.tdiv_eq_ediv_of_nonneg (a := (yoe : ℤ)) (by omega),
      Int.tdiv_eq_ediv_of_nonneg (a := (yoe : ℤ)) (by omega)]
    omega
  have hmonths : (5 * (doy : ℤ) + 2).tdiv 153 = mp := by
    rw [Int.tdiv_eq_ediv_of_nonneg (by omega)]
    omega
  have hmonth : (if (mp : ℤ) < 10 then (mp : ℤ) + 3 else mp - 9).toNat = m := by
    rw [show m = if mp < 10 then mp + 3 else mp - 9 from rfl]
    split_ifs <;> omega
  have hdate : ((doy : ℤ) - (153 * (mp : ℤ) + 2).tdiv 5 + 1).toNat
      = doy - (153 * mp + 2) / 5 + 1 := by
    rw [Int.tdiv_eq_ediv_of_nonneg (by omega)]
    omega
  unfold civilFromDays
  simp only [hera, hday, hyears, hdays, hmonths, hmonth, hdate]

theorem exists_date {z : ℤ} (hz : dayNumber 0 1 1 ≤ z) :
  ∃ y m d : ℕ, civilFromDays z = ((y : ℤ), m, d) ∧ IsDate y m d ∧ dayNumber y m d = z
  := by
  have hzero : daysTo 0 1 1 = 0 := rfl
  rw [dayNumber, hzero, daysTo_epoch] at hz
  obtain ⟨era, doe, hdoe, hz'⟩ : ∃ era : ℤ, ∃ doe : ℕ, doe < 146097
      ∧ z + 719468 = era * 146097 + doe :=
    ⟨(z + 719468) / 146097, ((z + 719468) % 146097).toNat, by omega, by omega⟩
  obtain ⟨yoe, hyoe, hlow, hhigh⟩ := exists_year (n := 400) hdoe
  obtain ⟨doy, rfl⟩ := Nat.exists_eq_add_of_le hlow
  have hdays : ∃ y : ℕ, (y : ℤ) = (yoe : ℤ) + era * 400 + (if doy < 306 then 0 else 1)
      ∧ (daysBeforeYear y : ℤ) = era * 146097 + marchDays yoe
        + if doy < 306 then (if isLeap y then 0 else 1) else 366 := by
    rcases lt_or_ge era 0 with hneg | hpos
    · -- January and February of the year 0
      have hbefore : era = -1 ∧ yoe = 399 ∧ ¬doy < 306 := by
        unfold marchDays at hz' hhigh
        omega
      obtain ⟨rfl, rfl, hlate⟩ := hbefore
      exact ⟨0, by rw [if_neg hlate]; rfl, by rw [if_neg hlate]; rfl⟩
    · obtain ⟨n, rfl⟩ := Int.eq_ofNat_of_zero_le hpos
      have hera := marchDays_add yoe n
      by_cases hearly : doy < 306
      · refine ⟨yoe + 400 * n, by rw [if_pos hearly]; omega, ?_⟩
        rw [if_pos hearly, daysBeforeYear_march]
        split <;> omega
      · refine ⟨yoe + 400 * n + 1, by rw [if_neg hearly]; omega, ?_⟩
        rw [if_neg hearly, daysBeforeYear_succ]
        omega
  obtain ⟨y, hy, hdays⟩ := hdays
  have hleap : doy < 366 ∧ (doy = 365 → isLeap y) := by
    rw [isLeap_iff]
    unfold marchDays at hhigh
    split_ifs at hy <;> omega
  obtain ⟨hfirst, hmp, hday, hcount⟩ := months (isLeap y) doy hleap.1 hleap.2
  have hcivil := civilFromDays_march hyoe hhigh hz' hfirst
  have hmonth : (if (5 * doy + 2) / 153 < 10 then (5 * doy + 2) / 153 + 3
      else (5 * doy + 2) / 153 - 9) ≤ 2 ↔ ¬doy < 306 := by
    split <;> omega
  generalize hm : (if (5 * doy + 2) / 153 < 10 then (5 * doy + 2) / 153 + 3
      else (5 * doy + 2) / 153 - 9) = m at hcivil hday hcount hmonth
  have hyear : (if m ≤ 2 then yoe + era * 400 + 1 else yoe + era * 400) = (y : ℤ) := by
    split_ifs at hy ⊢ <;> omega
  rw [hyear] at hcivil
  refine ⟨y, m, _, hcivil, ⟨by split at hm <;> omega, by omega, hday⟩, ?_⟩
  rw [dayNumber, daysTo_epoch, daysTo]
  split_ifs at hdays hcount <;> omega

/-! ### Order -/

theorem daysBeforeYear_mono {y y' : ℕ} (h : y < y') :
  daysBeforeYear y + (if isLeap y then 366 else 365) ≤ daysBeforeYear y'
  := by
  induction y', h using Nat.le_induction with
  | base => rfl
  | succ n hn ih =>
    rw [daysBeforeYear]
    omega

theorem month_bounds :
  ∀ leap : Bool, ∀ m < 13, (0 < m →
    daysBeforeMonth leap m + monthLength leap m ≤ if leap then 366 else 365)
      ∧ ∀ m' < 13, 0 < m → m < m' →
        daysBeforeMonth leap m + monthLength leap m ≤ daysBeforeMonth leap m'
  := by decide +kernel

theorem daysTo_lt {y m d y' m' d' : ℕ} (h : IsDate y m d) (h' : IsDate y' m' d')
    (hlt : y < y' ∨ y = y' ∧ (m < m' ∨ m = m' ∧ d < d')) :
  daysTo y m d < daysTo y' m' d'
  := by
  have hday := h.day
  obtain ⟨hfirst, hlast⟩ := h.month
  have hmonth := month_bounds (isLeap y) m (by omega)
  unfold daysTo
  obtain hy | ⟨rfl, hm | ⟨rfl, hd⟩⟩ := hlt
  · have hyears := daysBeforeYear_mono hy
    have hdays := hmonth.1 hfirst
    omega
  · have hmonths := hmonth.2 m' (by have := h'.month; omega) hfirst hm
    omega
  · omega

theorem before_iff {y m d y' m' d' : ℕ} (h : IsDate y m d) (h' : IsDate y' m' d') :
  (y < y' ∨ y = y' ∧ (m < m' ∨ m = m' ∧ d < d')) ↔ daysTo y m d < daysTo y' m' d'
  := by
  refine ⟨daysTo_lt h h', fun hlt => ?_⟩
  by_contra hnot
  have hle : (y = y' ∧ m = m' ∧ d = d') ∨ (y' < y ∨ y' = y ∧ (m' < m ∨ m' = m ∧ d' < d)) := by
    omega
  obtain ⟨rfl, rfl, rfl⟩ | hbefore := hle
  · exact hlt.false
  · exact hlt.asymm (daysTo_lt h' h hbefore)

/-- So many digits of a number. -/
def lastDigits : ℕ → ℕ → Text
  | 0, _ => []
  | width + 1, n => lastDigits width (n / 10) ++ [Nat.digitChar (n % 10)]

theorem lastDigits_zero (width : ℕ) :
  lastDigits width 0 = List.replicate width '0'
  := by
  induction width with
  | zero => rfl
  | succ width ih =>
    rw [lastDigits, Nat.zero_div, ih, List.replicate_succ']
    rfl

theorem padded_eq {width n : ℕ} (h : n < 10 ^ (width + 1)) :
  padded (width + 1) n = lastDigits (width + 1) n
  := by
  rw [padded, if_neg (by omega), Int.natAbs_natCast, Text.ofNat, List.leftpad]
  induction width generalizing n with
  | zero =>
    rw [Nat.toDigits_of_lt_base (by omega), lastDigits, Nat.mod_eq_of_lt (by omega)]
    rfl
  | succ width ih =>
    rw [lastDigits]
    by_cases hn : n < 10
    · rw [Nat.toDigits_of_lt_base hn, Nat.div_eq_of_lt hn, lastDigits_zero, Nat.mod_eq_of_lt hn]
      rfl
    · have hn' : n / 10 < 10 ^ (width + 1) := by
        rw [Nat.div_lt_iff_lt_mul (by decide)]
        exact h
      rw [Nat.toDigits_of_base_le (by decide) (by omega), ← ih hn', List.append_assoc,
        List.length_append]
      congr 2
      rw [List.length_singleton]
      omega

theorem lastDigits_lt {width n n' : ℕ} (hlt : n < n') (h' : n' < 10 ^ width) (t t' : Text) :
  lastDigits width n ++ t < lastDigits width n' ++ t'
  := by
  induction width generalizing n n' t t' with
  | zero => omega
  | succ width ih =>
    have hfits : n' / 10 < 10 ^ width := by
      rw [Nat.div_lt_iff_lt_mul (by decide)]
      exact h'
    rw [lastDigits, lastDigits, List.append_assoc, List.append_assoc]
    rcases Nat.lt_or_ge (n / 10) (n' / 10) with hdiv | hdiv
    · exact ih hdiv hfits _ _
    · have heq : n / 10 = n' / 10 := by omega
      have hdigit : n % 10 < n' % 10 := by omega
      have hless : ∀ i < 10, ∀ j < 10, j < i → Nat.digitChar j < Nat.digitChar i := by decide
      rw [heq]
      apply List.append_left_lt
      exact List.Lex.rel (hless _ (Nat.mod_lt _ (by decide)) _ (Nat.mod_lt _ (by decide)) hdigit)

theorem field_lt {width n n' : ℕ} {t t' : Text} (h' : n' < 10 ^ width)
    (hlt : n < n' ∨ n = n' ∧ t < t') :
  lastDigits width n ++ t < lastDigits width n' ++ t'
  := by
  obtain hlt | ⟨rfl, ht⟩ := hlt
  · exact lastDigits_lt hlt h' t t'
  · exact List.append_left_lt ht

/-! ### Times -/

/-- The date of a time is in one of the years from 0 to 9999. -/
def InYears (epoch : ℤ) : Prop :=
  dayNumber 0 1 1 ≤ epoch / 86400 ∧ epoch / 86400 ≤ dayNumber 9999 12 31

theorem year_le {y m d : ℕ} (h : dayNumber y m d ≤ dayNumber 9999 12 31) :
  y ≤ 9999
  := by
  by_contra hlt
  have hyears := daysBeforeYear_mono (not_le.mp hlt)
  have hyear : isLeap 9999 = false := rfl
  have hmonths : daysBeforeMonth false 12 = 334 := rfl
  rw [hyear, if_neg Bool.false_ne_true] at hyears
  have hlast : daysTo 9999 12 31 = daysBeforeYear 9999 + 334 + 30 := by
    rw [daysTo, hyear, hmonths]
  rw [dayNumber, dayNumber, daysTo_epoch, hlast, daysTo] at h
  omega

/-- A date as it is written, before a text. -/
def dateText (y m d : ℕ) (t : Text) : Text :=
  lastDigits 4 y ++ '-' :: (lastDigits 2 m ++ '-' :: (lastDigits 2 d ++ t))

/-- A time of day as it is written. -/
def clockText (s : ℕ) : Text :=
  'T' :: (lastDigits 2 (s / 3600) ++ ':' :: (lastDigits 2 (s % 3600 / 60)
    ++ ':' :: (lastDigits 2 (s % 60) ++ ['Z'])))

theorem day_lt {y m d : ℕ} (h : IsDate y m d) :
  d < 100
  := by
  have hday := h.day
  have hlength : monthLength (isLeap y) m ≤ 31 := by
    unfold monthLength
    split <;> (try split) <;> omega
  omega

theorem exists_texts {epoch : ℤ} (h : InYears epoch) :
  ∃ y m d s : ℕ, y ≤ 9999 ∧ IsDate y m d ∧ s < 86400 ∧ epoch = dayNumber y m d * 86400 + s
    ∧ fmtDate epoch = dateText y m d [] ∧ fmtDatetime epoch = dateText y m d (clockText s)
  := by
  obtain ⟨y, m, d, hcivil, hdate, hnumber⟩ := exists_date h.1
  have hyear : y ≤ 9999 := by
    apply @year_le y m d
    rw [hnumber]
    exact h.2
  have hday := day_lt hdate
  have hmonth := hdate.month
  obtain ⟨s, hs⟩ : ∃ s : ℕ, (s : ℤ) = epoch % 86400 := ⟨(epoch % 86400).toNat, by omega⟩
  have hhour : epoch % 86400 / 3600 = (s / 3600 : ℕ) := by omega
  have hminute : epoch % 86400 % 3600 / 60 = (s % 3600 / 60 : ℕ) := by omega
  have hsecond : epoch % 86400 % 60 = (s % 60 : ℕ) := by omega
  refine ⟨y, m, d, s, hyear, hdate, by omega, by omega, ?_, ?_⟩
  · unfold fmtDate dateText
    rw [hcivil]
    dsimp only
    rw [padded_eq (by omega), padded_eq (by omega), padded_eq (by omega)]
    simp
  · unfold fmtDatetime dateText clockText
    rw [hcivil]
    dsimp only
    rw [hhour, hminute, hsecond, padded_eq (by omega), padded_eq (by omega), padded_eq (by omega),
      padded_eq (by omega), padded_eq (by omega), padded_eq (by omega)]
    simp

theorem dateText_lt {y m d y' m' d' : ℕ} {t t' : Text} (hyear : y' ≤ 9999) (h' : IsDate y' m' d')
    (hlt : y < y' ∨ y = y' ∧ (m < m' ∨ m = m' ∧ (d < d' ∨ d = d' ∧ t < t'))) :
  dateText y m d t < dateText y' m' d' t'
  := by
  have hmonth := h'.month
  have hday := day_lt h'
  have hcons : ∀ {u v : Text}, u < v → '-' :: u < '-' :: v := fun h => List.cons_lt_cons_self.mpr h
  apply field_lt (by omega)
  apply hlt.imp_right
  apply And.imp_right
  intro hlt
  apply hcons
  apply field_lt (by omega)
  apply hlt.imp_right
  apply And.imp_right
  intro hlt
  apply hcons
  exact field_lt (by omega) hlt

theorem clockText_lt {s s' : ℕ} (hlt : s < s') (h' : s' < 86400) :
  clockText s < clockText s'
  := by
  have hcons : ∀ {c : Char} {u v : Text}, u < v → c :: u < c :: v :=
    fun h => List.cons_lt_cons_self.mpr h
  apply hcons
  apply field_lt (by omega)
  have hhour : s / 3600 < s' / 3600 ∨ s / 3600 = s' / 3600 ∧ s % 3600 < s' % 3600 := by omega
  apply hhour.imp_right
  apply And.imp_right
  intro hlt
  apply hcons
  apply field_lt (by omega)
  have hminute : s % 3600 / 60 < s' % 3600 / 60
      ∨ s % 3600 / 60 = s' % 3600 / 60 ∧ s % 60 < s' % 60 := by omega
  apply hminute.imp_right
  apply And.imp_right
  intro hlt
  apply hcons
  exact field_lt (by omega) (.inl hlt)

/-- Every day of the years from 0 to 9999 has its date, the texts of times are in their order, and
the copies agree. -/
theorem dates_exact :
  (∀ z, dayNumber 0 1 1 ≤ z → z ≤ dayNumber 9999 12 31 → ∃ y m d : ℕ,
      civilFromDays z = ((y : ℤ), m, d) ∧ y ≤ 9999 ∧ IsDate y m d ∧ dayNumber y m d = z)
    ∧ (∀ y m d : ℕ, IsDate y m d → civilFromDays (dayNumber y m d) = ((y : ℤ), m, d))
    ∧ (∀ epoch epoch', InYears epoch → InYears epoch' → epoch < epoch' →
      fmtDatetime epoch < fmtDatetime epoch'
        ∧ (fmtDate epoch < fmtDate epoch' ∨ fmtDate epoch = fmtDate epoch'))
    ∧ ServerHead.civilFromDays = civilFromDays ∧ ServerHead.fmtDatetime = fmtDatetime
  := by
  refine ⟨?_, ?_, ?_, rfl, rfl⟩
  · intro z hfirst hlast
    obtain ⟨y, m, d, hcivil, hdate, hnumber⟩ := exists_date hfirst
    exact ⟨y, m, d, hcivil, year_le (hnumber.le.trans hlast), hdate, hnumber⟩
  · intro y m d hdate
    have hzero : daysTo 0 1 1 = 0 := rfl
    obtain ⟨y', m', d', hcivil, hdate', hnumber⟩ := @exists_date (dayNumber y m d) (by
      rw [dayNumber, dayNumber, hzero]
      omega)
    have hsame : daysTo y' m' d' = daysTo y m d := by
      rw [dayNumber, dayNumber, daysTo_epoch] at hnumber
      omega
    have hnot := mt (before_iff hdate hdate').mp hsame.le.not_gt
    have hnot' := mt (before_iff hdate' hdate).mp hsame.ge.not_gt
    obtain ⟨rfl, rfl, rfl⟩ : y = y' ∧ m = m' ∧ d = d' := by omega
    exact hcivil
  · intro epoch epoch' h h' hlt
    obtain ⟨y, m, d, s, -, hdate, hs, hepoch, htext, htime⟩ := exists_texts h
    obtain ⟨y', m', d', s', hyear', hdate', hs', hepoch', htext', htime'⟩ := exists_texts h'
    rw [htext, htime, htext', htime']
    have hdays : daysTo y m d < daysTo y' m' d' ∨ daysTo y m d = daysTo y' m' d' ∧ s < s' := by
      rw [dayNumber, daysTo_epoch] at hepoch hepoch'
      omega
    rcases hdays with hdays | ⟨hdays, hseconds⟩
    · have hbefore := (before_iff hdate hdate').mpr hdays
      have hlater : ∀ t t' : Text, dateText y m d t < dateText y' m' d' t' := fun t t' =>
        dateText_lt hyear' hdate' (hbefore.imp_right (And.imp_right (Or.imp_right (And.imp_right
          Or.inl))))
      exact ⟨hlater _ _, .inl (hlater _ _)⟩
    · have hnot := mt (before_iff hdate hdate').mp hdays.ge.not_gt
      have hnot' := mt (before_iff hdate' hdate).mp hdays.le.not_gt
      obtain ⟨rfl, rfl, rfl⟩ : y = y' ∧ m = m' ∧ d = d' := by omega
      exact ⟨dateText_lt hyear' hdate' (.inr ⟨rfl, .inr ⟨rfl, .inr ⟨rfl,
        clockText_lt hseconds hs'⟩⟩⟩), .inr rfl⟩

end Mcp
