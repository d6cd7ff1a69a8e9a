import Kbox.Solunar.TimeUtil

/-!
# Julian days and dates

`timeutil_JD_to_DMY` takes off the centuries, the years of the century that
begin in March and the months one after the other.  The first two are found by
divisions that are off by one day in the right places: a century of the
calendar and a year of it are a quarter of a day away from being whole.
-/

namespace Kbox.Solunar

open Kbox.Framework

/-! ## §1  The parts of a day's number -/

/-- The days in front of the `n`th century. -/
def centuryDays (n : Int) : Int := 146097 * n / 4

/-- The days in front of the `n`th year of a century. -/
def yearDays (n : Int) : Int := 1461 * n / 4

/-- The day of a year that begins in March, where 1 March is 0. -/
def marchDay (date : GregorianDate) : Int := (153 * date.marchMonth + 2) / 5 + date.day - 1

theorem julianDay_eq (date : GregorianDate) :
    date.julianDay = centuryDays (date.marchYear / 100) + yearDays (date.marchYear % 100) +
      marchDay date - 32044 := by
  unfold GregorianDate.julianDay centuryDays yearDays marchDay
  generalize date.marchYear = y
  have hcentury : 146097 * (y / 100) / 4 = 36524 * (y / 100) + y / 400 := by omega
  have hyear : 1461 * (y % 100) / 4 = 365 * (y % 100) + (y / 4 - 25 * (y / 100)) := by omega
  omega

/-- 29 February is the last day of a year that begins in March. -/
theorem marchDay_range (date : GregorianDate) :
    0 ≤ marchDay date ∧ (marchDay date ≤ 364 ∨
      marchDay date = 365 ∧ date.marchYear % 4 = 3 ∧
        (date.marchYear % 100 = 99 → date.marchYear / 100 % 4 = 3)) := by
  obtain ⟨year, month, day, ⟨hlo, hhi⟩, hday⟩ := date
  simp only [marchDay, GregorianDate.marchMonth, GregorianDate.marchYear]
  unfold monthLength at hday
  by_cases hleap : IsLeap year
  · rw [if_pos hleap] at hday
    unfold IsLeap at hleap
    interval_cases month <;> simp at hday ⊢ <;> omega
  · rw [if_neg hleap] at hday
    unfold IsLeap at hleap
    interval_cases month <;> simp at hday ⊢ <;> omega

/-- A century is found. -/
theorem century_of {c g : Int} (hlo : 0 ≤ g) (hhi : g ≤ 36523 ∨ g = 36524 ∧ c % 4 = 3) :
    4 * (centuryDays c + g + 36525) / 146097 = c + 1 := by
  unfold centuryDays
  omega

/-- A year of the century is found. -/
theorem year_of {y e : Int} (hy : 0 ≤ y ∧ y ≤ 99) (hlo : 0 ≤ e)
    (hhi : e ≤ 364 ∨ e = 365 ∧ y % 4 = 3) :
    4000 * (yearDays y + e + 1) / 1461001 = y := by
  unfold yearDays
  omega

/-- The month and the day are found. -/
theorem month_of {m d : Int} (hm : 0 ≤ m ∧ m ≤ 11) (hd : 1 ≤ d ∧ d ≤ 31)
    (hshort : m = 1 ∨ m = 3 ∨ m = 6 ∨ m = 8 ∨ m = 11 → d ≤ 30) :
    80 * ((153 * m + 2) / 5 + d - 1 + 31) / 2447 = m + 1 ∧
      (153 * m + 2) / 5 + d - 1 + 31 - 2447 * (m + 1) / 80 = d := by
  obtain ⟨hlo, hhi⟩ := hm
  interval_cases m <;> omega

/-! ## §2  From a number to a date -/

theorem tdiv_of_nonneg {a : Int} (h : 0 ≤ a) (b : Int) : a.tdiv b = a / b :=
  Int.tdiv_eq_ediv_of_nonneg h

/-- Months of 30 days, and February, in a year that begins in March. -/
theorem day_le_thirty (date : GregorianDate) (h : date.marchMonth = 1 ∨ date.marchMonth = 3 ∨
    date.marchMonth = 6 ∨ date.marchMonth = 8 ∨ date.marchMonth = 11) : date.day ≤ 30 := by
  obtain ⟨year, month, day, ⟨hlo, hhi⟩, hday⟩ := date
  simp only [GregorianDate.marchMonth] at h
  unfold monthLength at hday
  show day ≤ 30
  split_ifs at h hday <;> omega

theorem marchMonth_range (date : GregorianDate) :
    0 ≤ date.marchMonth ∧ date.marchMonth ≤ 11 := by
  have hmonth := date.month_range
  unfold GregorianDate.marchMonth
  split_ifs <;> omega

/-- The year and the month of a date from those that begin in March. -/
theorem date_of_march (date : GregorianDate) :
    date.marchMonth + 3 - 12 * ((date.marchMonth + 1) / 11) = date.month ∧
      date.marchYear - 4800 + (date.marchMonth + 1) / 11 = date.year := by
  have hmonth := date.month_range
  unfold GregorianDate.marchMonth GregorianDate.marchYear
  split_ifs <;> omega

/-- The reform of the calendar was in the year 6382 from 4801 BC. -/
theorem marchYear_large {date : GregorianDate} (h : 2299161 ≤ date.julianDay) :
    4810 ≤ date.marchYear := by
  have hmonth := marchMonth_range date
  have hday := date.day_range
  have hlength := GregorianDate.monthLength_le date.year date.month
  unfold GregorianDate.julianDay at h
  by_contra hsmall
  omega

/-- The day's number is an `int`, and four times what is left of it a `long`; where a `long` is
longer than an `int`, the second says nothing. -/
def InInt (longMax n : Int) : Prop := n ≤ intMax ∧ 4 * (n + 68569) + 3 ≤ longMax

instance (longMax n : Int) : Decidable (InInt longMax n) := inferInstanceAs (Decidable (_ ∧ _))

/-- **The date of a day** from the reform of the calendar on. -/
theorem timeutil_JD_to_DMY_of {longMax : Int} (date : GregorianDate)
    (h : 2299161 ≤ date.julianDay) (hint : InInt longMax date.julianDay) {frac : ℚ}
    (hlo : 0 ≤ frac) (hhi : frac < 1) :
    timeutil_JD_to_DMY longMax (date.julianDay - 1 / 2 + frac) =
      some (date.year, date.month, date.day) := by
  have hfloor : ⌊(date.julianDay : ℚ) - 1 / 2 + frac + 1 / 2⌋ = date.julianDay := by
    rw [Int.floor_eq_iff]
    constructor <;> linarith
  have hgregorian : ¬ date.julianDay ≤ lastJulJDN := by
    unfold lastJulJDN
    omega
  have hyear := marchYear_large h
  obtain ⟨hmarchDay, hlastDay⟩ := marchDay_range date
  have hmonths := marchMonth_range date
  have hday := date.day_range
  have hlength := GregorianDate.monthLength_le date.year date.month
  have hcentury := julianDay_eq date
  -- the day of the century, and of the year
  have hyearDays : 0 ≤ yearDays (date.marchYear % 100) ∧
      yearDays (date.marchYear % 100) ≤ 36159 := by
    unfold yearDays
    omega
  have hdayOfCentury : yearDays (date.marchYear % 100) + marchDay date ≤ 36523 ∨
      yearDays (date.marchYear % 100) + marchDay date = 36524 ∧ date.marchYear / 100 % 4 = 3 := by
    rcases hlastDay with hle | ⟨heq, _, hcenturies⟩
    · left
      omega
    · by_cases hlast : date.marchYear % 100 = 99
      · right
        rw [hlast, heq]
        exact ⟨rfl, hcenturies hlast⟩
      · left
        unfold yearDays
        omega
  have hz := century_of (c := date.marchYear / 100) (by omega) hdayOfCentury
  have hy := year_of (y := date.marchYear % 100) (by omega) hmarchDay (by
    rcases hlastDay with hle | ⟨heq, hfour, _⟩
    · exact .inl hle
    · exact .inr ⟨heq, by omega⟩)
  obtain ⟨hm, hd⟩ := month_of hmonths (by omega) (day_le_thirty date)
  obtain ⟨hmonth, hyear'⟩ := date_of_march date
  -- the passes of the algorithm
  have hx : date.julianDay + 68569 = centuryDays (date.marchYear / 100) +
      (yearDays (date.marchYear % 100) + marchDay date) + 36525 := by omega
  have h₁ : (4 * (date.julianDay + 68569)).tdiv 146097 = date.marchYear / 100 + 1 := by
    rw [tdiv_of_nonneg (by omega), hx]
    exact hz
  have h₂ : date.julianDay + 68569 - (146097 * (date.marchYear / 100 + 1) + 3).tdiv 4 =
      yearDays (date.marchYear % 100) + marchDay date := by
    rw [tdiv_of_nonneg (by omega), hx]
    unfold centuryDays
    omega
  have h₃ : (4000 * (yearDays (date.marchYear % 100) + marchDay date + 1)).tdiv (1460970 + 31) =
      date.marchYear % 100 := by
    rw [tdiv_of_nonneg (by omega)]
    exact hy
  have h₄ : yearDays (date.marchYear % 100) + marchDay date -
      (1461 * (date.marchYear % 100)).tdiv 4 + 31 = marchDay date + 31 := by
    rw [tdiv_of_nonneg (by omega)]
    unfold yearDays
    omega
  have h₅ : (80 * (marchDay date + 31)).tdiv 2447 = date.marchMonth + 1 := by
    rw [tdiv_of_nonneg (by omega)]
    exact hm
  have h₆ : marchDay date + 31 - (2447 * (date.marchMonth + 1)).tdiv 80 = date.day := by
    rw [tdiv_of_nonneg (by omega)]
    exact hd
  have h₇ : (date.marchMonth + 1).tdiv 11 = (date.marchMonth + 1) / 11 :=
    tdiv_of_nonneg (by omega) 11
  have hmonth' : date.marchMonth + 1 + 2 - 12 * ((date.marchMonth + 1) / 11) = date.month := by
    omega
  have hyear'' : 100 * (date.marchYear / 100 + 1 - 49) + date.marchYear % 100 +
      (date.marchMonth + 1) / 11 = date.year := by omega
  -- nothing that is computed leaves its type
  obtain ⟨hfits, hlong⟩ := hint
  have hs₁ : signed intMax date.julianDay = some date.julianDay :=
    signed_of (by unfold intMax; omega) hfits
  have hs₂ : signed longMax (date.julianDay + 68569) = some (date.julianDay + 68569) :=
    signed_of (by omega) (by omega)
  have hs₃ : signed longMax (4 * (date.julianDay + 68569)) =
      some (4 * (date.julianDay + 68569)) := signed_of (by omega) (by omega)
  have hs₄ : signed longMax (146097 * (date.marchYear / 100 + 1) + 3) =
      some (146097 * (date.marchYear / 100 + 1) + 3) := signed_of (by omega) (by omega)
  unfold timeutil_JD_to_DMY
  simp only [hfloor, hs₁, hgregorian, decide_false, Bool.false_eq_true, if_false,
    Option.bind_eq_bind, Option.bind_some, hs₂, hs₃, h₁, hs₄, h₂, h₃, h₄, h₅, h₆, h₇, hmonth',
    hyear'']
  rw [if_neg (by omega)]
  rfl

/-! ## §3  There and back -/

/-- From the day on that followed 4 October 1582. -/
def AfterReform (date : GregorianDate) : Prop :=
  1582 < date.year ∨ date.year = 1582 ∧ (10 < date.month ∨ date.month = 10 ∧ 15 ≤ date.day)

def reform : GregorianDate := ⟨1582, 10, 15, by decide, by decide⟩

theorem julianDay_reform : reform.julianDay = 2299161 := by decide

theorem julianDay_of_afterReform {date : GregorianDate} (h : AfterReform date) :
    2299161 ≤ date.julianDay := by
  obtain ⟨year, month, day, ⟨hlo, hhi⟩, hday⟩ := date
  have hlength := GregorianDate.monthLength_le year month
  unfold AfterReform at h
  simp only [GregorianDate.julianDay, GregorianDate.marchYear, GregorianDate.marchMonth] at h ⊢
  split_ifs <;> omega

/-- **Dates and Julian days** are in bijection from the reform of the calendar on, as long as
the day's number is an `int`. -/
theorem julian_day_round_trip (longMax : Int) :
    (∀ date : GregorianDate, AfterReform date → InInt longMax date.julianDay →
      ∀ hour min : Int, 0 ≤ hour ∧ hour ≤ 23 → 0 ≤ min ∧ min ≤ 59 →
        timeutil_JD_to_DMY longMax
            (timeutil_ymdhms_to_JD date.year date.month date.day hour min 0) =
          some (date.year, date.month, date.day)) ∧
    ∀ n : Int, 2299161 ≤ n → InInt longMax n → ∃ date : GregorianDate,
      timeutil_JD_to_DMY longMax n = some (date.year, date.month, date.day) ∧
      timeutil_ymdhms_to_JD date.year date.month date.day 0 0 0 = n - 1 / 2 := by
  constructor
  · intro date hafter hint hour min hhour hmin
    have hbounds : (0 : ℚ) ≤ ((hour : ℚ) + (min : ℚ) / 60) / 24 ∧
        ((hour : ℚ) + (min : ℚ) / 60) / 24 < 1 := by
      have h₀ : (0 : ℚ) ≤ hour := by exact_mod_cast hhour.1
      have h₁ : (hour : ℚ) ≤ 23 := by exact_mod_cast hhour.2
      have h₂ : (0 : ℚ) ≤ min := by exact_mod_cast hmin.1
      have h₃ : (min : ℚ) ≤ 59 := by exact_mod_cast hmin.2
      constructor <;> linarith
    rw [timeutil_ymdhms_to_JD_eq]
    exact timeutil_JD_to_DMY_of date (julianDay_of_afterReform hafter) hint hbounds.1 hbounds.2
  · intro n hn hint
    obtain ⟨date, hdate⟩ := GregorianDate.exists_julianDay reform (n - 2299161).toNat
    rw [julianDay_reform] at hdate
    have hn' : date.julianDay = n := by omega
    refine ⟨date, ?_, ?_⟩
    · have hnoon : (0 : ℚ) ≤ 1 / 2 ∧ (1 : ℚ) / 2 < 1 := by norm_num
      have hday := timeutil_JD_to_DMY_of date (by omega) (hn'.symm ▸ hint) hnoon.1 hnoon.2
      rw [hn', sub_add_cancel] at hday
      exact hday
    · rw [timeutil_ymdhms_to_JD_eq, hn']
      norm_num

/-- The greatest `long` of 64 bits. -/
def long64 : Int := 2 ^ 63 - 1

theorem julian_day_round_trip_leap_day :
    timeutil_JD_to_DMY long64 (timeutil_ymdhms_to_JD 2000 2 29 23 59 0) = some (2000, 2, 29) :=
  (julian_day_round_trip long64).1 ⟨2000, 2, 29, by decide, by decide⟩ (.inl (by decide))
    (by decide) 23 59 (by decide) (by decide)

/-- The first day whose number is no `int`, and its date. -/
theorem no_date_beyond_int : timeutil_JD_to_DMY long64 2147483648 = none ∧
    timeutil_JD_to_DMY long64 (timeutil_ymdhms_to_JD 5874898 6 4 0 0 0) = none := by
  have hbeyond {jd : ℚ} (h : ⌊jd + 1 / 2⌋ = 2147483648) :
      timeutil_JD_to_DMY long64 jd = none := by
    unfold timeutil_JD_to_DMY
    rw [h, signed_of_lt (by decide)]
    rfl
  refine ⟨hbeyond (by norm_num), hbeyond ?_⟩
  have hday := timeutil_ymdhms_to_JD_eq ⟨5874898, 6, 4, by decide, by decide⟩ 0 0 0
  rw [show GregorianDate.julianDay ⟨5874898, 6, 4, by decide, by decide⟩ = 2147483648 by decide]
    at hday
  rw [hday]
  norm_num

end Kbox.Solunar
