import Kbox.Framework.CivilDays
import Kbox.Solunar.TimeUtil

/-!
# Days of the week

The day of the week is counted from the first day of the year by adding up
months, and the days in front of a year by a formula of their own.  Both agree
with the Julian day, whose remainder by 7 is the weekday.
-/

namespace Kbox.Solunar

open Kbox.Framework

/-- No sum in `timeutil_get_day_of_week_of_first_jan` leaves the range of an `int`. -/
def YearFits (year : Int) : Prop := 365 * year + (year - 1) / 4 ≤ intMax

instance (year : Int) : Decidable (YearFits year) := by
  unfold YearFits
  infer_instance

/-! ## §1  Days of the year -/

theorem timeutil_is_leap_year_iff {year : Int} (h : 0 ≤ year) :
    timeutil_is_leap_year year = true ↔ IsLeap year := by
  unfold timeutil_is_leap_year IsLeap
  rw [decide_eq_true_iff, Int.tmod_eq_emod_of_nonneg h, Int.tmod_eq_emod_of_nonneg h,
    Int.tmod_eq_emod_of_nonneg h]
  exact and_comm

theorem timeutil_get_days_in_month_eq {year month : Int} (hyear : 0 ≤ year)
    (hmonth : 1 ≤ month ∧ month ≤ 12) :
    timeutil_get_days_in_month year month = monthLength year month := by
  have hleap := timeutil_is_leap_year_iff hyear
  unfold timeutil_get_days_in_month monthLength
  simp only [hleap]
  obtain ⟨hlo, hhi⟩ := hmonth
  interval_cases month <;> rfl

/-- The loop of `timeutil_get_day_of_year` adds up the days in front of a month. -/
theorem daysOfMonths_eq {year : Int} (hyear : 0 ≤ year) {n : Nat} (hn : n ≤ 11) :
    0 ≤ daysOfMonths year n ∧ daysOfMonths year n ≤ 31 * n ∧
      daysOfMonths year n =
        (GregorianDate.firstOfMonth year (n + 1) (by omega)).julianDay -
          (GregorianDate.firstOfMonth year 1 (by decide)).julianDay := by
  induction n with
  | zero =>
      refine ⟨Int.le_refl 0, Int.le_refl 0, ?_⟩
      show (0 : Int) = (GregorianDate.firstOfMonth year 1 _).julianDay - _
      rw [Int.sub_self]
  | succ n ih =>
      obtain ⟨hlo, hhi, hdays⟩ := ih (by omega)
      have hmonth : timeutil_get_days_in_month year (n + 1) = monthLength year (n + 1) :=
        timeutil_get_days_in_month_eq hyear (by omega)
      have hone := GregorianDate.one_le_monthLength year (n + 1)
      have hlength := GregorianDate.monthLength_le year (n + 1)
      have hsum : daysOfMonths year (n + 1) = daysOfMonths year n + monthLength year (n + 1) := by
        rw [daysOfMonths, hmonth]
        exact iadd_of_isInt (by unfold IsInt; omega)
      have hrange : 1 ≤ (n : Int) + 1 ∧ (n : Int) + 1 < 12 := by omega
      have hnext : (GregorianDate.firstOfMonth year (n + 1 + 1) (by omega)).julianDay =
          (GregorianDate.firstOfMonth year (n + 1) (by omega)).julianDay +
            monthLength year (n + 1) := GregorianDate.julianDay_firstOfMonth hrange
      rw [hsum]
      refine ⟨by omega, by push_cast; omega, ?_⟩
      push_cast
      rw [hnext, hdays]
      omega

theorem timeutil_get_day_of_year_eq (date : GregorianDate) (hyear : 0 ≤ date.year) :
    timeutil_get_day_of_year date.year date.month date.day = 1 + (date.julianDay -
      (GregorianDate.firstOfMonth date.year 1 (by decide)).julianDay) := by
  have hmonth := date.month_range
  have hday := date.day_range
  have hlength := GregorianDate.monthLength_le date.year date.month
  have hn : (date.month - 1).toNat ≤ 11 := by omega
  obtain ⟨hlo, hhi, hdays⟩ := daysOfMonths_eq hyear hn
  have hfirst : (((date.month - 1).toNat : Nat) : Int) + 1 = date.month := by omega
  simp only [hfirst] at hdays
  unfold timeutil_get_day_of_year
  rw [iadd_of_isInt (by unfold IsInt; omega), hdays, GregorianDate.julianDay_of_month date]
  omega

/-! ## §2  Days of the week -/

/-- The days that the formula has in front of a year, and one. -/
def daysToYear (year : Int) : Int :=
  365 * year + (year - 1) / 4 - (year - 1) / 100 + (year - 1) / 400

theorem julianDay_firstJan (year : Int) :
    (GregorianDate.firstOfMonth year 1 (by decide)).julianDay = daysToYear year + 1721061 :=
  GregorianDate.firstDay_eq year

theorem timeutil_get_day_of_week_of_first_jan_eq {year : Int} (hyear : 1 ≤ year)
    (hfits : YearFits year) :
    timeutil_get_day_of_week_of_first_jan year false = daysToYear year % 7 + 1 ∧
      timeutil_get_day_of_week_of_first_jan year true = (daysToYear year - 1) % 7 + 1 := by
  unfold YearFits intMax at hfits
  have h365 : imul 365 year = 365 * year := imul_of_isInt (by unfold IsInt; omega)
  have hone : isub year 1 = year - 1 := isub_of_isInt (by unfold IsInt; omega)
  have hpos : 0 ≤ year - 1 := by omega
  have h4 : iadd (365 * year) ((year - 1) / 4) = 365 * year + (year - 1) / 4 :=
    iadd_of_isInt (by unfold IsInt; omega)
  have h100 : isub (365 * year + (year - 1) / 4) ((year - 1) / 100) =
      365 * year + (year - 1) / 4 - (year - 1) / 100 := isub_of_isInt (by unfold IsInt; omega)
  have h400 : iadd (365 * year + (year - 1) / 4 - (year - 1) / 100) ((year - 1) / 400) =
      daysToYear year := iadd_of_isInt (by unfold IsInt; omega)
  have hdays : 365 ≤ daysToYear year ∧ daysToYear year ≤ 2147483647 := by
    have hcenturies : (year - 1) / 100 ≤ (year - 1) / 4 := by omega
    have hfours : 0 ≤ (year - 1) / 400 ∧ (year - 1) / 400 ≤ (year - 1) / 100 := by omega
    unfold daysToYear
    omega
  have hless : isub (daysToYear year) 1 = daysToYear year - 1 :=
    isub_of_isInt (by unfold IsInt; omega)
  unfold timeutil_get_day_of_week_of_first_jan
  simp only [h365, hone, Int.tdiv_eq_ediv_of_nonneg hpos, h4, h100, h400, hless,
    Bool.false_eq_true, if_false, if_true]
  rw [Int.tmod_eq_emod_of_nonneg (by omega), Int.tmod_eq_emod_of_nonneg (by omega)]
  exact ⟨iadd_of_isInt (by unfold IsInt; omega), iadd_of_isInt (by unfold IsInt; omega)⟩

/-- The weekday of a date. -/
theorem timeutil_get_day_of_week_eq (date : GregorianDate) (hyear : 1 ≤ date.year)
    (hfits : YearFits date.year) :
    timeutil_get_day_of_week date.year date.month date.day false = (date.julianDay + 1) % 7 ∧
      timeutil_get_day_of_week date.year date.month date.day true = date.julianDay % 7 := by
  obtain ⟨hsunday, hmonday⟩ := timeutil_get_day_of_week_of_first_jan_eq hyear hfits
  have hdayOfYear := timeutil_get_day_of_year_eq date (by omega)
  have hfirst := julianDay_firstJan date.year
  have hrange : 0 ≤ date.julianDay - (daysToYear date.year + 1721061) ∧
      date.julianDay - (daysToYear date.year + 1721061) ≤ 400 := by
    obtain ⟨hlo, hhi, hdays⟩ := daysOfMonths_eq (show 0 ≤ date.year by omega)
      (show (date.month - 1).toNat ≤ 11 by have := date.month_range; omega)
    have hmonth := date.month_range
    have hday := date.day_range
    have hlength := GregorianDate.monthLength_le date.year date.month
    have hcount : (((date.month - 1).toNat : Nat) : Int) + 1 = date.month := by omega
    simp only [hcount] at hdays
    rw [GregorianDate.julianDay_of_month date]
    omega
  rw [hfirst] at hdayOfYear
  unfold timeutil_get_day_of_week
  simp only [hdayOfYear, hsunday, hmonday]
  have hfromZero : isub (1 + (date.julianDay - (daysToYear date.year + 1721061))) 1 =
      date.julianDay - (daysToYear date.year + 1721061) := by
    rw [isub_of_isInt (by unfold IsInt; omega)]
    omega
  have hweek (r : Int) : isub (r % 7 + 1) 1 = r % 7 := by
    rw [isub_of_isInt (by unfold IsInt; omega)]
    omega
  have hsum (r : Int) : (iadd (date.julianDay - (daysToYear date.year + 1721061)) (r % 7)).tmod 7 =
      (date.julianDay - (daysToYear date.year + 1721061) + r % 7) % 7 := by
    rw [iadd_of_isInt (by unfold IsInt; omega), Int.tmod_eq_emod_of_nonneg (by omega)]
  rw [hfromZero, hweek, hweek, hsum, hsum]
  constructor <;> omega

/-- **Weekdays and Julian days agree**, and so do days of the year. -/
theorem weekday_of_julian_day (date : GregorianDate) (hyear : 1 ≤ date.year)
    (hfits : YearFits date.year) :
    ∃ J : Int, timeutil_ymdhms_to_JD date.year date.month date.day 0 0 0 + 1 / 2 = J ∧
      timeutil_get_day_of_week date.year date.month date.day false = (J + 1) % 7 ∧
      timeutil_get_day_of_week date.year date.month date.day true = J % 7 ∧
      (timeutil_get_day_of_year date.year date.month date.day : ℚ) =
        1 + (timeutil_ymdhms_to_JD date.year date.month date.day 0 0 0 -
          timeutil_ymdhms_to_JD date.year 1 1 0 0 0) := by
  obtain ⟨hsunday, hmonday⟩ := timeutil_get_day_of_week_eq date hyear hfits
  have hJD := timeutil_ymdhms_to_JD_eq date 0 0 0
  have hfirst : timeutil_ymdhms_to_JD date.year 1 1 0 0 0 = _ :=
    timeutil_ymdhms_to_JD_eq (GregorianDate.firstOfMonth date.year 1 (by decide)) 0 0 0
  refine ⟨date.julianDay, ?_, hsunday, hmonday, ?_⟩
  · rw [hJD]
    push_cast
    ring
  · rw [hJD, hfirst, timeutil_get_day_of_year_eq date (by omega)]
    push_cast
    ring

theorem weekday_of_julian_day_christmas :
    ∃ J : Int, timeutil_ymdhms_to_JD 2000 12 25 0 0 0 + 1 / 2 = J ∧
      timeutil_get_day_of_week 2000 12 25 false = (J + 1) % 7 :=
  have ⟨J, hJ, hsunday, _⟩ := weekday_of_julian_day ⟨2000, 12, 25, by decide, by decide⟩
    (by decide) (by decide)
  ⟨J, hJ, hsunday⟩

end Kbox.Solunar
