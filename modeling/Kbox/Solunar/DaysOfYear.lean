import Kbox.Solunar.Weekdays

/-!
# The two functions for the day of the year

`timeutil_getDayOfYear` is a closed formula whose leap years are all the years divisible by four;
`timeutil_get_day_of_year` adds up months whose lengths follow the full rule.
-/

namespace Kbox.Solunar

open Kbox.Framework

/-- `timeutil_getDayOfYear`.  No sum comes near the range of an `int`. -/
def timeutil_getDayOfYear (year month day : Int) : Int :=
  let N1 := (275 * month).tdiv 9
  let N2 := (month + 9).tdiv 12
  let N3 := 1 + (year - 4 * year.tdiv 4 + 2).tdiv 3
  N1 - N2 * N3 + day - 30

/-- The days that the formula takes off for February, from March on. -/
theorem timeutil_getDayOfYear_eq {year month : Int} (hyear : 0 ≤ year)
    (hmonth : 1 ≤ month ∧ month ≤ 12) (day : Int) : timeutil_getDayOfYear year month day =
      275 * month / 9 + day - 30 -
        (if month ≤ 2 then 0 else if year % 4 = 0 then 1 else 2) := by
  have hfour : (year - 4 * year.tdiv 4 + 2).tdiv 3 = if year % 4 = 0 then 0 else 1 := by
    rw [Int.tdiv_eq_ediv_of_nonneg hyear, Int.tdiv_eq_ediv_of_nonneg (by omega)]
    split_ifs <;> omega
  have hlate : (month + 9).tdiv 12 = if month ≤ 2 then 0 else 1 := by
    rw [Int.tdiv_eq_ediv_of_nonneg (by omega)]
    split_ifs <;> omega
  have hmonths : (275 * month).tdiv 9 = 275 * month / 9 := Int.tdiv_eq_ediv_of_nonneg (by omega)
  simp only [timeutil_getDayOfYear, hfour, hlate, hmonths]
  split_ifs <;> omega

/-- The days of a year in front of a date, by the rule of the calendar. -/
theorem julianDay_sub_firstJan (date : GregorianDate) : 1 + (date.julianDay -
      (GregorianDate.firstOfMonth date.year 1 (by decide)).julianDay) =
    275 * date.month / 9 + date.day - 30 -
      (if date.month ≤ 2 then 0 else if IsLeap date.year then 1 else 2) := by
  rw [GregorianDate.julianDay_eq_firstDay]
  unfold GregorianDate.firstDay daysBefore
  omega

/-- **The two days of the year** are the same except from March on in the years that the calendar
skips: those divisible by 100 and not by 400. -/
theorem day_of_year_agrees_iff (date : GregorianDate) (hyear : 1 ≤ date.year) :
    timeutil_getDayOfYear date.year date.month date.day =
        timeutil_get_day_of_year date.year date.month date.day ↔
      date.month ≤ 2 ∨ ¬ (date.year % 100 = 0 ∧ date.year % 400 ≠ 0) := by
  rw [timeutil_getDayOfYear_eq (by omega) date.month_range,
    timeutil_get_day_of_year_eq date (by omega), julianDay_sub_firstJan]
  by_cases hearly : date.month ≤ 2
  · rw [if_pos hearly, if_pos hearly]
    exact ⟨fun _ => .inl hearly, fun _ => rfl⟩
  · rw [if_neg hearly, if_neg hearly]
    unfold IsLeap
    constructor
    · intro heq
      right
      split_ifs at heq <;> omega
    · rintro (hmonth | hcentury)
      · exact absurd hmonth hearly
      · split_ifs <;> omega

theorem day_of_year_agrees_iff_leap_day :
    timeutil_getDayOfYear 2000 2 29 = timeutil_get_day_of_year 2000 2 29 ↔
      (2 : Int) ≤ 2 ∨ ¬ ((2000 : Int) % 100 = 0 ∧ (2000 : Int) % 400 ≠ 0) :=
  day_of_year_agrees_iff ⟨2000, 2, 29, by decide, by decide⟩ (by decide)

/-- 1 March 1900 is day 60, and the formula says 61. -/
theorem day_of_year_disagrees :
    ¬ ∀ date : GregorianDate, 1 ≤ date.year →
      timeutil_getDayOfYear date.year date.month date.day =
        timeutil_get_day_of_year date.year date.month date.day := by
  intro h
  have hmarch := h ⟨1900, 3, 1, by decide, by decide⟩ (by decide)
  rw [timeutil_getDayOfYear_eq (by decide) (by decide), timeutil_get_day_of_year_eq _ (by decide),
    julianDay_sub_firstJan] at hmarch
  exact absurd hmarch (by decide)

end Kbox.Solunar
