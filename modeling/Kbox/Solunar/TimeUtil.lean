import Mathlib.Algebra.Order.Floor.Ring
import Mathlib.Data.Rat.Floor
import Kbox.Framework.Gregorian
import Kbox.Framework.JavaInt

/-!
# `timeutil.c`

The calendar functions.  Those that compute with `double` do so exactly here,
in the rational numbers; `int` wraps around, and `/` and `%` truncate.
-/

namespace Kbox.Solunar

open Kbox.Framework

/-! ## Julian days -/

/-- `timeutil_ymdhms_to_JD`, which does not look at the seconds. -/
def timeutil_ymdhms_to_JD (year month day hour min _sec : Int) : ℚ :=
  let year : ℚ := year
  let month : ℚ := month
  let day : ℚ := (day - 1 : Int)
  let a : ℚ := ⌊(14 - month) / 12⌋
  let y := year + 4800 - a
  let m := month + 12 * a - 3
  let res := day + ⌊(153 * m + 2) / 5⌋ + 365 * y + ⌊y / 4⌋ - ⌊y / 100⌋ + ⌊y / 400⌋ - 32045 + 1 / 2
  let hours : ℚ := hour + (min : ℚ) / 60
  res + hours / 24

/-- `LASTJULJDN` -/
def lastJulJDN : Int := 2299160

/-- A value of a signed type with the greatest value `max`; any other is undefined. -/
def signed (max v : Int) : Option Int := if -max - 1 ≤ v ∧ v ≤ max then some v else none

/-- `timeutil_JD_to_DMY`: the year, the month and the day.  The day's number is an `int`, and
`longMax` is the greatest `long`. -/
def timeutil_JD_to_DMY (longMax : Int) (jd : ℚ) : Option (Int × Int × Int) := do
  let jdn ← signed intMax ⌊jd + 1 / 2⌋ -- Convert astronomical JDN to chronological
  let julian : Bool := jdn ≤ lastJulJDN
  let x ← signed longMax (jdn + 68569)
  let x ← if julian then signed longMax (x + 38) else some x
  let daysPer400Years : Int := if julian then 146100 else 146097
  let fudgedDaysPer4000Years : Int := if julian then 1461000 + 1 else 1460970 + 31
  let z := (← signed longMax (4 * x)).tdiv daysPer400Years
  let x := x - (← signed longMax (daysPer400Years * z + 3)).tdiv 4
  -- from here on the values are those of a single century
  let y := (4000 * (x + 1)).tdiv fudgedDaysPer4000Years
  let x := x - (1461 * y).tdiv 4 + 31
  let m := (80 * x).tdiv 2447
  let d := x - (2447 * m).tdiv 80
  let x := m.tdiv 11
  let m := m + 2 - 12 * x
  let y := 100 * (z - 49) + y + x
  return (if y ≤ 0 then y - 1 else y, m, d)

theorem signed_of {max v : Int} (hlo : -max - 1 ≤ v) (hhi : v ≤ max) :
    signed max v = some v :=
  if_pos ⟨hlo, hhi⟩

theorem signed_of_lt {max v : Int} (h : max < v) : signed max v = none :=
  if_neg fun hfits => absurd hfits.2 (Int.not_le.mpr h)

/-! ## Days of the year and of the week -/

def monthDays : List Int := [31, 28, 31, 30, 31, 30, 31, 31, 30, 31, 30, 31]

/-- `timeutil_is_leap_year` -/
def timeutil_is_leap_year (year : Int) : Bool :=
  (year.tmod 100 ≠ 0 ∨ year.tmod 400 = 0) ∧ year.tmod 4 = 0

/-- `timeutil_get_days_in_month`, for a month of the year. -/
def timeutil_get_days_in_month (year month : Int) : Int :=
  if month = 2 then (if timeutil_is_leap_year year then 29 else 28)
  else monthDays.getD (month - 1).toNat 0

/-- `timeutil_get_day_of_week_of_first_jan`: 1 to 7, not 0 to 6. -/
def timeutil_get_day_of_week_of_first_jan (year : Int) (monday_first : Bool) : Int :=
  let days := iadd (isub (iadd (imul 365 year) ((isub year 1).tdiv 4)) ((isub year 1).tdiv 100))
    ((isub year 1).tdiv 400)
  if monday_first then iadd ((isub days 1).tmod 7) 1 else iadd (days.tmod 7) 1

/-- The loop of `timeutil_get_day_of_year`: the days of the first `n` months. -/
def daysOfMonths (year : Int) : Nat → Int
  | 0 => 0
  | n + 1 => iadd (daysOfMonths year n) (timeutil_get_days_in_month year (n + 1))

/-- `timeutil_get_day_of_year`, where 1 January is 1. -/
def timeutil_get_day_of_year (year month day : Int) : Int :=
  iadd (daysOfMonths year (month - 1).toNat) day

/-- `timeutil_get_day_of_week` -/
def timeutil_get_day_of_week (year month day : Int) (monday_first : Bool) : Int :=
  let dayOne := timeutil_get_day_of_week_of_first_jan year monday_first
  let dayOneFromZero := isub dayOne 1
  let dayOfYear := timeutil_get_day_of_year year month day
  let dayOfYearFromZero := isub dayOfYear 1
  (iadd dayOfYearFromZero dayOneFromZero).tmod 7

/-! ## Floors of quotients -/

theorem floor_div (a : Int) (n : Nat) : ⌊(a : ℚ) / (n : ℚ)⌋ = a / n :=
  Rat.floor_intCast_div_natCast a n

/-- The closed formula, in integers. -/
theorem timeutil_ymdhms_to_JD_eq (date : GregorianDate) (hour min sec : Int) :
    timeutil_ymdhms_to_JD date.year date.month date.day hour min sec =
      date.julianDay - 1 / 2 + ((hour : ℚ) + (min : ℚ) / 60) / 24 := by
  obtain ⟨year, month, day, ⟨hlo, hhi⟩, hday⟩ := date
  have ha : ⌊(14 - (month : ℚ)) / 12⌋ = if month ≤ 2 then 1 else 0 := by
    have h := floor_div (14 - month) 12
    push_cast at h
    rw [h]
    split_ifs <;> omega
  have hyear : (year : ℚ) + 4800 - ((if month ≤ 2 then 1 else 0 : Int) : ℚ) =
      ((year + 4800 - (if month ≤ 2 then 1 else 0) : Int) : ℚ) := by
    push_cast
    ring
  have hmonth : (month : ℚ) + 12 * ((if month ≤ 2 then 1 else 0 : Int) : ℚ) - 3 =
      ((month - 3 + (if month ≤ 2 then 12 else 0) : Int) : ℚ) := by
    split_ifs <;> push_cast <;> ring
  simp only [timeutil_ymdhms_to_JD, ha, hyear, hmonth, GregorianDate.julianDay,
    GregorianDate.marchYear, GregorianDate.marchMonth]
  generalize year + 4800 - (if month ≤ 2 then 1 else 0) = y
  generalize month - 3 + (if month ≤ 2 then 12 else 0) = m
  have hdays : ⌊(153 * (m : ℚ) + 2) / 5⌋ = (153 * m + 2) / 5 := by
    have h := floor_div (153 * m + 2) 5
    push_cast at h
    exact h
  have h4 : ⌊(y : ℚ) / 4⌋ = y / 4 := floor_div y 4
  have h100 : ⌊(y : ℚ) / 100⌋ = y / 100 := floor_div y 100
  have h400 : ⌊(y : ℚ) / 400⌋ = y / 400 := floor_div y 400
  rw [hdays, h4, h100, h400]
  push_cast
  ring

end Kbox.Solunar
