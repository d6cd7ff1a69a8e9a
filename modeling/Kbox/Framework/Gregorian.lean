import Mathlib.Tactic.IntervalCases
import Mathlib.Tactic.Linarith

/-!
# The Gregorian calendar

Dates, the day after a date, and the number of a day, counted as Julian days
are.  Days are numbered one after the other, so every number from that of some
date on is the number of a date.
-/

namespace Kbox.Framework

/-- A leap year. -/
def IsLeap (year : Int) : Prop := year % 4 = 0 ∧ (year % 100 ≠ 0 ∨ year % 400 = 0)

instance (year : Int) : Decidable (IsLeap year) := by
  unfold IsLeap
  infer_instance

def monthLength (year month : Int) : Int :=
  if month = 2 then (if IsLeap year then 29 else 28)
  else if month = 4 ∨ month = 6 ∨ month = 9 ∨ month = 11 then 30
  else 31

/-- A date of the calendar, in all years. -/
structure GregorianDate where
  year : Int
  month : Int
  day : Int
  month_range : 1 ≤ month ∧ month ≤ 12
  day_range : 1 ≤ day ∧ day ≤ monthLength year month

namespace GregorianDate

/-- A year that begins in March, counted from 4801 BC. -/
def marchYear (date : GregorianDate) : Int :=
  date.year + 4800 - (if date.month ≤ 2 then 1 else 0)

/-- The month of such a year, where March is 0. -/
def marchMonth (date : GregorianDate) : Int :=
  date.month - 3 + (if date.month ≤ 2 then 12 else 0)

/-- The number of a day. -/
def julianDay (date : GregorianDate) : Int :=
  date.day + (153 * date.marchMonth + 2) / 5 + 365 * date.marchYear + date.marchYear / 4 -
    date.marchYear / 100 + date.marchYear / 400 - 32045

theorem monthLength_le (year month : Int) : monthLength year month ≤ 31 := by
  unfold monthLength
  split_ifs <;> decide

theorem one_le_monthLength (year month : Int) : 1 ≤ monthLength year month := by
  unfold monthLength
  split_ifs <;> decide

/-- The day after a date. -/
def next (date : GregorianDate) : GregorianDate :=
  if hday : date.day < monthLength date.year date.month then
    { date with
      day := date.day + 1
      day_range := by
        have := date.day_range
        omega }
  else if hmonth : date.month < 12 then
    { year := date.year
      month := date.month + 1
      day := 1
      month_range := by
        have := date.month_range
        omega
      day_range := ⟨by decide, one_le_monthLength _ _⟩ }
  else
    { year := date.year + 1
      month := 1
      day := 1
      month_range := by decide
      day_range := ⟨by decide, one_le_monthLength _ _⟩ }

theorem julianDay_next (date : GregorianDate) : date.next.julianDay = date.julianDay + 1 := by
  obtain ⟨year, month, day, ⟨hlo, hhi⟩, hday⟩ := date
  unfold next
  split_ifs with hlast hmonth
  · simp only [julianDay, marchYear, marchMonth]
    omega
  · -- the last day of a month
    have hmonth' : month < 12 := hmonth
    have hlast' : day = monthLength year month := by
      have : ¬ day < monthLength year month := hlast
      omega
    subst hlast'
    simp only [julianDay, marchYear, marchMonth, monthLength]
    by_cases hleap : IsLeap year
    · rw [if_pos hleap]
      unfold IsLeap at hleap
      interval_cases month <;> simp <;> omega
    · rw [if_neg hleap]
      unfold IsLeap at hleap
      interval_cases month <;> simp <;> omega
  · -- the last day of a year
    obtain rfl : month = 12 := by
      have : ¬ month < 12 := hmonth
      omega
    have hlast' : day = 31 := by
      have : ¬ day < monthLength year 12 := hlast
      have hlength : monthLength year 12 = 31 := rfl
      omega
    subst hlast'
    simp only [julianDay, marchYear, marchMonth]
    omega

theorem january_range : (1 : Int) ≤ 1 ∧ (1 : Int) ≤ 12 := by decide

theorem march_range : (1 : Int) ≤ 3 ∧ (3 : Int) ≤ 12 := by decide

/-- The first day of a month. -/
def firstOfMonth (year month : Int) (h : 1 ≤ month ∧ month ≤ 12) : GregorianDate where
  year := year
  month := month
  day := 1
  month_range := h
  day_range := ⟨Int.le_refl 1, one_le_monthLength year month⟩

/-- The days of a month follow its first one. -/
theorem julianDay_of_month (date : GregorianDate) :
    date.julianDay = (firstOfMonth date.year date.month date.month_range).julianDay +
      date.day - 1 := by
  simp only [firstOfMonth, julianDay, marchYear, marchMonth]
  omega

/-- A month follows the one in front of it. -/
theorem julianDay_firstOfMonth {year month : Int} (h : 1 ≤ month ∧ month < 12) :
    (firstOfMonth year (month + 1) (by omega)).julianDay =
      (firstOfMonth year month (by omega)).julianDay + monthLength year month := by
  let last : GregorianDate := ⟨year, month, monthLength year month, by omega,
    ⟨one_le_monthLength year month, Int.le_refl _⟩⟩
  have hnext : last.next = firstOfMonth year (month + 1) (by omega) := by
    unfold next
    rw [dif_neg (Int.lt_irrefl _), dif_pos h.2]
    rfl
  have hlast := julianDay_of_month last
  rw [← hnext, julianDay_next, hlast]
  show (firstOfMonth year month _).julianDay + monthLength year month - 1 + 1 = _
  omega

/-- The date a number of days later. -/
def addDays (start : GregorianDate) : Nat → GregorianDate
  | 0 => start
  | n + 1 => (start.addDays n).next

theorem julianDay_addDays (start : GregorianDate) (n : Nat) :
    (start.addDays n).julianDay = start.julianDay + n := by
  induction n with
  | zero => exact (Int.add_zero _).symm
  | succ n ih =>
      rw [addDays, julianDay_next, ih]
      push_cast
      omega

/-- Every day from that of a date on is the day of a date. -/
theorem exists_julianDay (start : GregorianDate) (n : Nat) :
    ∃ date : GregorianDate, date.julianDay = start.julianDay + n :=
  ⟨start.addDays n, julianDay_addDays start n⟩

end GregorianDate

end Kbox.Framework
