import Mathlib.Tactic.SplitIfs
import Kbox.Framework.Gregorian

/-!
# The date of a day

Every number is that of exactly one date.  Within a year the month and the day of the month tell
the dates apart, and a year that is not a leap year has the dates of the days around it again.
-/

namespace Kbox.Framework

/-- The days of a year in front of a month. -/
def daysBefore (year month : Int) : Int :=
  275 * month / 9 - 30 - (if month ≤ 2 then 0 else if IsLeap year then 1 else 2)

theorem daysBefore_next {year month : Int} (h : 1 ≤ month ∧ month < 12) :
    daysBefore year (month + 1) = daysBefore year month + monthLength year month := by
  obtain ⟨hlo, hhi⟩ := h
  unfold daysBefore monthLength
  interval_cases month <;> by_cases hleap : IsLeap year <;> simp [hleap]

/-- A month ends in front of every later one. -/
theorem daysBefore_le {year month : Int} (hlo : 1 ≤ month) (n : Nat) (hhi : month + n < 12) :
    daysBefore year month + monthLength year month ≤ daysBefore year (month + n + 1) := by
  induction n with
  | zero =>
      have hnext := @daysBefore_next year month ⟨hlo, by omega⟩
      simp only [Nat.cast_zero, add_zero] at hnext ⊢
      exact hnext.ge
  | succ n ih =>
      have hnext := @daysBefore_next year (month + n + 1)
        ⟨by omega, by push_cast at hhi; omega⟩
      have hlength := GregorianDate.one_le_monthLength year (month + n + 1)
      have hearlier := ih (by push_cast at hhi; omega)
      push_cast
      rw [← add_assoc, hnext]
      omega

namespace GregorianDate

/-- The number of the first day of a year. -/
def firstDay (year : Int) : Int := (firstOfMonth year 1 january_range).julianDay

theorem firstDay_eq (year : Int) : firstDay year =
    365 * year + (year - 1) / 4 - (year - 1) / 100 + (year - 1) / 400 + 1721061 := by
  simp only [firstDay, firstOfMonth, julianDay, marchYear, marchMonth]
  omega

/-- A leap year has one leap day more than the years in front of it. -/
theorem leapDays_next (year : Int) : year / 4 - year / 100 + year / 400 =
    (year - 1) / 4 - (year - 1) / 100 + (year - 1) / 400 + if IsLeap year then 1 else 0 := by
  unfold IsLeap
  split_ifs <;> omega

theorem firstDay_next (year : Int) :
    firstDay (year + 1) = firstDay year + 365 + if IsLeap year then 1 else 0 := by
  have hleap := leapDays_next year
  rw [firstDay_eq, firstDay_eq, add_sub_cancel_right]
  linarith

theorem firstDay_mono {year year' : Int} (h : year ≤ year') : firstDay year ≤ firstDay year' := by
  rw [firstDay_eq, firstDay_eq]
  omega

/-- The 153 days of five months, counted from March and from January. -/
theorem marchDays {month : Int} (h : 3 ≤ month) (h' : month ≤ 12) :
    (153 * (month - 3) + 2) / 5 = 275 * month / 9 - 91 := by
  interval_cases month <;> rfl

/-- A date by its place in the year. -/
theorem julianDay_eq_firstDay (date : GregorianDate) :
    date.julianDay = firstDay date.year + daysBefore date.year date.month + date.day - 1 := by
  obtain ⟨year, month, day, ⟨hlo, hhi⟩, _⟩ := date
  have hleap := leapDays_next year
  rw [firstDay_eq]
  simp only [julianDay, marchYear, marchMonth, daysBefore]
  by_cases hearly : month ≤ 2
  · have hdays : (153 * (month + 9) + 2) / 5 = 275 * month / 9 + 276 := by omega
    rw [if_pos hearly, if_pos hearly, if_pos hearly, show month - 3 + 12 = month + 9 by omega,
      hdays]
    omega
  · rw [if_neg hearly, if_neg hearly, if_neg hearly, add_zero, marchDays (by omega) hhi]
    by_cases hyear : IsLeap year
    · rw [if_pos hyear] at hleap ⊢
      omega
    · rw [if_neg hyear] at hleap ⊢
      omega

theorem firstDay_le_julianDay (date : GregorianDate) : firstDay date.year ≤ date.julianDay := by
  have hmonth := date.month_range
  have hday := date.day_range
  rw [julianDay_eq_firstDay]
  unfold daysBefore
  split_ifs <;> omega

/-- The months up to the end of one of them are no more than a year. -/
theorem daysBefore_add_le {year month : Int} (h : 1 ≤ month ∧ month ≤ 12) :
    daysBefore year month + monthLength year month ≤ 365 + if IsLeap year then 1 else 0 := by
  have hlast : daysBefore year 12 + monthLength year 12 = 365 + if IsLeap year then 1 else 0 := by
    show 275 * 12 / 9 - 30 - (if IsLeap year then 1 else 2) + 31 = _
    split_ifs <;> rfl
  by_cases hdecember : month = 12
  · subst hdecember
    exact hlast.le
  · have hle := @daysBefore_le year month h.1 (11 - month).toNat (by omega)
    have hcast : month + ((11 - month).toNat : Int) + 1 = 12 := by omega
    have hlength := one_le_monthLength year 12
    rw [hcast] at hle
    omega

theorem julianDay_lt_firstDay (date : GregorianDate) :
    date.julianDay < firstDay (date.year + 1) := by
  have hnext := firstDay_next date.year
  have hyear := @daysBefore_add_le date.year date.month date.month_range
  have hday := date.day_range
  rw [julianDay_eq_firstDay, hnext]
  omega

/-- The year of a day. -/
theorem year_eq {date : GregorianDate} {year : Int}
    (h : firstDay year ≤ date.julianDay ∧ date.julianDay < firstDay (year + 1)) :
    date.year = year := by
  have hlo := firstDay_le_julianDay date
  have hhi := julianDay_lt_firstDay date
  rcases lt_trichotomy date.year year with hlt | heq | hgt
  · have hmono : firstDay (date.year + 1) ≤ firstDay year := firstDay_mono (by omega)
    omega
  · exact heq
  · have hmono : firstDay (year + 1) ≤ firstDay date.year := firstDay_mono (by omega)
    omega

theorem month_le_of_daysBefore {date date' : GregorianDate} (hyear : date.year = date'.year)
    (h : date.julianDay = date'.julianDay) : date.month ≤ date'.month := by
  by_contra hlt
  have hmonth := date.month_range
  have hmonth' := date'.month_range
  have hday := date.day_range
  have hday' := date'.day_range
  have hle := @daysBefore_le date'.year _ hmonth'.1
    (date.month - date'.month - 1).toNat (by omega)
  have hcast : date'.month + ((date.month - date'.month - 1).toNat : Int) + 1 = date.month := by
    omega
  rw [hcast] at hle
  rw [julianDay_eq_firstDay, julianDay_eq_firstDay, hyear] at h
  omega

/-- A day is the day of one date only. -/
theorem eq_of_julianDay_eq {date date' : GregorianDate} (h : date.julianDay = date'.julianDay) :
    date.year = date'.year ∧ date.month = date'.month ∧ date.day = date'.day := by
  have hyear : date.year = date'.year := by
    refine year_eq ⟨?_, ?_⟩
    · exact h ▸ firstDay_le_julianDay date'
    · exact h ▸ julianDay_lt_firstDay date'
  have hmonth := le_antisymm (month_le_of_daysBefore hyear h)
    (month_le_of_daysBefore hyear.symm h.symm)
  refine ⟨hyear, hmonth, ?_⟩
  rw [julianDay_eq_firstDay, julianDay_eq_firstDay, hyear, hmonth] at h
  omega

/-! ## Every day has a date -/

/-- The same day some periods of 400 years later. -/
def shift (date : GregorianDate) (n : Int) : GregorianDate where
  year := date.year + 400 * n
  month := date.month
  day := date.day
  month_range := date.month_range
  day_range := by
    have hleap : IsLeap (date.year + 400 * n) ↔ IsLeap date.year := by
      unfold IsLeap
      omega
    have hday := date.day_range
    unfold monthLength at hday ⊢
    simp only [hleap]
    exact hday

theorem julianDay_shift (date : GregorianDate) (n : Int) :
    (date.shift n).julianDay = date.julianDay + 146097 * n := by
  simp only [shift, julianDay, marchYear, marchMonth]
  omega

/-- 1 March 4801 BC, the day from which days are numbered. -/
def dayZero : GregorianDate := ⟨-4800, 3, 1, by decide, by decide⟩

theorem julianDay_dayZero : dayZero.julianDay = -32044 := by decide

/-- The date of a day. -/
def ofJulianDay (n : Int) : GregorianDate :=
  (dayZero.addDays ((n + 32044) % 146097).toNat).shift ((n + 32044) / 146097)

theorem julianDay_ofJulianDay (n : Int) : (ofJulianDay n).julianDay = n := by
  unfold ofJulianDay
  rw [julianDay_shift, julianDay_addDays, julianDay_dayZero]
  omega

theorem ofJulianDay_julianDay (date : GregorianDate) :
    (ofJulianDay date.julianDay).year = date.year ∧
      (ofJulianDay date.julianDay).month = date.month ∧
      (ofJulianDay date.julianDay).day = date.day :=
  eq_of_julianDay_eq (julianDay_ofJulianDay _)

/-! ## Days of the year -/

/-- The same day of the year, in whatever year. -/
def SameDayOfYear (date date' : GregorianDate) : Prop :=
  date.month = date'.month ∧ date.day = date'.day

instance (date date' : GregorianDate) : Decidable (SameDayOfYear date date') := by
  unfold SameDayOfYear
  infer_instance

/-- Two dates of a year. -/
theorem sameDayOfYear_iff {date date' : GregorianDate} (hyear : date.year = date'.year) :
    SameDayOfYear date date' ↔ date.julianDay = date'.julianDay := by
  constructor
  · rintro ⟨hmonth, hday⟩
    rw [julianDay_eq_firstDay, julianDay_eq_firstDay, hyear, hmonth, hday]
  · intro h
    exact (eq_of_julianDay_eq h).2

theorem month_eq_of_last {date : GregorianDate} {year day : Int} (hday : 1 ≤ day ∧ day ≤ 31)
    (h : date.julianDay = firstDay (year + 1) + day - 32) : date.month = 12 ∧ date.day = day := by
  let last : GregorianDate := ⟨year, 12, day, by decide, hday⟩
  have hlast : last.julianDay = date.julianDay := by
    rw [h, julianDay_eq_firstDay, firstDay_next]
    show firstDay year + daysBefore year 12 + day - 1 = _
    unfold daysBefore
    split_ifs <;> omega
  obtain ⟨_, hmonth, hday⟩ := eq_of_julianDay_eq hlast
  exact ⟨hmonth.symm, hday.symm⟩

theorem month_eq_of_first {date : GregorianDate} {year : Int}
    (h : date.julianDay = firstDay year) : date.month = 1 ∧ date.day = 1 := by
  obtain ⟨_, hmonth, hday⟩ := eq_of_julianDay_eq
    (h : date.julianDay = (firstOfMonth year 1 (by decide)).julianDay)
  exact ⟨hmonth, hday⟩

/-- The days around a year that is not a leap year have the dates of its own days. -/
theorem exists_sameDayOfYear {year : Int} (hleap : ¬ IsLeap year) {date : GregorianDate}
    (h : firstDay year - 2 ≤ date.julianDay ∧ date.julianDay ≤ firstDay year + 365) :
    ∃ date' : GregorianDate, date'.year = year ∧ SameDayOfYear date date' ∧
      date'.julianDay = firstDay year + (date.julianDay - firstDay year) % 365 := by
  have hnext := firstDay_next year
  rw [if_neg hleap, add_zero] at hnext
  by_cases hbefore : date.julianDay < firstDay year
  · -- 30 and 31 December
    have hlast : date.julianDay =
        firstDay (year - 1 + 1) + (date.julianDay - firstDay year + 32) - 32 := by
      rw [sub_add_cancel]
      omega
    obtain ⟨hmonth, hday⟩ := month_eq_of_last (by omega) hlast
    have hrange : 1 ≤ date.day ∧ date.day ≤ monthLength year 12 := by
      rw [hday]
      exact ⟨by omega, by show _ ≤ (31 : Int); omega⟩
    refine ⟨⟨year, 12, date.day, by decide, hrange⟩, rfl, ⟨hmonth, rfl⟩, ?_⟩
    rw [julianDay_eq_firstDay]
    show firstDay year + daysBefore year 12 + date.day - 1 = _
    unfold daysBefore
    rw [if_neg (by decide), if_neg hleap, hday]
    omega
  · by_cases hafter : date.julianDay = firstDay year + 365
    · obtain ⟨hmonth, hday⟩ := month_eq_of_first (hafter.trans hnext.symm)
      refine ⟨firstOfMonth year 1 (by decide), rfl, ⟨hmonth, hday⟩, ?_⟩
      show firstDay year = _
      omega
    · have hyear : date.year = year := year_eq ⟨by omega, by omega⟩
      exact ⟨date, hyear, ⟨rfl, rfl⟩, by omega⟩

theorem sameDayOfYear_iff_mod {year : Int} (hleap : ¬ IsLeap year) {date date' : GregorianDate}
    (h : firstDay year - 2 ≤ date.julianDay ∧ date.julianDay ≤ firstDay year + 365)
    (h' : firstDay year - 2 ≤ date'.julianDay ∧ date'.julianDay ≤ firstDay year + 365) :
    SameDayOfYear date date' ↔
      (date.julianDay - firstDay year) % 365 = (date'.julianDay - firstDay year) % 365 := by
  obtain ⟨own, hyear, ⟨hmonth, hday⟩, hown⟩ := exists_sameDayOfYear hleap h
  obtain ⟨own', hyear', ⟨hmonth', hday'⟩, hown'⟩ := exists_sameDayOfYear hleap h'
  have hsame := sameDayOfYear_iff (hyear.trans hyear'.symm)
  unfold SameDayOfYear at hsame ⊢
  rw [hmonth, hday, hmonth', hday', hsame, hown, hown', add_right_inj]

/-- 29 February is no day of such a year. -/
theorem not_sameDayOfYear_leapDay {year : Int} (hleap : ¬ IsLeap year)
    {date leapDay : GregorianDate} (hyear : date.year = year)
    (hdate : leapDay.month = 2 ∧ leapDay.day = 29) : ¬ SameDayOfYear leapDay date := by
  rintro ⟨hmonth, hday⟩
  have hrange := date.day_range
  rw [hyear, ← hmonth, ← hday, hdate.1, hdate.2] at hrange
  unfold monthLength at hrange
  rw [if_pos rfl, if_neg hleap] at hrange
  omega

end GregorianDate

end Kbox.Framework
