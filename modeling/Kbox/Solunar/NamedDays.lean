import Kbox.Solunar.DateTime
import Kbox.Solunar.Weekdays

/-!
# `nameddays.c`: Easter

`NamedDays_get_easter_sunday` computes the month and the day by a chain of
divisions.  What they are meant to find is the first Sunday after the Paschal
full moon, whose day in March depends on the golden number of the year and on
the corrections of the centuries.
-/

namespace Kbox.Solunar

open Kbox.Framework

/-! ## §1  The algorithm -/

/-- `nA` to `nM` of `NamedDays_get_easter_sunday`, and from them `nEasterDay` and
`nEasterMonth + 1`.  No sum comes near the range of an `int`. -/
def easterDayMonth (year : Int) : Int × Int :=
  let nA := year.tmod 19
  let nB := year.tdiv 100
  let nC := year.tmod 100
  let nD := nB.tdiv 4
  let nE := nB.tmod 4
  let nF := (nB + 8).tdiv 25
  let nG := (nB - nF + 1).tdiv 3
  let nH := (19 * nA + nB - nD - nG + 15).tmod 30
  let nI := nC.tdiv 4
  let nK := nC.tmod 4
  let nL := (32 + 2 * nE + 2 * nI - nH - nK).tmod 7
  let nM := (nA + 11 * nH + 22 * nL).tdiv 451
  -- 3 = March, 4 = April
  let nEasterMonth := (nH + nL - 7 * nM + 114).tdiv 31 - 1
  let nP := (nH + nL - 7 * nM + 114).tmod 31
  (nP + 1, nEasterMonth + 1)

def NamedDays_get_easter_sunday [Libc] (year : Int) (tz : Option String) (utc : Bool) :
    EnvM DateTime :=
  DateTime.new_dmy_name (easterDayMonth year).1 (easterDayMonth year).2 year
    (some "Easter Sunday") tz utc

/-- The days that `NamedDays_get_list_for_year` names by their distance from Easter. -/
def easterOffsets : List (Int × String) :=
  [(1, "Easter Monday"), (-47, "Shrove Tuesday"), (-2, "Good Friday"), (-3, "Maundy Thursday"),
    (-7, "Palm Sunday"), (-46, "Ash Wednesday"), (49, "Whitsun/Pentecost"),
    (-21, "Mothering Sunday")]

/-! ## §2  The computus -/

def goldenNumber (year : Int) : Int := year % 19 + 1

/-- The leap days that centuries drop. -/
def solarCorrection (year : Int) : Int := 3 * (year / 100 + 1) / 4 - 12

/-- The drift of the moon over centuries. -/
def lunarCorrection (year : Int) : Int := (8 * (year / 100 + 1) + 5) / 25 - 5

/-- The age of the moon at the beginning of the year, with its two exceptions. -/
def epact (year : Int) : Int :=
  let e := (11 * goldenNumber year + 20 + lunarCorrection year - solarCorrection year) % 30
  if e = 24 ∨ e = 25 ∧ 11 < goldenNumber year then e + 1 else e

/-- The Paschal full moon, as a day counted from 0 March. -/
def paschalFullMoon (year : Int) : Int :=
  if 44 - epact year < 21 then 44 - epact year + 30 else 44 - epact year

/-- The Julian day of a day counted from 0 March. -/
def marchJulianDay (year day : Int) : Int :=
  (GregorianDate.firstOfMonth year 3 GregorianDate.march_range).julianDay + day - 1

/-- The weekday of a Julian day, where 0 is Sunday. -/
def weekday (julianDay : Int) : Int := (julianDay + 1) % 7

/-! ## §3  The full moon -/

/-- `nH`: the days from 21 March to the full moon, without the exceptions. -/
def moonAge (year : Int) : Int :=
  (19 * (year % 19) + year / 100 - year / 100 / 4 -
    (year / 100 - (year / 100 + 8) / 25 + 1) / 3 + 15) % 30

/-- The two ways to correct a century for the moon. -/
theorem lunarCorrection_eq (year : Int) :
    lunarCorrection year = (year / 100 - (year / 100 + 8) / 25 + 1) / 3 - 5 := by
  unfold lunarCorrection
  generalize year / 100 = b
  have hsplit : b = 25 * (b / 25) + b % 25 := by omega
  generalize b / 25 = q at hsplit
  have hlo : 0 ≤ b % 25 := by omega
  have hhi : b % 25 ≤ 24 := by omega
  generalize b % 25 = r at *
  subst hsplit
  interval_cases r <;> omega

/-- The age of the moon and the epact are two counts of one thing. -/
theorem epact_eq (year : Int) :
    epact year = (if moonAge year ≤ 23 then 23 - moonAge year else 53 - moonAge year) +
      (if moonAge year = 29 ∨ moonAge year = 28 ∧ 11 ≤ year % 19 then 1 else 0) := by
  have hlunar := lunarCorrection_eq year
  have hsolar : solarCorrection year = year / 100 - year / 100 / 4 - 12 := by
    unfold solarCorrection
    omega
  have hage : (11 * (year % 19 + 1) + 20 + lunarCorrection year - solarCorrection year) % 30 =
      if moonAge year ≤ 23 then 23 - moonAge year else 53 - moonAge year := by
    rw [hlunar, hsolar]
    unfold moonAge
    generalize year % 19 = a
    generalize (year / 100 - (year / 100 + 8) / 25 + 1) / 3 = g
    generalize year / 100 / 4 = d
    generalize year / 100 = b
    split_ifs <;> omega
  have hrange : 0 ≤ moonAge year ∧ moonAge year < 30 := by
    unfold moonAge
    omega
  unfold epact goldenNumber
  simp only [hage]
  generalize moonAge year = h at *
  generalize year % 19 = a
  clear hage hlunar hsolar
  split_ifs <;> omega

theorem paschalFullMoon_eq (year : Int) :
    paschalFullMoon year = 21 + moonAge year -
      (if moonAge year = 29 ∨ moonAge year = 28 ∧ 11 ≤ year % 19 then 1 else 0) := by
  have hrange : 0 ≤ moonAge year ∧ moonAge year < 30 := by
    unfold moonAge
    omega
  unfold paschalFullMoon
  rw [epact_eq]
  generalize moonAge year = h at *
  generalize year % 19 = a
  split_ifs <;> omega

/-! ## §4  The Sunday after it -/

/-- `nL`: the days from the one after the full moon to a Sunday. -/
def daysToSunday (year : Int) : Int :=
  (32 + 2 * (year / 100 % 4) + 2 * (year % 100 / 4) - moonAge year - year % 100 % 4) % 7

/-- Easter as a day counted from 0 March. -/
def easterDay (year : Int) : Int :=
  22 + moonAge year + daysToSunday year -
    7 * ((year % 19 + 11 * moonAge year + 22 * daysToSunday year) / 451)

theorem moonAge_range (year : Int) : 0 ≤ moonAge year ∧ moonAge year < 30 := by
  unfold moonAge
  omega

theorem daysToSunday_range (year : Int) : 0 ≤ daysToSunday year ∧ daysToSunday year < 7 := by
  unfold daysToSunday
  omega

/-- `nM`: the Sunday is a week early in the two exceptions. -/
theorem exception_eq (year : Int) :
    (year % 19 + 11 * moonAge year + 22 * daysToSunday year) / 451 =
      if daysToSunday year = 6 ∧ (moonAge year = 29 ∨ moonAge year = 28 ∧ 11 ≤ year % 19)
        then 1 else 0 := by
  have hage := moonAge_range year
  have hdays := daysToSunday_range year
  have hgolden : 0 ≤ year % 19 ∧ year % 19 < 19 := by omega
  generalize moonAge year = h at *
  generalize daysToSunday year = l at *
  generalize year % 19 = a at *
  split_ifs with hexception
  · obtain ⟨rfl, rfl | ⟨rfl, hlate⟩⟩ := hexception <;> omega
  · have hsmall : a + 11 * h + 22 * l < 451 := by
      by_cases hl : l = 6
      · have hh : ¬ (h = 29 ∨ h = 28 ∧ 11 ≤ a) := fun hh => hexception ⟨hl, hh⟩
        omega
      · omega
    omega

/-- Easter is one of the seven days after the full moon. -/
theorem easterDay_after_moon (year : Int) :
    paschalFullMoon year < easterDay year ∧ easterDay year ≤ paschalFullMoon year + 7 := by
  have hdays := daysToSunday_range year
  rw [paschalFullMoon_eq, easterDay, exception_eq]
  generalize moonAge year = h
  generalize daysToSunday year = l at *
  generalize year % 19 = a
  split_ifs <;> omega

theorem easterDay_range (year : Int) : 22 ≤ easterDay year ∧ easterDay year ≤ 56 := by
  have hage := moonAge_range year
  have hdays := daysToSunday_range year
  rw [easterDay, exception_eq]
  generalize moonAge year = h at *
  generalize daysToSunday year = l at *
  generalize year % 19 = a
  split_ifs <;> omega

theorem marchJulianDay_eq (year day : Int) :
    marchJulianDay year day = 365 * year + year / 4 - year / 100 + year / 400 + day + 1721119 := by
  simp only [marchJulianDay, GregorianDate.firstOfMonth, GregorianDate.julianDay,
    GregorianDate.marchYear, GregorianDate.marchMonth]
  omega

theorem weekday_easterDay (year : Int) : weekday (marchJulianDay year (easterDay year)) = 0 := by
  have hcycles : ∃ d e i k : Int, year = 400 * d + 100 * e + 4 * i + k ∧
      (0 ≤ e ∧ e < 4) ∧ (0 ≤ i ∧ i < 25) ∧ (0 ≤ k ∧ k < 4) :=
    ⟨year / 400, year / 100 % 4, year % 100 / 4, year % 100 % 4, by omega, by omega, by omega,
      by omega⟩
  obtain ⟨d, e, i, k, hyear, he, hi, hk⟩ := hcycles
  have hcentury : year / 100 = 4 * d + e := by omega
  have hfours : year / 4 = 100 * d + 25 * e + i := by omega
  have hcycle : year / 400 = d := by omega
  have hyears : year % 100 = 4 * i + k := by omega
  rw [weekday, marchJulianDay_eq]
  unfold easterDay daysToSunday
  rw [hfours, hcycle, hcentury, hyears]
  have he' : (4 * d + e) % 4 = e := by omega
  have hi' : (4 * i + k) / 4 = i := by omega
  have hk' : (4 * i + k) % 4 = k := by omega
  rw [he', hi', hk']
  generalize moonAge year = h
  generalize (year % 19 + 11 * h + 22 * ((32 + 2 * e + 2 * i - h - k) % 7)) / 451 = m
  omega

/-- Seven days in a row have one Sunday. -/
theorem le_of_weekday {moon day J : Int} (hday : weekday day = 0) (hlate : day ≤ moon + 7)
    (hJ : weekday J = 0) (hmoon : moon < J) : day ≤ J := by
  unfold weekday at *
  omega

/-! ## §5  The date -/

/-- The divisions of the source compute that day. -/
theorem easterDayMonth_eq {year : Int} (hyear : 0 ≤ year) :
    easterDayMonth year = if easterDay year ≤ 31 then (easterDay year, 3)
      else (easterDay year - 31, 4) := by
  have hage := moonAge_range year
  have hdays := daysToSunday_range year
  have hrange := easterDay_range year
  have hcenturies : 0 ≤ year / 100 := by omega
  have hA : year.tmod 19 = year % 19 := Int.tmod_eq_emod_of_nonneg hyear
  have hB : year.tdiv 100 = year / 100 := Int.tdiv_eq_ediv_of_nonneg hyear
  have hC : year.tmod 100 = year % 100 := Int.tmod_eq_emod_of_nonneg hyear
  have hD : (year / 100).tdiv 4 = year / 100 / 4 := Int.tdiv_eq_ediv_of_nonneg hcenturies
  have hE : (year / 100).tmod 4 = year / 100 % 4 := Int.tmod_eq_emod_of_nonneg hcenturies
  have hF : (year / 100 + 8).tdiv 25 = (year / 100 + 8) / 25 :=
    Int.tdiv_eq_ediv_of_nonneg (by omega)
  have hG : (year / 100 - (year / 100 + 8) / 25 + 1).tdiv 3 =
      (year / 100 - (year / 100 + 8) / 25 + 1) / 3 := Int.tdiv_eq_ediv_of_nonneg (by omega)
  have hH : (19 * (year % 19) + year / 100 - year / 100 / 4 -
      (year / 100 - (year / 100 + 8) / 25 + 1) / 3 + 15).tmod 30 = moonAge year :=
    Int.tmod_eq_emod_of_nonneg (by
      have hgolden : 0 ≤ year % 19 := by omega
      generalize year / 100 = b at *
      omega)
  have hI : (year % 100).tdiv 4 = year % 100 / 4 := Int.tdiv_eq_ediv_of_nonneg (by omega)
  have hK : (year % 100).tmod 4 = year % 100 % 4 := Int.tmod_eq_emod_of_nonneg (by omega)
  have hL : (32 + 2 * (year / 100 % 4) + 2 * (year % 100 / 4) - moonAge year -
      year % 100 % 4).tmod 7 = daysToSunday year := Int.tmod_eq_emod_of_nonneg (by
        have hfours : 0 ≤ year / 100 % 4 ∧ 0 ≤ year % 100 / 4 := by omega
        have hyears : year % 100 % 4 < 4 := by omega
        omega)
  have hM : (year % 19 + 11 * moonAge year + 22 * daysToSunday year).tdiv 451 =
      (year % 19 + 11 * moonAge year + 22 * daysToSunday year) / 451 :=
    Int.tdiv_eq_ediv_of_nonneg (by omega)
  have hday : moonAge year + daysToSunday year -
      7 * ((year % 19 + 11 * moonAge year + 22 * daysToSunday year) / 451) + 114 =
        easterDay year + 92 := by
    unfold easterDay
    omega
  unfold easterDayMonth
  simp only [hA, hB, hC, hD, hE, hF, hG, hH, hI, hK, hL, hM, hday]
  rw [Int.tdiv_eq_ediv_of_nonneg (by omega), Int.tmod_eq_emod_of_nonneg (by omega)]
  split_ifs with hmarch
  · exact Prod.ext (by show (easterDay year + 92) % 31 + 1 = _; omega)
      (by show (easterDay year + 92) / 31 - 1 + 1 = (3 : Int); omega)
  · exact Prod.ext (by show (easterDay year + 92) % 31 + 1 = _; omega)
      (by show (easterDay year + 92) / 31 - 1 + 1 = (4 : Int); omega)

/-- The date that the algorithm finds. -/
theorem exists_easter_date {year : Int} (hyear : 0 ≤ year) :
    ∃ easter : GregorianDate, easter.year = year ∧
      (easter.day, easter.month) = easterDayMonth year ∧
      (easter.month = 3 ∧ 22 ≤ easter.day ∨ easter.month = 4 ∧ easter.day ≤ 25) ∧
      easter.julianDay = marchJulianDay year (easterDay year) := by
  obtain ⟨hlo, hhi⟩ := easterDay_range year
  rw [easterDayMonth_eq hyear]
  split_ifs with hmarch
  · let easter : GregorianDate :=
      { year := year, month := 3, day := easterDay year, month_range := by decide
        day_range := ⟨by omega, hmarch⟩ }
    have hmonth := GregorianDate.julianDay_of_month easter
    exact ⟨easter, rfl, rfl, Or.inl ⟨rfl, hlo⟩, hmonth⟩
  · let easter : GregorianDate :=
      { year := year, month := 4, day := easterDay year - 31, month_range := by decide
        day_range := ⟨by omega, by show easterDay year - 31 ≤ 30; omega⟩ }
    refine ⟨easter, rfl, rfl, Or.inr ⟨rfl, by show easterDay year - 31 ≤ 25; omega⟩, ?_⟩
    rw [marchJulianDay_eq]
    simp only [easter, GregorianDate.julianDay, GregorianDate.marchYear,
      GregorianDate.marchMonth]
    omega

/-- **Easter is right for every year**: the first Sunday after the Paschal full moon, between
22 March and 25 April, and the weekdays of the days counted from it, in the order of the list. -/
theorem easter_sunday (year : Int) (hyear : 1583 ≤ year) :
    ∃ easter : GregorianDate, easter.year = year ∧
      (easter.day, easter.month) = easterDayMonth year ∧
      (easter.month = 3 ∧ 22 ≤ easter.day ∨ easter.month = 4 ∧ easter.day ≤ 25) ∧
      weekday easter.julianDay = 0 ∧
      marchJulianDay year (paschalFullMoon year) < easter.julianDay ∧
      (∀ J, marchJulianDay year (paschalFullMoon year) < J → weekday J = 0 →
        easter.julianDay ≤ J) ∧
      (YearFits year → timeutil_get_day_of_week year easter.month easter.day false = 0) ∧
      easterOffsets.map (fun offset => weekday (easter.julianDay + offset.1)) =
        [1, 2, 5, 4, 0, 3, 0, 0] := by
  obtain ⟨easter, hsame, hdate, hrange, hJD⟩ := exists_easter_date (show 0 ≤ year by omega)
  obtain ⟨hafter, hlate⟩ := easterDay_after_moon year
  have hsunday : weekday easter.julianDay = 0 := by rw [hJD, weekday_easterDay]
  refine ⟨easter, hsame, hdate, hrange, hsunday, ?_, ?_, ?_, ?_⟩
  · rw [hJD, marchJulianDay, marchJulianDay]
    omega
  · intro J hmoon hJ
    refine le_of_weekday hsunday ?_ hJ hmoon
    rw [hJD, marchJulianDay, marchJulianDay]
    omega
  · intro hfits
    subst hsame
    rw [(timeutil_get_day_of_week_eq easter (by omega) hfits).1]
    exact hsunday
  · unfold weekday at hsunday ⊢
    simp only [easterOffsets, List.map_cons, List.map_nil, List.cons.injEq, and_true]
    omega

theorem easter_sunday_2000 : ∃ easter : GregorianDate,
    (easter.day, easter.month) = (23, 4) ∧ weekday easter.julianDay = 0 ∧
      timeutil_get_day_of_week 2000 easter.month easter.day false = 0 :=
  have ⟨easter, _, hdate, _, hsunday, _, _, hweek, _⟩ := easter_sunday 2000 (by decide)
  ⟨easter, hdate, hsunday, hweek (by decide)⟩

/-- The weekday of a late year: the days in front of it are more than an `int` holds. -/
theorem easter_sunday_int_overflow :
    timeutil_get_day_of_week 6000000 (easterDayMonth 6000000).2 (easterDayMonth 6000000).1
      false ≠ 0 := by decide +kernel

end Kbox.Solunar
