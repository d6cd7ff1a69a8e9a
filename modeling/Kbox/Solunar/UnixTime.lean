import Kbox.Solunar.DateTime
import Kbox.Solunar.TimeUtil

/-!
# Unix time and Julian dates

`timeutil_unix_to_JD` goes through the fields of the calendar, of which `timeutil_ymdhms_to_JD`
drops the seconds; the way back is linear.
-/

namespace Kbox.Solunar

open Kbox.Framework

/-! ## §1  The two conversions -/

/-- 1 January 1970 -/
def epoch : GregorianDate := ⟨1970, 1, 1, GregorianDate.january_range, by decide⟩

/-- `gmtime`, for times from the epoch on. -/
def gmtime (t : Int) : Tm :=
  let date := epoch.addDays (t / 86400).toNat
  { tm_sec := t % 60
    tm_min := t / 60 % 60
    tm_hour := t / 3600 % 24
    tm_mday := date.day
    tm_mon := date.month - 1
    tm_year := date.year - 1900
    tm_isdst := 0 }

/-- `timeutil_unix_to_JD` -/
def timeutil_unix_to_JD (t : Int) : ℚ :=
  let tm := gmtime t
  timeutil_ymdhms_to_JD (tm.tm_year + 1900) (tm.tm_mon + 1) tm.tm_mday tm.tm_hour tm.tm_min
    tm.tm_sec

/-- The conversion of a `double` to an integer type. -/
def truncate (x : ℚ) : Int := if 0 ≤ x then ⌊x⌋ else ⌈x⌉

/-- `DateTime_new_julian` -/
def DateTime.new_julian (jd : ℚ) : DateTime := ⟨truncate ((jd - 4881175 / 2) * 86400), none⟩

/-! ## §2  There and back -/

theorem julianDay_epoch : epoch.julianDay = 2440588 := by decide

/-- The Julian date of the minute. -/
theorem timeutil_unix_to_JD_eq {t : Int} (ht : 0 ≤ t) :
    timeutil_unix_to_JD t = 4881175 / 2 + ((60 * (t / 60) : Int) : ℚ) / 86400 := by
  have hdate := timeutil_ymdhms_to_JD_eq (epoch.addDays (t / 86400).toNat) (t / 3600 % 24)
    (t / 60 % 60) (t % 60)
  have hday : (epoch.addDays (t / 86400).toNat).julianDay = 2440588 + t / 86400 := by
    rw [GregorianDate.julianDay_addDays, julianDay_epoch]
    omega
  have hminutes : 60 * (t / 60) = 86400 * (t / 86400) + 3600 * (t / 3600 % 24) +
      60 * (t / 60 % 60) := by omega
  unfold timeutil_unix_to_JD gmtime
  simp only [sub_add_cancel]
  rw [hdate, hday, hminutes]
  push_cast
  ring

theorem truncate_intCast (n : Int) : truncate (n : ℚ) = n := by
  unfold truncate
  rw [Int.floor_intCast, Int.ceil_intCast, ite_self]

/-- Back comes the beginning of the minute. -/
theorem new_julian_unix_to_JD {t : Int} (ht : 0 ≤ t) :
    (DateTime.new_julian (timeutil_unix_to_JD t)).utime = 60 * (t / 60) := by
  have hseconds : (timeutil_unix_to_JD t - 4881175 / 2) * 86400 = ((60 * (t / 60) : Int) : ℚ) := by
    rw [timeutil_unix_to_JD_eq ht]
    ring
  unfold DateTime.new_julian
  rw [hseconds, truncate_intCast]

theorem timeutil_unix_to_JD_lt_iff {t u : Int} (ht : 0 ≤ t) (hu : 0 ≤ u) :
    timeutil_unix_to_JD t < timeutil_unix_to_JD u ↔ t / 60 < u / 60 := by
  rw [timeutil_unix_to_JD_eq ht, timeutil_unix_to_JD_eq hu, add_lt_add_iff_left,
    div_lt_div_iff_of_pos_right (by norm_num), Int.cast_lt]
  omega

/-- **Unix time and Julian dates** are inverse at whole minutes and nowhere else, and two times
have Julian dates in their order if and only if a minute begins between them. -/
theorem unix_julian_inverse_iff {t : Int} (ht : 0 ≤ t) :
    ((timeutil_unix_to_JD t = 4881175 / 2 + (t : ℚ) / 86400 ∧
      (DateTime.new_julian (timeutil_unix_to_JD t)).utime = t) ↔ t % 60 = 0) ∧
    ∀ u : Int, t < u → (timeutil_unix_to_JD t < timeutil_unix_to_JD u ↔ t / 60 < u / 60) := by
  constructor
  · rw [new_julian_unix_to_JD ht]
    constructor
    · rintro ⟨_, hback⟩
      omega
    · intro hminute
      have hwhole : 60 * (t / 60) = t := by omega
      rw [timeutil_unix_to_JD_eq ht, hwhole]
      exact ⟨rfl, rfl⟩
  · intro u htu
    exact timeutil_unix_to_JD_lt_iff ht (by omega)

theorem unix_julian_inverse_iff_noon :
    timeutil_unix_to_JD 43200 < timeutil_unix_to_JD 43260 ↔ (43200 : Int) / 60 < 43260 / 60 :=
  (unix_julian_inverse_iff (by decide)).2 43260 (by decide)

/-- The first two seconds of 1970 have the same Julian date. -/
theorem unix_to_JD_drops_seconds :
    timeutil_unix_to_JD 0 = timeutil_unix_to_JD 1 ∧
      (DateTime.new_julian (timeutil_unix_to_JD 1)).utime ≠ 1 := by
  have hfirst := timeutil_unix_to_JD_eq (show (0 : Int) ≤ 0 by decide)
  have hsecond := timeutil_unix_to_JD_eq (show (0 : Int) ≤ 1 by decide)
  rw [new_julian_unix_to_JD (by decide)]
  exact ⟨hfirst.trans hsecond.symm, by decide⟩

end Kbox.Solunar
