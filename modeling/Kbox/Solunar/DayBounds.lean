import Kbox.Solunar.YearListing

/-!
# Day bounds and setting the time

The fields are those of `gmtime`, in UTC, and `mktime` reads them as the process's own local time,
and as standard time, since `gmtime` says so.  The hours are doubles, and so is all that is computed
from them: `Float` is IEEE `binary64`.
-/

namespace Kbox.Solunar

open Kbox.Framework

/-! ## §1  Doubles -/

/-- The number that a double stands for. -/
def value (x : Float) : Option ℚ :=
  match x.toModel.unpack with
  | .finite sign mantissa exponent _ => some (sign.apply mantissa * 2 ^ exponent)
  | .zero _ => some 0
  | .infinity _ | .notANumber => none

/-- `floor` -/
def floor (x : Float) : Float :=
  match value x with
  | some v => Float.ofInt ⌊v⌋
  | none => x

/-- The conversion to `int`, of what fits into one. -/
def toInt (x : Float) : Int :=
  match value x with
  | some v => truncate v
  | none => 0

namespace DateTime

section Functions

variable [Libc]

/-- `DateTime_get_day_start` -/
def get_day_start (self : DateTime) : EnvM DateTime := do
  let tm := civilTime self.utime
  let utime ← mktime { tm with tm_hour := 0, tm_min := 0, tm_sec := 0 }
  return new_utime utime

/-- `DateTime_get_day_end` -/
def get_day_end (self : DateTime) : EnvM DateTime := do
  let tm := civilTime self.utime
  let utime ← mktime { tm with tm_hour := 23, tm_min := 59, tm_sec := 59 }
  return new_utime utime

/-- The hour, the minute and the second of `DateTime_set_time_hours_fraction`. -/
def fieldsOfHours (hours : Float) : Int × Int × Int :=
  let h := floor hours
  let m := floor ((hours - h) * 60)
  let s := (hours - h - m / 60) * 3600
  (toInt h, toInt m, toInt s)

/-- `DateTime_set_time_hours_fraction` -/
def set_time_hours_fraction (self : DateTime) (hours : Float) : EnvM DateTime := do
  let tm := civilTime self.utime
  let (h, m, s) := fieldsOfHours hours
  let utime ← mktime { tm with tm_hour := h, tm_min := m, tm_sec := s }
  return { self with utime := utime }

/-- The bounds of the UTC day around a time. -/
structure BoundsItsDay (d : DateTime) (env : Environ) : Prop where
  around : (d.get_day_start env).1.utime ≤ d.utime ∧
    d.utime ≤ (d.get_day_end env).1.utime
  start : civilTime (d.get_day_start env).1.utime =
    { civilTime d.utime with tm_hour := 0, tm_min := 0, tm_sec := 0 }
  stop : civilTime (d.get_day_end env).1.utime =
    { civilTime d.utime with tm_hour := 23, tm_min := 59, tm_sec := 59 }

/-- Every time of the day can be set, and is at most a second away from where it belongs. -/
def SetsItsTimes (d : DateTime) (env : Environ) : Prop :=
  ∀ hours v, value hours = some v → 0 ≤ v → v < 24 →
    |((d.set_time_hours_fraction hours env).1.utime : ℚ) -
      ((d.get_day_start env).1.utime + 3600 * v)| ≤ 1

/-- `mktime` in a zone, for times that are said to be standard time: `standard` is how far the
zone's standard time is ahead of UTC when it shows what the fields say. -/
def ReadsStandard (libc : Libc) (z : Option String) (standard : Int → Int) : Prop :=
  ∀ tm, tm.tm_isdst = 0 → libc.mktime z tm = tm.seconds - standard tm.seconds

end Functions

/-! ## §2  The fields of a time of day -/

/-- The UTC midnight in front of a time. -/
def midnightOf (t : Int) : Int := 86400 * (t / 86400)

/-- Other times on the day of a time. -/
theorem seconds_onDay (t hour min sec : Int) :
    { civilTime t with tm_hour := hour, tm_min := min, tm_sec := sec }.seconds =
      midnightOf t + 3600 * hour + 60 * min + sec := by
  have hseconds := seconds_civilTime t 0
  simp only [Tm.seconds, civilTime] at hseconds ⊢
  unfold midnightOf
  omega

theorem civilTime_onDay (t : Int) {second : Int} (h : 0 ≤ second ∧ second < 86400) :
    civilTime (midnightOf t + second) = { civilTime t with
      tm_hour := second / 3600, tm_min := second / 60 % 60, tm_sec := second % 60 } := by
  have hday : utcDay (midnightOf t + second) = utcDay t := by
    unfold utcDay midnightOf
    omega
  have hhour : (midnightOf t + second) / 3600 % 24 = second / 3600 := by
    unfold midnightOf
    omega
  have hmin : (midnightOf t + second) / 60 % 60 = second / 60 % 60 := by
    unfold midnightOf
    omega
  have hsec : (midnightOf t + second) % 60 = second % 60 := by
    unfold midnightOf
    omega
  simp only [civilTime, hday, hhour, hmin, hsec]

/-- The time of day is the one that the fields show. -/
theorem eq_of_civilTime {t u hour min sec : Int} (h : civilTime u =
    { civilTime t with tm_hour := hour, tm_min := min, tm_sec := sec }) :
    u = midnightOf t + 3600 * hour + 60 * min + sec := by
  have hseconds := congrArg Tm.seconds h
  rw [seconds_onDay t] at hseconds
  have hfields := seconds_civilTime u 0
  have hsame : { civilTime u with tm_isdst := 0 } = civilTime u := rfl
  rw [hsame] at hfields
  omega

section Zone

variable [libc : Libc] {env : Environ} {standard : Int → Int}

theorem utime_day_start (hzone : ReadsStandard libc (env "TZ") standard) (self : DateTime) :
    (self.get_day_start env).1.utime =
      midnightOf self.utime - standard (midnightOf self.utime) := by
  show libc.mktime (env "TZ") _ = _
  rw [hzone _ rfl, seconds_onDay]
  simp only [mul_zero, add_zero]

theorem utime_day_end (hzone : ReadsStandard libc (env "TZ") standard) (self : DateTime) :
    (self.get_day_end env).1.utime =
      midnightOf self.utime + 86399 - standard (midnightOf self.utime + 86399) := by
  show libc.mktime (env "TZ") _ = _
  rw [hzone _ rfl, seconds_onDay, show midnightOf self.utime + 3600 * 23 + 60 * 59 + 59 =
    midnightOf self.utime + 86399 by omega]

/-- The day's bounds are right if and only if the zone's standard time is UTC at both of them. -/
theorem boundsItsDay_iff (hzone : ReadsStandard libc (env "TZ") standard) (self : DateTime) :
    self.BoundsItsDay env ↔
      standard (midnightOf self.utime) = 0 ∧ standard (midnightOf self.utime + 86399) = 0 := by
  have hstart := utime_day_start hzone self
  have hstop := utime_day_end hzone self
  constructor
  · intro hbounds
    have hfirst := eq_of_civilTime hbounds.start
    have hlast := eq_of_civilTime hbounds.stop
    constructor <;> omega
  · rintro ⟨hfirst, hlast⟩
    rw [hfirst, sub_zero] at hstart
    rw [hlast, sub_zero] at hstop
    have hday : midnightOf self.utime ≤ self.utime ∧
        self.utime ≤ midnightOf self.utime + 86399 := by
      unfold midnightOf
      omega
    refine ⟨by omega, ?_, ?_⟩
    · have hfields := @civilTime_onDay self.utime 0 ⟨le_refl 0, by norm_num⟩
      rw [add_zero] at hfields
      rw [hstart, hfields]
      rfl
    · rw [hstop, civilTime_onDay self.utime ⟨by norm_num, by norm_num⟩]
      rfl

end Zone

/-- The double below 23 minutes, and one above 23 minutes and a second. -/
def early : Float := 0.3833333333333333
def late : Float := 0.3836111111111111

theorem value_early : value early = some (1380 / 3600 - 1 / 33776997205278720) := by
  decide +kernel

theorem value_late : value late = some (1381 / 3600 + 7 / 506654958079180800) := by
  decide +kernel

/-- More than a second lies between them, but their fields are the same. -/
theorem fields_early_late : fieldsOfHours early = (0, 23, 0) ∧ fieldsOfHours late = (0, 23, 0) := by
  decide +kernel

/-- Whatever the library and the zone are, one of the two is set too early or too late. -/
theorem not_setsItsTimes [Libc] (env : Environ) (self : DateTime) : ¬ self.SetsItsTimes env := by
  intro hsets
  have hfirst := hsets early _ value_early (by norm_num) (by norm_num)
  have hsecond := hsets late _ value_late (by norm_num) (by norm_num)
  have hsame : (self.set_time_hours_fraction late env).1.utime =
      (self.set_time_hours_fraction early env).1.utime := by
    unfold set_time_hours_fraction
    rw [fields_early_late.1, fields_early_late.2]
  rw [hsame] at hsecond
  generalize (self.set_time_hours_fraction early env).1.utime = t at hfirst hsecond
  generalize (self.get_day_start env).1.utime = u at hfirst hsecond
  rw [abs_le] at hfirst hsecond
  have hlow : (u : ℚ) + 1380 < t := by linarith [hsecond.1]
  have hhigh : (t : ℚ) < u + 1381 := by linarith [hfirst.2]
  have hlow' : u + 1380 < t := by exact_mod_cast hlow
  have hhigh' : t < u + 1381 := by exact_mod_cast hhigh
  omega

/-- A library for a zone whose standard time is so far ahead of UTC. -/
@[reducible] def aheadOfUTC (seconds : Int) : Libc where
  localtime _ t := civilTime (t + seconds)
  mktime _ tm := tm.seconds - seconds
  ctime _ _ := []
  strptime _ _ tm := (tm, none)

end DateTime

end Kbox.Solunar
