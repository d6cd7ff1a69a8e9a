import Kbox.Solunar.DayBounds

/-!
# Today's events

`DateTime_is_same_day` compares dates in UTC.  Two times may be on one date in UTC and on two in a
zone, or the other way round, when the zone's calendar is ahead at one of them only.
-/

namespace Kbox.Solunar

open Kbox.Framework

namespace DateTime

/-- `DateTime_is_same_day` -/
def is_same_day (self other : DateTime) : Bool :=
  let self_tm := civilTime self.utime
  let other_tm := civilTime other.utime
  self_tm.tm_mday = other_tm.tm_mday ∧ self_tm.tm_mon = other_tm.tm_mon ∧
    self_tm.tm_year = other_tm.tm_year

/-- `DateTime_clone` -/
def clone (other : DateTime) : DateTime := { new_utime other.utime with name := other.name }

end DateTime

/-- `get_events_today` -/
def get_events_today (named_days astro_events moon_events : List DateTime) (day : DateTime) :
    List DateTime :=
  ((named_days ++ moon_events ++ astro_events).filter (day.is_same_day ·)).map DateTime.clone

/-! ## §1  Dates in a zone -/

section Zone

-- How far the clocks of the zone are ahead of UTC.
variable (offset : Int → Int)

/-- Year, month and day on the calendars of the zone. -/
def localDate (t : Int) : Int × Int × Int :=
  let tm := civilTime (t + offset t)
  (tm.tm_year + 1900, tm.tm_mon + 1, tm.tm_mday)

/-- The days that the calendars of the zone are ahead of UTC, at a time. -/
def carry (t : Int) : Int := (t % 86400 + offset t) / 86400

/-- A time is an event's, in UTC if and only if in the zone: the calendars are as far ahead at both
of them, or they are neither on one day of UTC nor the difference in days apart. -/
def AgreesWithUTC (t u : Int) : Prop :=
  carry offset u = carry offset t ∨
    u / 86400 - t / 86400 ≠ 0 ∧ u / 86400 - t / 86400 ≠ carry offset t - carry offset u

instance (t u : Int) : Decidable (AgreesWithUTC offset t u) := by
  unfold AgreesWithUTC
  infer_instance

end Zone

variable {offset : Int → Int}

/-- The fields of a date name its day. -/
theorem civilTime_date_iff (t u : Int) :
    ((civilTime t).tm_year = (civilTime u).tm_year ∧ (civilTime t).tm_mon = (civilTime u).tm_mon ∧
      (civilTime t).tm_mday = (civilTime u).tm_mday) ↔ t / 86400 = u / 86400 := by
  have hday : t / 86400 = u / 86400 ↔ utcDay t = utcDay u := by
    unfold utcDay
    omega
  rw [hday]
  simp only [civilTime, sub_left_inj]
  constructor
  · rintro ⟨hyear, hmonth, hmday⟩
    rw [← GregorianDate.julianDay_ofJulianDay (utcDay t),
      ← GregorianDate.julianDay_ofJulianDay (utcDay u), GregorianDate.julianDay_eq_firstDay,
      GregorianDate.julianDay_eq_firstDay, hyear, hmonth, hmday]
  · intro hsame
    rw [hsame]
    exact ⟨rfl, rfl, rfl⟩

theorem localDate_eq_iff (t u : Int) : localDate offset t = localDate offset u ↔
    t / 86400 + carry offset t = u / 86400 + carry offset u := by
  have hdate := civilTime_date_iff (t + offset t) (u + offset u)
  have hday (v : Int) : (v + offset v) / 86400 = v / 86400 + carry offset v := by
    unfold carry
    omega
  rw [hday, hday] at hdate
  unfold localDate
  rw [Prod.mk.injEq, Prod.mk.injEq, add_left_inj, add_left_inj]
  exact hdate

theorem is_same_day_iff (day event : DateTime) :
    day.is_same_day event = true ↔ day.utime / 86400 = event.utime / 86400 := by
  unfold DateTime.is_same_day
  rw [decide_eq_true_iff, ← civilTime_date_iff]
  tauto

/-- The two tests agree. -/
theorem agreesWithUTC_iff (day event : DateTime) :
    AgreesWithUTC offset day.utime event.utime ↔ (day.is_same_day event = true ↔
      localDate offset event.utime = localDate offset day.utime) := by
  rw [is_same_day_iff, localDate_eq_iff]
  unfold AgreesWithUTC
  omega

theorem get_events_today_eq (named_days astro_events moon_events : List DateTime)
    (day : DateTime) : get_events_today named_days astro_events moon_events day =
      (named_days ++ moon_events ++ astro_events).filter (day.is_same_day ·) := by
  unfold get_events_today
  have hclone : DateTime.clone = id := rfl
  rw [hclone, List.map_id]

/-- Two tests that pick the same entries of a list. -/
theorem filter_eq_filter_iff {α : Type} (p q : α → Bool) (l : List α) :
    l.filter p = l.filter q ↔ ∀ a ∈ l, p a = q a := by
  constructor
  · intro hsame a ha
    have hmem : a ∈ l.filter p ↔ a ∈ l.filter q := by rw [hsame]
    rw [List.mem_filter, List.mem_filter] at hmem
    exact Bool.eq_iff_iff.mpr ⟨fun hp => (hmem.mp ⟨ha, hp⟩).2, fun hq => (hmem.mpr ⟨ha, hq⟩).2⟩
  · exact List.filter_congr

/-- What is reported for a day: the events of that local date, in order. -/
def ReportsToday (offset : Int → Int) (named_days astro_events moon_events : List DateTime)
    (day : DateTime) : Prop :=
  get_events_today named_days astro_events moon_events day =
    (named_days ++ moon_events ++ astro_events).filter fun event =>
      localDate offset event.utime = localDate offset day.utime

theorem reportsToday_iff (offset : Int → Int)
    (named_days astro_events moon_events : List DateTime) (day : DateTime) :
    ReportsToday offset named_days astro_events moon_events day ↔
      ∀ event ∈ named_days ++ moon_events ++ astro_events,
        AgreesWithUTC offset day.utime event.utime := by
  unfold ReportsToday
  rw [get_events_today_eq, filter_eq_filter_iff]
  refine forall₂_congr fun event _ => ?_
  rw [agreesWithUTC_iff, Bool.eq_iff_iff, decide_eq_true_iff]

/-- **Today's events are reported** if and only if the time agrees with UTC about every event.  So
is a named day, on every time of its date and on no other. -/
theorem reports_today_iff (offset : Int → Int)
    (named_days astro_events moon_events : List DateTime) (day : DateTime)
    [Libc] (env : Environ) (mday month year : Int) (name tz : Option String) (utc : Bool)
    (hmidnight : localDate offset (DateTime.new_dmy_name mday month year name tz utc env).1.utime =
      (year, month, mday)) :
    (ReportsToday offset named_days astro_events moon_events day ↔
      ∀ event ∈ named_days ++ moon_events ++ astro_events,
        AgreesWithUTC offset day.utime event.utime) ∧
    (((DateTime.new_dmy_name mday month year name tz utc env).1 ∈
          get_events_today [(DateTime.new_dmy_name mday month year name tz utc env).1] [] [] day ↔
        localDate offset day.utime = (year, month, mday)) ↔
      AgreesWithUTC offset day.utime
        (DateTime.new_dmy_name mday month year name tz utc env).1.utime) := by
  refine ⟨reportsToday_iff offset named_days astro_events moon_events day, ?_⟩
  generalize (DateTime.new_dmy_name mday month year name tz utc env).1 = event at hmidnight ⊢
  rw [agreesWithUTC_iff, get_events_today_eq, List.mem_filter, hmidnight,
    eq_comm (a := (year, month, mday))]
  simp

/-- The date of a time on the day of a date. -/
theorem localDate_of_day (date : GregorianDate) {t : Int}
    (ht : (t + offset t) / 86400 = date.julianDay - 2440588) :
    localDate offset t = (date.year, date.month, date.day) := by
  have hday : utcDay (t + offset t) = date.julianDay := by
    unfold utcDay
    omega
  obtain ⟨hyear, hmonth, hmday⟩ := date.ofJulianDay_julianDay
  simp only [localDate, civilTime, hday, sub_add_cancel, hyear, hmonth, hmday]

def christmas : GregorianDate := ⟨2023, 12, 25, by decide, by decide⟩

/-- In UTC. -/
theorem reports_today_christmas : let _ := DateTime.aheadOfUTC 0
    let event := (DateTime.new_dmy_name 25 12 2023 (some "Christmas Day") none false
      fun _ => none).1
    ReportsToday (fun _ => 0) [event] [] [] ⟨1703502000, none⟩ ∧
      event ∈ get_events_today [event] [] [] ⟨1703502000, none⟩ := by
  intro _ event
  have hmidnight : localDate (fun _ => 0) event.utime = (2023, 12, 25) :=
    localDate_of_day christmas (by decide)
  obtain ⟨hreports, hnamed⟩ := reports_today_iff (fun _ => 0) [event] [] [] ⟨1703502000, none⟩
    (fun _ => none) 25 12 2023 (some "Christmas Day") none false hmidnight
  exact ⟨hreports.mpr (by decide), (hnamed.mpr (by decide)).mpr
    (localDate_of_day christmas (by decide))⟩

/-- An hour ahead of UTC, 25 December at noon has no Christmas Day. -/
theorem christmas_missed : let _ := DateTime.aheadOfUTC 3600
    let event := (DateTime.new_dmy_name 25 12 2023 (some "Christmas Day") none false
      fun _ => none).1
    localDate (fun _ => 3600) event.utime = (2023, 12, 25) ∧
      localDate (fun _ => 3600) 1703502000 = (2023, 12, 25) ∧
      get_events_today [event] [] [] ⟨1703502000, none⟩ = [] ∧
      ¬ ReportsToday (fun _ => 3600) [event] [] [] ⟨1703502000, none⟩ := by
  intro _ event
  have hevent : localDate (fun _ => 3600) event.utime = (2023, 12, 25) :=
    localDate_of_day christmas (by decide)
  have hnoon : localDate (fun _ => 3600) 1703502000 = (2023, 12, 25) :=
    localDate_of_day christmas (by decide)
  have hmissed : (DateTime.is_same_day ⟨1703502000, none⟩ event) = false := by
    rw [← Bool.not_eq_true, is_same_day_iff]
    decide
  have hnone : get_events_today [event] [] [] ⟨1703502000, none⟩ = [] := by
    rw [get_events_today_eq]
    exact List.filter_cons_of_neg (by rw [hmissed]; decide)
  refine ⟨hevent, hnoon, hnone, fun hreports => ?_⟩
  unfold ReportsToday at hreports
  rw [hnone] at hreports
  have hmem : event ∈ [event].filter fun e =>
      localDate (fun _ => 3600) e.utime = localDate (fun _ => 3600) 1703502000 :=
    List.mem_filter.mpr ⟨List.mem_singleton_self event, decide_eq_true (hevent.trans hnoon.symm)⟩
  exact absurd (hreports ▸ hmem : event ∈ []) List.not_mem_nil

end Kbox.Solunar
