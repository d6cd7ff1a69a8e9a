import Mathlib.Data.Int.Interval
import Mathlib.Data.List.Count
import Kbox.Framework.CivilDays
import Kbox.Solunar.Zones
import Kbox.Solunar.UnixTime

/-!
# The listing of a year

`list_events` starts at what `DateTime_get_jan_first` returns, the beginning of 31 December, and
visits 365 days of the zone.  An event is printed on the visits that have its month and day in UTC.
-/

namespace Kbox.Solunar

open Kbox.Framework

/-! ## §1  The loop -/

/-- The Julian day number of a time, in UTC. -/
def utcDay (t : Int) : Int := 2440588 + t / 86400

/-- `gmtime`, in all years. -/
def civilTime (t : Int) : Tm :=
  let date := GregorianDate.ofJulianDay (utcDay t)
  { tm_sec := t % 60
    tm_min := t / 60 % 60
    tm_hour := t / 3600 % 24
    tm_mday := date.day
    tm_mon := date.month - 1
    tm_year := date.year - 1900
    tm_isdst := 0 }

theorem civilTime_eq_gmtime {t : Int} (ht : 0 ≤ t) : civilTime t = gmtime t := by
  have hday : (epoch.addDays (t / 86400).toNat).julianDay = utcDay t := by
    rw [GregorianDate.julianDay_addDays, julianDay_epoch, utcDay]
    omega
  obtain ⟨hyear, hmonth, hmday⟩ := (epoch.addDays (t / 86400).toNat).ofJulianDay_julianDay
  rw [hday] at hyear hmonth hmday
  simp only [civilTime, gmtime, hyear, hmonth, hmday]

namespace DateTime

/-- `DateTime_is_same_day_of_year` -/
def is_same_day_of_year (self other : DateTime) : Bool :=
  let self_tm := civilTime self.utime
  let other_tm := civilTime other.utime
  self_tm.tm_mday = other_tm.tm_mday ∧ self_tm.tm_mon = other_tm.tm_mon

variable [Libc]

section Listing

variable (strftime : String → Tm → List Char)

/-- `DateTime_date_to_string` -/
def date_to_string (self : DateTime) : EnvM (List Char) := do
  return strftime "%A %e %B %Y" (← localtime self.utime)

/-- The line of an event. -/
def eventLine (event : DateTime) (tz : Option String) (utc : Bool) : EnvM (List Char) := do
  let s ← event.date_to_string strftime
  let (_, _, _, hour, min, sec) ← event.get_ymdhms tz utc
  -- An event at midnight lasts all day
  let time := if hour = 0 ∧ min = 0 ∧ sec = 0 then []
    else " (".toList ++ format2 hour ++ ':' :: format2 min ++ [')']
  return s ++ ' ' :: List.replicate (26 - s.length) ' ' ++ (event.name.getD "").toList ++ time ++
    ['\n']

/-- The inner loop of `list_events`: the events that are printed, with their lines. -/
def printEvents (d : DateTime) (tz : Option String) (utc : Bool) :
    List DateTime → EnvM (List (DateTime × List Char))
  | [] => return []
  | event :: events => do
      if d.is_same_day_of_year event then
        let line ← eventLine strftime event tz utc
        return (event, line) :: (← printEvents d tz utc events)
      else printEvents d tz utc events

/-- The outer loop. -/
def listDays (events : List DateTime) (tz : Option String) (utc : Bool) :
    Nat → DateTime → EnvM (List (DateTime × List Char))
  | 0, _ => return []
  | n + 1, d => do
      let printed ← printEvents strftime d tz utc events
      let d ← d.add_days 1 tz utc
      return printed ++ (← listDays events tz utc n d)

def list_events (events : List DateTime) (start : DateTime) (tz : Option String) (utc : Bool) :
    EnvM (List (DateTime × List Char)) :=
  listDays strftime events tz utc 365 start

/-- The listing of the year of `now`, as `main` calls it. -/
def listYear (events : List DateTime) (now : DateTime) (tz : Option String) (utc : Bool) :
    EnvM (List (DateTime × List Char)) := do
  let jan_first ← now.get_jan_first tz utc
  list_events strftime events jan_first tz utc

end Listing

/-! ## §2  What is visited -/

/-- The zone that the library works in. -/
def zoneName (tz : Option String) (utc : Bool) (env : Environ) : Option String :=
  (zoneOf tz utc).or (env "TZ")

/-- The time that the loop starts with. -/
def firstVisit (z : Option String) (now : Int) : Int :=
  Libc.mktime z { Libc.localtime z now with
    tm_mday := 0, tm_mon := 0, tm_hour := 0, tm_min := 0, tm_sec := 0, tm_isdst := -1 }

/-- A day of the zone later. -/
def nextVisit (z : Option String) (t : Int) : Int :=
  let tm := Libc.localtime z t
  Libc.mktime z { tm with tm_mday := tm.tm_mday + 1, tm_isdst := -1 }

/-- The time of a visit. -/
def visit (z : Option String) (now : Int) : Nat → Int
  | 0 => firstVisit z now
  | i + 1 => nextVisit z (visit z now i)

section Environment

variable {α : Type} {tz : Option String} {utc : Bool}

/-- The zone of the calls with this `tz` stays as it is. -/
def KeepsZone (tz : Option String) (utc : Bool) (x : EnvM α) : Prop :=
  ∀ env, zoneName tz utc (x env).2 = zoneName tz utc env

omit [Libc] in
theorem keepsZone_readsOnly {x : EnvM α} (hx : ReadsOnly x) : KeepsZone tz utc x := by
  intro env
  rw [hx]

omit [Libc] in
theorem KeepsZone.bind {β : Type} {x : EnvM α} {f : α → EnvM β} (hx : KeepsZone tz utc x)
    (hf : ∀ a, KeepsZone tz utc (f a)) : KeepsZone tz utc (x >>= f) := by
  intro env
  show zoneName tz utc (f (x env).1 (x env).2).2 = _
  rw [hf, hx]

omit [Libc] in
theorem keepsZone_zoned {body : EnvM α} (hbody : ReadsOnly body) :
    KeepsZone tz utc (zoned (zoneOf tz utc) body) := by
  intro env
  rw [zoned_env hbody]
  unfold zoneName
  cases zoneOf tz utc with
  | none => rfl
  | some z => rfl

omit [Libc] in
/-- A body sees the zone. -/
theorem zoned_fst {body : EnvM α} (env : Environ) {f : Option String → α}
    (hbody : ∀ env, (body env).1 = f (env "TZ")) :
    (zoned (zoneOf tz utc) body env).1 = f (zoneName tz utc env) := by
  unfold zoneName
  cases zoneOf tz utc with
  | none => exact hbody env
  | some z =>
      show (body (Function.update env "TZ" (some z))).1 = _
      rw [hbody, Function.update_self]
      rfl

theorem get_jan_first_fst (now : DateTime) (env : Environ) :
    (now.get_jan_first tz utc env).1 = new_utime (firstVisit (zoneName tz utc env) now.utime) := by
  unfold get_jan_first
  exact zoned_fst (f := fun z => new_utime (firstVisit z now.utime)) env fun _ => rfl

theorem keepsZone_get_jan_first (now : DateTime) : KeepsZone tz utc (now.get_jan_first tz utc) :=
  keepsZone_zoned fun _ => rfl

theorem add_days_fst (d : DateTime) (env : Environ) :
    (d.add_days 1 tz utc env).1 = { d with utime := nextVisit (zoneName tz utc env) d.utime } := by
  have hutime : (zoned (zoneOf tz utc) (do
      let tm ← localtime d.utime
      mktime { tm with tm_mday := tm.tm_mday + 1, tm_isdst := -1 }) env).1 =
      nextVisit (zoneName tz utc env) d.utime :=
    zoned_fst (f := fun z => nextVisit z d.utime) env fun _ => rfl
  exact congrArg (fun t => ({ d with utime := t } : DateTime)) hutime

theorem keepsZone_add_days (d : DateTime) : KeepsZone tz utc (d.add_days 1 tz utc) :=
  (keepsZone_zoned fun _ => rfl).bind fun _ => keepsZone_readsOnly (readsOnly_pure _)

variable (strftime : String → Tm → List Char)

theorem keepsZone_eventLine (event : DateTime) :
    KeepsZone tz utc (eventLine strftime event tz utc) := by
  refine (keepsZone_readsOnly fun _ => rfl).bind fun s => ?_
  exact (keepsZone_zoned fun _ => rfl).bind fun _ => keepsZone_readsOnly (readsOnly_pure _)

theorem keepsZone_printEvents (d : DateTime) (events : List DateTime) :
    KeepsZone tz utc (printEvents strftime d tz utc events) := by
  induction events with
  | nil => exact keepsZone_readsOnly (readsOnly_pure _)
  | cons event events ih =>
      unfold printEvents
      split
      · refine (keepsZone_eventLine strftime event).bind fun line => ?_
        exact ih.bind fun _ => keepsZone_readsOnly (readsOnly_pure _)
      · exact ih

theorem printEvents_fst (d : DateTime) (events : List DateTime) (env : Environ) :
    (printEvents strftime d tz utc events env).1.map Prod.fst =
      events.filter d.is_same_day_of_year := by
  induction events generalizing env with
  | nil => rfl
  | cons event events ih =>
      by_cases hday : d.is_same_day_of_year event = true
      · rw [List.filter_cons_of_pos hday, printEvents, if_pos hday]
        exact congrArg (event :: ·) (ih _)
      · rw [List.filter_cons_of_neg hday, printEvents, if_neg hday]
        exact ih env

/-- The loop prints on each visit the events of its day. -/
theorem listDays_fst (events : List DateTime) (z : Option String) (now : Int) (n i : Nat)
    (d : DateTime) (hd : d.utime = visit z now i) (env : Environ)
    (hz : zoneName tz utc env = z) :
    (listDays strftime events tz utc n d env).1.map Prod.fst = (List.range' i n).flatMap fun i =>
      events.filter (new_utime (visit z now i)).is_same_day_of_year := by
  induction n generalizing i d env with
  | zero => rfl
  | succ n ih =>
      have hkeeps : zoneName tz utc (printEvents strftime d tz utc events env).2 = z :=
        (keepsZone_printEvents strftime d events env).trans hz
      generalize hprinted : printEvents strftime d tz utc events env = printed at hkeeps
      have hprint : printed.1.map Prod.fst = events.filter d.is_same_day_of_year := by
        rw [← hprinted]
        exact printEvents_fst strftime d events env
      have hrun : (listDays strftime events tz utc (n + 1) d env).1 = printed.1 ++
          (listDays strftime events tz utc n (d.add_days 1 tz utc printed.2).1
            (d.add_days 1 tz utc printed.2).2).1 := by
        rw [← hprinted]
        rfl
      have hnext := @add_days_fst _ tz utc d printed.2
      have hutime : (d.add_days 1 tz utc printed.2).1.utime = visit z now (i + 1) := by
        rw [hnext, hkeeps, hd]
        rfl
      rw [List.range'_succ, List.flatMap_cons, hrun, List.map_append, hprint,
        ih (i + 1) _ hutime _ ((keepsZone_add_days d _).trans hkeeps)]
      unfold is_same_day_of_year
      rw [hd]
      rfl

theorem listYear_fst (events : List DateTime) (now : DateTime) (env : Environ) :
    (listYear strftime events now tz utc env).1.map Prod.fst = (List.range 365).flatMap fun i =>
      events.filter
        (new_utime (visit (zoneName tz utc env) now.utime i)).is_same_day_of_year := by
  have hrun (n : Nat) : ((do
      let jan_first ← now.get_jan_first tz utc
      listDays strftime events tz utc n jan_first) env).1 =
      (listDays strftime events tz utc n (now.get_jan_first tz utc env).1
        (now.get_jan_first tz utc env).2).1 := rfl
  have hstart : (now.get_jan_first tz utc env).1.utime =
      visit (zoneName tz utc env) now.utime 0 := by
    rw [get_jan_first_fst]
    rfl
  unfold listYear list_events
  rw [hrun, List.range_eq_range']
  exact listDays_fst strftime events (zoneName tz utc env) now.utime 365 0 _ hstart _
    (keepsZone_get_jan_first now env)

end Environment

/-! ## §3  Events printed once -/

section Counting

omit [Libc] in
theorem is_same_day_of_year_iff (d event : DateTime) : d.is_same_day_of_year event = true ↔
    (GregorianDate.ofJulianDay (utcDay d.utime)).SameDayOfYear
      (GregorianDate.ofJulianDay (utcDay event.utime)) := by
  unfold is_same_day_of_year civilTime GregorianDate.SameDayOfYear
  simp only [Bool.decide_and, Bool.and_eq_true, decide_eq_true_eq, sub_left_inj]
  exact and_comm

omit [Libc] in
/-- An event is printed as often as its day is visited. -/
theorem count_visits (p : Nat → DateTime → Bool) (visits : List Nat) (events : List DateTime)
    (event : DateTime) : (visits.flatMap fun i => events.filter (p i)).count event =
      visits.countP (fun i => p i event) * events.count event := by
  induction visits with
  | nil => simp
  | cons i visits ih =>
      rw [List.flatMap_cons, List.count_append, ih, List.countP_cons, Nat.add_mul, Nat.add_comm]
      congr 1
      by_cases hp : p i event = true
      · rw [List.count_filter hp, if_pos hp, Nat.one_mul]
      · rw [if_neg hp, Nat.zero_mul, List.count_eq_zero]
        intro hmem
        exact hp (List.mem_filter.mp hmem).2

omit [Libc] in
theorem perm_visits_iff (p : Nat → DateTime → Bool) (visits : List Nat)
    (events : List DateTime) : (visits.flatMap fun i => events.filter (p i)).Perm events ↔
      ∀ event ∈ events, visits.countP (fun i => p i event) = 1 := by
  rw [List.perm_iff_count]
  constructor
  · intro h event hevent
    have hcount := h event
    rw [count_visits] at hcount
    exact Nat.eq_of_mul_eq_mul_right (List.count_pos_iff.mpr hevent)
      (hcount.trans (Nat.one_mul _).symm)
  · intro h event
    rw [count_visits]
    by_cases hevent : event ∈ events
    · rw [h event hevent, Nat.one_mul]
    · rw [List.count_eq_zero.mpr hevent, Nat.mul_zero]

omit [Libc] in
theorem countP_range_eq_one (p : Nat → Bool) (n : Nat) :
    (List.range n).countP p = 1 ↔ ∃! i, i < n ∧ p i = true := by
  have hcard : (List.range n).countP p = ((Finset.range n).filter fun i => p i = true).card := by
    rw [List.countP_eq_length_filter]
    show _ = ((List.range n).filter fun i => decide (p i = true)).length
    simp only [Bool.decide_eq_true]
  rw [hcard, Finset.card_eq_one]
  constructor
  · rintro ⟨i, hi⟩
    have hmem (j : Nat) : (j < n ∧ p j = true) ↔ j = i := by
      have hsame := Finset.ext_iff.mp hi j
      simpa only [Finset.mem_filter, Finset.mem_range, Finset.mem_singleton] using hsame
    exact ⟨i, (hmem i).mpr rfl, fun j hj => (hmem j).mp hj⟩
  · rintro ⟨i, hi, huniq⟩
    refine ⟨i, Finset.ext fun j => ?_⟩
    rw [Finset.mem_filter, Finset.mem_range, Finset.mem_singleton]
    constructor
    · exact fun hj => huniq j hj
    · rintro rfl
      exact hi

/-- Exactly one of the days `u 0`, ..., `u 364` is the day of the year of day `n`. -/
def VisitedOnce (u : Nat → Int) (n : Int) : Prop :=
  ∃! i, i < 365 ∧
    (GregorianDate.ofJulianDay (u i)).SameDayOfYear (GregorianDate.ofJulianDay n)

/-- The listing has each event once if and only if the day of each is visited once. -/
theorem listYear_perm_iff (strftime : String → Tm → List Char) (events : List DateTime)
    (now : DateTime) (tz : Option String) (utc : Bool) (env : Environ) :
    ((listYear strftime events now tz utc env).1.map Prod.fst).Perm events ↔
      ∀ event ∈ events, VisitedOnce
        (fun i => utcDay (visit (zoneName tz utc env) now.utime i)) (utcDay event.utime) := by
  rw [listYear_fst, perm_visits_iff]
  refine forall₂_congr fun event _ => ?_
  rw [countP_range_eq_one]
  unfold VisitedOnce
  simp only [is_same_day_of_year_iff]
  rfl

end Counting

end DateTime

/-! ## §4  Days of the year among the visits -/

section Days

open DateTime (VisitedOnce)

variable {u : Nat → Int} {year : Int}

/-- There are as many visits as days of the year, if each of them is visited. -/
theorem days_le_visits (visits : Finset Nat)
    (h : ∀ n, GregorianDate.firstDay year ≤ n → n < GregorianDate.firstDay (year + 1) →
      ∃ i ∈ visits,
        (GregorianDate.ofJulianDay (u i)).SameDayOfYear (GregorianDate.ofJulianDay n)) :
    GregorianDate.firstDay (year + 1) - GregorianDate.firstDay year ≤ visits.card := by
  choose! visitOf hmem hsame using h
  let days := Finset.Ico (GregorianDate.firstDay year) (GregorianDate.firstDay (year + 1))
  have hinj : Set.InjOn visitOf days := by
    intro n hn n' hn' heq
    obtain ⟨hlo, hhi⟩ := Finset.mem_Ico.mp (Finset.mem_coe.mp hn)
    obtain ⟨hlo', hhi'⟩ := Finset.mem_Ico.mp (Finset.mem_coe.mp hn')
    obtain ⟨hmonth, hday⟩ := hsame n hlo hhi
    obtain ⟨hmonth', hday'⟩ := hsame n' hlo' hhi'
    rw [heq] at hmonth hday
    have hyear {m : Int} (hm : GregorianDate.firstDay year ≤ m ∧
        m < GregorianDate.firstDay (year + 1)) : (GregorianDate.ofJulianDay m).year = year := by
      refine GregorianDate.year_eq ?_
      rw [GregorianDate.julianDay_ofJulianDay]
      exact hm
    have hsame := (GregorianDate.sameDayOfYear_iff
      ((hyear ⟨hlo, hhi⟩).trans (hyear ⟨hlo', hhi'⟩).symm)).mp
      ⟨hmonth.symm.trans hmonth', hday.symm.trans hday'⟩
    rw [GregorianDate.julianDay_ofJulianDay, GregorianDate.julianDay_ofJulianDay] at hsame
    exact hsame
  have hcard : days.card ≤ visits.card := by
    refine Finset.card_le_card_of_injOn visitOf ?_ hinj
    intro n hn
    obtain ⟨hlo, hhi⟩ := Finset.mem_Ico.mp hn
    exact hmem n hlo hhi
  rw [Int.card_Ico] at hcard
  omega

/-- In a year that is not a leap year, by the places of the days. -/
theorem visitedOnce_iff (hleap : ¬ IsLeap year)
    (hu : ∀ i < 365, GregorianDate.firstDay year - 2 ≤ u i ∧
      u i ≤ GregorianDate.firstDay year + 365) {n : Int}
    (hn : GregorianDate.firstDay year - 2 ≤ n ∧ n ≤ GregorianDate.firstDay year + 365) :
    VisitedOnce u n ↔ ∃! i, i < 365 ∧ (u i - GregorianDate.firstDay year) % 365 =
      (n - GregorianDate.firstDay year) % 365 := by
  refine existsUnique_congr fun i => and_congr_right fun hi => ?_
  rw [GregorianDate.sameDayOfYear_iff_mod hleap]
  · rw [GregorianDate.julianDay_ofJulianDay, GregorianDate.julianDay_ofJulianDay]
  · rw [GregorianDate.julianDay_ofJulianDay]
    exact hu i hi
  · rw [GregorianDate.julianDay_ofJulianDay]
    exact hn

/-- Visits on the day before or on the day itself, each day of the year once: the visits are a day
apart. -/
theorem visits_follow (hleap : ¬ IsLeap year)
    (hu : ∀ i : Nat, i < 365 → u i = GregorianDate.firstDay year - 2 + i ∨
      u i = GregorianDate.firstDay year - 1 + i)
    (honce : ∀ n, GregorianDate.firstDay year ≤ n → n < GregorianDate.firstDay year + 365 →
      VisitedOnce u n) {i : Nat} (hi : i < 365) : u i = u 0 + i := by
  have hrange (i : Nat) (hi : i < 365) : GregorianDate.firstDay year - 2 ≤ u i ∧
      u i ≤ GregorianDate.firstDay year + 365 := by
    have := hu i hi
    omega
  induction i with
  | zero => exact (Int.add_zero _).symm
  | succ i ih =>
      -- the day of visit `i`, if it is not visited a day early
      have hvisited : ∃! j, j < 365 ∧ (u j - GregorianDate.firstDay year) % 365 =
          ((i : Int) - 1) % 365 := by
        have hday := honce (GregorianDate.firstDay year + ((i : Int) - 1) % 365) (by omega)
          (by omega)
        rw [visitedOnce_iff hleap hrange (by omega)] at hday
        simpa only [add_sub_cancel_left, Int.emod_emod] using hday
      obtain ⟨j, ⟨hj, hsame⟩, huniq⟩ := hvisited
      have hthis := huniq i
      have hnext := huniq (i + 1)
      have hcases := hu i (by omega)
      have hcases' := hu (i + 1) hi
      have hcasesj := hu j hj
      have hearlier := ih (by omega)
      have hplace : (j : Int) = i ∧ u i = GregorianDate.firstDay year - 1 + i ∨
          (j : Int) = i + 1 ∧ u (i + 1) = GregorianDate.firstDay year - 1 + i := by
        rcases hcasesj with hlow | hhigh
        · right
          have hji : (j : Int) = i + 1 := by omega
          have hji' : j = i + 1 := by omega
          subst hji'
          exact ⟨hji, by omega⟩
        · left
          have hji : (j : Int) = i := by omega
          have hji' : j = i := by omega
          subst hji'
          exact ⟨hji, by omega⟩
      push_cast at hcases' ⊢
      rcases hplace with ⟨hji, hplace⟩ | ⟨hji, hplace⟩
      · have hnot : u (i + 1) ≠ GregorianDate.firstDay year - 1 + i := by
          intro heq
          have := hnext ⟨hi, by rw [heq]; omega⟩
          omega
        omega
      · have hnot : u i ≠ GregorianDate.firstDay year - 1 + i := by
          intro heq
          have := hthis ⟨by omega, by rw [heq]; omega⟩
          omega
        omega

end Days

/-! ## §5  Zones -/

/-- A rule for the local time: what the clocks are ahead of UTC, less than a day. -/
structure Zone where
  offset : Int → Int
  lt_day : ∀ t, -86400 < offset t ∧ offset t < 86400

/-- The time of the fields, counted as if they were UTC; they need not be in their ranges. -/
def Tm.seconds (tm : Tm) : Int :=
  let year := tm.tm_year + 1900 + tm.tm_mon / 12
  86400 * (GregorianDate.firstDay year + daysBefore year (tm.tm_mon % 12 + 1) + tm.tm_mday - 1 -
    2440588) + 3600 * tm.tm_hour + 60 * tm.tm_min + tm.tm_sec

theorem seconds_civilTime (t : Int) (isdst : Int) :
    { civilTime t with tm_isdst := isdst }.seconds = t := by
  have hday := (GregorianDate.ofJulianDay (utcDay t)).julianDay_eq_firstDay
  have hmonth := (GregorianDate.ofJulianDay (utcDay t)).month_range
  have hutc : utcDay t = 2440588 + t / 86400 := rfl
  rw [GregorianDate.julianDay_ofJulianDay] at hday
  simp only [Tm.seconds, civilTime, sub_add_cancel]
  rw [Int.ediv_eq_zero_of_lt (by omega) (by omega), Int.emod_eq_of_lt (by omega) (by omega),
    sub_add_cancel, add_zero]
  omega

namespace Zone

variable (zone : Zone)

/-- What the clocks show. -/
def wall (t : Int) : Int := t + zone.offset t

/-- The year on the calendars. -/
def yearOf (t : Int) : Int := (GregorianDate.ofJulianDay (utcDay (zone.wall t))).year

/-- Midnight on the `i`-th day from 31 December in front of a year, by the clock. -/
def midnight (year i : Int) : Int := 86400 * (GregorianDate.firstDay year - 1 + i - 2440588)

/-- The library works in the zone, and as the C standard says: `mktime` returns a time that has the
fields, if there is one. -/
structure Conforms (libc : Libc) (z : Option String) : Prop where
  localtime : ∀ t, { libc.localtime z t with tm_isdst := 0 } = civilTime (zone.wall t)
  mktime : ∀ tm, tm.tm_isdst = -1 → (∃ t, zone.wall t = tm.seconds) →
    zone.wall (libc.mktime z tm) = tm.seconds
  normalises : ∀ tm tm', tm.tm_isdst = -1 → tm'.tm_isdst = -1 → tm.seconds = tm'.seconds →
    libc.mktime z tm = libc.mktime z tm'

/-- The listing of a year has each event of the year exactly once. -/
def ListsOnce (year : Int) : Prop :=
  ∀ (libc : Libc) (strftime : String → Tm → List Char) (tz : Option String) (utc : Bool)
    (env : Environ), zone.Conforms libc (DateTime.zoneName tz utc env) →
    ∀ now : DateTime, zone.yearOf now.utime = year →
    ∀ events : List DateTime, (∀ event ∈ events, zone.yearOf event.utime = year) →
      ((DateTime.listYear strftime events now tz utc env).1.map Prod.fst).Perm events

/-- On each of the 365 days from 31 December on there is a midnight, and all midnights are on the
UTC day of their date, or all on the one in front of it. -/
def MidnightsAlign (year : Int) : Prop :=
  ∃ c : Int, ∀ i : Nat, i < 365 → (∃ t, zone.wall t = midnight year i) ∧
    ∀ t, zone.wall t = midnight year i → utcDay t = GregorianDate.firstDay year - 1 + i + c

section Visits

variable {zone} {libc : Libc} {z : Option String} {year : Int}

/-- `DateTime_get_jan_first` asks for the midnight of 31 December. -/
theorem Conforms.seconds_first (hc : zone.Conforms libc z) (now : Int) :
    { libc.localtime z now with
      tm_mday := 0, tm_mon := 0, tm_hour := 0, tm_min := 0, tm_sec := 0,
      tm_isdst := -1 : Tm }.seconds = midnight (zone.yearOf now) 0 := by
  have hyear : (libc.localtime z now).tm_year = zone.yearOf now - 1900 :=
    congrArg Tm.tm_year (hc.localtime now)
  simp only [Tm.seconds, hyear, midnight, daysBefore, Int.zero_ediv, Int.zero_emod]
  norm_num

/-- `DateTime_add_days` asks for the same time of the next day. -/
theorem Conforms.seconds_next (hc : zone.Conforms libc z) (t : Int) :
    { libc.localtime z t with
      tm_mday := (libc.localtime z t).tm_mday + 1, tm_isdst := -1 : Tm }.seconds =
      zone.wall t + 86400 := by
  have htime := seconds_civilTime (zone.wall t) 0
  rw [← hc.localtime t] at htime
  simp only [Tm.seconds] at htime ⊢
  omega

/-- The visits are at the midnights, as long as there are midnights. -/
theorem Conforms.wall_visit (hc : zone.Conforms libc z) (now : Int) (i : Nat)
    (h : ∀ j : Nat, j ≤ i → ∃ t, zone.wall t = midnight (zone.yearOf now) j) :
    zone.wall (DateTime.visit z now i) = midnight (zone.yearOf now) i := by
  induction i with
  | zero =>
      have hfirst := hc.seconds_first now
      have hexists := h 0 le_rfl
      rw [Nat.cast_zero] at hexists ⊢
      rw [← hfirst] at hexists ⊢
      exact hc.mktime _ rfl hexists
  | succ i ih =>
      have hearlier := ih fun j hj => h j (by omega)
      have hnext : { libc.localtime z (DateTime.visit z now i) with
          tm_mday := (libc.localtime z (DateTime.visit z now i)).tm_mday + 1,
          tm_isdst := -1 : Tm }.seconds = midnight (zone.yearOf now) (i + 1 : Nat) := by
        rw [hc.seconds_next, hearlier]
        unfold midnight
        push_cast
        omega
      have hexists := h (i + 1) le_rfl
      rw [← hnext] at hexists ⊢
      exact hc.mktime _ rfl hexists

/-- A midnight is on the UTC day of its date or on the one in front of it. -/
theorem utcDay_midnight {t i : Int} (h : zone.wall t = midnight year i) :
    utcDay t = GregorianDate.firstDay year - 2 + i ∨
      utcDay t = GregorianDate.firstDay year - 1 + i := by
  have hoffset := zone.lt_day t
  unfold wall midnight at h
  unfold utcDay
  omega

/-- A year of the zone lies within a day of the year of UTC. -/
theorem utcDay_of_yearOf {t : Int} (h : zone.yearOf t = year) :
    GregorianDate.firstDay year - 1 ≤ utcDay t ∧
      utcDay t ≤ GregorianDate.firstDay (year + 1) := by
  have hlo := GregorianDate.firstDay_le_julianDay (GregorianDate.ofJulianDay (utcDay (zone.wall t)))
  have hhi := GregorianDate.julianDay_lt_firstDay (GregorianDate.ofJulianDay (utcDay (zone.wall t)))
  rw [GregorianDate.julianDay_ofJulianDay] at hlo hhi
  unfold yearOf at h
  rw [h] at hlo hhi
  have hoffset := zone.lt_day t
  unfold utcDay wall at *
  omega

/-- Each day of the year has a time that is in the year by the clocks of the zone. -/
theorem exists_time (zone : Zone) {n : Int} (hn : GregorianDate.firstDay year ≤ n ∧
    n < GregorianDate.firstDay (year + 1)) : ∃ t, utcDay t = n ∧ zone.yearOf t = year := by
  have hyear (t : Int) (ht : GregorianDate.firstDay year ≤ utcDay (zone.wall t) ∧
      utcDay (zone.wall t) < GregorianDate.firstDay (year + 1)) : zone.yearOf t = year := by
    refine GregorianDate.year_eq ?_
    rw [GregorianDate.julianDay_ofJulianDay]
    exact ht
  have hnext := GregorianDate.firstDay_next year
  by_cases hlast : n + 1 = GregorianDate.firstDay (year + 1)
  · -- the beginning of the last day
    have hoffset := zone.lt_day (86400 * (n - 2440588))
    refine ⟨86400 * (n - 2440588), ?_, hyear _ ?_⟩
    · unfold utcDay
      omega
    · unfold utcDay wall
      split_ifs at hnext <;> omega
  · have hoffset := zone.lt_day (86400 * (n - 2440588) + 86399)
    refine ⟨86400 * (n - 2440588) + 86399, ?_, hyear _ ?_⟩
    · unfold utcDay
      omega
    · unfold utcDay wall
      omega

/-- Aligned midnights are enough. -/
theorem listsOnce_of_align (hleap : ¬ IsLeap year) (halign : zone.MidnightsAlign year) :
    zone.ListsOnce year := by
  intro libc strftime tz utc env hc now hnow events hevents
  obtain ⟨c, hc0⟩ := halign
  rw [DateTime.listYear_perm_iff]
  intro event hevent
  have hvisit (i : Nat) (hi : i < 365) :
      utcDay (DateTime.visit (DateTime.zoneName tz utc env) now.utime i) =
        GregorianDate.firstDay year - 1 + i + c := by
    refine (hc0 i hi).2 _ ?_
    rw [← hnow]
    refine hc.wall_visit now.utime i fun j hj => ?_
    rw [hnow]
    exact (hc0 j (by omega)).1
  obtain ⟨t, ht⟩ := (hc0 0 (by omega)).1
  have hside := utcDay_midnight ht
  rw [(hc0 0 (by omega)).2 t ht] at hside
  have hrange := utcDay_of_yearOf (hevents event hevent)
  rw [GregorianDate.firstDay_next, if_neg hleap] at hrange
  rw [visitedOnce_iff hleap (fun i hi => by rw [hvisit i hi]; omega) (by omega)]
  refine ⟨((utcDay event.utime - GregorianDate.firstDay year + 1 - c) % 365).toNat, ?_, ?_⟩
  · refine ⟨by omega, ?_⟩
    rw [hvisit _ (by omega)]
    omega
  · rintro i ⟨hi, hsame⟩
    rw [hvisit i hi] at hsame
    omega

end Visits

/-! ## §6  Libraries -/

section Libraries

variable {zone : Zone} {year : Int}

/-- The library whose `mktime` goes back from what the clocks show by `back`. -/
@[reducible] def libcOf (zone : Zone) (back : Int → Int) : Libc where
  localtime _ t := civilTime (zone.wall t)
  mktime _ tm := back tm.seconds
  ctime _ _ := []
  strptime _ _ tm := (tm, none)

theorem conforms_libcOf {back : Int → Int}
    (hback : ∀ t, zone.wall (back (zone.wall t)) = zone.wall t) (z : Option String) :
    zone.Conforms (libcOf zone back) z where
  localtime _ := rfl
  mktime := by
    rintro tm _ ⟨t, ht⟩
    show zone.wall (back tm.seconds) = tm.seconds
    rw [← ht]
    exact hback t
  normalises _ _ _ _ h := congrArg back h

theorem visit_libcOf (back : Int → Int) (z : Option String) (now : Int) (i : Nat)
    (hback : ∀ t, zone.wall (back (zone.wall t)) = zone.wall t)
    (h : ∀ j : Nat, j < i → ∃ t, zone.wall t = midnight (zone.yearOf now) j) :
    @DateTime.visit (libcOf zone back) z now i = back (midnight (zone.yearOf now) i) := by
  have hc := conforms_libcOf hback z
  cases i with
  | zero =>
      have hfirst := hc.seconds_first now
      exact congrArg back hfirst
  | succ i =>
      have hwall := hc.wall_visit now i fun j hj => h j (by omega)
      have hnext := hc.seconds_next (@DateTime.visit (libcOf zone back) z now i)
      refine congrArg back (hnext.trans ?_)
      rw [hwall]
      unfold midnight
      push_cast
      omega

open Classical in
/-- A time that the clocks show, or else the one given. -/
noncomputable def backOf (zone : Zone) (gap l : Int) : Int :=
  if h : ∃ t, zone.wall t = l then h.choose else gap

theorem wall_backOf (zone : Zone) (gap : Int) {l : Int} (h : ∃ t, zone.wall t = l) :
    zone.wall (zone.backOf gap l) = l := by
  unfold backOf
  rw [dif_pos h]
  exact h.choose_spec

/-- What is printed with such a library. -/
theorem ListsOnce.visitedOnce (h : zone.ListsOnce year) {back : Int → Int}
    (hback : ∀ t, zone.wall (back (zone.wall t)) = zone.wall t) {now : Int}
    (hnow : zone.yearOf now = year) {n : Int} (hn : GregorianDate.firstDay year ≤ n ∧
      n < GregorianDate.firstDay (year + 1)) :
    DateTime.VisitedOnce
      (fun i => utcDay (@DateTime.visit (libcOf zone back) none now i)) n := by
  obtain ⟨t, rfl, ht⟩ := exists_time zone hn
  have hperm := h (libcOf zone back) (fun _ _ => []) none false (fun _ => none)
    (conforms_libcOf hback _) ⟨now, none⟩ hnow [⟨t, none⟩] (by simpa using ht)
  exact (@DateTime.listYear_perm_iff (libcOf zone back) _ _ _ _ _ _).mp hperm ⟨t, none⟩
    List.mem_cons_self

theorem exists_now (zone : Zone) (year : Int) : ∃ now, zone.yearOf now = year := by
  have hnext := GregorianDate.firstDay_next year
  have hday : GregorianDate.firstDay year < GregorianDate.firstDay (year + 1) := by
    split_ifs at hnext <;> omega
  obtain ⟨now, _, hnow⟩ := exists_time zone ⟨le_rfl, hday⟩
  exact ⟨now, hnow⟩

/-- 365 visits are too few for a leap year. -/
theorem ListsOnce.not_leap (h : zone.ListsOnce year) : ¬ IsLeap year := by
  intro hleap
  obtain ⟨now, hnow⟩ := exists_now zone year
  have hvisits := days_le_visits (Finset.range 365) fun n hlo hhi => by
    obtain ⟨i, ⟨hi, hsame⟩, _⟩ :=
      h.visitedOnce (fun t => zone.wall_backOf 0 ⟨t, rfl⟩) hnow ⟨hlo, hhi⟩
    exact ⟨i, Finset.mem_range.mpr hi, hsame⟩
  rw [Finset.card_range, GregorianDate.firstDay_next, if_pos hleap] at hvisits
  omega

/-- 29 February 2000 -/
theorem month_leapDay : (GregorianDate.ofJulianDay (utcDay 951782400)).month = 2 ∧
    (GregorianDate.ofJulianDay (utcDay 951782400)).day = 29 := by
  let leapDay : GregorianDate := ⟨2000, 2, 29, by decide, by decide⟩
  have hday : leapDay.julianDay = utcDay 951782400 := by decide
  rw [← hday]
  exact leapDay.ofJulianDay_julianDay.2

/-- Where there is no midnight, a library may send the visit to 29 February. -/
theorem ListsOnce.exists_midnight (h : zone.ListsOnce year) (i : Nat) (hi : i < 365) :
    ∃ t, zone.wall t = midnight year i := by
  induction i using Nat.strong_induction_on with
  | _ i ih =>
      by_contra hgap
      obtain ⟨now, hnow⟩ := exists_now zone year
      have hback (t : Int) := zone.wall_backOf 951782400 ⟨t, rfl⟩
      have hvisit := visit_libcOf (zone.backOf 951782400) none now i hback fun j hj => by
        rw [hnow]
        exact ih j hj (by omega)
      rw [hnow, backOf, dif_neg hgap] at hvisit
      have hleap := h.not_leap
      have hvisits := days_le_visits ((Finset.range 365).erase i) fun n hlo hhi => by
        obtain ⟨j, ⟨hj, hsame⟩, _⟩ := h.visitedOnce hback hnow ⟨hlo, hhi⟩
        refine ⟨j, Finset.mem_erase.mpr ⟨?_, Finset.mem_range.mpr hj⟩, hsame⟩
        rintro rfl
        simp only [hvisit] at hsame
        refine GregorianDate.not_sameDayOfYear_leapDay hleap ?_ month_leapDay hsame
        refine GregorianDate.year_eq ?_
        rw [GregorianDate.julianDay_ofJulianDay]
        exact ⟨hlo, hhi⟩
      rw [Finset.card_erase_of_mem (Finset.mem_range.mpr hi), Finset.card_range,
        GregorianDate.firstDay_next, if_neg hleap] at hvisits
      omega

/-- With a library the midnights are visited a day apart. -/
theorem ListsOnce.midnights_follow (h : zone.ListsOnce year) {back : Int → Int}
    (hback : ∀ t, zone.wall (back (zone.wall t)) = zone.wall t) {i : Nat} (hi : i < 365) :
    utcDay (back (midnight year i)) = utcDay (back (midnight year 0)) + i := by
  obtain ⟨now, hnow⟩ := exists_now zone year
  have hvisit (i : Nat) (hi : i < 365) :
      @DateTime.visit (libcOf zone back) none now i = back (midnight year i) := by
    rw [visit_libcOf back none now i hback, hnow]
    intro j hj
    rw [hnow]
    exact h.exists_midnight j (by omega)
  have hleap := h.not_leap
  have hfollow := @visits_follow
    (fun i => utcDay (@DateTime.visit (libcOf zone back) none now i)) year hleap ?_ ?_ i hi
  · simp only [hvisit i hi, hvisit 0 (by omega), Nat.cast_zero] at hfollow
    exact hfollow
  · intro j hj
    obtain ⟨t, ht⟩ := h.exists_midnight j hj
    have hwall := hback t
    rw [ht] at hwall
    rw [hvisit j hj]
    exact utcDay_midnight hwall
  · intro n hlo hhi
    refine h.visitedOnce hback hnow ⟨hlo, ?_⟩
    rw [GregorianDate.firstDay_next, if_neg hleap]
    omega

theorem ListsOnce.align (h : zone.ListsOnce year) : zone.MidnightsAlign year := by
  have hback (t : Int) := zone.wall_backOf 0 ⟨t, rfl⟩
  refine ⟨utcDay (zone.backOf 0 (midnight year 0)) - (GregorianDate.firstDay year - 1),
    fun i hi => ⟨h.exists_midnight i hi, fun t ht => ?_⟩⟩
  -- a library that returns `t` for the midnight of visit `i`, and agrees on another one
  have hother (l : Int) : zone.wall (Function.update (zone.backOf 0) (midnight year i) t
      (zone.wall l)) = zone.wall l := by
    by_cases hl : zone.wall l = midnight year i
    · rw [hl, Function.update_self, ht]
    · rw [Function.update_of_ne hl]
      exact hback l
  have hne {j : Nat} (hj : j ≠ i) : midnight year j ≠ midnight year i := by
    unfold midnight
    omega
  have hthis := h.midnights_follow hother hi
  rw [Function.update_self] at hthis
  by_cases hzero : i = 0
  · subst hzero
    have hone : 1 < 365 := by decide
    have hsame := h.midnights_follow hback hone
    have hnext := h.midnights_follow hother hone
    rw [Function.update_of_ne (hne (by omega)), hsame, Nat.cast_zero, Function.update_self] at hnext
    omega
  · have hfirst := hne (Ne.symm hzero)
    rw [Nat.cast_zero] at hfirst
    rw [Function.update_of_ne hfirst] at hthis
    omega

/-- **The listing of a year** has each event exactly once, in a given zone and with every library,
if and only if the year is not a leap year and the midnights of the zone are aligned. -/
theorem list_events_once_iff (zone : Zone) (year : Int) :
    zone.ListsOnce year ↔ ¬ IsLeap year ∧ zone.MidnightsAlign year := by
  constructor
  · intro h
    exact ⟨h.not_leap, h.align⟩
  · rintro ⟨hleap, halign⟩
    exact listsOnce_of_align hleap halign

end Libraries

/-- UTC -/
def utc : Zone := ⟨fun _ => 0, fun _ => by decide⟩

/-- Summer time of an hour from the last Sunday of March to that of October 2023. -/
def london : Zone where
  offset t := if 1679792400 ≤ t ∧ t < 1698541200 then 3600 else 0
  lt_day t := by split_ifs <;> decide

/-- In 2024 30 December is not visited; in London 26 March 2023 is visited twice. -/
theorem events_missed : ¬ utc.ListsOnce 2024 ∧ ¬ london.ListsOnce 2023 := by
  constructor
  · intro h
    exact h.not_leap (by decide)
  · intro h
    obtain ⟨c, halign⟩ := h.align
    have hfirst : GregorianDate.firstDay 2023 = 2459946 := by decide
    have hwinter := (halign 0 (by decide)).2 1672444800 (by unfold midnight; rw [hfirst]; decide)
    have hsummer := (halign 180 (by decide)).2 1687993200 (by unfold midnight; rw [hfirst]; decide)
    rw [hfirst] at hwinter hsummer
    unfold utcDay at hwinter hsummer
    omega

end Zone

end Kbox.Solunar
