import Kbox.Solunar.DateFormats

/-!
# The documented dates

The help and the manual list the strings for a date and a time.  Two of the forms have no format
for a time behind them, a day of the year sets neither the month nor the day, and the correction
of two-digit years also changes the years from 1900 to 1949.
-/

namespace Kbox.Solunar

open Kbox.Framework Kbox.Framework.Scanf Kbox.Framework.Strptime

/-! ## §1  The documented strings -/

open DateFormat

inductive Form where
  | slashYear
  | slash
  | monthDayYear
  | monthDay
  | dayMonthYear
  | dayMonth
  | yearDay
deriving DecidableEq, Repr

def Form.HasYear : Form → Prop
  | .slash | .monthDay | .dayMonth => False
  | _ => True

/-- The day of the year, from 1. -/
def dayOfYear (date : GregorianDate) : Int :=
  date.julianDay - GregorianDate.firstDay date.year + 1

/-- The texts of a date. -/
def Form.Writes (form : Form) (date : GregorianDate) (s : List Char) : Prop :=
  match form with
  | .slashYear => ∃ dd mm yyyy, s = dd ++ '/' :: (mm ++ '/' :: yyyy) ∧
      Numeral 2 date.day.toNat dd ∧ Numeral 2 date.month.toNat mm ∧ YearText date.year.toNat yyyy
  | .slash => ∃ dd mm, s = dd ++ '/' :: mm ∧
      Numeral 2 date.day.toNat dd ∧ Numeral 2 date.month.toNat mm
  | .monthDayYear => ∃ name dd yyyy, s = name ++ ' ' :: (dd ++ ' ' :: yyyy) ∧
      MonthName date.month.toNat name ∧ Numeral 2 date.day.toNat dd ∧ YearText date.year.toNat yyyy
  | .monthDay => ∃ name dd, s = name ++ ' ' :: dd ∧
      MonthName date.month.toNat name ∧ Numeral 2 date.day.toNat dd
  | .dayMonthYear => ∃ dd name yyyy, s = dd ++ ' ' :: (name ++ ' ' :: yyyy) ∧
      Numeral 2 date.day.toNat dd ∧ MonthName date.month.toNat name ∧ YearText date.year.toNat yyyy
  | .dayMonth => ∃ dd name, s = dd ++ ' ' :: name ∧
      Numeral 2 date.day.toNat dd ∧ MonthName date.month.toNat name
  | .yearDay => ∃ ddd yyyy, s = ddd ++ '#' :: yyyy ∧
      Numeral 3 (dayOfYear date).toNat ddd ∧ YearText date.year.toNat yyyy

/-- Nothing, or a space and `HH:MM`. -/
def WritesTime : Option (ℕ × ℕ) → List Char → Prop
  | none, s => s = []
  | some (h, i), s => ∃ hh mm, s = ' ' :: (hh ++ ':' :: mm) ∧ TimeText h i hh mm

/-- What a documented string asks for. -/
inductive Request where
  | onDate (form : Form) (date : GregorianDate) (time : Option (ℕ × ℕ))
  | atTime (h i : ℕ)

def Request.Writes : Request → List Char → Prop
  | .onDate form date time, s =>
      ∃ text rest, s = text ++ rest ∧ form.Writes date text ∧ WritesTime time rest
  | .atTime h i, s => ∃ hh mm, s = hh ++ ':' :: mm ∧ TimeText h i hh mm

def tmOf (year month day : Int) (time : ℕ × ℕ) : Tm :=
  { tm_sec := 0
    tm_min := time.2
    tm_hour := time.1
    tm_mday := day
    tm_mon := month - 1
    tm_year := year - 1900
    tm_isdst := -1 }

/-- The date and the time that are meant, where `today` has the current fields. -/
def Request.meant (today : Tm) : Request → Tm
  | .onDate _ date time => tmOf date.year date.month date.day (time.getD (2, 0))
  | .atTime h i => tmOf (today.tm_year + 1900) (today.tm_mon + 1) today.tm_mday (h, i)

/-- No year before 1900, and the current one where it is left out. -/
def Request.Admissible (today : Tm) : Request → Prop
  | .onDate form date _ =>
      1900 ≤ date.year ∧ (¬ form.HasYear → date.year = today.tm_year + 1900)
  | .atTime _ _ => 1900 ≤ today.tm_year + 1900

/-- The string is accepted, and whatever time `mktime` finds for the fields that are meant in the
requested zone is the result. -/
def Accepted (libc : Libc) (derived : ℕ → ℕ → Option (Int × Int)) (now : Int) (tz : Option String)
    (utc : Bool) (env : Environ) (s : List Char) (tm : Tm) : Prop :=
  ∀ mktime : Option String → Tm → Int, letI := posix libc mktime derived
    (DateTime.new_parse now (String.ofList s) tz utc env).1 =
      some (DateTime.new_utime (mktime (DateTime.zoneName tz utc env) tm))

/-- A year from 1950 on, no time behind `DD/MM` or `DDD#YYYY`, and for the latter the month and the
day must be the current ones if the library does not find them. -/
def Request.Right (derived : ℕ → ℕ → Option (Int × Int)) (today : Tm) : Request → Prop
  | .onDate form date time =>
      1950 ≤ date.year ∧ (form = .slash ∨ form = .yearDay → time = none) ∧
        (form = .yearDay →
          (derived (dayOfYear date).toNat date.year.toNat).getD (today.tm_mon, today.tm_mday) =
            (date.month - 1, date.day))
  | .atTime _ _ => 1950 ≤ today.tm_year + 1900

/-! ## §2  What is read of them -/

def timeRead : Option (ℕ × ℕ) → List (Strptime.Field × ℕ)
  | none => []
  | some (h, i) => [(.hour, h), (.minute, i)]

/-- What the first format that matches reads of a date. -/
def Form.read (form : Form) (date : GregorianDate) (time : Option (ℕ × ℕ)) :
    Option (List (Strptime.Field × ℕ)) :=
  let d := (Strptime.Field.day, date.day.toNat)
  let m := (Strptime.Field.month, date.month.toNat)
  let y := (Strptime.Field.year, date.year.toNat)
  match form with
  | .slashYear => some (d :: m :: y :: timeRead time)
  | .slash => if time = none then some [d, m] else none
  | .monthDayYear => some (m :: d :: y :: timeRead time)
  | .monthDay => some (m :: d :: timeRead time)
  | .dayMonthYear => some (d :: m :: y :: timeRead time)
  | .dayMonth => some (d :: m :: timeRead time)
  | .yearDay => if time = none then some [(.yearDay, (dayOfYear date).toNat), y] else none

section Read

variable {date : GregorianDate} {time : Option (ℕ × ℕ)} {y : ℕ} {rest yyyy : List Char}

theorem WritesTime.noDigit (h : WritesTime time rest) : NoDigit rest := by
  cases time with
  | none =>
    obtain rfl := h
    exact noDigit_nil
  | some t =>
    obtain ⟨hh, mm, rfl, -⟩ := h
    exact noDigit_cons rfl

theorem WritesTime.endsWord (h : WritesTime time rest) : EndsWord rest := by
  cases time with
  | none =>
    obtain rfl := h
    exact fun _ hc => by cases hc
  | some t =>
    obtain ⟨hh, mm, rfl, -⟩ := h
    exact fun _ hc => by cases hc; rfl

theorem WritesTime.tails (h : WritesTime time rest) :
    tails.findSome? (full · rest) = some (timeRead time) := by
  cases time with
  | none =>
    obtain rfl := h
    exact tails_nil
  | some t =>
    obtain ⟨hh, mm, rfl, ht⟩ := h
    exact tails_time ht

theorem WritesTime.tails_year (h : WritesTime time rest) (hy : YearText y yyyy) :
    DateFormat.tails.findSome? (full · (' ' :: (yyyy ++ rest))) =
      some ((.year, y) :: timeRead time) := by
  cases time with
  | none =>
    obtain rfl := h
    rw [List.append_nil]
    exact DateFormat.tails_year hy
  | some t =>
    obtain ⟨hh, mm, rfl, ht⟩ := h
    exact tails_year_time hy ht

theorem WritesTime.slashTails_year (h : WritesTime time rest) (hy : YearText y yyyy) :
    slashTails.findSome? (full · ('/' :: (yyyy ++ rest))) =
      some ((.year, y) :: timeRead time) := by
  cases time with
  | none =>
    obtain rfl := h
    rw [List.append_nil]
    exact DateFormat.slashTails_year hy
  | some t =>
    obtain ⟨hh, mm, rfl, ht⟩ := h
    exact slashTails_year_time hy ht

theorem WritesTime.slashTails (h : WritesTime time rest) :
    DateFormat.slashTails.findSome? (full · rest) = if time = none then some [] else none := by
  cases time with
  | none =>
    obtain rfl := h
    exact slashTails_nil
  | some t =>
    obtain ⟨hh, mm, rfl, ht⟩ := h
    exact slashTails_time ht

theorem WritesTime.eq_nil_iff (h : WritesTime time rest) : rest = [] ↔ time = none := by
  cases time with
  | none => exact ⟨fun _ => rfl, fun _ => h⟩
  | some t =>
    obtain ⟨hh, mm, rfl, -⟩ := h
    simp

theorem dayText_of {dd : List Char} (h : Numeral 2 date.day.toNat dd) :
    DayText date.day.toNat dd where
  toNumeral := h
  range := by
    obtain ⟨hlo, hhi⟩ := date.day_range
    have hlength := GregorianDate.monthLength_le date.year date.month
    omega

theorem monthText_of {mm : List Char} (h : Numeral 2 date.month.toNat mm) :
    MonthText date.month.toNat mm where
  toNumeral := h
  range := by
    obtain ⟨hlo, hhi⟩ := date.month_range
    omega

theorem yearDayText_of {ddd : List Char} (h : Numeral 3 (dayOfYear date).toNat ddd) :
    YearDayText (dayOfYear date).toNat ddd where
  toNumeral := h
  range := by
    have hlo := date.firstDay_le_julianDay
    have hhi := date.julianDay_lt_firstDay
    have hnext := GregorianDate.firstDay_next date.year
    unfold dayOfYear
    split at hnext <;> omega

/-- The formats read a documented date as its form says. -/
theorem readFirst_writes {form : Form} {text : List Char} (hform : form.Writes date text)
    (htime : WritesTime time rest) :
    readFirst DateTime.formats (text ++ rest) = form.read date time := by
  cases form with
  | slashYear =>
    obtain ⟨dd, mm, yyyy, rfl, hd, hm, hy⟩ := hform
    simp only [List.append_assoc, List.cons_append]
    rw [readFirst_slash (dayText_of hd) (monthText_of hm) (noDigit_cons rfl),
      htime.slashTails_year hy]
    rfl
  | slash =>
    obtain ⟨dd, mm, rfl, hd, hm⟩ := hform
    simp only [List.append_assoc, List.cons_append]
    rw [readFirst_slash (dayText_of hd) (monthText_of hm) htime.noDigit, htime.slashTails,
      Form.read]
    split <;> rfl
  | monthDayYear =>
    obtain ⟨name, dd, yyyy, rfl, hname, hd, hy⟩ := hform
    simp only [List.append_assoc, List.cons_append]
    exact readFirst_monthDay hname (dayText_of hd) (noDigit_cons rfl) (htime.tails_year hy)
  | monthDay =>
    obtain ⟨name, dd, rfl, hname, hd⟩ := hform
    simp only [List.append_assoc, List.cons_append]
    exact readFirst_monthDay hname (dayText_of hd) htime.noDigit htime.tails
  | dayMonthYear =>
    obtain ⟨dd, name, yyyy, rfl, hd, hname, hy⟩ := hform
    simp only [List.append_assoc, List.cons_append]
    have hword : EndsWord (' ' :: (yyyy ++ rest)) := fun _ hc => by cases hc; rfl
    exact readFirst_dayMonth (dayText_of hd) hname hword (htime.tails_year hy)
  | dayMonth =>
    obtain ⟨dd, name, rfl, hd, hname⟩ := hform
    simp only [List.append_assoc, List.cons_append]
    exact readFirst_dayMonth (dayText_of hd) hname htime.endsWord htime.tails
  | yearDay =>
    obtain ⟨ddd, yyyy, rfl, hj, hy⟩ := hform
    simp only [List.append_assoc, List.cons_append]
    rw [readFirst_yearDay (yearDayText_of hj) hy htime.noDigit, Form.read]
    simp only [htime.eq_nil_iff]

end Read

/-! ## §3  What is given to `mktime` -/

theorem fixYear_eq_iff {tm want : Tm} (h : tm.tm_year = want.tm_year) :
    fixYear tm = want ↔ tm = want ∧ 50 ≤ want.tm_year := by
  rw [fixYear]
  split
  next hlt =>
    constructor
    · rintro rfl
      have hyear : tm.tm_year = tm.tm_year + 2000 := h
      omega
    · rintro ⟨rfl, hle⟩
      omega
  next hlt =>
    constructor
    · rintro rfl
      exact ⟨rfl, by omega⟩
    · exact fun hwant => hwant.1

theorem accepted_iff {libc : Libc} {derived : ℕ → ℕ → Option (Int × Int)} {now : Int}
    {tz : Option String} {utc : Bool} {env : Environ} {s : List Char} {tm : Tm} :
    Accepted libc derived now tz utc env s tm ↔
      ∃ r, readFirst DateTime.formats s = some r ∧
        fields derived (libc.localtime (env "TZ") now) r = tm := by
  constructor
  · intro h
    have hparse := h fun _ tm' => if tm' = tm then 0 else 1
    rw [new_parse_fst] at hparse
    obtain ⟨r, hr, hutime⟩ := Option.map_eq_some_iff.mp hparse
    refine ⟨r, hr, ?_⟩
    by_contra hne
    have hutime' := congrArg DateTime.utime hutime
    simp [DateTime.new_utime, hne] at hutime'
  · rintro ⟨r, hr, rfl⟩ mktime
    rw [new_parse_fst, hr]
    rfl

section Fields

variable {derived : ℕ → ℕ → Option (Int × Int)} {today : Tm} {form : Form}
  {date : GregorianDate} {time : Option (ℕ × ℕ)}

variable (derived) in
/-- Without a day of the year the library derives nothing. -/
theorem fields_iff {r : List (Strptime.Field × ℕ)} {year month day : Int} {clock : ℕ × ℕ}
    (hyearDay : r.lookup .yearDay = none)
    (hstore : r.foldl store (startTime today) = tmOf year month day clock) :
    fields derived today r = tmOf year month day clock ↔ 1950 ≤ year := by
  have hderive : deriveDay derived r (r.foldl store (startTime today)) =
      tmOf year month day clock := by
    rw [deriveDay, hyearDay, hstore]
  rw [fields, hderive, fixYear_eq_iff rfl]
  show _ ∧ 50 ≤ year - 1900 ↔ _
  constructor
  · rintro ⟨-, hle⟩
    omega
  · exact fun hle => ⟨rfl, by omega⟩

variable (derived today) in
theorem time_fields_iff (h i : ℕ) : fields derived today [(.hour, h), (.minute, i)] =
    tmOf (today.tm_year + 1900) (today.tm_mon + 1) today.tm_mday (h, i) ↔
      1950 ≤ today.tm_year + 1900 := by
  apply fields_iff derived rfl
  simp [store, startTime, tmOf]

variable (derived today) in
theorem yearDay_fields_iff (j y : ℕ) (month day : Int) :
    fields derived today [(.yearDay, j), (.year, y)] = tmOf y month day (2, 0) ↔
      1950 ≤ (y : Int) ∧
        (derived j y).getD (today.tm_mon, today.tm_mday) = (month - 1, day) := by
  have hderive : deriveDay derived [(.yearDay, j), (.year, y)]
      ([(.yearDay, j), (.year, y)].foldl store (startTime today)) =
      { tmOf y month day (2, 0) with
        tm_mon := ((derived j y).getD (today.tm_mon, today.tm_mday)).1
        tm_mday := ((derived j y).getD (today.tm_mon, today.tm_mday)).2 } := by
    have hother : (Field.year == Field.yearDay) = false := rfl
    simp only [deriveDay, List.lookup_cons, beq_self_eq_true, hother]
    cases derived j y with
    | none => rfl
    | some p => rfl
  rw [fields, hderive]
  refine (fixYear_eq_iff ?_).trans ?_
  · rfl
  show _ ∧ 50 ≤ (y : Int) - 1900 ↔ _
  rw [Prod.ext_iff]
  simp only [tmOf, Tm.mk.injEq, true_and, and_true]
  constructor
  · rintro ⟨⟨hday, hmonth⟩, hle⟩
    exact ⟨by omega, hmonth, hday⟩
  · rintro ⟨hle, hmonth, hday⟩
    exact ⟨⟨hday, hmonth⟩, by omega⟩

/-- Two of the forms have no format with a time. -/
theorem exists_read : (∃ r, form.read date time = some r) ↔
    (form = .slash ∨ form = .yearDay → time = none) := by
  cases form with
  | slash | yearDay => cases time <;> simp [Form.read]
  | _ => simp [Form.read]

theorem store_read (hyear : 1900 ≤ date.year)
    (hcurrent : ¬ form.HasYear → date.year = today.tm_year + 1900) (hform : form ≠ .yearDay)
    {r : List (Strptime.Field × ℕ)} (hr : form.read date time = some r) :
    r.lookup .yearDay = none ∧ r.foldl store (startTime today) =
      tmOf date.year date.month date.day (time.getD (2, 0)) := by
  have hy : (date.year.toNat : Int) = date.year := Int.toNat_of_nonneg (by omega)
  have hm : (date.month.toNat : Int) = date.month :=
    Int.toNat_of_nonneg (by have := date.month_range; omega)
  have hd : (date.day.toNat : Int) = date.day :=
    Int.toNat_of_nonneg (by have := date.day_range; omega)
  cases form with
  | slashYear | monthDayYear | dayMonthYear =>
    obtain rfl := Option.some.inj hr
    constructor
    · cases time <;> rfl
    · cases time <;> simp [store, startTime, tmOf, timeRead, hy, hm, hd]
  | monthDay | dayMonth =>
    obtain rfl := Option.some.inj hr
    have htoday := hcurrent id
    constructor
    · cases time <;> rfl
    · cases time <;> simp [store, startTime, tmOf, timeRead, hm, hd, htoday]
  | slash =>
    have htoday := hcurrent id
    cases time with
    | none =>
      obtain rfl := Option.some.inj hr
      exact ⟨rfl, by simp [store, startTime, tmOf, hm, hd, htoday]⟩
    | some t => cases hr
  | yearDay => exact absurd rfl hform

/-- The fields are right just if the condition holds. -/
theorem read_iff (hyear : 1900 ≤ date.year)
    (hcurrent : ¬ form.HasYear → date.year = today.tm_year + 1900) :
    (∃ r, form.read date time = some r ∧
      fields derived today r = tmOf date.year date.month date.day (time.getD (2, 0))) ↔
      (Request.onDate form date time).Right derived today := by
  by_cases hform : form = .yearDay
  · subst hform
    have hfields := yearDay_fields_iff derived today (dayOfYear date).toNat date.year.toNat
      date.month date.day
    rw [Int.toNat_of_nonneg (by omega)] at hfields
    cases time with
    | none =>
      constructor
      · rintro ⟨r, hr, heq⟩
        obtain rfl := Option.some.inj hr
        obtain ⟨hle, hday⟩ := hfields.mp heq
        exact ⟨hle, fun _ => rfl, fun _ => hday⟩
      · rintro ⟨hle, -, hday⟩
        exact ⟨_, rfl, hfields.mpr ⟨hle, hday rfl⟩⟩
    | some t =>
      constructor
      · rintro ⟨r, hr, -⟩
        cases hr
      · rintro ⟨-, htime, -⟩
        cases htime (.inr rfl)
  · constructor
    · rintro ⟨r, hr, heq⟩
      obtain ⟨hyearDay, hstore⟩ := store_read hyear hcurrent hform hr
      exact ⟨(fields_iff derived hyearDay hstore).mp heq, exists_read.mp ⟨r, hr⟩,
        fun h => absurd h hform⟩
    · rintro ⟨hle, htime, -⟩
      obtain ⟨r, hr⟩ := exists_read.mpr htime
      obtain ⟨hyearDay, hstore⟩ := store_read hyear hcurrent hform hr
      exact ⟨r, hr, (fields_iff derived hyearDay hstore).mpr hle⟩

end Fields

/-- Which documented strings are parsed as they should be. -/
theorem accepted_iff_right (libc : Libc) (derived : ℕ → ℕ → Option (Int × Int)) (now : Int)
    (tz : Option String) (utc : Bool) (env : Environ) (request : Request) (s : List Char)
    (hs : request.Writes s) (hadm : request.Admissible (libc.localtime (env "TZ") now)) :
    Accepted libc derived now tz utc env s (request.meant (libc.localtime (env "TZ") now)) ↔
      request.Right derived (libc.localtime (env "TZ") now) := by
  rw [accepted_iff]
  cases request with
  | onDate form date time =>
    obtain ⟨text, rest, rfl, hform, htime⟩ := hs
    rw [readFirst_writes hform htime]
    exact read_iff hadm.1 hadm.2
  | atTime h i =>
    obtain ⟨hh, mm, rfl, ht⟩ := hs
    rw [readFirst_time ht]
    have hfields := time_fields_iff derived (libc.localtime (env "TZ") now) h i
    constructor
    · rintro ⟨r, hr, heq⟩
      obtain rfl := Option.some.inj hr
      exact hfields.mp heq
    · exact fun hle => ⟨_, rfl, hfields.mpr hle⟩

/-- A date with a slash and a time is in none of the formats, and 1905 is taken for 3905. -/
theorem not_accepted :
    (let request := Request.onDate .slash ⟨1970, 1, 12, by decide, by decide⟩ (some (16, 5))
    let s := ['1', '2', '/', '1', ' ', '1', '6', ':', '0', '5']
    request.Writes s ∧ request.Admissible ⟨0, 0, 0, 1, 0, 70, 0⟩ ∧
      ¬ Accepted DateTime.january1970 (fun _ _ => none) 0 none false (fun _ => none) s
        (request.meant ⟨0, 0, 0, 1, 0, 70, 0⟩)) ∧
    (let request := Request.onDate .slashYear ⟨1905, 1, 12, by decide, by decide⟩ none
    let s := ['1', '2', '/', '1', '/', '1', '9', '0', '5']
    request.Writes s ∧ request.Admissible ⟨0, 0, 0, 1, 0, 70, 0⟩ ∧
      ¬ Accepted DateTime.january1970 (fun _ _ => none) 0 none false (fun _ => none) s
        (request.meant ⟨0, 0, 0, 1, 0, 70, 0⟩)) := by
  have htwelve : Numeral 2 12 ['1', '2'] := ⟨by simp [Digits], by simp, by simp, rfl⟩
  have hone : Numeral 2 1 ['1'] := ⟨by simp [Digits], by simp, by simp, rfl⟩
  refine ⟨⟨?_, ?_, ?_⟩, ⟨?_, ?_, ?_⟩⟩
  · refine ⟨['1', '2', '/', '1'], [' ', '1', '6', ':', '0', '5'], rfl, ?_, ?_⟩
    · exact ⟨['1', '2'], ['1'], rfl, htwelve, hone⟩
    · exact ⟨['1', '6'], ['0', '5'], rfl, ⟨by simp [Digits], by simp, by simp, rfl⟩, by decide,
        ⟨by simp [Digits], by simp, by simp, rfl⟩, by decide⟩
  · exact ⟨by decide, fun _ => by decide⟩
  · rw [accepted_iff]
    rintro ⟨r, hr, -⟩
    cases hr
  · refine ⟨['1', '2', '/', '1', '/', '1', '9', '0', '5'], [], rfl, ?_, rfl⟩
    exact ⟨['1', '2'], ['1'], ['1', '9', '0', '5'], rfl, htwelve, hone,
      ⟨by simp [Digits], by simp, by simp, rfl⟩, rfl⟩
  · exact ⟨by decide, fun h => absurd trivial h⟩
  · rw [accepted_iff]
    rintro ⟨r, hr, hfields⟩
    have hread : readFirst DateTime.formats ['1', '2', '/', '1', '/', '1', '9', '0', '5'] =
        some [(.day, 12), (.month, 1), (.year, 1905)] := rfl
    rw [hread] at hr
    obtain rfl := Option.some.inj hr
    exact absurd (congrArg Tm.tm_year hfields) (by decide)

theorem accepted_iff_right_sample :
    Accepted DateTime.january1970 (fun _ _ => none) 0 none false (fun _ => none)
      ['j', 'A', 'n', ' ', '1', '2', ' ', '2', '0', '0', '9'] (tmOf 2009 1 12 (2, 0)) := by
  refine (accepted_iff_right DateTime.january1970 (fun _ _ => none) 0 none false (fun _ => none)
    (.onDate .monthDayYear ⟨2009, 1, 12, by decide, by decide⟩ none) _ ?_ ?_).mpr ?_
  · refine ⟨['j', 'A', 'n', ' ', '1', '2', ' ', '2', '0', '0', '9'], [], rfl, ?_, rfl⟩
    exact ⟨['j', 'A', 'n'], ['1', '2'], ['2', '0', '0', '9'], rfl,
      ⟨by decide, _, rfl, .inr (by decide)⟩, ⟨by simp [Digits], by simp, by simp, rfl⟩,
      ⟨by simp [Digits], by simp, by simp, rfl⟩, rfl⟩
  · exact ⟨by decide, fun h => absurd trivial h⟩
  · exact ⟨by decide, fun _ => rfl, fun h => by cases h⟩

end Kbox.Solunar
