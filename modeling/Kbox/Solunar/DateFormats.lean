import Kbox.Framework.Strptime
import Kbox.Solunar.YearListing

/-!
# The formats of dates

`DateTime_new_parse` tries fourteen formats and takes the first that reads the whole string.  Each
attempt starts from the fields of the current time, and adds 2000 to a year before 1950.  Formats
that begin alike are read as one group.
-/

namespace Kbox.Solunar

open Kbox.Framework Kbox.Framework.Scanf Kbox.Framework.Strptime

/-! ## §1  The library -/

/-- The field that a conversion stores. -/
def store (tm : Tm) : Field × ℕ → Tm
  | (.day, n) => { tm with tm_mday := n }
  | (.month, n) => { tm with tm_mon := n - 1 }
  | (.year, n) => { tm with tm_year := n - 1900 }
  | (.hour, n) => { tm with tm_hour := n }
  | (.minute, n) => { tm with tm_min := n }
  -- `tm_yday`, which `mktime` does not read
  | (.yearDay, _) => tm

/-- A library may work out the month and the day when a day of the year and a year have been
read; the standard does not ask for it. -/
def deriveDay (derived : ℕ → ℕ → Option (Int × Int)) (r : List (Field × ℕ)) (tm : Tm) : Tm :=
  match r.lookup .yearDay, r.lookup .year with
  | some yday, some year =>
      match derived yday year with
      | some (mon, mday) => { tm with tm_mon := mon, tm_mday := mday }
      | none => tm
  | _, _ => tm

def strptime (derived : ℕ → ℕ → Option (Int × Int)) (str fmt : String) (tm : Tm) :
    Tm × Option String :=
  let (r, rest) := Strptime.scan (items fmt.toList) str.toList
  (deriveDay derived r (r.foldl store tm), rest.map String.ofList)

/-- A library with this `strptime` and any `mktime`. -/
abbrev posix (libc : Libc) (mktime : Option String → Tm → Int)
    (derived : ℕ → ℕ → Option (Int × Int)) : Libc :=
  { libc with mktime := mktime, strptime := strptime derived }

/-! ## §2  The first format that reads a string -/

/-- `if (tm->tm_year < 50) tm->tm_year += 2000;` -/
def fixYear (tm : Tm) : Tm :=
  if tm.tm_year < 50 then { tm with tm_year := tm.tm_year + 2000 } else tm

/-- The fields that an attempt starts from. -/
def startTime (tm : Tm) : Tm := { tm with tm_hour := 2, tm_min := 0, tm_sec := 0, tm_isdst := -1 }

def readFirst (fmts : List String) (s : List Char) : Option (List (Field × ℕ)) :=
  (fmts.map fun fmt => items fmt.toList).findSome? (full · s)

section Library

variable {libc : Libc} {mktime : Option String → Tm → Int}
  {derived : ℕ → ℕ → Option (Int × Int)}

/-- What a matching attempt gives to `mktime`. -/
def fields (derived : ℕ → ℕ → Option (Int × Int)) (tm : Tm) (r : List (Field × ℕ)) : Tm :=
  fixYear (deriveDay derived r (r.foldl store (startTime tm)))

theorem parse_fst (now : Int) (s : List Char) (fmt : String) (env : Environ) :
    letI := posix libc mktime derived
    (DateTime.parse now (String.ofList s) fmt env).1 =
      (fields derived (libc.localtime (env "TZ") now) (Strptime.scan (items fmt.toList) s).1,
        decide ((Strptime.scan (items fmt.toList) s).2 = some [])) := by
  have hempty : ∀ rest : Option (List Char),
      (rest.map String.ofList = some "") ↔ rest = some [] := by
    rintro (_ | rest) <;> simp
  show (_, decide _) = _
  rw [Prod.mk.injEq, decide_eq_decide]
  simp only [String.toList_ofList]
  exact ⟨rfl, hempty _⟩

/-- The first format that matches decides. -/
theorem parseAny_fst (now : Int) (s : List Char) (fmts : List String) (env : Environ) :
    letI := posix libc mktime derived
    (DateTime.parseAny now (String.ofList s) fmts env).1 =
      (readFirst fmts s).map (fields derived (libc.localtime (env "TZ") now)) := by
  let _ := posix libc mktime derived
  induction fmts with
  | nil => rfl
  | cons fmt fmts ih =>
    have hparse := @parse_fst libc mktime derived now s fmt env
    have henv := DateTime.readsOnly_parse now (String.ofList s) fmt env
    rw [DateTime.parseAny, bind_apply, henv, hparse, readFirst, List.map_cons, List.findSome?_cons]
    cases hfull : full (items fmt.toList) s with
    | none =>
      have hscan : (Strptime.scan (items fmt.toList) s).2 ≠ some [] := by
        intro hrest
        have hsome := full_iff.mpr (Prod.ext rfl hrest)
        rw [hfull] at hsome
        cases hsome
      simp only [hscan, decide_false]
      exact ih
    | some r =>
      simp only [full_iff.mp hfull]
      rfl

theorem new_parse_fst (now : Int) (s : List Char) (tz : Option String) (utc : Bool)
    (env : Environ) :
    letI := posix libc mktime derived
    (DateTime.new_parse now (String.ofList s) tz utc env).1 =
      (readFirst DateTime.formats s).map fun r => DateTime.new_utime
        (mktime (DateTime.zoneName tz utc env)
          (fields derived (libc.localtime (env "TZ") now) r)) := by
  let _ := posix libc mktime derived
  have hparse := @parseAny_fst libc mktime derived now s DateTime.formats env
  have henv := DateTime.readsOnly_parseAny now (String.ofList s) DateTime.formats env
  rw [DateTime.new_parse, bind_apply, henv, hparse]
  cases readFirst DateTime.formats s with
  | none => rfl
  | some r =>
    have hzone := @DateTime.zoned_fst Int tz utc
      (DateTime.mktime (fields derived (libc.localtime (env "TZ") now) r)) env
      (fun z => mktime z (fields derived (libc.localtime (env "TZ") now) r)) (fun _ => rfl)
    exact congrArg (fun utime => some (DateTime.new_utime utime)) hzone

end Library

/-! ## §3  What the formats read -/

namespace DateFormat

def day : Item := .number .day 2 1 31

def month : Item := .number .month 2 1 12

def year : Item := .number .year 4 0 9999

def minute : Item := .number .minute 2 0 59

/-- `%H:%M` -/
def clock : List Item := [.number .hour 2 0 23, .ordinary ':', minute]

/-- `%e/%m`, and what may follow. -/
def slash : List Item := [day, .ordinary '/', month]

def slashTails : List (List Item) :=
  [.ordinary '/' :: year :: .blank :: clock, [.ordinary '/', year],
    [.blank, minute, .ordinary ':', .ordinary 'M'], []]

/-- `%b %e` -/
def monthDay : List Item := [.monthName, .blank, day]

/-- `%e %b` -/
def dayMonth : List Item := [day, .blank, .monthName]

def tails : List (List Item) :=
  [.blank :: year :: .blank :: clock, .blank :: clock, [.blank, year], []]

/-- `%j#%Y` -/
def yearDay : List Item := [.number .yearDay 3 1 366, .ordinary '#', year]

theorem formats_eq : DateTime.formats.map (fun fmt => items fmt.toList) =
    slashTails.map (slash ++ ·) ++ (tails.map (monthDay ++ ·) ++
      (tails.map (dayMonth ++ ·) ++ [clock, yearDay])) := rfl

theorem readFirst_formats (s : List Char) : readFirst DateTime.formats s =
    ((slashTails.map (slash ++ ·)).findSome? (full · s)).or
      (((tails.map (monthDay ++ ·)).findSome? (full · s)).or
        (((tails.map (dayMonth ++ ·)).findSome? (full · s)).or
          ((full clock s).or (full yearDay s)))) := by
  rw [readFirst, formats_eq, List.findSome?_append, List.findSome?_append, List.findSome?_append]
  congr 3
  rw [List.findSome?_cons, List.findSome?_cons, List.findSome?_nil]
  cases full clock s <;> cases full yearDay s <;> rfl

theorem noDigit_nil : NoDigit [] := fun _ hc => by cases hc

theorem noDigit_cons {c : Char} {s : List Char} (h : c.isDigit = false) : NoDigit (c :: s) :=
  fun x hx => by cases hx; exact h

theorem noSpace_cons {c : Char} {s : List Char} (h : isspace c = false) : NoSpace (c :: s) :=
  fun x hx => by cases hx; exact h

theorem noSpace_nil : NoSpace [] := fun _ hc => by cases hc

/-- `HH:MM` -/
structure TimeText (h i : ℕ) (hh mm : List Char) : Prop where
  hour : Numeral 2 h hh
  hour_le : h ≤ 23
  minute : Numeral 2 i mm
  minute_le : i ≤ 59

/-- `YYYY` -/
structure YearText (y : ℕ) (yyyy : List Char) : Prop extends Numeral 4 y yyyy where
  length_eq : yyyy.length = 4

variable {h i y : ℕ} {hh mm yyyy : List Char}

theorem YearText.le (hy : YearText y yyyy) : 0 ≤ y ∧ y ≤ 9999 := by
  have hlt := ofDigits_lt hy.digits
  rw [hy.value, hy.length_eq] at hlt
  exact ⟨Nat.zero_le y, Nat.le_of_lt_succ hlt⟩

theorem full_time (ht : TimeText h i hh mm) :
    full clock (hh ++ ':' :: mm) = some [(.hour, h), (.minute, i)] := by
  rw [clock, full_number ht.hour ⟨Nat.zero_le h, ht.hour_le⟩ (noDigit_cons rfl), full_ordinary,
    minute, ← List.append_nil mm,
    full_number ht.minute ⟨Nat.zero_le i, ht.minute_le⟩ noDigit_nil]
  rfl

theorem full_year (hy : YearText y yyyy) : full [year] yyyy = some [(.year, y)] := by
  have hfull : full [year] (yyyy ++ []) = (full [] []).map ((.year, y) :: ·) :=
    full_number hy.toNumeral hy.le noDigit_nil
  rw [List.append_nil] at hfull
  exact hfull

theorem full_year_time (hy : YearText y yyyy) (ht : TimeText h i hh mm) :
    full (year :: .blank :: clock) (yyyy ++ ' ' :: (hh ++ ':' :: mm)) =
      some [(.year, y), (.hour, h), (.minute, i)] := by
  rw [year, full_number hy.toNumeral hy.le (noDigit_cons rfl),
    full_blank_space (ht.hour.noSpace _), full_time ht]
  rfl

/-- No time is left behind a year alone. -/
theorem full_year_none (hy : YearText y yyyy) : full (year :: .blank :: clock) yyyy = none := by
  have hrest : full (.blank :: clock) [] = none := by
    rw [full_blank noSpace_nil]
    exact full_number_noDigit noDigit_nil
  have hfull : full (year :: .blank :: clock) (yyyy ++ []) = none :=
    full_number_none hy.digits hy.length_le noDigit_nil hrest
  rw [List.append_nil] at hfull
  exact hfull

/-- The hour would be a year, but its minutes no time. -/
theorem full_year_of_time (ht : TimeText h i hh mm) :
    full (year :: .blank :: clock) (hh ++ ':' :: mm) = none := by
  apply full_number_none ht.hour.digits (ht.hour.length_le.trans (by decide)) (noDigit_cons rfl)
  rw [full_blank (noSpace_cons rfl)]
  exact full_number_noDigit (noDigit_cons rfl)

/-- The first two digits of a year would be an hour, but no colon follows. -/
theorem full_time_of_year {rest : List Char} (hy : YearText y yyyy) (hrest : NoDigit rest)
    (hne : rest.head? ≠ some ':') : full clock (yyyy ++ rest) = none :=
  full_number_ordinary_none hy.digits rfl hrest hne

section Tails

theorem tails_year_time (hy : YearText y yyyy) (ht : TimeText h i hh mm) :
    tails.findSome? (full · (' ' :: (yyyy ++ ' ' :: (hh ++ ':' :: mm)))) =
      some [(.year, y), (.hour, h), (.minute, i)] := by
  rw [tails, List.findSome?_cons, full_blank_space (hy.noSpace _), full_year_time hy ht]

theorem tails_time (ht : TimeText h i hh mm) :
    tails.findSome? (full · (' ' :: (hh ++ ':' :: mm))) = some [(.hour, h), (.minute, i)] := by
  rw [tails, List.findSome?_cons, full_blank_space (ht.hour.noSpace _), full_year_of_time ht,
    List.findSome?_cons, full_blank_space (ht.hour.noSpace _), full_time ht]

theorem tails_year (hy : YearText y yyyy) :
    tails.findSome? (full · (' ' :: yyyy)) = some [(.year, y)] := by
  have hspace : NoSpace yyyy := List.append_nil yyyy ▸ hy.noSpace []
  have htime := full_time_of_year hy noDigit_nil (by simp)
  rw [List.append_nil] at htime
  rw [tails, List.findSome?_cons, full_blank_space hspace, full_year_none hy, List.findSome?_cons,
    full_blank_space hspace, htime, List.findSome?_cons, full_blank_space hspace, full_year hy]

theorem tails_nil : tails.findSome? (full · []) = some [] := rfl

theorem slashTails_year_time (hy : YearText y yyyy) (ht : TimeText h i hh mm) :
    slashTails.findSome? (full · ('/' :: (yyyy ++ ' ' :: (hh ++ ':' :: mm)))) =
      some [(.year, y), (.hour, h), (.minute, i)] := by
  rw [slashTails, List.findSome?_cons, full_ordinary, full_year_time hy ht]

theorem slashTails_year (hy : YearText y yyyy) :
    slashTails.findSome? (full · ('/' :: yyyy)) = some [(.year, y)] := by
  rw [slashTails, List.findSome?_cons, full_ordinary, full_year_none hy, List.findSome?_cons,
    full_ordinary, full_year hy]

/-- `%M:M` takes the hour for minutes and then wants a letter. -/
theorem slashTails_time (ht : TimeText h i hh mm) :
    slashTails.findSome? (full · (' ' :: (hh ++ ':' :: mm))) = none := by
  have hletter : full [.ordinary ':', .ordinary 'M'] (':' :: mm) = none := by
    rw [full_ordinary]
    have hmm := ht.minute
    cases mm with
    | nil => exact absurd rfl hmm.ne_nil
    | cons c mm =>
      apply full_ordinary_ne
      rintro rfl
      cases hmm.digits 'M' List.mem_cons_self
  have hminute : full [minute, .ordinary ':', .ordinary 'M'] (hh ++ ':' :: mm) = none :=
    full_number_none ht.hour.digits ht.hour.length_le (noDigit_cons rfl) hletter
  rw [slashTails, List.findSome?_cons, full_ordinary_ne (by decide), List.findSome?_cons,
    full_ordinary_ne (by decide), List.findSome?_cons, full_blank_space (ht.hour.noSpace _),
    hminute]
  rfl

theorem slashTails_nil : slashTails.findSome? (full · []) = some [] := rfl

end Tails

section Groups

variable {d m j : ℕ} {dd name rest s : List Char} {c : Char}

/-- A day of a month. -/
structure DayText (d : ℕ) (dd : List Char) : Prop extends Numeral 2 d dd where
  range : 1 ≤ d ∧ d ≤ 31

/-- The number of a month. -/
structure MonthText (m : ℕ) (dd : List Char) : Prop extends Numeral 2 m dd where
  range : 1 ≤ m ∧ m ≤ 12

theorem slash_group {mm : List Char} (hd : DayText d dd) (hm : MonthText m mm)
    (hrest : NoDigit rest) :
    (slashTails.map (slash ++ ·)).findSome? (full · (dd ++ '/' :: (mm ++ rest))) =
      (slashTails.findSome? (full · rest)).map fun r => (.day, d) :: (.month, m) :: r := by
  apply findSome?_full
  intro is
  rw [slash, List.cons_append, List.cons_append, List.cons_append, List.nil_append, day,
    full_number hd.toNumeral hd.range (noDigit_cons rfl), full_ordinary, month,
    full_number hm.toNumeral hm.range hrest, Option.map_map]
  rfl

/-- No slash follows the first digits. -/
theorem slash_group_none (hds : Digits dd) (hrest : NoDigit rest) (hne : rest.head? ≠ some '/') :
    (slashTails.map (slash ++ ·)).findSome? (full · (dd ++ rest)) = none := by
  apply findSome?_full_none
  intro is
  exact full_number_ordinary_none hds rfl hrest hne

theorem slash_group_name (hname : MonthName m name) :
    (slashTails.map (slash ++ ·)).findSome? (full · (name ++ rest)) = none := by
  apply findSome?_full_none
  intro is
  exact full_number_noDigit (hname.noDigit rest)

theorem monthDay_group (hname : MonthName m name) (hd : DayText d dd) (hrest : NoDigit rest) :
    (tails.map (monthDay ++ ·)).findSome? (full · (name ++ ' ' :: (dd ++ rest))) =
      (tails.findSome? (full · rest)).map fun r => (.month, m) :: (.day, d) :: r := by
  apply findSome?_full
  intro is
  have hword : EndsWord (' ' :: (dd ++ rest)) := fun x hx => by cases hx; rfl
  rw [monthDay, List.cons_append, List.cons_append, List.cons_append, List.nil_append,
    full_monthName hname hword, full_blank_space (hd.noSpace rest), day,
    full_number hd.toNumeral hd.range hrest, Option.map_map]
  rfl

theorem monthDay_group_none {width n : ℕ} (hdd : Numeral width n dd) :
    (tails.map (monthDay ++ ·)).findSome? (full · (dd ++ rest)) = none := by
  apply findSome?_full_none
  intro is
  exact hdd.full_monthName rest

theorem dayMonth_group (hd : DayText d dd) (hname : MonthName m name) (hrest : EndsWord rest) :
    (tails.map (dayMonth ++ ·)).findSome? (full · (dd ++ ' ' :: (name ++ rest))) =
      (tails.findSome? (full · rest)).map fun r => (.day, d) :: (.month, m) :: r := by
  apply findSome?_full
  intro is
  rw [dayMonth, List.cons_append, List.cons_append, List.cons_append, List.nil_append, day,
    full_number hd.toNumeral hd.range (noDigit_cons rfl), full_blank_space (hname.noSpace rest),
    full_monthName hname hrest, Option.map_map]
  rfl

/-- No month follows the first digits. -/
theorem dayMonth_group_none (hds : Digits dd) (hc : c = '/' ∨ c = ':' ∨ c = '#') :
    (tails.map (dayMonth ++ ·)).findSome? (full · (dd ++ c :: s)) = none := by
  apply findSome?_full_none
  intro is
  obtain rfl | rfl | rfl := hc
  · exact full_number_month_none hds rfl rfl (by unfold NoMonth; decide)
  · exact full_number_month_none hds rfl rfl (by unfold NoMonth; decide)
  · exact full_number_month_none hds rfl rfl (by unfold NoMonth; decide)

/-- What begins with digits and a slash is read with slashes or not at all. -/
theorem readFirst_slash {mm : List Char} (hd : DayText d dd) (hm : MonthText m mm)
    (hrest : NoDigit rest) : readFirst DateTime.formats (dd ++ '/' :: (mm ++ rest)) =
      (slashTails.findSome? (full · rest)).map fun r => (.day, d) :: (.month, m) :: r := by
  have htime : full clock (dd ++ '/' :: (mm ++ rest)) = none :=
    full_number_ordinary_none hd.digits rfl (noDigit_cons rfl) (by simp)
  have hyearDay : full yearDay (dd ++ '/' :: (mm ++ rest)) = none :=
    full_number_ordinary_none hd.digits rfl (noDigit_cons rfl) (by simp)
  rw [readFirst_formats, slash_group hd hm hrest, monthDay_group_none hd.toNumeral,
    dayMonth_group_none hd.digits (.inl rfl), htime, hyearDay]
  simp only [Option.or_none]

theorem readFirst_monthDay (hname : MonthName m name) (hd : DayText d dd) (hrest : NoDigit rest)
    {r : List (Strptime.Field × ℕ)} (hr : tails.findSome? (full · rest) = some r) :
    readFirst DateTime.formats (name ++ ' ' :: (dd ++ rest)) =
      some ((.month, m) :: (.day, d) :: r) := by
  rw [readFirst_formats, slash_group_name hname, monthDay_group hname hd hrest, hr]
  rfl

theorem readFirst_dayMonth (hd : DayText d dd) (hname : MonthName m name) (hrest : EndsWord rest)
    {r : List (Strptime.Field × ℕ)} (hr : tails.findSome? (full · rest) = some r) :
    readFirst DateTime.formats (dd ++ ' ' :: (name ++ rest)) =
      some ((.day, d) :: (.month, m) :: r) := by
  rw [readFirst_formats, slash_group_none hd.digits (noDigit_cons rfl) (by simp),
    monthDay_group_none hd.toNumeral, dayMonth_group hd hname hrest, hr]
  rfl

theorem readFirst_time (ht : TimeText h i hh mm) :
    readFirst DateTime.formats (hh ++ ':' :: mm) = some [(.hour, h), (.minute, i)] := by
  rw [readFirst_formats, slash_group_none ht.hour.digits (noDigit_cons rfl) (by simp),
    monthDay_group_none ht.hour, dayMonth_group_none ht.hour.digits (.inr (.inl rfl)),
    full_time ht]
  rfl

/-- `DDD` -/
structure YearDayText (j : ℕ) (ddd : List Char) : Prop extends Numeral 3 j ddd where
  range : 1 ≤ j ∧ j ≤ 366

theorem readFirst_yearDay {ddd : List Char} (hj : YearDayText j ddd) (hy : YearText y yyyy)
    (hrest : NoDigit rest) : readFirst DateTime.formats (ddd ++ '#' :: (yyyy ++ rest)) =
      if rest = [] then some [(.yearDay, j), (.year, y)] else none := by
  have htime : full clock (ddd ++ '#' :: (yyyy ++ rest)) = none :=
    full_number_ordinary_none hj.digits rfl (noDigit_cons rfl) (by simp)
  have hyearDay : full yearDay (ddd ++ '#' :: (yyyy ++ rest)) =
      if rest = [] then some [(.yearDay, j), (.year, y)] else none := by
    rw [yearDay, full_number hj.toNumeral hj.range (noDigit_cons rfl), full_ordinary, year,
      full_number hy.toNumeral hy.le hrest, full]
    split <;> rfl
  rw [readFirst_formats, slash_group_none hj.digits (noDigit_cons rfl) (by simp),
    monthDay_group_none hj.toNumeral, dayMonth_group_none hj.digits (.inr (.inr rfl)), htime,
    hyearDay]
  rfl

end Groups

end DateFormat

end Kbox.Solunar
