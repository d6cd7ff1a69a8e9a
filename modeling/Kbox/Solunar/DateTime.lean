import Mathlib.Logic.Function.Basic

/-!
# `datetime.c`

The functions that evaluate a time in some zone put the zone into the variable
`TZ`, call the C library and put back what they found there.  `getenv`,
`setenv` and `unsetenv` act on a map of strings; the C library's clock and
calendar are a parameter, and see the zone that `TZ` names when they are called.
-/

namespace Kbox.Solunar

/-- `struct tm` -/
structure Tm where
  tm_sec : Int
  tm_min : Int
  tm_hour : Int
  tm_mday : Int
  tm_mon : Int
  tm_year : Int
  tm_isdst : Int
deriving DecidableEq, Repr

/-- The functions of the C library, in the zone that `TZ` names, or in that of the system. -/
class Libc where
  localtime : Option String → Int → Tm
  mktime : Option String → Tm → Int
  ctime : Option String → Int → List Char
  /-- The fields that are read, and what is left of the string if it matches. -/
  strptime : String → String → Tm → Tm × Option String

/-- The environment of the process. -/
abbrev Environ : Type := String → Option String

abbrev EnvM (α : Type) : Type := StateM Environ α

def getenv (name : String) : EnvM (Option String) := do
  return (← get) name

def setenv (name value : String) : EnvM Unit :=
  modify fun env => Function.update env name (some value)

def unsetenv (name : String) : EnvM Unit :=
  modify fun env => Function.update env name none

/-- `if (oldtz) ...; unsetenv ("TZ");`, as it stands at the end of nine functions. -/
def restoreTZ (oldtz : Option String) : EnvM Unit := do
  if let some oldtz := oldtz then setenv "TZ" oldtz
  unsetenv "TZ"

/-- Run a body with `TZ` set to `tz`, if it is given.  `tzset` only repeats what the
functions of the library do themselves. -/
def zoned {α : Type} (tz : Option String) (body : EnvM α) : EnvM α :=
  match tz with
  | none => body
  | some tz => do
      let oldtz ← getenv "TZ"
      setenv "TZ" tz
      let r ← body
      restoreTZ oldtz
      return r

/-- `if (utc) tz = "UTC0";` -/
def zoneOf (tz : Option String) (utc : Bool) : Option String :=
  if utc then some "UTC0" else tz

structure DateTime where
  utime : Int
  name : Option String
deriving DecidableEq, Repr

namespace DateTime

/-- `DateTime_new_utime` -/
def new_utime (utime : Int) : DateTime := ⟨utime, none⟩

variable [Libc]

def mktime (tm : Tm) : EnvM Int := do
  return Libc.mktime (← getenv "TZ") tm

def localtime (utime : Int) : EnvM Tm := do
  return Libc.localtime (← getenv "TZ") utime

def ctime (utime : Int) : EnvM (List Char) := do
  return Libc.ctime (← getenv "TZ") utime

/-- `DateTime_parse`, at the time `now`: the fields, and whether all of the string was read. -/
def parse (now : Int) (str fmt : String) : EnvM (Tm × Bool) := do
  let tm ← localtime now
  let (tm, last) := Libc.strptime str fmt
    { tm with tm_hour := 2, tm_min := 0, tm_sec := 0, tm_isdst := -1 }
  let tm := if tm.tm_year < 50 then { tm with tm_year := tm.tm_year + 2000 } else tm
  return (tm, last = some "")

/-- The formats that `DateTime_new_parse` tries. -/
def formats : List String :=
  ["%e/%m/%Y %H:%M", "%e/%m/%Y", "%e/%m %M:M", "%e/%m", "%b %e %Y %H:%M", "%b %e %H:%M",
    "%b %e %Y", "%b %e", "%e %b %Y %H:%M", "%e %b %H:%M", "%e %b %Y", "%e %b", "%H:%M", "%j#%Y"]

/-- The first format that matches. -/
def parseAny (now : Int) (str : String) : List String → EnvM (Option Tm)
  | [] => return none
  | fmt :: fmts => do
      let (tm, matched) ← parse now str fmt
      if matched then return some tm else parseAny now str fmts

/-- `DateTime_new_parse`, where `none` is the error "Can't parse date". -/
def new_parse (now : Int) (str : String) (tz : Option String) (utc : Bool) :
    EnvM (Option DateTime) := do
  match ← parseAny now str formats with
  | none => return none
  | some tm =>
      let utime ← zoned (zoneOf tz utc) (mktime tm)
      return some (new_utime utime)

/-- `DateTime_new_dmy_name` -/
def new_dmy_name (day month year : Int) (name tz : Option String) (utc : Bool) :
    EnvM DateTime := do
  let utime ← zoned (zoneOf tz utc) (mktime
    { tm_mday := day, tm_mon := month - 1, tm_year := year - 1900, tm_hour := 0, tm_min := 0,
      tm_sec := 0, tm_isdst := -1 })
  return ⟨utime, name⟩

/-- `if (s[strlen(s) - 1] == 10) s[strlen(s) - 1] = 0;` -/
def chomp (s : List Char) : List Char := if s.getLast? = some '\n' then s.dropLast else s

/-- `DateTime_to_string_local` -/
def to_string_local (self : DateTime) (tz : Option String) : EnvM (List Char) :=
  zoned tz do return chomp (← ctime self.utime)

/-- `DateTime_to_string_UTC` -/
def to_string_UTC (self : DateTime) : EnvM (List Char) :=
  zoned (some "GMT0") do return chomp (← ctime self.utime)

/-- `%02d` -/
def format2 (n : Int) : List Char :=
  if 0 ≤ n ∧ n < 10 then '0' :: (toString n).toList else (toString n).toList

/-- `snprintf (s, 20, "%02d:%02d", tm->tm_hour, tm->tm_min)` -/
def hourMinute (tm : Tm) : List Char := (format2 tm.tm_hour ++ ':' :: format2 tm.tm_min).take 19

/-- `DateTime_time_to_string_UTC` -/
def time_to_string_UTC (self : DateTime) : EnvM (List Char) :=
  zoned (some "GMT0") do return hourMinute (← localtime self.utime)

/-- `DateTime_time_to_string_local` -/
def time_to_string_local (self : DateTime) (tz : Option String) : EnvM (List Char) :=
  zoned tz do return hourMinute (← localtime self.utime)

/-- `DateTime_add_days` -/
def add_days (self : DateTime) (days : Int) (tz : Option String) (utc : Bool) : EnvM DateTime := do
  let utime ← zoned (zoneOf tz utc) (do
    let tm ← localtime self.utime
    mktime { tm with tm_mday := tm.tm_mday + days, tm_isdst := -1 })
  return { self with utime := utime }

/-- `DateTime_get_ymdhms`: year, month, day, hours, minutes and seconds. -/
def get_ymdhms (self : DateTime) (tz : Option String) (utc : Bool) :
    EnvM (Int × Int × Int × Int × Int × Int) :=
  zoned (zoneOf tz utc) do
    let tm ← localtime self.utime
    return (tm.tm_year + 1900, tm.tm_mon + 1, tm.tm_mday, tm.tm_hour, tm.tm_min, tm.tm_sec)

/-- `DateTime_get_jan_first` -/
def get_jan_first (self : DateTime) (tz : Option String) (utc : Bool) : EnvM DateTime :=
  zoned (zoneOf tz utc) do
    let tm ← localtime self.utime
    return new_utime (← mktime { tm with
      tm_mday := 0, tm_mon := 0, tm_hour := 0, tm_min := 0, tm_sec := 0, tm_isdst := -1 })

/-! ## Sequences of calls -/

inductive Call where
  | new_parse (now : Int) (str : String) (tz : Option String) (utc : Bool)
  | new_dmy_name (day month year : Int) (name tz : Option String) (utc : Bool)
  | to_string_local (self : DateTime) (tz : Option String)
  | to_string_UTC (self : DateTime)
  | time_to_string_local (self : DateTime) (tz : Option String)
  | time_to_string_UTC (self : DateTime)
  | add_days (self : DateTime) (days : Int) (tz : Option String) (utc : Bool)
  | get_ymdhms (self : DateTime) (tz : Option String) (utc : Bool)
  | get_jan_first (self : DateTime) (tz : Option String) (utc : Bool)
deriving DecidableEq, Repr

/-- What a call does to the environment. -/
def Call.body : Call → EnvM Unit
  | .new_parse now str tz utc => discard (DateTime.new_parse now str tz utc)
  | .new_dmy_name day month year name tz utc =>
      discard (DateTime.new_dmy_name day month year name tz utc)
  | .to_string_local self tz => discard (DateTime.to_string_local self tz)
  | .to_string_UTC self => discard (DateTime.to_string_UTC self)
  | .time_to_string_local self tz => discard (DateTime.time_to_string_local self tz)
  | .time_to_string_UTC self => discard (DateTime.time_to_string_UTC self)
  | .add_days self days tz utc => discard (DateTime.add_days self days tz utc)
  | .get_ymdhms self tz utc => discard (DateTime.get_ymdhms self tz utc)
  | .get_jan_first self tz utc => discard (DateTime.get_jan_first self tz utc)

/-- The environment after a sequence of calls. -/
def run (calls : List Call) (env : Environ) : Environ :=
  calls.foldl (fun env call => (call.body env).2) env

end DateTime

end Kbox.Solunar
