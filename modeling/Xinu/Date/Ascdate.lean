import Xinu.Lib.Calendar
import Xinu.Stdio.Doprnt

/-!
# Dates in ASCII

`ascdate.c` with the constants of `date.h`. The numbers are small enough for the integers of the source. The loop over the years has no bound
there; 137 years are more than a 32-bit count of seconds holds. The zone is `ZONE_EST`.
-/

namespace Xinu

namespace Ascdate

def DATE_DST_OFF : Int := 0
def DATE_DST_ON : Int := 1
def DATE_DST_AUTO : Int := 2

def SECPERDY : Nat := 60 * 60 * 24
def SECPERHR : Nat := 60 * 60
def SECPERMN : Nat := 60

def isleap (x : Nat) : Prop := x % 4 = 0

instance (x : Nat) : Decidable (isleap x) := inferInstanceAs (Decidable (_ = _))

/-! ## The tables of `Date` -/

def dt_msize : List Nat := [31, 28, 31, 30, 31, 30, 31, 31, 30, 31, 30, 31]

def dt_mnam : List (List Int) :=
  [cstr "Jan", cstr "Feb", cstr "Mar", cstr "Apr", cstr "May", cstr "Jun", cstr "Jul", cstr "Aug", cstr "Sep", cstr "Oct", cstr "Nov",
    cstr "Dec"]

def dt_dnam : List (List Int) := [cstr "Sun", cstr "Mon", cstr "Tue", cstr "Wed", cstr "Thu", cstr "Fri", cstr "Sat"]

def TIMEZONE : Nat := 5

def zones : List (List Int) := [cstr "EST", cstr "CST", cstr "MST", cstr "PST"]
def dzones : List (List Int) := [cstr "EDT", cstr "CDT", cstr "MDT", cstr "PDT"]

/-! ## The conversion -/

/-- The seconds of a year. -/
def yearSize (year : Nat) : Nat := (if isleap year then 366 else 365) * SECPERDY

/-- The seconds of a month. -/
def monthSize (year month : Nat) : Nat := dt_msize.getD month 0 * SECPERDY + if month = 1 ∧ isleap year then SECPERDY else 0

/-- What is computed of a date. -/
structure Fields where
  dayofweek : Nat
  month : Nat
  day : Nat
  hour : Nat
  minute : Nat
  second : Nat
  year : Nat
deriving DecidableEq

/-- The automatic calculation of `dst`. -/
def autoDst (year jan1 month day hour : Nat) : Bool :=
  let mar1 := (jan1 + dt_msize.getD 0 0 + dt_msize.getD 1 0 + if isleap year then 1 else 0) % 7
  let marss := if mar1 = 0 then 8 else 15 - mar1
  let nov1 := (dt_msize.take 10).foldl (· + ·) jan1
  let nov1 := (if isleap year then nov1 + 1 else nov1) % 7
  let novfs := if nov1 = 0 then 1 else 8 - nov1
  if month = 11 ∨ month = 0 ∨ month = 1 then false
  else if month > 2 ∧ month < 10 then true
  else if month = 2 then
    if day > marss then true
    else if day = marss ∧ hour ≥ 2 then true
    else false
  else if month = 10 then
    if day > novfs then false
    else if day = novfs ∧ hour ≥ 1 then false
    else true
  else false

/-- Move ahead one hour. -/
def ahead (f : Fields) : Fields :=
  if f.hour + 1 > 23 then
    if f.day + 1 > dt_msize.getD f.month 0 then { f with hour := 0, day := 1, month := f.month + 1 }
    else { f with hour := 0, day := f.day + 1 }
  else { f with hour := f.hour + 1 }

/-- The values that are printed, and `dst`. -/
def fields (dt_daylight : Int) (now : Nat) : Fields × Bool :=
  let r := Calendar.walk yearSize 137 1970 now
  let year := r.1
  let days := r.2 / SECPERDY
  let m := Calendar.walk (monthSize year) 12 0 r.2
  let month := m.1
  let day := m.2 / SECPERDY + 1
  let now := m.2 % SECPERDY
  let hour := now / SECPERHR
  let now := now % SECPERHR
  let minute := now / SECPERMN
  let second := now % SECPERMN
  let leapyrs := (year - 1969) / 4
  let shift := 4 + (year - 1970) + leapyrs
  let jan1 := shift % 7
  let dayofweek := (shift + days) % 7
  let dst := if dt_daylight = DATE_DST_ON then true else if dt_daylight = DATE_DST_AUTO then autoDst year jan1 month day hour else false
  let f : Fields := ⟨dayofweek, month, day, hour, minute, second, year⟩
  (if dst then ahead f else f, dst)

/-- `ascdate`: the characters that `sprintf` stores. -/
def ascdate (dt_daylight : Int) (now : Nat) : Option (List Int) :=
  let r := fields dt_daylight now
  sprintf (cstr "%3s  %3s %2d  %2d:%02d:%02d %s %d")
    [.str (dt_dnam.getD r.1.dayofweek []), .str (dt_mnam.getD r.1.month []), .int r.1.day, .int r.1.hour, .int r.1.minute, .int r.1.second,
      .str ((if r.2 then dzones else zones).getD (TIMEZONE - 5) []), .int r.1.year]

end Ascdate

end Xinu
