import Mathlib.Data.Nat.Notation

/-!
# Dates and times

The conversions of `bek/time.cpp` between timestamps and the packed dates and times
of a FAT directory entry.  The fields of a `DecomposedTime` are `u32`; the products
of its time of day wrap there, and the sum of seconds wraps in `u64`.
-/

namespace BekOS

/-- `DecomposedTime` -/
structure DecomposedTime where
  year : ℕ
  month : ℕ
  day : ℕ
  hour : ℕ
  minute : ℕ
  second : ℕ
  nanosecond : ℕ
  deriving DecidableEq

/-- `MONTH_DAYS`: the days of a common year before each month, and its length. -/
def monthDays : List ℕ := [0, 31, 59, 90, 120, 151, 181, 212, 243, 273, 304, 334, 365]

/-- `SECONDS_IN_YEAR` -/
def secondsInYear : ℕ := 31556952

/-- `SECONDS_IN_DAY` -/
def secondsInDay : ℕ := 86400

namespace UnixTimestamp

/-- The seconds that `from_decomposed` gives: a year before 1970 is taken for the
first day of 1970, and a month or day that there is not for the first. -/
def fromDecomposed (time : DecomposedTime) : ℕ :=
  let date := if time.year < 1970 then (1970, 1, 1) else (time.year, time.month, time.day)
  let year := date.1
  let month := if date.2.1 > 12 ∨ date.2.1 < 1 then 1 else date.2.1
  let day := if date.2.2 < 1 ∨ date.2.2 > 31 then 1 else date.2.2
  let days := (365 * (year - 1970)) % 0x100000000
  let days := days + ((year - 1) / 4 - 1969 / 4)
  let days := days - ((year - 1) / 100 - 1969 / 100)
  let days := days + ((year - 1) / 400 - 1969 / 400)
  let days := days + monthDays.getD (month - 1) 0
  let days :=
    if month ≥ 3 ∧ year % 4 = 0 ∧ (year % 100 ≠ 0 ∨ year % 400 = 0) then days + 1 else days
  let days := days + (day - 1)
  (days * secondsInDay + time.hour * 3600 % 0x100000000 + time.minute * 60 % 0x100000000 +
    time.second) % 0x10000000000000000

/-- `is_leap_year` -/
def isLeapYear (year : ℕ) : Bool := year % 4 = 0 && (year % 100 ≠ 0 || year % 400 = 0)

/-- The month that `decompose` finds for a day of the year: the first whose end is
behind it, or 13. -/
def monthOf (leapYear : Bool) (day : ℕ) : ℕ :=
  ((List.range' 1 12).find? fun month =>
    day < monthDays.getD month 0 + if leapYear && 3 ≤ month then 1 else 0).getD 13

/-- `decompose` -/
def decompose (seconds : ℕ) : DecomposedTime :=
  let leftover := seconds % secondsInYear
  let leftoverDays := leftover / secondsInDay
  let leftoverInDay := leftover % secondsInDay
  let year := (seconds / secondsInYear % 0x100000000 + 1970) % 0x100000000
  let leapYear := isLeapYear year
  let month := monthOf leapYear leftoverDays
  let days := (leftoverDays + 0x100000000 - monthDays.getD (month - 1) 0) % 0x100000000
  { year := year
    month := month
    day := if leapYear && 3 ≤ month - 1 then (days + 0xFFFFFFFF) % 0x100000000 else days
    hour := leftoverInDay / 3600
    minute := leftoverInDay % 3600 / 60
    second := leftoverInDay % 60
    nanosecond := 0 }

end UnixTimestamp

/-- `dos_date_from`: each field keeps the bits it has. -/
def dosDateFrom (date : DecomposedTime) : ℕ :=
  (date.year + 0x100000000 - 1980) % 128 * 512 + date.month % 16 * 32 + date.day % 32

/-- `dos_time_from` -/
def dosTimeFrom (time : DecomposedTime) : ℕ :=
  time.hour % 32 * 2048 + time.minute % 64 * 32 + time.second / 2 % 32

/-- `datetime_from_dos`: the fields of a packed date and a packed time. -/
def datetimeFromDos (dosDate dosTime : ℕ) : DecomposedTime where
  year := dosDate / 512 % 128 + 1980
  month := if dosDate ≠ 0 then dosDate / 32 % 16 else 1
  day := if dosDate ≠ 0 then dosDate % 32 else 1
  hour := dosTime / 2048 % 32
  minute := dosTime / 32 % 64
  second := dosTime % 32 * 2
  nanosecond := 0

end BekOS
