import Mathlib.Data.Int.Notation
import Mathlib.Data.Nat.Notation

/-!
# RFC-3339 timestamps

`parseRfc3339Utc` and `formatRfc3339Utc` of `state_machine.cpp`. A time point is the library's: 64-bit
nanoseconds, which end at 2262-04-11T23:47:16Z. `time_t` holds every second of the years the parser takes.

`timegm` and `gmtime` are the C library's, over the proleptic Gregorian calendar; an out-of-range
day of the month is carried into the next month, as `timegm` does.
-/

namespace Souxmar.Updater

/-- `system_clock::time_point`: nanoseconds since 1970-01-01T00:00:00Z. -/
abbrev TimePoint : Type := Int64

/-- `system_clock::from_time_t` multiplies the seconds out in 64 bits and checks nothing. -/
def fromTimeT (secs : ℤ) : TimePoint := Int64.ofInt (secs * 1000000000)

/-- `system_clock::to_time_t` truncates towards zero. -/
def toTimeT (t : TimePoint) : ℤ := t.toInt.tdiv 1000000000

/-- The fields of `std::tm` the updater fills (`mon` counts from 1 here). -/
structure Tm where
  year : ℤ
  mon : ℤ
  mday : ℤ
  hour : ℤ
  min : ℤ
  sec : ℤ
deriving DecidableEq, Repr

/-! ### The calendar -/

/-- Days from the epoch to a date of the proleptic Gregorian calendar; years start in March, so the
leap day is the last day of its year. -/
def daysFromCivil (year mon mday : ℤ) : ℤ :=
  let y := if mon ≤ 2 then year - 1 else year
  let era := y / 400
  let yoe := y - era * 400
  let doy := (153 * (if mon > 2 then mon - 3 else mon + 9) + 2) / 5 + mday - 1
  let doe := yoe * 365 + yoe / 4 - yoe / 100 + doy
  era * 146097 + doe - 719468

/-- The date of a day count: the inverse of `daysFromCivil` on real dates. -/
def civilFromDays (days : ℤ) : ℤ × ℤ × ℤ :=
  let z := days + 719468
  let era := z / 146097
  let doe := z - era * 146097
  let yoe := (doe - doe / 1460 + doe / 36524 - doe / 146096) / 365
  let doy := doe - (365 * yoe + yoe / 4 - yoe / 100)
  let mp := (5 * doy + 2) / 153
  let mon := if mp < 10 then mp + 3 else mp - 9
  (yoe + era * 400 + (if mon ≤ 2 then 1 else 0), mon, doy - (153 * mp + 2) / 5 + 1)

def timegm (tm : Tm) : ℤ :=
  daysFromCivil tm.year tm.mon tm.mday * 86400 + tm.hour * 3600 + tm.min * 60 + tm.sec

def gmtime (t : ℤ) : Tm :=
  let (year, mon, mday) := civilFromDays (t / 86400)
  let s := t % 86400
  ⟨year, mon, mday, s / 3600, s % 3600 / 60, s % 60⟩

/-! ### Parsing and printing -/

/-- What the character loop of `parse_rfc3339_utc` wants at position `i`. -/
def rfc3339CharOk (i : ℕ) (c : Char) : Bool :=
  if i = 4 ∨ i = 7 then c = '-'
  else if i = 10 then c = 'T'
  else if i = 13 ∨ i = 16 then c = ':'
  else if i = 19 then c = 'Z'
  else decide ('0' ≤ c) && decide (c ≤ '9')

/-- `s[i] - '0'`. -/
def digitAt (s : List Char) (i : ℕ) : ℤ := ((s.getD i '0').toNat : ℤ) - '0'.toNat

def twoDigits (s : List Char) (off : ℕ) : ℤ := digitAt s off * 10 + digitAt s (off + 1)

def parseRfc3339Utc (str : String) : Option TimePoint :=
  let s := str.toList
  if s.length ≠ 20 then none
  else if !((List.range 20).all fun i => rfc3339CharOk i (s.getD i '0')) then none
  else
    let year := digitAt s 0 * 1000 + digitAt s 1 * 100 + digitAt s 2 * 10 + digitAt s 3
    let month := twoDigits s 5
    let day := twoDigits s 8
    let hour := twoDigits s 11
    let minute := twoDigits s 14
    let second := twoDigits s 17
    -- days per month are not checked: `timegm` carries the 31st of a short month over
    if year < 1970 ∨ year > 9999 then none
    else if month < 1 ∨ month > 12 then none
    else if day < 1 ∨ day > 31 then none
    else if hour > 23 then none
    else if minute > 59 then none
    else if second > 60 then none
    else
      let epochSecs := timegm ⟨year, month, day, hour, minute, second⟩
      if epochSecs = -1 then none else some (fromTimeT epochSecs)

/-- The digit character of the last decimal of `v`. -/
def digitChar (v : ℤ) : Char := Char.ofNat ('0'.toNat + (v % 10).toNat)

def put2 (v : ℤ) : List Char := [digitChar (v / 10), digitChar v]

def formatRfc3339Utc (t : TimePoint) : String :=
  let tm := gmtime (toTimeT t)
  String.ofList <|
    [digitChar (tm.year / 1000), digitChar (tm.year / 100), digitChar (tm.year / 10),
      digitChar tm.year, '-'] ++ put2 tm.mon ++ ['-'] ++ put2 tm.mday ++ ['T'] ++ put2 tm.hour ++
      [':'] ++ put2 tm.min ++ [':'] ++ put2 tm.sec ++ ['Z']

example : parseRfc3339Utc "2026-05-12T10:00:00Z" = some (fromTimeT 1778580000) := by decide

end Souxmar.Updater
