import AgentHub.Text
import Mathlib.Data.Int.Basic

/-!
# Dates of the Worker

`toISOString` writes a time value, milliseconds since 1970, in the proleptic Gregorian calendar.
`Date.parse` reads that form back; on other texts it does what the engine likes, so it is a
`Dates`, with the one law the language gives.
-/

namespace AgentHub.Cloud

/-- The digits of a number with zeros before them up to a width. -/
def padded (width n : Nat) : List Char :=
  List.replicate (width - (Nat.toDigits 10 n).length) '0' ++ Nat.toDigits 10 n

structure CivilDate where
  year : Int
  month : Nat
  day : Nat
  deriving DecidableEq

/-- The year and the day in it of a day within four centuries.  Years begin in March here, so that
the leap day is the last of its year, its four years, its century and its four centuries. -/
def yearAndDay (n : Nat) : Nat × Nat :=
  let century := min (n / 36524) 3
  let inCentury := n - 36524 * century
  let quad := inCentury / 1461
  let inQuad := inCentury - 1461 * quad
  let year := min (inQuad / 365) 3
  (100 * century + 4 * quad + year, inQuad - 365 * year)

/-- The month and the day in it of a day of such a year. -/
def monthAndDay (n : Nat) : Nat × Nat :=
  let m := (5 * n + 2) / 153
  (if m < 10 then m + 3 else m - 9, n - (153 * m + 2) / 5 + 1)

/-- The date of a day counted from 1970-01-01. -/
def civilFromDays (days : Int) : CivilDate :=
  let z := days + 719468
  let (year, inYear) := yearAndDay (z % 146097).toNat
  let (month, day) := monthAndDay inYear
  { year := year + z / 146097 * 400 + (if month ≤ 2 then 1 else 0), month, day }

/-- A year: four digits, or a sign and six. -/
def yearText (year : Int) : List Char :=
  if 0 ≤ year ∧ year ≤ 9999 then padded 4 year.toNat
  else (if year < 0 then '-' else '+') :: padded 6 year.natAbs

/-- `Date.prototype.toISOString` up to the second. -/
def dateTimeText (seconds : Int) : List Char :=
  let date := civilFromDays (seconds / 86400)
  let rest := (seconds % 86400).toNat
  yearText date.year ++ '-' :: (padded 2 date.month ++ '-' :: (padded 2 date.day ++
    'T' :: (padded 2 (rest / 3600) ++ ':' :: (padded 2 (rest / 60 % 60) ++
      ':' :: padded 2 (rest % 60)))))

/-- `Date.prototype.toISOString`. -/
def toISOString (ms : Int) : String :=
  String.ofList (dateTimeText (ms / 1000) ++ '.' :: (padded 3 (ms % 1000).toNat ++ ['Z']))

/-- `formatTimestampUtc`: the low three digits of six are always zero. -/
def formatTimestampUtc (ms : Int) : String :=
  String.ofList (dateTimeText (ms / 1000) ++ '.' :: (padded 3 (ms % 1000).toNat ++
    ['0', '0', '0', 'Z']))

/-- The largest time value. -/
def maxTime : Nat := 8640000000000000

/-- `Date.parse`. -/
structure Dates where
  parse : String → Option Int
  /-- What `toISOString` writes is read back. -/
  parse_toISOString : ∀ ms : Int, ms.natAbs ≤ maxTime → parse (toISOString ms) = some ms

/-- The last three of six digits of a fraction are dropped, as `parseTimestampUtcMs` does before it
reads a timestamp. -/
def millisecondText (ts : String) : String :=
  match ts.toList.reverse with
  | 'Z' :: c :: b :: a :: z :: y :: x :: '.' :: rest =>
    if [a, b, c, x, y, z].all Char.isDigit then
      String.ofList (rest.reverse ++ ['.', x, y, z, 'Z'])
    else ts
  | _ => ts

def Dates.parseTimestampUtcMs (dates : Dates) (ts : String) : Option Int :=
  dates.parse (millisecondText ts)

end AgentHub.Cloud
