/-! Days of the Gregorian calendar, extended over all years. A day is counted from 1 January 1970;
`Day.ofCount` and `Day.count` go between the count and the date. Years are numbered with a zero,
so year zero is the one before year one. -/

namespace Mailroom

/-- A date: a year, a month from 1 to 12 and a day of the month from 1. -/
structure Day where
  year : Int
  month : Nat
  day : Nat
deriving DecidableEq, Repr, Inhabited

namespace Day

/-- The count of a date. The day of the month may exceed the month; it then runs on into the next
one. Years are taken to begin in March, so that a leap day ends its year. -/
def count (d : Day) : Int :=
  let year := if d.month ≤ 2 then d.year - 1 else d.year
  let era := year / 400
  let ofEra := year % 400
  let dayOfYear : Int := (153 * ((d.month + 9) % 12) + 2) / 5 + d.day - 1
  era * 146097 + (ofEra * 365 + ofEra / 4 - ofEra / 100 + dayOfYear) - 719468

def ofCount (n : Int) : Day :=
  let n := n + 719468
  let era := n / 146097
  let dayOfEra := n % 146097
  let yearOfEra := (dayOfEra - dayOfEra / 1460 + dayOfEra / 36524 - dayOfEra / 146096) / 365
  let dayOfYear := dayOfEra - (365 * yearOfEra + yearOfEra / 4 - yearOfEra / 100)
  let marchMonth := (5 * dayOfYear + 2) / 153
  let day := (dayOfYear - (153 * marchMonth + 2) / 5 + 1).toNat
  let month := if marchMonth < 10 then (marchMonth + 3).toNat else (marchMonth - 9).toNat
  let year := yearOfEra + era * 400
  ⟨if month ≤ 2 then year + 1 else year, month, day⟩

/-- The day of the week of a count: 0 is Sunday. -/
def weekday (n : Int) : Nat := ((n + 4) % 7).toNat

def monthNames : List String :=
  ["Jan", "Feb", "Mar", "Apr", "May", "Jun", "Jul", "Aug", "Sep", "Oct", "Nov", "Dec"]

/-- Three-letter names of the days of the week, from Sunday. -/
def weekdayNames : List String := ["Sun", "Mon", "Tue", "Wed", "Thu", "Fri", "Sat"]

def monthName (month : Nat) : String := monthNames.getD (month - 1) ""

def weekdayName (weekday : Nat) : String := weekdayNames.getD weekday ""

/-- Decimal digits with zeros in front up to the width. -/
def padded (width n : Nat) : String :=
  let ds := Nat.toDigits 10 n
  String.ofList (List.replicate (width - ds.length) '0' ++ ds)

/-- The year in four digits, or with a sign in six. -/
def yearText (year : Int) : String :=
  if 0 ≤ year && year ≤ 9999 then padded 4 year.toNat
  else (if year < 0 then "-" else "+") ++ padded 6 year.natAbs

/-- Year, month and day between hyphens, the year in four digits or with a sign in six. -/
def text (d : Day) : String :=
  yearText d.year ++ "-" ++ padded 2 d.month ++ "-" ++ padded 2 d.day

end Day

end Mailroom
