import Mailroom.Calendar.Day

/-! Instants: milliseconds since the beginning of 1970, within a hundred million days of it. What
local clocks show of them depends on the zone. -/

namespace Mailroom

/-- A time zone. -/
structure Zone where
  /-- What local clocks show beyond the universal time, in milliseconds, at a universal time. -/
  offset : Int → Int
  /-- The same at a time that local clocks show; for one that they show twice or never, the offset
  by which it is read. -/
  localOffset : Int → Int
  /-- What the zone is called at a universal time. -/
  name : Int → String

namespace Zone

/-- A zone with the same offset all the time. -/
def fixed (offset : Int) (name : String) : Zone := ⟨fun _ => offset, fun _ => offset, fun _ => name⟩

def universal : Zone := fixed 0 "UTC"

/-- Sign, hours and minutes of the offset, and the name. -/
def text (zone : Zone) (ms : Int) : String :=
  let minutes := (zone.offset ms).tdiv 60000
  "GMT" ++ (if minutes < 0 then "-" else "+") ++ Day.padded 2 (minutes.natAbs / 60)
    ++ Day.padded 2 (minutes.natAbs % 60) ++ " (" ++ zone.name ms ++ ")"

end Zone

/-- The greatest distance of an instant from the beginning of 1970, in milliseconds. -/
def Instant.limit : Nat := 8640000000000000

/-- A point in time. -/
structure Instant where
  ms : Int
  ms_le : ms.natAbs ≤ Instant.limit := by decide
deriving DecidableEq, Repr

namespace Instant

instance : Inhabited Instant := ⟨⟨0, by decide⟩⟩

/-- The instant at a count of milliseconds, if it is within the range. -/
def ofMs? (ms : Int) : Option Instant :=
  if h : ms.natAbs ≤ limit then some ⟨ms, h⟩ else none

def msPerDay : Int := 86400000

def dayCount (ms : Int) : Int := ms / msPerDay

def day (t : Instant) : Day := Day.ofCount (dayCount t.ms)

/-- What local clocks show, as milliseconds of a universal time. -/
def localMs (zone : Zone) (t : Instant) : Int := t.ms + zone.offset t.ms

def localDay (zone : Zone) (t : Instant) : Day := Day.ofCount (dayCount (t.localMs zone))

/-- Hours, minutes, seconds and milliseconds of a time of day in milliseconds. -/
def clock (ms : Int) : Nat × Nat × Nat × Nat :=
  let n := (ms % msPerDay).toNat
  (n / 3600000, n / 60000 % 60, n / 1000 % 60, n % 1000)

/-- The universal date and time of day, to the millisecond. -/
def text (t : Instant) : String :=
  let (h, m, s, ms) := clock t.ms
  t.day.text ++ "T" ++ Day.padded 2 h ++ ":" ++ Day.padded 2 m ++ ":" ++ Day.padded 2 s ++ "."
    ++ Day.padded 3 ms ++ "Z"

/-- The local date and time of day in words, with the zone. -/
def localText (zone : Zone) (t : Instant) : String :=
  let shown := t.localMs zone
  let (h, m, s, _) := clock shown
  let d := t.localDay zone
  let year := (if d.year < 0 then "-" else "") ++ Day.padded 4 d.year.natAbs
  Day.weekdayName (Day.weekday (dayCount shown)) ++ " " ++ Day.monthName d.month ++ " "
    ++ Day.padded 2 d.day ++ " " ++ year ++ " " ++ Day.padded 2 h ++ ":" ++ Day.padded 2 m ++ ":"
    ++ Day.padded 2 s ++ " " ++ zone.text t.ms

/-- Milliseconds at a time of day on a date. The month may lie outside 1 to 12, and every part may
run over into the next larger one. -/
def msAt (year month day hour minute second ms : Int) : Int :=
  let months := year * 12 + (month - 1)
  let first := Day.count ⟨months / 12, (months % 12).toNat + 1, 1⟩
  (first + (day - 1)) * msPerDay + hour * 3600000 + minute * 60000 + second * 1000 + ms

/-- The instant of local date and time parts. A year below one hundred is one of the twentieth
century. -/
def ofLocal? (zone : Zone) (year month day hour minute : Int) : Option Instant :=
  let year := if 0 ≤ year && year ≤ 99 then 1900 + year else year
  let shown := msAt year month day hour minute 0 0
  ofMs? (shown - zone.localOffset shown)

/-- How long ago an instant was at the time `now`: in minutes, hours or days within a week, then
as a local date, the year left out within a year. Years before the first count back from one. -/
def age (zone : Zone) (t : Instant) (now : Rat) : String :=
  let past := now - t.ms
  let minutes := (past / 60000).floor
  let hours := (past / 3600000).floor
  let days := (past / 86400000).floor
  if minutes < 1 then "just now"
  else if minutes < 60 then minutes.repr ++ "m ago"
  else if hours < 24 then hours.repr ++ "h ago"
  else if days < 7 then days.repr ++ "d ago"
  else
    let d := t.localDay zone
    let short := Day.monthName d.month ++ " " ++ d.day.repr
    if days < 365 then short
    else short ++ ", " ++ (if d.year < 1 then 1 - d.year else d.year).repr

end Instant

end Mailroom
