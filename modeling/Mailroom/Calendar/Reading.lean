import Mailroom.Calendar.Instant
import Mailroom.Calendar.Token

/-! Reading instants from written dates. First the standard form is tried: year, month and day
between hyphens, behind a `T` the time of day, then the zone; a day alone is in universal time,
a time without a zone is local. What does not follow the form is read loosely, continuing from
where the form was left: up to three numbers of a date, a month by name, a time between colons,
a half day, a zone by name or by its sign. -/

namespace Mailroom.Calendar

/-- The numbers of a date as they are met. -/
structure DayParts where
  numbers : List Int := []
  month : Option Int := none
  standard : Bool := false

/-- The numbers of a time of day as they are met. -/
structure TimeParts where
  numbers : List Nat := []
  halfDay : Option Nat := none

/-- The parts of a zone's offset as they are met. -/
structure ZoneParts where
  negative : Option Bool := none
  hour : Option Nat := none
  minute : Option Nat := none

/-- All parts of a date as they are met. -/
structure Parts where
  day : DayParts := {}
  time : TimeParts := {}
  zone : ZoneParts := {}

/-- One more number of the date; there are at most three. -/
def DayParts.add? (d : DayParts) (n : Int) : Option DayParts :=
  if d.numbers.length < 3 then some { d with numbers := d.numbers ++ [n] } else none

/-- One more number of the time; there are at most four. -/
def TimeParts.add? (t : TimeParts) (n : Nat) : Option TimeParts :=
  if t.numbers.length < 4 then some { t with numbers := t.numbers ++ [n] } else none

/-- The last number of the time: the ones after it are zero. -/
def TimeParts.finish (t : TimeParts) (n : Nat) : TimeParts :=
  { t with numbers := (t.numbers ++ [n, 0, 0, 0]).take 4 }

/-- Whether a number can be the next one of a time that has begun. -/
def TimeParts.expects (t : TimeParts) (n : Nat) : Bool :=
  match t.numbers.length with
  | 1 => n < 60
  | 2 => n < 60
  | 3 => n < 1000
  | _ => false

/-- Whether a number can be the minutes of a zone whose hour was met. -/
def ZoneParts.expects (z : ZoneParts) (n : Nat) : Bool :=
  z.hour.isSome && z.minute.isNone && n < 60

def ZoneParts.isUniversal (z : ZoneParts) : Bool := z.hour == some 0 && z.minute == some 0

def ZoneParts.ofHours (hours : Int) : ZoneParts :=
  ⟨some (decide (hours < 0)), some hours.natAbs, some 0⟩

/-- Milliseconds from the digits after a decimal point. -/
def fractionMs (value length : Nat) : Nat :=
  match length with
  | 1 => value * 100
  | 2 => value * 10
  | _ => value / Nat.pow 10 (min length 9 - 3)

/-- Whether a number can be a month. -/
def isMonth (n : Int) : Bool := 1 ≤ n && n ≤ 12

def isDayOfMonth (n : Int) : Bool := 1 ≤ n && n ≤ 31

/-- How far the standard form went. -/
inductive Progress
  /-- The whole text has the form. -/
  | complete (parts : Parts)
  | left (parts : Parts) (rest : List Token)
  /-- The text is no date. -/
  | refused

def standardZone (parts : Parts) : List Token → Progress
  | [] => .complete parts
  | [.word (.zone _) true] => .complete { parts with zone := .ofHours 0 }
  | [.mark sign, .number n 4] =>
    if (sign = '+' || sign = '-') && n / 100 < 24 && n % 100 < 60 then
      .complete { parts with zone := ⟨some (sign == '-'), some (n / 100), some (n % 100)⟩ }
    else .refused
  | [.mark sign, .number h 2, .mark ':', .number m 2] =>
    if (sign = '+' || sign = '-') && h < 24 && m < 60 then
      .complete { parts with zone := ⟨some (sign == '-'), some h, some m⟩ }
    else .refused
  | _ => .refused

/-- The time of day in the standard form, behind its mark. -/
def standardTime (parts : Parts) : List Token → Progress
  | .number h 2 :: .mark ':' :: .number m 2 :: rest =>
    if 24 < h || 60 ≤ m || (h = 24 && m != 0) then .refused
    else match rest with
      | .mark ':' :: .number s 2 :: rest =>
        if 60 ≤ s || (h = 24 && s != 0) then .refused
        else match rest with
          | .mark '.' :: .number f length :: rest =>
            if h = 24 && f != 0 then .refused
            else standardZone { parts with time.numbers := [h, m, s, fractionMs f length] } rest
          | .mark '.' :: _ => .refused
          | _ => standardZone { parts with time.numbers := [h, m, s] } rest
      | .mark ':' :: _ => .refused
      | _ => standardZone { parts with time.numbers := [h, m] } rest
  | _ => .refused

/-- What may follow the day in the standard form. -/
def standardEnd (parts : Parts) : List Token → Progress
  | [] => .complete { parts with day.standard := true, zone := .ofHours 0 }
  | .word .timeMark _ :: rest =>
    match standardTime parts rest with
    | .complete parts => .complete { parts with day.standard := true }
    | other => other
  | rest => .left parts rest

/-- Month and day of the standard form, behind the year. -/
def standardDay (parts : Parts) : List Token → Progress
  | .mark '-' :: .number m 2 :: rest =>
    if isMonth m then
      let parts := { parts with day.numbers := parts.day.numbers ++ [(m : Int)] }
      match rest with
      | .mark '-' :: .number d 2 :: rest' =>
        if isDayOfMonth d then
          standardEnd { parts with day.numbers := parts.day.numbers ++ [(d : Int)] } rest'
        else .left parts (.number d 2 :: rest')
      | .mark '-' :: rest => .left parts rest
      | _ => standardEnd parts rest
    else .left parts (.number m 2 :: rest)
  | .mark '-' :: rest => .left parts rest
  | rest => standardEnd parts rest

def standard : List Token → Progress
  | .number y 4 :: rest => standardDay { day.numbers := [(y : Int)] } rest
  | .mark sign :: .number y 6 :: rest =>
    if sign = '+' || (sign = '-' && y != 0) then
      standardDay { day.numbers := [if sign = '-' then -(y : Int) else y] } rest
    else if sign = '-' then .left {} (.mark sign :: rest)
    else .left {} (.mark sign :: .number y 6 :: rest)
  | rest => .left {} rest

def skipMark (c : Char) : List Token → List Token
  | .mark d :: rest => if c = d then rest else .mark d :: rest
  | rest => rest

def endsTime : List Token → Bool
  | [] => true
  | .blank :: _ => true
  | .word (.zone _) single :: _ => single
  | .mark c :: _ => c = '+' || c = '-'
  | _ => false

/-- What a number adds to the date, and the tokens that remain. -/
def looseNumber (p : Parts) (n : Nat) (rest : List Token) : Option (Parts × List Token) :=
  match rest with
  | .mark ':' :: .mark ':' :: rest =>
    if p.time.numbers.isEmpty then some ({ p with time.numbers := [n, 0] }, rest) else none
  | .mark ':' :: rest => do
    let time ← p.time.add? n
    some ({ p with time := time }, skipMark '.' rest)
  | _ =>
    let pointed := rest.head? == some (.mark '.')
    let rest := skipMark '.' rest
    if pointed && p.time.expects n then
      match rest with
      | .number f length :: rest => do
        let time ← p.time.add? n
        some ({ p with time := time.finish (fractionMs f length) }, rest)
      | _ => none
    else if p.zone.expects n then some ({ p with zone.minute := some n }, rest)
    else if p.time.expects n then
      if endsTime rest then some ({ p with time := p.time.finish n }, rest) else none
    else do
      let day ← p.day.add? n
      some ({ p with day := day }, skipMark '-' rest)

/-- What a word adds to the date, and the tokens that remain. A word without meaning may stand
only before the first number, and not directly before it. -/
def looseWord (p : Parts) (w : Word) (counted : Bool) (rest : List Token) :
    Option (Parts × List Token) :=
  let meaningless : Option (Parts × List Token) :=
    if counted then none
    else match rest with
      | .number .. :: _ => none
      | _ => some (p, rest)
  match w with
  | .halfDay offset =>
    if p.time.numbers.isEmpty then meaningless
    else some ({ p with time.halfDay := some offset }, rest)
  | .month m => some ({ p with day.month := some m }, skipMark '-' rest)
  | .zone hours => if counted then some ({ p with zone := .ofHours hours }, rest) else meaningless
  | .timeMark => meaningless
  | .unknown => meaningless

/-- A zone by its sign, with the hours and maybe the minutes behind it. -/
def looseZone (p : Parts) (negative : Bool) (rest : List Token) : Option (Parts × List Token) :=
  let (n, length, rest) := match rest with
    | .number n length :: rest => (n, length, rest)
    | _ => (0, 0, rest)
  let zone : ZoneParts := { p.zone with negative := some negative }
  if rest.head? == some (.mark ':') then
    some ({ p with zone := { zone with hour := some n, minute := none } }, rest)
  else if length = 1 || length = 2 then
    some ({ p with zone := { zone with hour := some n, minute := some 0 } }, rest)
  else if length = 3 || length = 4 then
    some ({ p with zone := { zone with hour := some (n / 100), minute := some (n % 100) } }, rest)
  else none

/-- The loose form; `counted` says whether a number was met. Each step takes a token. -/
def loose : Nat → Parts → Bool → List Token → Option Parts
  | 0, p, _, _ => some p
  | _ + 1, p, _, [] => some p
  | fuel + 1, p, counted, token :: rest =>
    match token with
    | .number n _ => do
      let (p, rest) ← looseNumber p n rest
      loose fuel p true rest
    | .word w _ => do
      let (p, rest) ← looseWord p w counted rest
      loose fuel p counted rest
    | .mark c =>
      if (c = '+' || c = '-') && (p.zone.isUniversal || !p.time.numbers.isEmpty) then do
        let (p, rest) ← looseZone p (c == '-') rest
        loose fuel p true rest
      else if (c = '+' || c = '-' || c = ')') && counted then none
      else loose fuel p counted rest
    | .blank => loose fuel p counted rest
    | .other => loose fuel p counted rest

/-- Year, month and day of the numbers met. A loose year below one hundred is near the turn of
the millennium. -/
def DayParts.date? (d : DayParts) : Option (Int × Int × Int) :=
  match d.numbers ++ List.replicate (3 - d.numbers.length) 1 with
  | [a, b, c] =>
    if d.numbers.isEmpty then none
    else
      let (year, month, day) := match d.month with
        | none =>
          if d.standard || !isDayOfMonth a then (a, b, c) else (c, a, b)
        | some m => if isDayOfMonth a then (b, m, a) else (a, m, b)
      let year := if d.standard then year
        else if 0 ≤ year && year ≤ 49 then year + 2000
        else if 50 ≤ year && year ≤ 99 then year + 1900
        else year
      if isMonth month && isDayOfMonth day then some (year, month, day) else none
  | _ => none

/-- The time of day of the numbers met, in milliseconds. Midnight may be written as the end of
its day. -/
def TimeParts.ms? (t : TimeParts) : Option Nat :=
  match (t.numbers ++ [0, 0, 0, 0]).take 4 with
  | [h, m, s, ms] =>
    let hour? := match t.halfDay with
      | some offset => if h ≤ 12 then some (h % 12 + offset) else none
      | none => some h
    match hour? with
    | some h =>
      if (h < 24 && m < 60 && s < 60 && ms < 1000) || (h = 24 && m = 0 && s = 0 && ms = 0) then
        some (((h * 60 + m) * 60 + s) * 1000 + ms)
      else none
    | none => none
  | _ => none

/-- The offset in milliseconds at a time: that of the zone that was met, or else of the local one.
-/
def ZoneParts.offset (zone : Zone) (shown : Int) (z : ZoneParts) : Int :=
  match z.negative with
  | none => zone.localOffset shown
  | some negative =>
    let size : Int := (z.hour.getD 0 * 60 + z.minute.getD 0) * 60000
    if negative then -size else size

def Parts.instant? (zone : Zone) (p : Parts) : Option Instant := do
  let (year, month, day) ← p.day.date?
  let time ← p.time.ms?
  let shown := Instant.msAt year month day 0 0 0 0 + time
  Instant.ofMs? (shown - p.zone.offset zone shown)

/-- The instant that a text denotes, in the zone where it is read. Every character of the text
counts, and a zone in it may have any number of hours: a text with NUL in it, which may be taken to
end there, and an offset of 596524 hours or more, which does not fit in 31 bits of seconds, are read
otherwise by a reader that has such limits. -/
def read? (zone : Zone) (s : String) : Option Instant :=
  match standard (tokensOf s) with
  | .complete parts => parts.instant? zone
  | .left parts rest => do
    let parts ← loose rest.length parts (!parts.day.numbers.isEmpty) rest
    parts.instant? zone
  | .refused => none

end Mailroom.Calendar
