import Mailroom.Number.Basic
import Mailroom.Text.Blank
import Mailroom.Text.Split

/-! Reading numbers from text. A numeral is decimal with an optional fraction and exponent, a
whole number in base 16, 8 or 2 behind its mark, or the word for infinity; blanks around it do not
count, and a blank text is zero. Every other text reads as NaN. -/

namespace Mailroom.Number

open Mailroom.Text

def digitValue (c : Char) : Nat :=
  if c.isDigit then c.toNat - '0'.toNat
  else if c.isUpper then c.toNat - 'A'.toNat + 10
  else if c.isLower then c.toNat - 'a'.toNat + 10
  else 36

def digitsValue (base : Nat) (ds : List Char) : Nat :=
  ds.foldl (fun n c => n * base + digitValue c) 0

/-- The leading run of decimal digits and what follows it. -/
def digitRun (cs : List Char) : List Char × List Char :=
  (cs.takeWhile Char.isDigit, cs.dropWhile Char.isDigit)

/-- A sign, if there is one, and what follows it; true is minus. -/
def signOf : List Char → Bool × List Char
  | '-' :: rest => (true, rest)
  | '+' :: rest => (false, rest)
  | cs => (false, cs)

/-- An exponent part, if one is complete, and what follows it. -/
def exponentOf (cs : List Char) : Int × List Char :=
  match cs with
  | mark :: rest =>
    if mark = 'e' || mark = 'E' then
      let (negative, rest) := signOf rest
      match digitRun rest with
      | ([], _) => (0, cs)
      | (ds, rest) =>
        let size : Int := digitsValue 10 ds
        (if negative then -size else size, rest)
    else (0, cs)
  | [] => (0, cs)

/-- The unsigned decimal numeral at the front: its digits, the power of ten they are scaled by,
and what follows. At least one digit must stand before or after the point. -/
def decimalOf (cs : List Char) : Option (Nat × Int × List Char) :=
  let (whole, rest) := digitRun cs
  let (fraction, rest) := match rest with
    | '.' :: more => digitRun more
    | _ => ([], rest)
  if whole.isEmpty && fraction.isEmpty then none
  else
    let (power, rest) := exponentOf rest
    some (digitsValue 10 (whole ++ fraction), power - fraction.length, rest)

/-- A whole number in the base, all digits of it valid. -/
def wholeOf (base : Nat) (ds : List Char) : Number :=
  if ds.isEmpty || ds.any (fun c => base ≤ digitValue c) then nan
  else ofNat (digitsValue base ds)

/-- The number that a text writes. -/
def read (s : String) : Number :=
  match (trim s).toList with
  | [] => 0
  | '0' :: mark :: ds =>
    if mark = 'x' || mark = 'X' then wholeOf 16 ds
    else if mark = 'o' || mark = 'O' then wholeOf 8 ds
    else if mark = 'b' || mark = 'B' then wholeOf 2 ds
    else decimal ('0' :: mark :: ds)
  | cs => decimal cs
where
  /-- A signed decimal numeral or infinity, with nothing after it. -/
  decimal (cs : List Char) : Number :=
    let (negative, rest) := signOf cs
    if rest = "Infinity".toList then infinite negative
    else match decimalOf rest with
      | some (digits, power, []) => ofDecimal negative digits power
      | _ => nan

end Mailroom.Number
