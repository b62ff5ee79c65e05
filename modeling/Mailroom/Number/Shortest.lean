import Mailroom.Number.Basic

/-! The text of a number: the fewest digits that read back as the same number, and of those the
ones nearest to it. Numbers from 1e-6 up to 1e21 are written positionally, others with an
exponent. -/

namespace Mailroom.Number

/-- How many places before the point the quotient `num / den ≥ 1` has, or, for a smaller one, one
less than the zeros after the point, negated: the power of ten just above it. -/
def powerAbove (num den : Nat) : Int :=
  if den ≤ num then ((Nat.toDigits 10 (num / den)).length : Int)
  else
    let rec search : Nat → Nat → Int
      | 0, j => 1 - (j : Int)
      | fuel + 1, j => if den ≤ num * Nat.pow 10 j then 1 - (j : Int) else search fuel (j + 1)
    search 400 1

/-- The quotient `num / den` in units of `10 ^ exponent`, as a new fraction. -/
def inTens (num den : Nat) (exponent : Int) : Nat × Nat :=
  let power := Nat.pow 10 exponent.natAbs
  if exponent < 0 then (num * power, den) else (num, den * power)

/-- The neighbours of the quotient on the grid of `10 ^ exponent`, the nearer one first; halfway
between them, the even one. -/
def neighbours (num den : Nat) (exponent : Int) : List Nat :=
  let (n, d) := inTens num den exponent
  let low := n / d
  let rest := n % d
  if 2 * rest < d || (2 * rest == d && low % 2 == 0) then [low, low + 1] else [low + 1, low]

/-- The first neighbour that reads back as the number, on the grids of one, two, … places. -/
def search (x : Number) (num den : Nat) (above : Int) : List Nat → Option (Nat × Int)
  | [] => none
  | places :: more =>
    let exponent := above - places
    match (neighbours num den exponent).find? fun d => d != 0 && ofDecimal false d exponent == x with
    | some d => some (d, exponent)
    | none => search x num den above more

/-- Digits and exponent of ten of a positive finite number. -/
def shortest (significand : Nat) (exponent : Int) : Nat × Int :=
  let x := finite false significand exponent
  let power := Nat.pow 2 exponent.natAbs
  let (num, den) := if exponent < 0 then (significand, power) else (significand * power, 1)
  let above := powerAbove num den
  (search x num den above (List.range' 1 17)).getD (0, 0)

/-- Decimal digits, without a sign, of `digits · 10 ^ exponent`. -/
def layout (digits : Nat) (exponent : Int) : List Char :=
  let ds := Nat.toDigits 10 digits
  let point := (ds.length : Int) + exponent
  if 0 ≤ exponent && point ≤ 21 then ds ++ List.replicate exponent.natAbs '0'
  else if 0 < point && point ≤ 21 then ds.take point.natAbs ++ '.' :: ds.drop point.natAbs
  else if -6 < point && point ≤ 0 then '0' :: '.' :: (List.replicate point.natAbs '0' ++ ds)
  else
    let power := point - 1
    let tail := 'e' :: (if power < 0 then '-' else '+') :: Nat.toDigits 10 power.natAbs
    match ds with
    | [d] => d :: tail
    | d :: more => d :: '.' :: (more ++ tail)
    | [] => tail

/-- Digits without trailing zeros, the exponent raised to match. -/
def stripZeros : Nat → Nat → Int → Nat × Int
  | 0, d, e => (d, e)
  | fuel + 1, d, e => if d % 10 = 0 && d != 0 then stripZeros fuel (d / 10) (e + 1) else (d, e)

/-- The text of a number; zero has no sign. -/
def text : Number → String
  | nan => "NaN"
  | infinite negative => if negative then "-Infinity" else "Infinity"
  | finite negative m e =>
    if m = 0 then "0"
    else
      let (d, t) := shortest m e
      let (d, t) := stripZeros 20 d t
      String.ofList (if negative then '-' :: layout d t else layout d t)

end Mailroom.Number
