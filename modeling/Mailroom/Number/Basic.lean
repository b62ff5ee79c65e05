/-! Double precision numbers, exactly. A finite number is a signed multiple of a power of two in
the normal form of the format: at most 53 significant bits, the exponent at least −1074, and 53
bits used unless the exponent is the least one. `ofRatio` rounds a quotient to the nearest number,
a tie to the even significand. -/

namespace Mailroom

/-- A number of the double precision format. -/
inductive Number
  | nan
  | infinite (negative : Bool)
  | finite (negative : Bool) (significand : Nat) (exponent : Int)
deriving DecidableEq, Repr, Inhabited

namespace Number

def leastExponent : Int := -1074

def greatestExponent : Int := 971

/-- Zero; the sign of zero is kept. -/
def zero (negative : Bool) : Number := finite negative 0 leastExponent

instance : OfNat Number 0 := ⟨zero false⟩

/-- The quotient `num / den` in units of `2 ^ exponent`, as a new fraction. -/
def scaled (num den : Nat) (exponent : Int) : Nat × Nat :=
  let power := Nat.pow 2 exponent.natAbs
  if exponent < 0 then (num * power, den) else (num, den * power)

/-- The integer nearest to `num / den`; halfway between two, the even one. -/
def nearest (num den : Nat) : Nat :=
  let quotient := num / den
  let rest := num % den
  if 2 * rest < den then quotient
  else if 2 * rest = den then quotient + quotient % 2
  else quotient + 1

/-- The exponent whose unit leaves 53 bits before the point of `num / den`, or the least one. -/
def unitExponent (num den : Nat) : Int :=
  let guess := max ((num.log2 : Int) - den.log2 - 52) leastExponent
  let (n, d) := scaled num den guess
  if n / d < Nat.pow 2 52 then max (guess - 1) leastExponent else guess

/-- The finite number or infinity of a rounded significand. -/
def pack (negative : Bool) (significand : Nat) (exponent : Int) : Number :=
  let (m, e) := if significand = Nat.pow 2 53 then (Nat.pow 2 52, exponent + 1)
    else (significand, exponent)
  if greatestExponent < e then infinite negative else finite negative m e

/-- The number nearest to `± num / den`. -/
def ofRatio (negative : Bool) (num den : Nat) : Number :=
  if num = 0 then zero negative
  else
    let e := unitExponent num den
    let (n, d) := scaled num den e
    pack negative (nearest n d) e

/-- The number nearest to an integer. -/
def ofInt (i : Int) : Number := ofRatio (decide (i < 0)) i.natAbs 1

def ofNat (n : Nat) : Number := ofRatio false n 1

def ofRat (r : Rat) : Number := ofRatio (decide (r.num < 0)) r.num.natAbs r.den

/-- The number nearest to `± digits · 10 ^ exponent`. Far outside the format's range the answer is
known without the power. -/
def ofDecimal (negative : Bool) (digits : Nat) (exponent : Int) : Number :=
  if digits = 0 then zero negative
  else
    let magnitude := ((Nat.toDigits 10 digits).length : Int) + exponent
    if magnitude < -400 then zero negative
    else if 400 < magnitude then infinite negative
    else if exponent < 0 then ofRatio negative digits (Nat.pow 10 exponent.natAbs)
    else ofRatio negative (digits * Nat.pow 10 exponent.natAbs) 1

/-- The exact value of a finite number. -/
def toRat? : Number → Option Rat
  | nan => none
  | infinite _ => none
  | finite negative m e =>
    let power := Nat.pow 2 e.natAbs
    let size : Rat := if e < 0 then mkRat m power else ((m * power : Nat) : Rat)
    some (if negative then -size else size)

/-- The integer part of a finite number, toward zero. -/
def truncate? : Number → Option Int
  | nan => none
  | infinite _ => none
  | finite negative m e =>
    let power := Nat.pow 2 e.natAbs
    let size := if e < 0 then m / power else m * power
    some (if negative then -(size : Int) else size)

/-- Whether the number is finite and whole. -/
def isInteger : Number → Bool
  | nan => false
  | infinite _ => false
  | finite _ m e => 0 ≤ e || m % Nat.pow 2 e.natAbs == 0

/-- Whether the number is neither zero nor NaN. -/
def isTruthy : Number → Bool
  | nan => false
  | infinite _ => true
  | finite _ m _ => m != 0

def isNegativeZero : Number → Bool
  | finite true 0 _ => true
  | _ => false

/-- Strictly less, by value; nothing compares with NaN. -/
def lt (a b : Number) : Bool :=
  match a, b with
  | nan, _ => false
  | _, nan => false
  | infinite p, infinite q => p && !q
  | infinite p, finite .. => p
  | finite .., infinite q => !q
  | finite .., finite .. =>
    match a.toRat?, b.toRat? with
    | some x, some y => decide (x < y)
    | _, _ => false

/-- Equality by value: the two zeros are equal, NaN equals nothing. -/
def same (a b : Number) : Bool :=
  match a, b with
  | nan, _ => false
  | _, nan => false
  | finite _ 0 _, finite _ 0 _ => true
  | _, _ => a == b

end Number

end Mailroom
