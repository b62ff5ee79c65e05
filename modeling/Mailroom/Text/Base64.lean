import Mailroom.Text.Bytes

/-! Bytes in letters: three bytes make four letters of six bits each. Writing uses the alphabet
that is safe in addresses and leaves out the padding. Reading knows both alphabets, skips other
characters, stops at a padding sign and drops a last letter that stands alone. -/

namespace Mailroom.Text

/-- The letter of six bits. -/
def letterOf (n : Nat) : Char :=
  if n < 26 then Char.ofNat ('A'.toNat + n)
  else if n < 52 then Char.ofNat ('a'.toNat + (n - 26))
  else if n < 62 then Char.ofNat ('0'.toNat + (n - 52))
  else if n = 62 then '-'
  else '_'

def sixBits? (c : Char) : Option Nat :=
  if c.isUpper then some (c.toNat - 'A'.toNat)
  else if c.isLower then some (c.toNat - 'a'.toNat + 26)
  else if c.isDigit then some (c.toNat - '0'.toNat + 52)
  else if c = '+' || c = '-' then some 62
  else if c = '/' || c = '_' then some 63
  else none

/-- The letters of some bytes. -/
def lettersOf : List Nat → List Char
  | [] => []
  | [a] => [letterOf (a / 4), letterOf (a % 4 * 16)]
  | [a, b] => [letterOf (a / 4), letterOf (a % 4 * 16 + b / 16), letterOf (b % 16 * 4)]
  | a :: b :: c :: rest =>
    letterOf (a / 4) :: letterOf (a % 4 * 16 + b / 16) :: letterOf (b % 16 * 4 + c / 64)
      :: letterOf (c % 64) :: lettersOf rest

def bytesOfGroups : List Nat → List Nat
  | [] => []
  | [_] => []
  | [a, b] => [a * 4 + b / 16]
  | [a, b, c] => [a * 4 + b / 16, b % 16 * 16 + c / 4]
  | a :: b :: c :: d :: rest =>
    (a * 4 + b / 16) :: (b % 16 * 16 + c / 4) :: (c % 4 * 64 + d) :: bytesOfGroups rest

def encodeLetters (s : String) : String := String.ofList (lettersOf (toBytes s))

/-- The text that letters write. -/
def decodeLetters (s : String) : String :=
  ofBytes (bytesOfGroups ((s.toList.takeWhile (· != '=')).filterMap sixBits?))

end Mailroom.Text
