import Mailroom.Hypertext.Entities

/-! Character references: characters written by a name or a number behind an ampersand. A reference
that stands for nothing is left as it is written. -/

namespace Mailroom.Hypertext

/-- The characters that numbers from 128 to 159 stand for. -/
def legacyCodes : List Nat :=
  [0x20AC, 0x81, 0x201A, 0x0192, 0x201E, 0x2026, 0x2020, 0x2021, 0x02C6, 0x2030, 0x0160, 0x2039,
    0x0152, 0x8D, 0x017D, 0x8F, 0x90, 0x2018, 0x2019, 0x201C, 0x201D, 0x2022, 0x2013, 0x2014,
    0x02DC, 0x2122, 0x0161, 0x203A, 0x0153, 0x9D, 0x017E, 0x0178]

/-- The character of a number; what is none becomes the replacement character. -/
def codeChar (n : Nat) : Char :=
  if n = 0 || 0x10FFFF < n || (0xD800 ≤ n && n < 0xE000) then '\uFFFD'
  else if 0x80 ≤ n && n < 0xA0 then Char.ofNat ((legacyCodes[n - 0x80]?).getD n)
  else Char.ofNat n

def afterSemicolon : List Char → List Char
  | ';' :: cs => cs
  | cs => cs

/-- A digit to the base sixteen. -/
def isHexDigit (c : Char) : Bool := c.isDigit || ('a' ≤ c && c ≤ 'f') || ('A' ≤ c && c ≤ 'F')

/-- The character of the digits in front, and what follows them and their semicolon. -/
def numbered? (base : Nat) (isDigit : Char → Bool) (cs : List Char) :
    Option (List Char × List Char) :=
  let ds := cs.takeWhile isDigit
  if ds.isEmpty then none
  else
    some ([codeChar (Number.digitsValue base ds)], afterSemicolon (cs.dropWhile isDigit))

/-- The longest name without a semicolon that begins a run of letters and digits, given the
lengths to try. -/
def openPart? (run : List Char) : Nat → Option (List Char × Nat)
  | 0 => none
  | n + 1 =>
    let name := String.ofList (run.take (n + 1))
    if n + 1 ≤ run.length && openNames.contains name then
      (entity? name).map fun found => (found, n + 1)
    else openPart? run n

/-- Whether a character goes on with a word or gives it a value. -/
def goesOn : List Char → Bool
  | c :: _ => c.isAlphanum || c == '='
  | [] => false

/-- The characters of a name in front, and what follows it. In the value of an attribute a name
without a semicolon does not count before a letter, a digit or an equals sign. -/
def named? (isAttribute : Bool) (cs : List Char) : Option (List Char × List Char) :=
  let run := cs.takeWhile Char.isAlphanum
  let whole := match cs.dropWhile Char.isAlphanum with
    | ';' :: rest => (entity? (String.ofList run)).map fun found => (found, rest)
    | _ => none
  whole.or <|
    match openPart? run (min run.length longestName) with
    | some (found, n) =>
      if isAttribute && goesOn (cs.drop n) then none else some (found, cs.drop n)
    | none => none

/-- The characters of the reference behind an ampersand, and what follows it. -/
def reference? (isAttribute : Bool) : List Char → Option (List Char × List Char)
  | '#' :: 'x' :: cs => numbered? 16 isHexDigit cs
  | '#' :: 'X' :: cs => numbered? 16 isHexDigit cs
  | '#' :: cs => numbered? 10 Char.isDigit cs
  | cs => named? isAttribute cs

/-- A text with its references resolved. Fuel is the number of characters. -/
def resolve (isAttribute : Bool) : Nat → List Char → List Char
  | 0, cs => cs
  | _ + 1, [] => []
  | fuel + 1, c :: cs =>
    if c = '&' then
      match reference? isAttribute cs with
      | some (found, rest) => found ++ resolve isAttribute fuel rest
      | none => c :: resolve isAttribute fuel cs
    else c :: resolve isAttribute fuel cs

def resolved (isAttribute : Bool) (cs : List Char) : List Char :=
  resolve isAttribute cs.length cs

end Mailroom.Hypertext
