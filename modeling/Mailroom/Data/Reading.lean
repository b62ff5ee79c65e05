import Mailroom.Data.Value
import Mailroom.Number.Reading

/-! Reading values from their interchange text. The grammar is the strict one: four blank
characters, no comments, no trailing commas, numbers without leading zeros, texts without bare
control characters. Fuel bounds the nesting; a text is shorter than its own length deep. -/

namespace Mailroom.Value

open Mailroom.Number (digitRun digitsValue digitValue exponentOf)

/-- The list without the blanks that may stand between tokens. -/
def skipBlanks (cs : List Char) : List Char :=
  cs.dropWhile fun c => c = ' ' || c = '\t' || c = '\n' || c = '\r'

/-- The code unit that four hexadecimal digits at the front write. -/
def readUnit : List Char → Option (Nat × List Char)
  | a :: b :: c :: d :: rest =>
    if [a, b, c, d].all fun h => digitValue h < 16 then
      some (digitsValue 16 [a, b, c, d], rest)
    else none
  | _ => none

/-- The character of a code unit, with its second half if it is the first of a pair; half a pair
alone is the replacement character. -/
def joinUnits (high : Nat) (rest : List Char) : Char × List Char :=
  if 0xD800 ≤ high && high < 0xDC00 then
    match rest with
    | '\\' :: 'u' :: more =>
      match readUnit more with
      | some (low, after) =>
        if 0xDC00 ≤ low && low < 0xE000 then
          (Char.ofNat (0x10000 + (high - 0xD800) * 0x400 + (low - 0xDC00)), after)
        else ('\ufffd', rest)
      | none => ('\ufffd', rest)
    | _ => ('\ufffd', rest)
  else if 0xDC00 ≤ high && high < 0xE000 then ('\ufffd', rest)
  else (Char.ofNat high, rest)

/-- The character that a letter stands for behind a backslash. -/
def escaped? : Char → Option Char
  | '"' => some '"'
  | '\\' => some '\\'
  | '/' => some '/'
  | 'b' => some '\x08'
  | 'f' => some '\x0c'
  | 'n' => some '\n'
  | 'r' => some '\r'
  | 't' => some '\t'
  | _ => none

/-- The characters up to the closing quote, and what follows it. -/
def readText : Nat → List Char → Option (List Char × List Char)
  | 0, _ => none
  | _ + 1, [] => none
  | _ + 1, '"' :: rest => some ([], rest)
  | fuel + 1, '\\' :: 'u' :: rest => do
    let (unit, rest) ← readUnit rest
    let (c, rest) := joinUnits unit rest
    let (cs, rest) ← readText fuel rest
    some (c :: cs, rest)
  | fuel + 1, '\\' :: letter :: rest => do
    let c ← escaped? letter
    let (cs, rest) ← readText fuel rest
    some (c :: cs, rest)
  | fuel + 1, c :: rest => do
    if c.toNat < 0x20 || c = '\\' then none
    else
      let (cs, rest) ← readText fuel rest
      some (c :: cs, rest)

/-- The number at the front, and what follows it. -/
def readNumber (cs : List Char) : Option (Number × List Char) := do
  let (negative, rest) := match cs with
    | '-' :: rest => (true, rest)
    | _ => (false, cs)
  let (whole, rest) ← match digitRun rest with
    | ([], _) => none
    | ('0' :: _ :: _, _) => none
    | found => some found
  let (fraction, rest) ← match rest with
    | '.' :: more => match digitRun more with
      | ([], _) => none
      | found => some found
    | _ => some ([], rest)
  let (power, rest) := exponentOf rest
  let number := Number.ofDecimal negative (digitsValue 10 (whole ++ fraction))
    (power - fraction.length)
  some (number, rest)

mutual

/-- The value at the front, and what follows it. -/
def readValue : Nat → List Char → Option (Value × List Char)
  | 0, _ => none
  | fuel + 1, cs =>
    match skipBlanks cs with
    | '"' :: rest => do
      let (text, rest) ← readText (rest.length + 1) rest
      some (str (String.ofList text), rest)
    | '[' :: rest =>
      match skipBlanks rest with
      | ']' :: rest => some (arr [], rest)
      | _ => do
        let (items, rest) ← readItems fuel rest
        some (arr items, rest)
    | '\x7b' :: rest =>
      match skipBlanks rest with
      | '\x7d' :: rest => some (obj [], rest)
      | _ => do
        let (fields, rest) ← readFields fuel rest
        some (record fields, rest)
    | 't' :: 'r' :: 'u' :: 'e' :: rest => some (bool true, rest)
    | 'f' :: 'a' :: 'l' :: 's' :: 'e' :: rest => some (bool false, rest)
    | 'n' :: 'u' :: 'l' :: 'l' :: rest => some (null, rest)
    | rest => do
      let (number, rest) ← readNumber rest
      some (num number, rest)

/-- The items up to the closing bracket. -/
def readItems : Nat → List Char → Option (List Value × List Char)
  | 0, _ => none
  | fuel + 1, cs => do
    let (item, rest) ← readValue fuel cs
    match skipBlanks rest with
    | ',' :: rest =>
      let (items, rest) ← readItems fuel rest
      some (item :: items, rest)
    | ']' :: rest => some ([item], rest)
    | _ => none

/-- The fields up to the closing brace. -/
def readFields : Nat → List Char → Option (List (String × Value) × List Char)
  | 0, _ => none
  | fuel + 1, cs =>
    match skipBlanks cs with
    | '"' :: rest => do
      let (name, rest) ← readText (rest.length + 1) rest
      match skipBlanks rest with
      | ':' :: rest =>
        let (v, rest) ← readValue fuel rest
        match skipBlanks rest with
        | ',' :: rest =>
          let (fields, rest) ← readFields fuel rest
          some ((String.ofList name, v) :: fields, rest)
        | '\x7d' :: rest => some ([(String.ofList name, v)], rest)
        | _ => none
      | _ => none
    | _ => none

end

/-- The value that a text writes, if it writes one and nothing else. -/
def read? (s : String) : Option Value :=
  let cs := s.toList
  match readValue (cs.length + 1) cs with
  | some (v, rest) => if (skipBlanks rest).isEmpty then some v else none
  | none => none

end Mailroom.Value
