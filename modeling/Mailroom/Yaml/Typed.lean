import Mailroom.Number.Reading
import Mailroom.Text.Split

/-! Texts that would be read as something else than text if they stood without quotes: null, truth
values, numbers, dates, and the spellings of truth values and of numbers to the base sixty that
older readers know. -/

namespace Mailroom.Yaml

def nullWords : List String := ["~", "null", "Null", "NULL"]

/-- Spellings of truth values. -/
def truthWords : List String := ["true", "True", "TRUE", "false", "False", "FALSE"]

/-- Spellings of truth values for older readers. -/
def oldTruthWords : List String :=
  ["y", "Y", "yes", "Yes", "YES", "on", "On", "ON", "n", "N", "no", "No", "NO", "off", "Off", "OFF"]

/-- Spellings of floating-point numbers that are no decimals. -/
def specialNumbers : List String :=
  [".inf", ".Inf", ".INF", "-.inf", "-.Inf", "-.INF", "+.inf", "+.Inf", "+.INF",
    ".nan", ".NaN", ".NAN"]

/-- The list without a sign in front. -/
def unsigned : List Char → List Char
  | '-' :: cs => cs
  | '+' :: cs => cs
  | cs => cs

/-- Whether the list is made of digits of a kind, maybe grouped by underscores, and does not end
in one. -/
def isGrouped (isDigit : Char → Bool) (cs : List Char) : Bool :=
  cs.all (fun c => isDigit c || c == '_') && cs.any isDigit && cs.getLast? != some '_'

/-- Whether the list is made of decimal digits that may be grouped, but not at either end. -/
def isDecimal (cs : List Char) : Bool := isGrouped Char.isDigit cs && cs.head? != some '_'

/-- A digit to the base sixteen. -/
def isHexDigit (c : Char) : Bool := c.isDigit || ('a' ≤ c && c ≤ 'f') || ('A' ≤ c && c ≤ 'F')

/-- A digit to the base eight. -/
def isOctalDigit (c : Char) : Bool := '0' ≤ c && c ≤ '7'

/-- Whether the text writes an integer, to the base ten or another one that it names. -/
def isInteger (cs : List Char) : Bool :=
  match unsigned cs with
  | ['0'] => true
  | '0' :: 'b' :: ds => isGrouped (fun c => c == '0' || c == '1') ds
  | '0' :: 'x' :: ds => isGrouped isHexDigit ds
  | '0' :: 'o' :: ds => isGrouped isOctalDigit ds
  | '0' :: ds => isDecimal ds
  | ds => isDecimal ds

def isGroupDigit (c : Char) : Bool := c.isDigit || c == '_'

/-- Whether nothing is left, or a decimal exponent. -/
def isExponent : List Char → Bool
  | [] => true
  | c :: cs => (c == 'e' || c == 'E') && !(unsigned cs).isEmpty && (unsigned cs).all Char.isDigit

/-- Whether the text has the form of a decimal with a point or an exponent. A form that begins
with the point has no sign. -/
def hasDecimalForm (cs : List Char) : Bool :=
  match cs with
  | '.' :: ds => !(ds.takeWhile isGroupDigit).isEmpty && isExponent (ds.dropWhile isGroupDigit)
  | _ =>
    let ds := unsigned cs
    (ds.head?.map Char.isDigit).getD false &&
      match ds.dropWhile isGroupDigit with
      | '.' :: rest => isExponent (rest.dropWhile isGroupDigit)
      | rest => isExponent rest

/-- Whether the text writes a decimal that is no greater than numbers can be. -/
def isFloat (cs : List Char) : Bool :=
  hasDecimalForm cs && cs.getLast? != some '_' &&
    ((Number.read (String.ofList (cs.filter (· != '_')))).toRat?).isSome

/-- What is left behind a number of digits between two bounds. -/
def afterDigits (least most : Nat) (cs : List Char) : Option (List Char) :=
  let n := min most (cs.takeWhile Char.isDigit).length
  if least ≤ n then some (cs.drop n) else none

/-- What is left behind a character. -/
def afterChar (c : Char) : List Char → Option (List Char)
  | d :: cs => if d = c then some cs else none
  | [] => none

/-- A blank within a line. -/
def isSpace (c : Char) : Bool := c == ' ' || c == '\t'

/-- Whether the text is a date of four, two and two digits. -/
def isDate (cs : List Char) : Bool :=
  (do
    let cs ← afterDigits 4 4 cs
    let cs ← afterDigits 2 2 (← afterChar '-' cs)
    afterDigits 2 2 (← afterChar '-' cs)) == some []

/-- What is left behind the mark between a date and a time. -/
def afterTimeMark : List Char → Option (List Char)
  | 'T' :: cs => some cs
  | 't' :: cs => some cs
  | c :: cs => if isSpace c then some (cs.dropWhile isSpace) else none
  | [] => none

/-- What is left behind a date and a time down to whole seconds. -/
def afterSeconds (cs : List Char) : Option (List Char) := do
  let cs ← afterDigits 4 4 cs
  let cs ← afterDigits 1 2 (← afterChar '-' cs)
  let cs ← afterDigits 1 2 (← afterChar '-' cs)
  let cs ← afterDigits 1 2 (← afterTimeMark cs)
  let cs ← afterDigits 2 2 (← afterChar ':' cs)
  afterDigits 2 2 (← afterChar ':' cs)

/-- Whether the list is a zone: none, a letter, or a distance in hours and maybe minutes. -/
def isZone (cs : List Char) : Bool :=
  cs.isEmpty || match cs.dropWhile isSpace with
    | ['Z'] => true
    | c :: ds => (c == '-' || c == '+') &&
      match afterDigits 1 2 ds with
      | some [] => true
      | some rest => (do afterDigits 2 2 (← afterChar ':' rest)) == some []
      | none => false
    | [] => false

/-- Whether the text is a date with a time. -/
def isTimestamp (cs : List Char) : Bool :=
  match afterSeconds cs with
  | some ('.' :: rest) => isZone (rest.dropWhile Char.isDigit)
  | some rest => isZone rest
  | none => false

/-- Whether the text would be read as something else than text. -/
def isTyped (s : String) : Bool :=
  let cs := s.toList
  nullWords.contains s || truthWords.contains s || specialNumbers.contains s || s == "<<"
    || isInteger cs || isFloat cs || isDate cs || isTimestamp cs

/-- Whether the text has the form of a number to the base sixty: at least two groups between
colons, and maybe a fraction. -/
def isBaseSixty (cs : List Char) : Bool :=
  let ds := unsigned cs
  let groups := Text.pieces ':' (ds.takeWhile (· != '.'))
  2 ≤ groups.length && groups.all (fun g => !g.isEmpty && g.all isGroupDigit)
    && (ds.dropWhile (· != '.')).tail.all isGroupDigit

/-- Whether older readers would read the text as something else than text. -/
def isOldTyped (s : String) : Bool := oldTruthWords.contains s || isBaseSixty s.toList

end Mailroom.Yaml
