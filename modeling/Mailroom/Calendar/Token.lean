import Mailroom.Text.Blank
import Mailroom.Number.Reading

/-! The words, numbers and marks of a written date. A word is known by its first three letters:
months by any longer word too, the others only by the word itself. Text in round brackets is one
token without meaning. -/

namespace Mailroom.Calendar

open Mailroom.Text Mailroom.Number

/-- What a word in a date can mean. -/
inductive Word
  | month (month : Nat)
  | halfDay (offset : Nat)
  | zone (hours : Int)
  | timeMark
  | unknown
deriving DecidableEq, Repr

/-- A piece of a written date. The length of a number counts its zeros in front; a word knows
whether it is a single letter. -/
inductive Token
  | number (value length : Nat)
  | mark (c : Char)
  | word (meaning : Word) (single : Bool)
  | blank
  | other
deriving DecidableEq, Repr

def wholeWords : List (String × Word) :=
  [("am", .halfDay 0), ("pm", .halfDay 12), ("ut", .zone 0), ("utc", .zone 0), ("z", .zone 0),
    ("gmt", .zone 0), ("cdt", .zone (-5)), ("cst", .zone (-6)), ("edt", .zone (-4)),
    ("est", .zone (-5)), ("mdt", .zone (-6)), ("mst", .zone (-7)), ("pdt", .zone (-7)),
    ("pst", .zone (-8)), ("t", .timeMark)]

/-- The first three letters of the months. -/
def monthWords : List String :=
  ["jan", "feb", "mar", "apr", "may", "jun", "jul", "aug", "sep", "oct", "nov", "dec"]

def meaning (letters : List Char) : Word :=
  let start := String.ofList (letters.take 3)
  match monthWords.findIdx? (· == start) with
  | some i => .month (i + 1)
  | none =>
    if 3 < letters.length then .unknown else (wholeWords.lookup start).getD .unknown

/-- Whether a character belongs to a word: a letter, or anything after the capitals. -/
def inWord (c : Char) : Bool := 'A'.toNat ≤ c.toNat && !isBlank c

/-- The value of a run of digits; nine digits after the zeros in front count. -/
def runValue (ds : List Char) : Nat :=
  digitsValue 10 ((ds.dropWhile (· == '0')).take 9)

/-- What follows the bracket that closes `depth` open ones. -/
def afterBrackets : Nat → List Char → List Char
  | _, [] => []
  | depth, ')' :: rest => if depth ≤ 1 then rest else afterBrackets (depth - 1) rest
  | depth, '(' :: rest => afterBrackets (depth + 1) rest
  | depth, _ :: rest => afterBrackets depth rest

def firstToken (c : Char) (rest : List Char) : Token × List Char :=
  if c.isDigit then
    let ds := c :: rest.takeWhile Char.isDigit
    (.number (runValue ds) ds.length, rest.dropWhile Char.isDigit)
  else if [':', '-', '+', '.', ')'].contains c then (.mark c, rest)
  else if inWord c then
    let letters := c :: rest.takeWhile inWord
    (.word (meaning (letters.map Char.toLower)) (letters.length == 1), rest.dropWhile inWord)
  else if isBlank c then (.blank, rest)
  else if c = '(' then (.other, afterBrackets 1 rest)
  else (.other, rest)

/-- The tokens of a text; each takes at least one character. -/
def tokens : Nat → List Char → List Token
  | 0, _ => []
  | _ + 1, [] => []
  | fuel + 1, c :: rest =>
    let (token, rest) := firstToken c rest
    token :: tokens fuel rest

/-- The tokens of a date text. -/
def tokensOf (s : String) : List Token :=
  let cs := s.toList
  tokens cs.length cs

end Mailroom.Calendar
