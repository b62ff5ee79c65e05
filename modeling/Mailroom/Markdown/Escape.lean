import Mailroom.Hypertext.Reference
import Mailroom.Text.Punctuation

/-! Escapes: a backslash takes the meaning from the punctuation behind it, and a reference names a
character. A reference needs its semicolon. -/

namespace Mailroom.Markdown

open Mailroom.Text

/-- Whether a number stands for a character that may be written. -/
def isWritable (n : Nat) : Bool :=
  !(n < 9 || n == 11 || (13 < n && n < 32) || (126 < n && n < 160) || (0xD7FF < n && n < 0xE000)
    || (0xFDCF < n && n < 0xFDF0) || n % 0x10000 == 0xFFFF || n % 0x10000 == 0xFFFE
    || 0x10FFFF < n)

/-- The character of a number; the replacement character if it may not be written. -/
def numberedChar (n : Nat) : Char := if isWritable n then Char.ofNat n else '\uFFFD'

/-- The character of some digits with a semicolon behind them, and what follows. -/
def numberedReference? (base most : Nat) (isDigit : Char → Bool) (cs : List Char) :
    Option (List Char × List Char) :=
  let ds := cs.takeWhile isDigit
  match cs.dropWhile isDigit with
  | ';' :: rest =>
    if ds.isEmpty || most < ds.length then none
    else some ([numberedChar (Number.digitsValue base ds)], rest)
  | _ => none

/-- The characters of the reference behind an ampersand, and what follows it. -/
def reference? : List Char → Option (List Char × List Char)
  | '#' :: 'x' :: cs => numberedReference? 16 6 Hypertext.isHexDigit cs
  | '#' :: 'X' :: cs => numberedReference? 16 6 Hypertext.isHexDigit cs
  | '#' :: cs => numberedReference? 10 7 Char.isDigit cs
  | cs =>
    match cs.dropWhile Char.isAlphanum with
    | ';' :: rest =>
      let name := cs.takeWhile Char.isAlphanum
      if 31 < name.length then none
      else (Hypertext.entity? (String.ofList name)).map fun found => (found, rest)
    | _ => none

/-- A string with its escapes and references resolved. Fuel is the number of characters. -/
def resolve : Nat → List Char → List Char
  | 0, cs => cs
  | _ + 1, [] => []
  | fuel + 1, '\\' :: c :: cs =>
    if isAsciiPunctuation c then c :: resolve fuel cs else '\\' :: resolve fuel (c :: cs)
  | fuel + 1, '&' :: cs =>
    match reference? cs with
    | some (found, rest) => found ++ resolve fuel rest
    | none => '&' :: resolve fuel cs
  | fuel + 1, c :: cs => c :: resolve fuel cs

def resolved (cs : List Char) : List Char := resolve cs.length cs

end Mailroom.Markdown
