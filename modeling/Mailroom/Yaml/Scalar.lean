import Mailroom.Text.Units
import Mailroom.Yaml.Typed

/-! Scalars: texts as they are written in a document. A text stands plain where it is not mistaken
for anything else, in single quotes if it is, as a literal block if it has several lines, and in
double quotes with escapes if it has characters that are not printed. -/

namespace Mailroom.Yaml

/-- Whether a character is printed as it is. -/
def isPrintable (c : Char) : Bool :=
  let n := c.toNat
  (0x20 ≤ n && n ≤ 0x7E) || (0xA1 ≤ n && n ≤ 0xFFFD && n != 0x2028 && n != 0x2029 && n != 0xFEFF)
    || 0x10000 ≤ n

/-- Characters that no plain text begins with. -/
def indicators : List Char :=
  ['-', '?', ':', ',', '[', ']', '\x7b', '\x7d', '#', '&', '*', '!', '|', '=', '>', '\'', '"', '%',
    '@', '\x60']

/-- Whether a plain text may begin with the character. -/
def mayBegin (c : Char) : Bool := isPrintable c && c != ' ' && !indicators.contains c

/-- Whether a plain text may end with the character. -/
def mayEnd (c : Char) : Bool := !isSpace c && c != ':'

/-- Whether a character may follow another in a plain text: a number sign not behind a blank, and
behind a colon no blank. -/
def mayFollow (previous : Option Char) (c : Char) : Bool :=
  match previous with
  | some p =>
    (isPrintable c && c != '#' && !(p == ':' && c == ' '))
      || (c == '#' && isPrintable p && p != ' ')
      || (p == ':' && isPrintable c && c != ' ')
  | none => isPrintable c && c != '#'

/-- Whether each character may follow the one before it. -/
def mayRun (previous : Option Char) : List Char → Bool
  | [] => true
  | c :: cs => mayFollow previous c && mayRun (some c) cs

/-- Whether the characters of a text may stand plain. -/
def isPlain (cs : List Char) : Bool :=
  (cs.head?.map mayBegin).getD false && (cs.getLast?.map mayEnd).getD false
    && mayRun none cs

/-- The digits to the base sixteen, in capitals, at least as many as the width. -/
def capitalHex (width n : Nat) : List Char :=
  let ds := (Nat.toDigits 16 n).map Char.toUpper
  List.replicate (width - ds.length) '0' ++ ds

/-- Escapes that have letters of their own. -/
def shortEscapes : List (Nat × Char) :=
  [(0x00, '0'), (0x07, 'a'), (0x08, 'b'), (0x09, 't'), (0x0A, 'n'), (0x0B, 'v'), (0x0C, 'f'),
    (0x0D, 'r'), (0x1B, 'e'), (0x22, '"'), (0x5C, '\\'), (0x85, 'N'), (0xA0, '_'), (0x2028, 'L'),
    (0x2029, 'P')]

/-- A character inside double quotes. -/
def escape (c : Char) : List Char :=
  match shortEscapes.lookup c.toNat with
  | some letter => ['\\', letter]
  | none =>
    if isPrintable c then [c]
    else if c.toNat ≤ 0xFF then '\\' :: 'x' :: capitalHex 2 c.toNat
    else '\\' :: 'u' :: capitalHex 4 c.toNat

def doubleQuoted (cs : List Char) : List Char := '"' :: (cs.flatMap escape ++ ['"'])

/-- A text in single quotes; a quote inside is written twice. -/
def singleQuoted (cs : List Char) : List Char :=
  '\'' :: (cs.flatMap (fun c => if c = '\'' then ['\'', '\''] else [c]) ++ ['\''])

/-- The lines of a literal block, each behind the indent; empty lines have none. -/
def indented (indent : Nat) (cs : List Char) : List Char :=
  ['\n'].intercalate ((Text.pieces '\n' cs).map fun line =>
    if line.isEmpty then [] else List.replicate indent ' ' ++ line)

/-- Whether the first line that is not empty begins with a blank, so that the indent has to be
given. -/
def needsIndicator (cs : List Char) : Bool := (cs.dropWhile (· == '\n')).head? == some ' '

/-- How the line breaks at the end of a literal block are kept: several by a plus, one as it is,
none by a minus. -/
def chomping (cs : List Char) : List Char :=
  match cs.reverse with
  | ['\n'] => ['+']
  | '\n' :: '\n' :: _ => ['+']
  | '\n' :: _ => []
  | _ => ['-']

/-- The list without a line break at its end. -/
def dropLastBreak (cs : List Char) : List Char :=
  if cs.getLast? = some '\n' then cs.dropLast else cs

/-- A text as a literal block. -/
def literal (indent : Nat) (cs : List Char) : List Char :=
  '|' :: ((if needsIndicator cs then ['2'] else []) ++ chomping cs ++ '\n'
    :: dropLastBreak (indented indent cs))

/-- A text as it is written at a level; a key has one line. -/
def scalar (level : Nat) (isKey : Bool) (s : String) : List Char :=
  let cs := s.toList
  let mayBreak (c : Char) : Bool := c == '\n' && !isKey
  if cs.isEmpty then ['\'', '\'']
  else if isOldTyped s then '\'' :: (cs ++ ['\''])
  else if !cs.all (fun c => isPrintable c || mayBreak c) then doubleQuoted cs
  else if cs.any mayBreak then literal (2 * max 1 level) cs
  else if isPlain cs && !isTyped s then cs
  else singleQuoted cs

end Mailroom.Yaml
