import Mailroom.Data.Value
import Mailroom.Yaml.Scalar

/-! Documents: values written over several lines, two blanks deeper for each level. Fields and
items keep their order; an item that is a list or a record begins in the line of its dash. -/

namespace Mailroom.Yaml

/-- A number as it is written. An exponent needs a point before it, and zero keeps its sign. -/
def numeral (n : Number) : List Char :=
  match n with
  | .nan => ['.', 'n', 'a', 'n']
  | .infinite negative => (if negative then ['-'] else []) ++ ['.', 'i', 'n', 'f']
  | .finite .. =>
    if n.isNegativeZero then ['-', '0', '.', '0']
    else if n.isInteger then n.text.toList
    else
      let cs := n.text.toList
      let whole := cs.takeWhile (· != 'e')
      if whole.contains '.' || !cs.contains 'e' then cs
      else whole ++ '.' :: cs.dropWhile (· != 'e')

def newLine (level : Nat) : List Char := '\n' :: List.replicate (2 * level) ' '

/-- A mark and what it introduces, a blank between them unless a new line follows. -/
def marked (mark : Char) (cs : List Char) : List Char :=
  if cs.head? = some '\n' then mark :: cs else mark :: ' ' :: cs

/-- Keys that are longer than this, in 16-bit units, are introduced by a mark of their own. -/
def longestKey : Nat := 1024

mutual

/-- A value at a level; `inLine` says that it goes on in the line of a dash. -/
def node (level : Nat) (inLine : Bool) : Value → List Char
  | .null => ['n', 'u', 'l', 'l']
  | .bool true => ['t', 'r', 'u', 'e']
  | .bool false => ['f', 'a', 'l', 's', 'e']
  | .num n => numeral n
  | .str s => scalar level false s
  | .arr [] => ['[', ']']
  | .arr (v :: vs) => items level inLine (v :: vs)
  | .obj [] => ['\x7b', '\x7d']
  | .obj (field :: rest) => fields level inLine (field :: rest)

def items (level : Nat) (inLine : Bool) : List Value → List Char
  | [] => []
  | v :: rest =>
    (if inLine then [] else newLine level) ++ marked '-' (node (level + 1) true v)
      ++ items level false rest

def fields (level : Nat) (inLine : Bool) : List (String × Value) → List Char
  | [] => []
  | (name, v) :: rest =>
    let key := scalar (level + 1) true name
    let isLong := longestKey < (Text.units (String.ofList key)).length
    (if inLine then [] else newLine level)
      ++ (if isLong then marked '?' key ++ newLine level else key)
      ++ marked ':' (node (level + 1) isLong v)
      ++ fields level false rest

end

def document (v : Value) : String := String.ofList (node 0 true v ++ ['\n'])

end Mailroom.Yaml
