import Mailroom.Data.Value

/-! Writing values. The compact form is one line of ASCII; the indented form sets each item on a
line of its own, two blanks deeper than its list. -/

namespace Mailroom.Value

/-- The four lower-case hexadecimal digits of a code unit. -/
def hex4 (n : Nat) : List Char :=
  let ds := Nat.toDigits 16 n
  List.replicate (4 - ds.length) '0' ++ ds

def unitEscape (n : Nat) : List Char := '\\' :: 'u' :: hex4 n

/-- A character inside quotes, in ASCII. -/
def escape (c : Char) : List Char :=
  let n := c.toNat
  if c = '"' then ['\\', '"']
  else if c = '\\' then ['\\', '\\']
  else if c = '\n' then ['\\', 'n']
  else if c = '\r' then ['\\', 'r']
  else if c = '\t' then ['\\', 't']
  else if n = 0x08 then ['\\', 'b']
  else if n = 0x0C then ['\\', 'f']
  else if n < 0x20 || (0x7F ≤ n && n < 0x10000) then unitEscape n
  else if n < 0x7F then [c]
  else unitEscape (0xD800 + (n - 0x10000) / 0x400) ++ unitEscape (0xDC00 + (n - 0x10000) % 0x400)

def quoted (s : String) : String :=
  String.ofList ('"' :: (s.toList.flatMap escape ++ ['"']))

/-- A number as a token; what is no finite number becomes a text, and zero loses its sign. -/
def numeral (n : Number) : String :=
  match n with
  | .finite .. => n.text
  | _ => quoted n.text

mutual

/-- The value on one line, without blanks. -/
def compact : Value → String
  | null => "null"
  | bool b => if b then "true" else "false"
  | num n => numeral n
  | str s => quoted s
  | arr vs => "[" ++ ",".intercalate (compactItems vs) ++ "]"
  | obj fields => "\x7b" ++ ",".intercalate (compactFields fields) ++ "\x7d"

/-- The items of a list, each on one line. -/
def compactItems : List Value → List String
  | [] => []
  | v :: rest => compact v :: compactItems rest

/-- The fields of a record, each on one line. -/
def compactFields : List (String × Value) → List String
  | [] => []
  | (name, v) :: rest => (quoted name ++ ":" ++ compact v) :: compactFields rest

end

/-- Lines between an opening and a closing bracket, two blanks deeper than the brackets. -/
def block (indent opening closing : String) (lines : List String) : String :=
  let inner := indent ++ "  "
  opening ++ "\n" ++ ",\n".intercalate (lines.map (inner ++ ·)) ++ "\n" ++ indent ++ closing

mutual

/-- The value over several lines, the first of them standing behind `indent`. -/
def indented (indent : String) : Value → String
  | arr (v :: vs) => block indent "[" "]" (indentedItems (indent ++ "  ") (v :: vs))
  | obj (f :: fs) => block indent "\x7b" "\x7d" (indentedFields (indent ++ "  ") (f :: fs))
  | v => compact v

/-- The items of a list over several lines. -/
def indentedItems (indent : String) : List Value → List String
  | [] => []
  | v :: rest => indented indent v :: indentedItems indent rest

/-- The fields of a record over several lines. -/
def indentedFields (indent : String) : List (String × Value) → List String
  | [] => []
  | (name, v) :: rest =>
    (quoted name ++ ": " ++ indented indent v) :: indentedFields indent rest

end

end Mailroom.Value
