import Mailroom.Markdown.Escape

/-! Targets: the labels, destinations and titles of links, images and definitions. Each function
reads one of them from the front and gives it as it is written, with what follows it. -/

namespace Mailroom.Markdown

def isSpace (c : Char) : Bool := c == ' ' || c == '\t'

/-- A space, a tab or a line end. -/
def isGap (c : Char) : Bool := isSpace c || c == '\n' || c == '\r'

/-- A control character of ASCII. -/
def isControl (c : Char) : Bool := c.toNat < 32 || c.toNat == 127

/-- Something read, and what follows it. -/
abbrev Read := Option (List Char × List Char)

/-- A character put in front of what was read. -/
def Read.before (c : Char) (read : Read) : Read := read.map fun (cs, rest) => (c :: cs, rest)

/-- A label behind its bracket. It has no brackets without escapes, at most 999 characters, and is
not blank. -/
def labelIn (hasWord : Bool) : Nat → List Char → Read
  | 0, _ => none
  | _, [] => none
  | _, '[' :: _ => none
  | _, ']' :: rest => if hasWord then some ([], rest) else none
  | size + 1, '\\' :: c :: rest =>
    if ['[', '\\', ']'].contains c then
      (Read.before c (labelIn true (size - 1) rest)).before '\\'
    else (labelIn true size (c :: rest)).before '\\'
  | size + 1, c :: rest => (labelIn (hasWord || !isGap c) size rest).before c

/-- A label behind its bracket. -/
def label? (cs : List Char) : Read := labelIn false 1000 cs

def labelKey (cs : List Char) : List Char :=
  let words := (cs.splitBy fun a b => isGap a == isGap b).filter fun word => !word.all isGap
  (words.intersperse [' ']).flatten.map Char.toLower

/-- A destination between angle brackets, behind the first of them. -/
def enclosedDestination : List Char → Read
  | [] => none
  | '>' :: rest => some ([], rest)
  | '\\' :: c :: rest =>
    if ['<', '>', '\\'].contains c then
      ((enclosedDestination rest).before c).before '\\'
    else if c == '\n' then none
    else ((enclosedDestination (c :: rest))).before '\\'
  | c :: rest =>
    if c == '<' || c == '\n' || c == '\r' then none else (enclosedDestination rest).before c

/-- A destination without brackets around it: its parentheses are balanced and at most so deep. -/
def bareDestination (deepest : Option Nat) : Nat → List Char → Read
  | 0, [] => some ([], [])
  | _ + 1, [] => none
  | depth, '\\' :: c :: rest =>
    if ['(', ')', '\\'].contains c then
      ((bareDestination deepest depth rest).before c).before '\\'
    else (bareDestination deepest depth (c :: rest)).before '\\'
  | depth, c :: rest =>
    if depth == 0 && (c == ')' || isGap c) then some ([], c :: rest)
    else if c == '(' then
      if deepest.any (· ≤ depth) then none
      else (bareDestination deepest (depth + 1) rest).before c
    else if c == ')' then (bareDestination deepest (depth - 1) rest).before c
    else if c == ' ' || isControl c then none
    else (bareDestination deepest depth rest).before c

def destination? (deepest : Option Nat) : List Char → Read
  | '<' :: rest => enclosedDestination rest
  | cs =>
    if cs.head?.all fun c => c == ')' || c == ' ' || isControl c then none
    else bareDestination deepest 0 cs

def titleTo (mark : Char) : List Char → Read
  | [] => none
  | '\\' :: c :: rest =>
    if c == mark || c == '\\' then ((titleTo mark rest).before c).before '\\'
    else (titleTo mark (c :: rest)).before '\\'
  | c :: rest => if c == mark then some ([], rest) else (titleTo mark rest).before c

def title? : List Char → Read
  | '"' :: rest => titleTo '"' rest
  | '\'' :: rest => titleTo '\'' rest
  | '(' :: rest => titleTo ')' rest
  | _ => none

/-- A destination and a title. -/
structure Target where
  destination : List Char
  title : List Char := []
deriving DecidableEq, Repr

/-- The target of a link behind its opening parenthesis, and what follows it. -/
def target? (cs : List Char) : Option (Target × List Char) :=
  match cs.dropWhile isGap with
  | ')' :: rest => some (⟨[], []⟩, rest)
  | cs =>
    match destination? (some 32) cs with
    | none => none
    | some (destination, rest) =>
      let spaced := rest.dropWhile isGap
      let titled := if spaced.length < rest.length then title? spaced else none
      let (title, rest) := titled.getD ([], spaced)
      match rest.dropWhile isGap with
      | ')' :: rest => some (⟨resolved destination, resolved title⟩, rest)
      | _ => none

/-- The target of a label. -/
structure Definition where
  label : List Char
  target : Target
deriving DecidableEq, Repr

/-- What is left after blanks that end a line, with the line end gone; nothing if something else
stands in the line. -/
def afterLine (cs : List Char) : Option (List Char) :=
  match cs.dropWhile isSpace with
  | [] => some []
  | '\n' :: rest => some rest
  | _ => none

/-- A definition at the front of a paragraph, and the lines after it. A title may stand in the line
after the destination; if it is none, that line does not belong to the definition. -/
def definition? (cs : List Char) : Option (Definition × List Char) :=
  match cs with
  | '[' :: cs =>
    match label? cs with
    | some (label, ':' :: rest) =>
      match destination? none (rest.dropWhile isGap) with
      | none => none
      | some (destination, rest) =>
        let found (title : List Char) : Definition :=
          ⟨label, ⟨resolved destination, resolved title⟩⟩
        let spaced := rest.dropWhile isGap
        let titled := if spaced.length < rest.length then title? spaced else none
        let whole := titled.bind fun (title, rest) =>
          (afterLine rest).map fun rest => (found title, rest)
        whole.or ((afterLine rest).map fun rest => (found [], rest))
    | _ => none
  | _ => none

/-- The definitions at the front of a paragraph, and the lines after them. Fuel is the number of
characters. -/
def definitions : Nat → List Char → List Definition × List Char
  | 0, cs => ([], cs)
  | fuel + 1, cs =>
    match definition? cs with
    | some (d, rest) =>
      let (ds, rest) := definitions fuel rest
      (d :: ds, rest)
    | none => ([], cs)

end Mailroom.Markdown
