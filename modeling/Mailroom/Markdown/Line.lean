import Mailroom.Markdown.Tag

/-! Lines that begin or end a block. Indentation is counted in columns, and a tab reaches to the next
column that is a multiple of four. -/

namespace Mailroom.Markdown

/-- What is left of a line, and the column where that begins. -/
structure Cursor where
  column : Nat := 0
  rest : List Char
deriving Repr

/-- How many columns of spaces and tabs stand in front. -/
def indentFrom (column : Nat) : List Char → Nat
  | ' ' :: cs => 1 + indentFrom (column + 1) cs
  | '\t' :: cs => let width := 4 - column % 4; width + indentFrom (column + width) cs
  | _ => 0

/-- How many columns of spaces and tabs stand in front. -/
def Cursor.indent (c : Cursor) : Nat := indentFrom c.column c.rest

/-- A cursor after at most so many columns of spaces and tabs. Of a tab that reaches further, spaces
are left. -/
def skipFrom (column : Nat) : Nat → List Char → Cursor
  | 0, cs => ⟨column, cs⟩
  | n + 1, ' ' :: cs => skipFrom (column + 1) n cs
  | n + 1, '\t' :: cs =>
    let width := 4 - column % 4
    if width ≤ n + 1 then skipFrom (column + width) (n + 1 - width) cs
    else ⟨column + n + 1, List.replicate (width - (n + 1)) ' ' ++ cs⟩
  | _ + 1, cs => ⟨column, cs⟩

/-- The cursor after at most so many columns of spaces and tabs. -/
def Cursor.skip (c : Cursor) (n : Nat) : Cursor := skipFrom c.column n c.rest

/-- The cursor after all spaces and tabs. -/
def Cursor.skipAll (c : Cursor) : Cursor := c.skip c.indent

/-- Whether nothing but spaces and tabs is left. -/
def Cursor.isBlank (c : Cursor) : Bool := c.rest.all isSpace

/-- The characters without spaces and tabs at the end. -/
def withoutEnd (cs : List Char) : List Char := (cs.reverse.dropWhile isSpace).reverse

/-- Whether a line draws a rule: three or more of one mark and nothing else. -/
def isRule (cs : List Char) : Bool :=
  match cs with
  | c :: _ =>
    ['*', '-', '_'].contains c && cs.all (fun d => d == c || isSpace d)
      && 3 ≤ (cs.filter (· == c)).length
  | [] => false

/-- The level and the text of a heading with number signs in front. -/
def heading? (cs : List Char) : Option (Nat × List Char) :=
  let level := (cs.takeWhile (· == '#')).length
  let rest := cs.dropWhile (· == '#')
  if 1 ≤ level && level ≤ 6 && rest.head?.all isSpace then
    let text := withoutEnd (rest.dropWhile isSpace)
    let body := (text.reverse.dropWhile (· == '#')).reverse
    some (level, if body.getLast?.all isSpace then withoutEnd body else text)
  else none

/-- The level of the heading that a line under a paragraph makes of it. -/
def underline? (cs : List Char) : Option Nat :=
  let line := withoutEnd cs
  match line with
  | '=' :: _ => if line.all (· == '=') then some 1 else none
  | '-' :: _ => if line.all (· == '-') then some 2 else none
  | _ => none

/-- A fence around code. -/
structure Fence where
  mark : Char
  length : Nat
  /-- How many columns of white space its lines lose in front. -/
  indent : Nat := 0
  info : List Char := []
deriving DecidableEq, Repr

def fence? (indent : Nat) (cs : List Char) : Option Fence :=
  match cs with
  | c :: _ =>
    let length := (cs.takeWhile (· == c)).length
    let info := (cs.dropWhile (· == c)).dropWhile isSpace
    if (c == '\x60' || c == '~') && 3 ≤ length && !(c == '\x60' && info.contains c) then
      some ⟨c, length, indent, info⟩
    else none
  | [] => none

def Fence.isClosedBy (f : Fence) (c : Cursor) : Bool :=
  let cs := c.skipAll.rest
  c.indent < 4 && f.length ≤ (cs.takeWhile (· == f.mark)).length
    && (cs.dropWhile (· == f.mark)).all isSpace

/-- What stands before a list item. -/
structure Bullet where
  /-- The mark, or what stands behind the number. -/
  mark : Char
  number : Option Nat := none
deriving DecidableEq, Repr

/-- A bullet, and what follows it. In the middle of a paragraph a number must be one. -/
def bullet? (interrupts : Bool) (cs : List Char) : Option (Bullet × List Char) :=
  let digits := cs.takeWhile Char.isDigit
  match cs.dropWhile Char.isDigit with
  | c :: rest =>
    if digits.isEmpty then
      if ['*', '+', '-'].contains c && !isRule cs then some (⟨c, none⟩, rest) else none
    else if (c == '.' || c == ')') && digits.length < 10 && (!interrupts || digits = ['1']) then
      some (⟨c, some (Number.digitsValue 10 digits)⟩, rest)
    else none
  | [] => none

/-- A list item that begins in a line: its bullet, how many columns its lines are indented, and what
is left of the line. In the middle of a paragraph it may not be empty. -/
def item? (interrupts : Bool) (c : Cursor) : Option (Bullet × Nat × Cursor) :=
  let start := c.skipAll
  match bullet? interrupts start.rest with
  | none => none
  | some (bullet, rest) =>
    let length := start.rest.length - rest.length
    let after : Cursor := ⟨start.column + length, rest⟩
    if after.isBlank then
      if interrupts then none else some (bullet, c.indent + length + 1, after.skipAll)
    else
      let padding := after.indent
      if padding = 0 then none
      else
        let padding := if 4 < padding then 1 else padding
        some (bullet, c.indent + length + padding, after.skip padding)

/-- What is left of a line of a quote behind its mark. -/
def quote? (c : Cursor) : Option Cursor :=
  let start := c.skipAll
  match start.rest with
  | '>' :: rest => some ((⟨start.column + 1, rest⟩ : Cursor).skip 1)
  | _ => none

end Mailroom.Markdown
