import Mailroom.Markdown.Line

/-! The outline of a text: its blocks with their texts not yet read. Lines are taken one by one; each
goes on with the blocks that are open, closes some of them, and may open others. -/

namespace Mailroom.Markdown

/-- A part of an outline. -/
inductive Outline
  /-- Blank lines. -/
  | gap
  | paragraph (chars : List Char)
  | heading (level : Nat) (chars : List Char)
  | rule
  | code (info chars : List Char)
  | html (chars : List Char)
  | definition (definition : Definition)
  | quote (parts : List Outline)
  | item (bullet : Bullet) (parts : List Outline)
deriving Repr, Inhabited

/-- A block that holds blocks. -/
inductive Holder
  | whole
  | quote
  /-- A list item whose lines are indented by so many columns. -/
  | item (bullet : Bullet) (width : Nat)
deriving DecidableEq, Repr

/-- A holder that is open. -/
structure Frame where
  holder : Holder
  /-- What it holds, latest first. -/
  parts : List Outline := []
deriving Repr

/-- The text block that is open, its lines latest first. -/
inductive Leaf
  | nothing
  | paragraph (lines : List (List Char))
  | fenced (fence : Fence) (lines : List (List Char))
  | indented (lines : List (List Char))
  | html (ending : HtmlEnd) (lines : List (List Char))
deriving Repr

/-- A text that is being taken line by line. -/
structure Outliner where
  leaf : Leaf := .nothing
  /-- The innermost open holder. -/
  frame : Frame := { holder := .whole }
  /-- The holders around it, innermost first. -/
  outer : List Frame := []
deriving Repr

namespace Outliner

def textOf (lines : List (List Char)) : List Char :=
  (lines.reverse.intersperse ['\n']).flatten

/-- The innermost holder with one more part. -/
def add (o : Outliner) (part : Outline) : Outliner :=
  { o with frame := { o.frame with parts := part :: o.frame.parts } }

/-- The innermost holder with blank lines at its end. -/
def addGap (o : Outliner) : Outliner :=
  match o.frame.parts with
  | .gap :: _ => o
  | _ => o.add .gap

/-- What a paragraph is: the definitions at its front, and what is left of it. -/
def paragraphParts (lines : List (List Char)) : List Definition × List Char :=
  let text := textOf lines
  let (ds, rest) := definitions text.length text
  (ds, withoutEnd rest)

/-- The innermost holder with definitions. -/
def addDefinitions (o : Outliner) (ds : List Definition) : Outliner :=
  ds.foldl (fun o d => o.add (.definition d)) o

/-- The open text block closed. -/
def closeLeaf (o : Outliner) : Outliner :=
  let closed := { o with leaf := .nothing }
  match o.leaf with
  | .nothing => o
  | .paragraph lines =>
    let (ds, rest) := paragraphParts lines
    let closed := closed.addDefinitions ds
    if rest.isEmpty then closed else closed.add (.paragraph rest)
  | .fenced fence lines => closed.add (.code fence.info (textOf lines))
  | .indented lines =>
    let isBlank (line : List Char) : Bool := line.all isSpace
    let closed := closed.add (.code [] (textOf (lines.dropWhile isBlank)))
    if lines.head?.any isBlank then closed.addGap else closed
  | .html _ lines => closed.add (.html (textOf lines))

/-- The innermost holder closed; blank lines at the end of a list item belong behind it. -/
def closeFrame (o : Outliner) : Outliner :=
  let o := o.closeLeaf
  match o.outer with
  | [] => o
  | next :: outer =>
    let parts := o.frame.parts
    let isGap := match parts with
      | .gap :: _ => true
      | _ => false
    let left : Outliner := ⟨.nothing, next, outer⟩
    match o.frame.holder with
    | .whole => left
    | .quote => left.add (.quote parts.reverse)
    | .item bullet _ =>
      let kept := if isGap then parts.tail else parts
      let left := left.add (.item bullet kept.reverse)
      if isGap then left.addGap else left

/-- So many innermost holders closed. -/
def closeFrames : Nat → Outliner → Outliner
  | 0, o => o
  | n + 1, o => closeFrames n o.closeFrame

def openFrame (o : Outliner) (holder : Holder) : Outliner :=
  let o := o.closeLeaf
  ⟨.nothing, { holder }, o.frame :: o.outer⟩

/-- Whether the innermost holder holds nothing yet. -/
def isEmpty (o : Outliner) : Bool :=
  o.frame.parts.isEmpty && match o.leaf with
    | .nothing => true
    | _ => false

/-- What is left of a line for what a holder holds, if the line goes on with it. -/
def goesOn (holder : Holder) (isEmpty : Bool) (c : Cursor) : Option Cursor :=
  match holder with
  | .whole => some c
  | .quote => if c.indent < 4 then quote? c else none
  | .item _ width =>
    if c.isBlank then if isEmpty then none else some (c.skip width)
    else if width ≤ c.indent then some (c.skip width)
    else none

/-- How many holders a line does not go on with, outermost first, and what is left of it. -/
def unmatched (isEmpty : Bool) (c : Cursor) : List Frame → Nat × Cursor
  | [] => (0, c)
  | f :: fs =>
    match goesOn f.holder (isEmpty && fs.isEmpty) c with
    | some c => unmatched isEmpty c fs
    | none => (fs.length + 1, c)

/-- Whether a text block that is open cannot be left by opening a holder. -/
def isConcrete : Leaf → Bool
  | .fenced _ _ => true
  | .html _ _ => true
  | _ => false

/-- Whether a text block that is open limits which list items may begin. -/
def isInterrupted : Leaf → Bool
  | .paragraph _ => true
  | .indented _ => true
  | _ => false

/-- The holders that a line opens: the state with them, whether there are any, and what is left.
Fuel is the number of characters. -/
def openHolders : Nat → Bool → Nat → Outliner → Cursor → Outliner × Bool × Nat × Cursor
  | 0, opened, missing, o, c => (o, opened, missing, c)
  | fuel + 1, opened, missing, o, c =>
    if 4 ≤ c.indent || (missing = 0 && isConcrete o.leaf) then (o, opened, missing, c)
    else
      match quote? c with
      | some rest => openHolders fuel true 0 ((closeFrames missing o).openFrame .quote) rest
      | none =>
        match item? (missing = 0 && isInterrupted o.leaf) c with
        | some (bullet, width, rest) =>
          openHolders fuel true 0 ((closeFrames missing o).openFrame (.item bullet width)) rest
        | none => (o, opened, missing, c)

/-- A line with a text block that it begins. -/
def beginLeaf (o : Outliner) (c : Cursor) : Outliner :=
  let o := o.closeLeaf
  let start := c.skipAll.rest
  if 4 ≤ c.indent then { o with leaf := .indented [(c.skip 4).rest] }
  else if isRule start then o.add .rule
  else
    match heading? start with
    | some (level, text) => o.add (.heading level text)
    | none =>
      match fence? c.indent start with
      | some fence => { o with leaf := .fenced fence [] }
      | none =>
        match if start.head? = some '<' then htmlBlockEnd? false start.tail else none with
        | some ending =>
          let o := { o with leaf := .html ending [c.rest] }
          if ending.isIn start then o.closeLeaf else o
        | none => { o with leaf := .paragraph [start] }

/-- Whether a line ends a paragraph by what it begins. -/
def interrupts (isLazy : Bool) (c : Cursor) : Bool :=
  let start := c.skipAll.rest
  c.indent < 4 &&
    (isRule start || (heading? start).isSome || (fence? 0 start).isSome
      || (start.head? = some '<' && (htmlBlockEnd? (!isLazy) start.tail).isSome))

def makeHeading (o : Outliner) (lines : List (List Char)) (level : Nat) (c : Cursor) : Outliner :=
  let (ds, rest) := paragraphParts lines
  let o := { o with leaf := .nothing }.addDefinitions ds
  if rest.isEmpty then o.beginLeaf c else o.add (.heading level rest)

/-- A line that is not blank and goes on with all open holders. -/
def takeLine (o : Outliner) (c : Cursor) : Outliner :=
  match o.leaf with
  | .paragraph lines =>
    match if c.indent < 4 then underline? c.skipAll.rest else none with
    | some level => o.makeHeading lines level c
    | none =>
      if interrupts false c then o.beginLeaf c
      else { o with leaf := .paragraph (c.skipAll.rest :: lines) }
  | .indented lines =>
    if 4 ≤ c.indent then { o with leaf := .indented ((c.skip 4).rest :: lines) } else o.beginLeaf c
  | .html ending lines =>
    let o := { o with leaf := .html ending (c.rest :: lines) }
    if ending.isIn c.rest then o.closeLeaf else o
  | _ => o.beginLeaf c

/-- A blank line that goes on with all open holders. -/
def takeBlank (o : Outliner) (c : Cursor) : Outliner :=
  match o.leaf with
  | .indented lines => { o with leaf := .indented ((c.skip 4).rest :: lines) }
  | .html (.line parts) lines => { o with leaf := .html (.line parts) (c.rest :: lines) }
  | _ => o.closeLeaf.addGap

def takeFenced (o : Outliner) (fence : Fence) (lines : List (List Char)) (c : Cursor) : Outliner :=
  if fence.isClosedBy c then o.closeLeaf
  else { o with leaf := .fenced fence ((c.skip fence.indent).rest :: lines) }

/-- A line that does not go on with some open holders and opens none: it may still go on with a
paragraph in them. -/
def takeLazy (o : Outliner) (missing : Nat) (c : Cursor) : Outliner :=
  match o.leaf with
  | .paragraph lines =>
    if interrupts true c then (closeFrames missing o).beginLeaf c
    else { o with leaf := .paragraph (c.skipAll.rest :: lines) }
  | _ => (closeFrames missing o).takeLine c

def take (o : Outliner) (line : List Char) : Outliner :=
  let (missing, c) := unmatched o.isEmpty ⟨0, line⟩ (o.frame :: o.outer).reverse
  let (o, opened, missing, c) := openHolders (line.length + 1) false missing o c
  match missing, o.leaf with
  | 0, .fenced fence lines => o.takeFenced fence lines c
  | _, _ =>
    if c.isBlank then if opened then o else (closeFrames missing o).takeBlank c
    else if missing = 0 then o.takeLine c
    else o.takeLazy missing c

def finish (o : Outliner) : List Outline :=
  (closeFrames o.outer.length o).closeLeaf.frame.parts.reverse

end Outliner

def outlineOf (cs : List Char) : List Outline :=
  ((Text.pieces '\n' cs).foldl Outliner.take {}).finish

end Mailroom.Markdown
