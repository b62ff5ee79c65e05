import Mailroom.Markdown.Guard
import Mailroom.Markdown.Tree
import Mailroom.Text.Split

/-! Writing Markdown. Lists have asterisks, emphasis has asterisks, code has fences, headings have
number signs; another mark is taken where the usual one would run together with its neighbour. -/

namespace Mailroom.Markdown

/-- Which neighbours of marks are written by their numbers. -/
structure Numbering where
  inside : Bool := false
  outside : Bool := false
deriving DecidableEq, Repr

/-- Which characters beside a mark of emphasis have to be written by their numbers so that the mark
is one: the one outside and the one inside. -/
def numberingAt (outside inside : Option Char) (mark : Char) : Numbering :=
  match besideOf outside, besideOf inside with
  | .letter, .letter => if mark = '_' then ⟨true, true⟩ else {}
  | .letter, .blank => ⟨true, true⟩
  | .letter, .punctuation => ⟨false, true⟩
  | .blank, .blank => ⟨true, true⟩
  | .punctuation, .blank => ⟨true, false⟩
  | _, _ => {}

def numberFirst : List Char → List Char
  | [] => []
  | c :: cs => numbered c ++ cs

def numberLast (cs : List Char) : List Char :=
  match cs.getLast? with
  | some c => cs.dropLast ++ numbered c
  | none => cs

/-- What a span writes, and which characters around it have to be written by their numbers. -/
structure Written where
  chars : List Char
  numbersBefore : Bool := false
  numbersAfter : Bool := false
deriving Repr

/-- Content between marks of emphasis. -/
def emphasized (mark : Char) (count : Nat) (before after inner : List Char) : Written :=
  let opening := numberingAt before.getLast? inner.head? mark
  let inner := if opening.inside then numberFirst inner else inner
  let closing := numberingAt after.head? inner.getLast? mark
  let inner := if closing.inside then numberLast inner else inner
  let marks := List.replicate count mark
  ⟨marks ++ inner ++ marks, opening.outside, closing.outside⟩

/-- The mark of emphasis: an asterisk, or an underscore behind an asterisk if no word goes on
there. -/
def markAfter (before after : List Char) : Char :=
  if before.getLast? = some '*' && besideOf after.head? != .letter then '_' else '*'

def longestRun (mark : Char) (cs : List Char) : Nat :=
  ((cs.splitBy fun a b => a == b).filter fun run => run.head? == some mark).foldl
    (fun n run => max n run.length) 0

/-- Whether a run of exactly so many ticks is in some code. -/
def hasRun (n : Nat) (cs : List Char) : Bool :=
  (cs.splitBy fun a b => a == b).any fun run => run.head? == some '\x60' && run.length == n

/-- The least number of ticks, from one on, that is no run in some code. -/
def freeTicks (cs : List Char) : Nat :=
  ((List.range (cs.length + 1)).map (· + 1)).find? (fun n => !hasRun n cs) |>.getD 1

def beginsBlock (cs : List Char) : Bool :=
  let line := cs.dropWhile fun c => c == '\t' || c == ' '
  let digits := line.takeWhile Char.isDigit
  match line.dropWhile Char.isDigit with
  | c :: rest => dangers.any fun danger =>
      danger.places.isEmpty && danger.char == c && danger.fits (digits.reverse ++ ['\n']) rest
  | [] => false

/-- The code with a space for each line end behind which something would begin a block. -/
def withoutBreaks : List Char → List Char
  | [] => []
  | c :: cs => (if isBreak c && beginsBlock cs then ' ' else c) :: withoutBreaks cs

def writeCode (cs : List Char) : List Char :=
  let fence := List.replicate (freeTicks cs) '\x60'
  let isPad (c : Char) : Bool := c == ' ' || isBreak c
  let needsPad := !cs.all isPad &&
    ((cs.head?.any isPad && cs.getLast?.any isPad)
      || cs.head? == some '\x60' || cs.getLast? == some '\x60')
  let cs := if needsPad then ' ' :: cs ++ [' '] else cs
  fence ++ withoutBreaks cs ++ fence

/-- Whether a destination has to stand between angle brackets. -/
def needsBrackets (target : List Char) : Bool :=
  target.any fun c => c.toNat ≤ 32 || c.toNat = 127

/-- A destination and a title, given what is before and behind them. -/
def writeTarget (places : List Place) (isEnclosed : Bool) (before close target title : List Char) :
    List Char :=
  let written :=
    if isEnclosed then
      '<' :: safe (.enclosed :: places) (before ++ ['<']) ['>'] target ++ ['>']
    else safe (.bare :: places) before (if title.isEmpty then close else [' ']) target
  if title.isEmpty then written
  else
    let upTo := before ++ written ++ [' ', '"']
    written ++ [' ', '"'] ++ safe (.title :: places) upTo ['"'] title ++ ['"']

/-- Whether a link is written as an address between angle brackets. -/
def isAddress (target title : List Char) (children : List Span) : Bool :=
  match children with
  | [.text cs] =>
    let scheme := target.takeWhile fun c => c.isAlpha || c == '+' || c == '.' || c == '-'
    title.isEmpty && !target.isEmpty && (cs == target || "mailto:".toList ++ cs == target)
      && scheme.head?.any Char.isAlpha && 2 ≤ scheme.length
      && target[scheme.length]? == some ':'
      && target.all fun c => !(c.toNat ≤ 32 || c == '<' || c == '>' || c.toNat = 127)
  | _ => false

/-- The brackets behind the text of a reference, given the text and the label as written. -/
def writeNaming (naming : Naming) (text label : List Char) : List Char :=
  if naming == .full || text.isEmpty || text != label then '[' :: label ++ [']']
  else if naming == .bare then [] else ['[', ']']

/-- The first character that a span will write, if it is known without its neighbours. -/
def firstChar (places : List Place) : Span → List Char
  | .text cs => (safe places [] [] cs).take 1
  | .code _ => ['\x60']
  | .html _ => ['<']
  | .lineBreak => if places.contains .heading then [' '] else ['\\']
  | .emphasis _ => ['*']
  | .strong _ => ['*']
  | .link target title children => if isAddress target title children then ['<'] else ['[']
  | .image _ _ _ => ['!']
  | .linkReference _ _ _ => ['[']
  | .imageReference _ _ _ => ['!']

def Span.isHtml : Span → Bool
  | .html _ => true
  | _ => false

mutual

/-- A span between characters in some places. -/
def writeSpan (places : List Place) (before after : List Char) : Span → Written
  | .text cs => ⟨safe places before after cs, false, false⟩
  | .code cs => ⟨writeCode cs, false, false⟩
  | .html cs => ⟨cs, false, false⟩
  | .lineBreak =>
    ⟨if !places.contains .heading then ['\\', '\n']
      else if before.any fun c => c == ' ' || c == '\t' then [] else [' '], false, false⟩
  | .emphasis children =>
    let mark := markAfter before after
    emphasized mark 1 before after (writeSpans places [mark] [mark] none [] children)
  | .strong children =>
    let mark := markAfter before after
    emphasized mark 2 before after (writeSpans places [mark, mark] [mark] none [] children)
  | .link target title children =>
    if isAddress target title children then
      ⟨'<' :: writeSpans [.address] ['<'] ['>'] none [] children ++ ['>'], false, false⟩
    else
      let opening :=
        '[' :: writeSpans (.label :: places) ['['] [']', '('] none [] children ++ [']', '(']
      let isEnclosed := (target.isEmpty && !title.isEmpty) || needsBrackets target
      ⟨opening ++ writeTarget places isEnclosed opening [')'] target title ++ [')'], false, false⟩
  | .image target title description =>
    let opening :=
      "![".toList ++ safe (.label :: places) "![".toList [']'] description ++ [']', '(']
    let isEnclosed := (target.isEmpty && !title.isEmpty) || needsBrackets target
    ⟨opening ++ writeTarget places isEnclosed opening [')'] target title ++ [')'], false, false⟩
  | .linkReference naming label children =>
    let text := writeSpans (.label :: places) ['['] [']'] none [] children
    let opening := '[' :: text ++ [']']
    let label := safe [.reference] (opening ++ ['[']) [']'] label
    ⟨opening ++ writeNaming naming text label, false, false⟩
  | .imageReference naming label description =>
    let text := safe (.label :: places) "![".toList [']'] description
    let opening := "![".toList ++ text ++ [']']
    let label := safe [.reference] (opening ++ ['[']) [']'] label
    ⟨opening ++ writeNaming naming text label, false, false⟩

/-- Spans between characters in some places. What is written is given last character first, with the
character that has to be written by its number if it comes next. -/
def writeSpans (places : List Place) (before after : List Char) (numbers : Option Char)
    (out : List Char) : List Span → List Char
  | [] => out.reverse
  | s :: ss =>
    let following := match ss with
      | [] => after
      | t :: _ => firstChar places t
    let isAtBreak := s.isHtml && !out.isEmpty && before.head?.any isBreak
    let out := if isAtBreak then ' ' :: out.tail else out
    let before := if isAtBreak then [' '] else before
    let written := writeSpan places before following s
    let isNumbered := numbers.isSome && written.chars.head? == numbers
    let chars := if isNumbered then numberFirst written.chars else written.chars
    let out :=
      if written.numbersBefore && !out.isEmpty && !before.isEmpty then
        (numberLast out.reverse).reverse
      else out
    let numbers := if written.numbersAfter then following.head? else none
    writeSpans places chars.getLast?.toList after numbers (chars.reverse ++ out) ss

end

mutual

/-- Whether a span holds a line end or a hard break. -/
def Span.hasBreak : Span → Bool
  | .text cs => cs.any isBreak
  | .code cs => cs.any isBreak
  | .html cs => cs.any isBreak
  | .lineBreak => true
  | .emphasis children => anyBreak children
  | .strong children => anyBreak children
  | .link _ _ children => anyBreak children
  | .image _ _ _ => false
  | .linkReference _ _ children => anyBreak children
  | .imageReference _ _ _ => false

/-- Whether one of some spans holds a line end or a hard break. -/
def anyBreak : List Span → Bool
  | [] => false
  | s :: ss => s.hasBreak || anyBreak ss

end

/-- Whether a heading is written with a line under it: number signs allow no line ends. -/
def isUnderlined (level : Nat) (content : List Span) : Bool :=
  level < 3 && !(contents content).isEmpty && anyBreak content

def writeHeading (level : Nat) (content : List Span) : List Char :=
  if isUnderlined level content then
    let text := writeSpans [.phrasing] ['\n'] ['\n'] none [] content
    let lastLine := (text.reverse.takeWhile fun c => !isBreak c).length
    text ++ '\n' :: List.replicate lastLine (if level = 1 then '=' else '-')
  else
    let text := writeSpans [.phrasing, .heading] ['#', ' '] ['\n'] none [] content
    let text := if text.head?.any fun c => c == ' ' || c == '\t' then numberFirst text else text
    let signs := List.replicate level '#'
    if text.isEmpty then signs else signs ++ ' ' :: text

def writeCodeBlock (language extra cs : List Char) : List Char :=
  let fence := List.replicate (max (longestRun '\x60' cs + 1) 3) '\x60'
  let language := guardText ['\x60'] [.language] fence [' '] language
  let extra :=
    if language.isEmpty || extra.isEmpty then []
    else ' ' :: guardText ['\x60'] [.extra] (fence ++ language ++ [' ']) ['\n'] extra
  fence ++ language ++ extra ++ '\n' :: (if cs.isEmpty then [] else cs ++ ['\n']) ++ fence

def writeDefinition (label target title : List Char) : List Char :=
  let opening := '[' :: safe [.label] ['['] [']'] label ++ "]: ".toList
  opening ++ writeTarget [] (target.isEmpty || needsBrackets target) opening ['\n'] target title

/-- Lines with something before the first one and something before the others; blank lines have no
blanks at their end. -/
def indented (first others : List Char) (cs : List Char) : List Char :=
  let line (start text : List Char) : List Char :=
    if text.isEmpty then (start.reverse.dropWhile (· == ' ')).reverse else start ++ text
  match Text.pieces '\n' cs with
  | [] => []
  | text :: rest => line first text ++ rest.flatMap fun text => '\n' :: line others text

/-- What stands between two blocks, given whether blank lines are between the blocks of their
holder, if that is a list or an item. -/
def between (spread : Option Bool) (left right : Block) : List Char :=
  let isText := match left, right with
    | .paragraph _, .paragraph _ => true
    | .paragraph _, .definition _ _ _ => true
    | .paragraph _, .heading level content => isUnderlined level content
    | _, _ => false
  if spread == some false && !isText then ['\n'] else ['\n', '\n']

/-- What is known where a block is written. -/
structure Around where
  /-- How many holders there are of which the block is the first thing, a list in an item in a
  list. -/
  nested : Nat := 0
  bullet : Char := '*'
  number : Option Nat := none
  /-- Whether blank lines are between the blocks here, in a list or an item. -/
  spread : Option Bool := none

def Block.isEmptyItem : Block → Bool
  | .item _ children => children.isEmpty
  | _ => false

def Block.beginsWithRule : Block → Bool
  | .item _ (.rule :: _) => true
  | _ => false

/-- The bullet of a list, given that of the list just before it. -/
def bulletOf (around : Around) (last : Option Char) (start : Option Nat) (items : List Block) :
    Char :=
  if start.isSome then if last == some '.' then ')' else '.'
  else
    let runsTogether := 3 ≤ around.nested && items.head?.any Block.isEmptyItem
    if last == some '*' || runsTogether || items.any Block.beginsWithRule then '-' else '*'

def Block.isList : Block → Bool
  | .list _ _ _ => true
  | _ => false

mutual

/-- A block, given the bullet of the list just before it; with the bullet of the last list in it. -/
def writeBlock (around : Around) (last : Option Char) : Block → List Char × Option Char
  | .paragraph content => (writeSpans [.phrasing] ['\n'] ['\n'] none [] content, last)
  | .heading level content => (writeHeading level content, last)
  | .rule => (['*', '*', '*'], last)
  | .code language extra cs => (writeCodeBlock language extra cs, last)
  | .html cs => (cs, last)
  | .definition label target title => (writeDefinition label target title, last)
  | .quote children =>
    let (text, last) := writeBlocks {} last children
    (indented ['>', ' '] ['>', ' '] text, last)
  | .list start isSpread items =>
    let bullet := bulletOf around last start items
    let inner : Around :=
      { nested := around.nested + 1, bullet, number := start, spread := some isSpread }
    let (text, _) := writeBlocks inner last items
    (text, some bullet)
  | .item isSpread children =>
    let mark := (around.number.map fun n => (toString n).toList).getD [] ++ [around.bullet]
    let (text, last) :=
      writeBlocks { nested := around.nested + 1, spread := some isSpread } last children
    (indented (mark ++ [' ']) (List.replicate (mark.length + 1) ' ') text, last)

/-- Blocks one after another. -/
def writeBlocks (around : Around) (last : Option Char) : List Block → List Char × Option Char
  | [] => ([], last)
  | b :: bs =>
    let (text, last) := writeBlock around last b
    let last := if b.isList then last else none
    match bs with
    | [] => (text, last)
    | next :: _ =>
      let after := { around with nested := 0, number := around.number.map (· + 1) }
      let (rest, last) := writeBlocks after last bs
      (text ++ between around.spread b next ++ rest, last)

end

def write (blocks : List Block) : List Char := (writeBlocks {} none blocks).1

end Mailroom.Markdown
