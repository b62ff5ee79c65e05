import Mailroom.Hypertext.Spacing
import Mailroom.Number.Shortest

/-! Hypertext written as Markdown. Images leave their alternative text, tables that only arrange
things leave their content, and hidden elements, styles and scripts leave nothing. -/

namespace Mailroom.Hypertext

open Mailroom.Text

/-- Elements that mean something though they are blank. -/
def meaningfulNames : List String :=
  ["a", "table", "thead", "tbody", "tfoot", "th", "td", "iframe", "script", "audio", "video"]

mutual

def Node.content : Node → List Char
  | .text cs => cs
  | .element _ children => contents children

def contents : List Node → List Char
  | [] => []
  | n :: ns => n.content ++ contents ns

end

mutual

/-- Whether a node is or holds an element that is never blank. -/
def Node.standsOut : Node → Bool
  | .text _ => false
  | .element e children => e.isVoid || e.isOneOf meaningfulNames || anyStandsOut children

/-- Whether one of some nodes is or holds an element that is never blank. -/
def anyStandsOut : List Node → Bool
  | [] => false
  | n :: ns => n.standsOut || anyStandsOut ns

end

def Node.isBlank (n : Node) : Bool := n.content.all Text.isBlank && !n.standsOut

/-- What surrounds a node. -/
structure Around where
  /-- The parent, unless it is the whole. -/
  parent : Option Element := none
  before : Option Node := none
  after : List Node := []
  /-- How many elements are before the node. -/
  index : Nat := 0
  /-- Whether the node is inside code. -/
  inCode : Bool := false

/-- Whether the parent of a node has one of the given names. -/
def Around.isIn (around : Around) (names : List String) : Bool :=
  (around.parent.map fun e => e.isOneOf names).getD false

def Node.isElement : Node → Bool
  | .element _ _ => true
  | .text _ => false

/-- The characters of a sibling that a node may share white space with. -/
def Node.flank : Node → List Char
  | .text cs => cs
  | .element e children => if e.isBlock then [] else contents children

/-- The white space around what an element writes: that of its text, without the spaces that its
siblings bring along. The white space of a blank text counts as leading. -/
def margins (around : Around) (cs : List Char) : List Char × List Char :=
  let leading := cs.takeWhile Text.isBlank
  let trailing :=
    if leading.length = cs.length then [] else (cs.reverse.takeWhile Text.isBlank).reverse
  let flankedLeft := (around.before.map fun n => n.flank.getLast? == some ' ').getD false
  let flankedRight := (around.after.head?.map fun n => n.flank.head? == some ' ').getD false
  let leading := if flankedLeft then leading.dropWhile isSpacing else leading
  let trailing :=
    if flankedRight then (trailing.reverse.dropWhile isSpacing).reverse else trailing
  (leading, trailing)

/-- A character of a text that would mean something wherever it stands. -/
def escapedChar (c : Char) : List Char :=
  if ['\\', '*', '\x60', '[', ']', '_'].contains c then ['\\', c] else [c]

/-- What a text needs in front so that its start means nothing, and how many characters go before
that. -/
def startEscape (cs : List Char) : Option Nat :=
  match cs with
  | '-' :: _ => some 0
  | '=' :: _ => some 0
  | '>' :: _ => some 0
  | '+' :: ' ' :: _ => some 0
  | '~' :: '~' :: '~' :: _ => some 0
  | _ =>
    let signs := (cs.takeWhile (· == '#')).length
    let digits := (cs.takeWhile Char.isDigit).length
    if 1 ≤ signs && signs ≤ 6 && cs[signs]? == some ' ' then some 0
    else if 1 ≤ digits && cs[digits]? == some '.' && cs[digits + 1]? == some ' ' then some digits
    else none

/-- A text in which nothing means anything to Markdown. -/
def escaped (cs : List Char) : List Char :=
  match startEscape cs with
  | none => cs.flatMap escapedChar
  | some n => cs.take n ++ '\\' :: (cs.drop n).flatMap escapedChar

/-- Line feeds at the start, and what follows them. -/
def splitFeeds (cs : List Char) : Nat × List Char :=
  ((cs.takeWhile (· == '\n')).length, cs.dropWhile (· == '\n'))

/-- The characters without line feeds at the start and at the end. -/
def trimFeeds (cs : List Char) : List Char :=
  ((cs.dropWhile (· == '\n')).reverse.dropWhile (· == '\n')).reverse

/-- Two parts with at most one empty line between them. -/
def joinParts (first second : List Char) : List Char :=
  let (m, back) := splitFeeds first.reverse
  let (n, rest) := splitFeeds second
  back.reverse ++ List.replicate (min 2 (max m n)) '\n' ++ rest

/-- Content with an empty line before and after it. -/
def apart (cs : List Char) : List Char := ['\n', '\n'] ++ cs ++ ['\n', '\n']

def isLineEnd (c : Char) : Bool :=
  c == '\n' || c == '\r' || c == '\u2028' || c == '\u2029'

/-- The characters with something put before each line. -/
def withLineStart (start : List Char) (cs : List Char) : List Char :=
  start ++ cs.flatMap fun c => if isLineEnd c then c :: start else [c]

def itemMark (around : Around) : List Char :=
  match around.parent with
  | some e =>
    if e.isOneOf ["ol"] then
      let start := (e.attribute? "start").getD ""
      let number :=
        if start.isEmpty then Number.ofNat (around.index + 1)
        else
          let first := Number.read start
          match first.toRat? with
          | some r => Number.ofRat (r + around.index)
          | none => first
      number.text.toList ++ ['.', ' ', ' ']
    else ['-', ' ', ' ', ' ']
  | none => ['-', ' ', ' ', ' ']

def itemMarkdown (around : Around) (cs : List Char) : List Char :=
  let mark := itemMark around
  let indent := List.replicate mark.length ' '
  let body := trimFeeds cs ++ if cs.getLast? = some '\n' then ['\n'] else []
  mark ++ body.flatMap (fun c => if c = '\n' then c :: indent else [c])
    ++ if around.after.isEmpty then [] else ['\n']

/-- The word after a mark, at the first place where there is one. -/
def wordAfter (mark : List Char) : List Char → List Char
  | [] => []
  | c :: cs =>
    match after? mark (c :: cs) with
    | some rest =>
      let word := rest.takeWhile fun c => !Text.isBlank c
      if word.isEmpty then wordAfter mark cs else word
    | none => wordAfter mark cs

/-- The lengths of the runs of a character at the starts of lines. -/
def runsAtStarts (mark : Char) (isStart : Bool) : List Char → List Nat
  | [] => []
  | c :: cs =>
    let rest := runsAtStarts mark (isLineEnd c) cs
    if isStart && c = mark then ((c :: cs).takeWhile (· == mark)).length :: rest else rest

/-- Preformatted code between fences that are longer than those in it. -/
def fenced (language code : List Char) : List Char :=
  let longest := (runsAtStarts '\x60' true code).foldl max 2
  let fence := List.replicate (longest + 1) '\x60'
  let code := if code.getLast? = some '\n' then code.dropLast else code
  apart (fence ++ language ++ '\n' :: code ++ '\n' :: fence)

def runLengths (mark : Char) : Nat → List Char → List Nat
  | n, [] => [n]
  | n, c :: cs => if c = mark then runLengths mark (n + 1) cs else n :: runLengths mark 0 cs

/-- Whether code needs a space at both ends. -/
def needsSpaces (cs : List Char) : Bool :=
  cs.head? == some '\x60' || cs.getLast? == some '\x60' ||
    (cs.head? == some ' ' && cs.getLast? == some ' ' && cs.any (· != ' ')
      && (cs.filter isLineEnd).length ≤ 1)

/-- The characters with each line end as one space. -/
def onOneLine : List Char → List Char
  | '\r' :: '\n' :: cs => ' ' :: onOneLine cs
  | c :: cs => (if c == '\n' || c == '\r' then ' ' else c) :: onOneLine cs
  | [] => []

/-- The least length of a fence that no run of the code has. -/
def freeLength (runs : List Nat) : Nat → Nat → Nat
  | 0, n => n
  | fuel + 1, n => if runs.contains n then freeLength runs fuel (n + 1) else n

def codeMarkdown (cs : List Char) : List Char :=
  if cs.isEmpty then []
  else
    let cs := onOneLine cs
    let space := if needsSpaces cs then [' '] else []
    let fence := List.replicate (freeLength (runLengths '\x60' 0 cs) cs.length 1) '\x60'
    fence ++ space ++ cs ++ space ++ fence

/-- Content between two marks; blank content is left out. -/
def marked (mark : List Char) (cs : List Char) : List Char :=
  if cs.all Text.isBlank then [] else mark ++ cs ++ mark

def linkTarget (cs : List Char) : List Char :=
  let cs := cs.flatMap fun c => if ['<', '>', '(', ')'].contains c then ['\\', c] else [c]
  if cs.contains ' ' then '<' :: cs ++ ['>'] else cs

/-- The characters with each run of white space that begins with a line feed as one line feed. Fuel
is their number. -/
def feedsTogether : Nat → List Char → List Char
  | 0, cs => cs
  | _ + 1, [] => []
  | fuel + 1, c :: cs =>
    if c = '\n' then c :: feedsTogether fuel (cs.dropWhile Text.isBlank)
    else c :: feedsTogether fuel cs

def linkMarkdown (e : Element) (href : String) (cs : List Char) : List Char :=
  let title := ((e.attribute? "title").getD "").toList
  let title := (feedsTogether title.length title).flatMap fun c =>
    if c = '"' then ['\\', c] else [c]
  let title := if title.isEmpty then [] else " \"".toList ++ title ++ ['"']
  '[' :: cs ++ "](".toList ++ linkTarget href.toList ++ title ++ [')']

/-- Whether a style hides an element. -/
def hides : List Char → Bool
  | [] => false
  | c :: cs =>
    (match after? "display".toList (c :: cs) with
      | some rest =>
        match rest.dropWhile Text.isBlank with
        | ':' :: rest => "none".toList.isPrefixOf (rest.dropWhile Text.isBlank)
        | _ => false
      | none => false) || hides cs

def Element.isHidden (e : Element) : Bool :=
  hides (lowerAscii ((e.attribute? "style").getD "")).toList || (e.attribute? "hidden").isSome

/-- Whether a table only arranges things. -/
def Element.isLayoutTable (e : Element) : Bool :=
  let isGiven (name : String) : Bool := ((e.attribute? name).map (!·.isEmpty)).getD false
  e.isOneOf ["table"] &&
    ((e.attribute? "role").map lowerAscii == some "presentation"
      || isGiven "width" || isGiven "align")

/-- Preformatted code: the language and the text of the code that stands first in it. -/
def fencedCode? (e : Element) : List Node → Option (List Char × List Char)
  | .element first children :: _ =>
    if e.isOneOf ["pre"] && first.isOneOf ["code"] then
      let names := ((first.attribute? "class").getD "").toList
      some (wordAfter "language-".toList names, contents children)
    else none
  | _ => none

def Element.headingLevel? (e : Element) : Option Nat :=
  if e.isOneOf headingNames then
    (headingNames.findIdx? (· == e.name)).map (· + 1)
  else none

/-- Whether code is the only thing in preformatted text. -/
def isWholePreformatted (around : Around) : Bool :=
  around.isIn ["pre"] && around.before.isNone && around.after.isEmpty

/-- What an element that is not blank writes, given what its children write. -/
def Element.markdown (e : Element) (around : Around) (children : List Node) (cs : List Char) :
    List Char :=
  if e.isHidden then []
  else if e.isLayoutTable then cs
  else if e.isOneOf ["img"] then
    let description := (e.attribute? "alt").getD ""
    if description.isEmpty then [] else "[image: ".toList ++ description.toList ++ [']']
  else if ["style", "head", "script"].contains e.name then []
  else if e.isOneOf ["p"] then apart cs
  else if e.isOneOf ["br"] then [' ', ' ', '\n']
  else if let some n := e.headingLevel? then apart (List.replicate n '#' ++ ' ' :: cs)
  else if e.isOneOf ["blockquote"] then apart (withLineStart ['>', ' '] (trimFeeds cs))
  else if e.isOneOf ["ul", "ol"] then
    if around.isIn ["li"] && !around.after.any Node.isElement then '\n' :: cs else apart cs
  else if e.isOneOf ["li"] then itemMarkdown around cs
  else if let some (language, code) := fencedCode? e children then fenced language code
  else if e.isOneOf ["hr"] then apart "* * *".toList
  else if e.isOneOf ["a"] && (e.attribute? "href").any (!·.isEmpty) then
    linkMarkdown e ((e.attribute? "href").getD "") cs
  else if e.isOneOf ["em", "i"] then marked ['_'] cs
  else if e.isOneOf ["strong", "b"] then marked ['*', '*'] cs
  else if e.isOneOf ["code"] && !isWholePreformatted around then codeMarkdown cs
  else if e.isBlock then apart cs
  else cs

/-- The characters without blanks at either end. -/
def trimBlanks (cs : List Char) : List Char := trimRight (trimLeft cs)

/-- What an element writes, with the white space around it. -/
def Element.shown (e : Element) (around : Around) (children : List Node) (cs : List Char) :
    List Char :=
  let (leading, trailing) :=
    if e.isBlock then ([], []) else margins around (contents children)
  let cs := if leading.isEmpty && trailing.isEmpty then cs else trimBlanks cs
  let isBlank := (Node.element e children).isBlank
  let body :=
    if !isBlank then e.markdown around children cs else if e.isBlock then ['\n', '\n'] else []
  leading ++ body ++ trailing

mutual

def Node.markdown (around : Around) : Node → List Char
  | .text cs => if around.inCode then cs else escaped cs
  | .element e children =>
    let inner : Around :=
      { parent := some e, inCode := around.inCode || e.isOneOf ["code"] }
    e.shown around children (markdownOf inner [] children)

/-- What nodes write after something. -/
def markdownOf (around : Around) (out : List Char) : List Node → List Char
  | [] => out
  | n :: ns =>
    let here := n.markdown { around with after := ns }
    let next :=
      { around with
        before := some n, index := if n.isElement then around.index + 1 else around.index }
    markdownOf next (joinParts out here) ns

end

def withoutComments : Nat → List Char → List Char
  | 0, cs => cs
  | _ + 1, [] => []
  | fuel + 1, c :: cs =>
    match after? "<!--".toList (c :: cs) with
    | some rest =>
      if occurs "-->".toList rest then withoutComments fuel (afterCommentEnd rest)
      else c :: withoutComments fuel cs
    | none => c :: withoutComments fuel cs
where
  afterCommentEnd : List Char → List Char
    | '-' :: '-' :: '>' :: cs => cs
    | _ :: cs => afterCommentEnd cs
    | [] => []

def markdown (cs : List Char) : List Char :=
  let cs := withoutComments cs.length cs
  let out := markdownOf {} [] (spaced (nodesOf cs))
  trimRight (out.dropWhile fun c => c == '\t' || c == '\r' || c == '\n')

end Mailroom.Hypertext
