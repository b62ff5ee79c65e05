import Mailroom.Markdown.Mark
import Mailroom.Markdown.Tag

/-! Reading spans. Code, markup and addresses bind first; brackets become links and images where a
target follows them or a definition has their label; marks of emphasis come last. -/

namespace Mailroom.Markdown

/-- A bracket that is open. -/
structure Bracket where
  isImage : Bool
  /-- Whether it may still become a link: there are no links in links. -/
  isActive : Bool := true
  /-- What follows the bracket. -/
  source : List Char
  /-- What was read before the bracket, latest first. -/
  before : List Piece
deriving Repr

/-- A text that is being read. -/
structure Scan where
  /-- What was read behind the innermost open bracket, latest first. -/
  pieces : List Piece := []
  /-- The open brackets, innermost first. -/
  brackets : List Bracket := []
deriving Repr

def Scan.add (s : Scan) (span : Span) : Scan := { s with pieces := .span span :: s.pieces }

def Scan.addText (s : Scan) (cs : List Char) : Scan := s.add (.text cs)

def Bracket.sign (b : Bracket) : List Char := if b.isImage then ['!', '['] else ['[']

/-- The scan with its innermost bracket as text. -/
def Scan.giveUp (s : Scan) : Scan :=
  match s.brackets with
  | [] => s
  | b :: rest => ⟨s.pieces ++ .span (.text b.sign) :: b.before, rest⟩

/-- All open brackets as text. -/
def Scan.giveUpAll (s : Scan) : Scan := (s.brackets.map fun _ => ()).foldl (fun s _ => s.giveUp) s

/-- What a bracket becomes. -/
inductive Use
  | target (target : Target)
  | reference (naming : Naming) (label : List Char)
deriving Repr

def Use.span (isImage : Bool) (content : List Span) : Use → Span
  | .target t =>
    if isImage then .image t.destination t.title (contents content)
    else .link t.destination t.title content
  | .reference naming label =>
    if isImage then .imageReference naming label (contents content)
    else .linkReference naming label content

/-- What a bracket becomes when it is closed, given the keys of the definitions, what it holds and
what follows; with what follows that. -/
def useOf (keys : List (List Char)) (held : List Char) (rest : List Char) :
    Option (Use × List Char) :=
  let isDefined := keys.contains (labelKey held)
  let bare := if isDefined then some (Use.reference .bare (resolved held), rest) else none
  match rest with
  | '(' :: after => ((target? after).map fun (t, rest) => (Use.target t, rest)).or bare
  | '[' :: after =>
    let named := (label? after).bind fun (label, rest) =>
      if keys.contains (labelKey label) then some (Use.reference .full (resolved label), rest)
      else none
    match named with
    | some found => some found
    | none =>
      match after with
      | ']' :: rest =>
        if isDefined then some (.reference .collapsed (resolved held), rest) else none
      | _ => bare
  | _ => bare

/-- The scan after a closing bracket, and what follows. -/
def Scan.close (keys : List (List Char)) (s : Scan) (rest : List Char) : Scan × List Char :=
  match s.brackets with
  | [] => (s.addText [']'], rest)
  | b :: outer =>
    let held := b.source.take (b.source.length - rest.length - 1)
    match if b.isActive then useOf keys held rest else none with
    | none => (s.giveUp.addText [']'], rest)
    | some (use, rest) =>
      let made := use.span b.isImage (spansOfPieces s.pieces)
      let outer := if b.isImage then outer else
        outer.map fun o => if o.isImage then o else { o with isActive := false }
      (⟨.span made :: b.before, outer⟩, rest)

def Scan.openBracket (s : Scan) (isImage : Bool) (source : List Char) : Scan :=
  ⟨[], { isImage, source, before := s.pieces } :: s.brackets⟩

/-- Code up to a run of as many ticks, and what follows. Fuel is the number of characters. -/
def codeTo (length : Nat) : Nat → List Char → Read
  | 0, _ => none
  | _ + 1, [] => none
  | fuel + 1, c :: cs =>
    if c = '\x60' then
      let run := (c :: cs).takeWhile (· == '\x60')
      let rest := (c :: cs).dropWhile (· == '\x60')
      if run.length = length then some ([], rest)
      else (codeTo length fuel rest).map fun (code, rest) => (run ++ code, rest)
    else (codeTo length fuel cs).before c

/-- Code without one space at each end, if it has both and something else. -/
def unpadded (cs : List Char) : List Char :=
  let isPad (c : Char) : Bool := c == ' ' || c == '\n'
  if cs.head?.any isPad && cs.getLast?.any isPad && !cs.all isPad then cs.tail.dropLast else cs

/-- The scan after a run of ticks, and what follows. -/
def Scan.code (s : Scan) (cs : List Char) : Scan × List Char :=
  let run := cs.takeWhile (· == '\x60')
  let rest := cs.dropWhile (· == '\x60')
  match codeTo run.length (rest.length + 1) rest with
  | some (code, rest) => (s.add (.code (unpadded code)), rest)
  | none => (s.addText run, rest)

/-- The scan after an angle bracket, and what follows. -/
def Scan.angle (s : Scan) (cs : List Char) : Scan × List Char :=
  match schemedAddress? cs with
  | some (address, rest) => (s.add (.link address [] [.text address]), rest)
  | none =>
    match mailAddress? cs with
    | some (address, rest) =>
      (s.add (.link ("mailto:".toList ++ address) [] [.text address]), rest)
    | none =>
      match afterMarkup cs with
      | some rest => (s.add (.html ('<' :: cs.take (cs.length - rest.length))), rest)
      | none => (s.addText ['<'], cs)

/-- A line end: a hard break behind two spaces, and no blanks before it. -/
def lineEndAfter (blanks : List Char) : Span :=
  if 2 ≤ blanks.length && blanks.all (· == ' ') then .lineBreak else .text ['\n']

/-- The scan after characters that mean nothing, and what follows. -/
def Scan.plain (s : Scan) (cs : List Char) : Scan × List Char :=
  let isPlain (c : Char) : Bool :=
    !(['!', '&', '*', '<', '[', '\\', ']', '_', '\x60', '\n'].contains c)
  match cs with
  | [] => (s, [])
  | c :: cs =>
    let text := c :: cs.takeWhile isPlain
    let rest := cs.dropWhile isPlain
    match rest with
    | '\n' :: after =>
      let blanks := (text.reverse.takeWhile isSpace).reverse
      let text := text.take (text.length - blanks.length)
      let s := if text.isEmpty then s else s.addText text
      (s.add (lineEndAfter blanks), after.dropWhile isSpace)
    | _ => (s.addText text, rest)

/-- The scan after what stands in front, given the character before it, and what follows. -/
def Scan.step (keys : List (List Char)) (s : Scan) (before : Option Char) (cs : List Char) :
    Scan × List Char :=
  match cs with
  | '\n' :: rest => (s.addText ['\n'], rest.dropWhile isSpace)
  | '\\' :: '\n' :: rest => (s.add .lineBreak, rest.dropWhile isSpace)
  | '\\' :: c :: rest =>
    if Text.isAsciiPunctuation c then (s.addText [c], rest) else (s.addText ['\\'], c :: rest)
  | '&' :: rest =>
    match reference? rest with
    | some (found, rest) => (s.addText found, rest)
    | none => (s.addText ['&'], rest)
  | '!' :: '[' :: rest => (s.openBracket true rest, rest)
  | '[' :: rest => (s.openBracket false rest, rest)
  | ']' :: rest => s.close keys rest
  | '\x60' :: _ => s.code cs
  | '<' :: rest => s.angle rest
  | c :: _ =>
    if isMark c then
      let run := cs.takeWhile (· == c)
      let rest := cs.dropWhile (· == c)
      ({ s with pieces := .run (runBetween before rest.head? c run.length) :: s.pieces }, rest)
    else s.plain cs
  | [] => (s, [])

/-- The scan after a whole text. Fuel is the number of its characters. -/
def Scan.run (keys : List (List Char)) : Nat → Scan → Option Char → List Char → Scan
  | 0, s, _, _ => s
  | _ + 1, s, _, [] => s
  | fuel + 1, s, before, cs =>
    let (s, rest) := s.step keys before cs
    Scan.run keys fuel s (cs.take (cs.length - rest.length)).getLast? rest

/-- The spans of a text without blanks at its end. -/
def spansOf (keys : List (List Char)) (cs : List Char) : List Span :=
  spansOfPieces (Scan.run keys (cs.length + 1) {} none cs).giveUpAll.pieces

end Mailroom.Markdown
