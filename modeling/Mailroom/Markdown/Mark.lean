import Mailroom.Markdown.Tree
import Mailroom.Text.Blank
import Mailroom.Text.Punctuation

/-! Marks of emphasis. A run of asterisks or underscores may open, close or do both, which depends on
the characters around it; pairs of runs make emphasis, and what is left over is text. -/

namespace Mailroom.Markdown

/-- The sorts of characters that matter beside a mark. -/
inductive Beside
  | blank
  | punctuation
  | letter
deriving DecidableEq, Repr

/-- The sort of a character; the ends of the text count as blank. -/
def besideOf : Option Char → Beside
  | none => .blank
  | some c =>
    if Text.isBlank c then .blank else if Text.isPunctuation c then .punctuation else .letter

/-- A run of marks. -/
structure Run where
  mark : Char
  length : Nat
  opens : Bool
  closes : Bool
deriving DecidableEq, Repr

/-- Whether a character marks emphasis. -/
def isMark (c : Char) : Bool := c == '*' || c == '_'

/-- A run of marks between two characters. Underscores make no emphasis inside a word. -/
def runBetween (before after : Option Char) (mark : Char) (length : Nat) : Run :=
  let b := besideOf before
  let a := besideOf after
  let opens := a == .letter || (a == .punctuation && b != .letter) || after.any isMark
  let closes := b == .letter || (b == .punctuation && a != .letter) || before.any isMark
  if mark = '*' then ⟨mark, length, opens, closes⟩
  else ⟨mark, length, opens && (b != .letter || !closes), closes && (a != .letter || !opens)⟩

/-- A part of a text that is being read: a span, or a run of marks. -/
inductive Piece
  | span (span : Span)
  | run (run : Run)
deriving Repr

/-- A piece as a span; a run of marks is text. -/
def Piece.asSpan : Piece → Span
  | .span s => s
  | .run r => .text (List.replicate r.length r.mark)

/-- Whether an opening run may pair with a closing one. -/
def pairs (opener closer : Run) : Bool :=
  opener.opens && opener.mark == closer.mark
    && !((opener.closes || closer.opens) && closer.length % 3 != 0
      && (opener.length + closer.length) % 3 == 0)

/-- The nearest run before a closing one that pairs with it: what is between them, the run, and what
is before it, both latest first. -/
def opener? (closer : Run) : List Piece → Option (List Piece × Run × List Piece)
  | [] => none
  | .run r :: before =>
    if pairs r closer then some ([], r, before)
    else (opener? closer before).map fun (inner, found, rest) => (.run r :: inner, found, rest)
  | .span s :: before =>
    (opener? closer before).map fun (inner, found, rest) => (.span s :: inner, found, rest)

/-- Pieces with a run behind them, latest first: the run closes what it can. Fuel is its length. -/
def closeRun : Nat → List Piece → Run → List Piece
  | 0, before, r => if r.length = 0 then before else .run r :: before
  | fuel + 1, before, r =>
    if r.length = 0 then before
    else if !r.closes then .run r :: before
    else
      match opener? r before with
      | none => .run r :: before
      | some (inner, o, rest) =>
        let isDouble := 1 < o.length && 1 < r.length
        let used := if isDouble then 2 else 1
        let children := joined (inner.reverse.map Piece.asSpan)
        let made := if isDouble then Span.strong children else .emphasis children
        let rest := if o.length = used then rest else .run { o with length := o.length - used } :: rest
        closeRun fuel (.span made :: rest) { r with length := r.length - used }

/-- A piece after others, latest first. -/
def addPiece (before : List Piece) : Piece → List Piece
  | .span s => .span s :: before
  | .run r => closeRun r.length before r

/-- The spans of pieces, given latest first. -/
def spansOfPieces (pieces : List Piece) : List Span :=
  joined ((pieces.reverse.foldl addPiece []).reverse.map Piece.asSpan)

end Mailroom.Markdown
