import Mailroom.Markdown.Outline
import Mailroom.Markdown.Spans

/-! Reading Markdown: the outline first, then the texts in it, when all definitions are known. -/

namespace Mailroom.Markdown

mutual

def Outline.keys : Outline → List (List Char)
  | .definition d => [labelKey d.label]
  | .quote parts => allKeys parts
  | .item _ parts => allKeys parts
  | _ => []

def allKeys : List Outline → List (List Char)
  | [] => []
  | p :: ps => p.keys ++ allKeys ps

end

/-- A block among others. -/
structure Placed where
  /-- Whether blank lines stand before it. -/
  afterGap : Bool
  /-- The bullet of a list item, or of a list. -/
  bullet : Option Bullet := none
  block : Block
deriving Repr

/-- Whether blank lines stand between blocks. -/
def isSpread (placed : List Placed) : Bool := placed.tail.any Placed.afterGap

/-- A list item before others: it joins the list that follows if that has the same mark. -/
def placeItem (afterGap : Bool) (bullet : Bullet) (item : Block) (rest : List Placed) :
    List Placed :=
  match rest with
  | ⟨isApart, some other, .list _ spread items⟩ :: more =>
    if other.mark = bullet.mark then
      ⟨afterGap, some bullet, .list bullet.number (spread || isApart) (item :: items)⟩ :: more
    else ⟨afterGap, some bullet, .list bullet.number false [item]⟩ :: rest
  | _ => ⟨afterGap, some bullet, .list bullet.number false [item]⟩ :: rest

/-- A block of code, given what stands behind its fence. -/
def codeBlock (info chars : List Char) : Block :=
  let language := info.takeWhile fun c => !isSpace c
  let extra := (info.dropWhile fun c => !isSpace c).dropWhile isSpace
  .code (resolved language) (resolved extra) chars

/-- The parts of an outline as blocks, the items of a list together. -/
def placedOf (keys : List (List Char)) (afterGap : Bool) : List Outline → List Placed
  | [] => []
  | .gap :: ps => placedOf keys true ps
  | .paragraph cs :: ps =>
    ⟨afterGap, none, .paragraph (spansOf keys cs)⟩ :: placedOf keys false ps
  | .heading level cs :: ps =>
    ⟨afterGap, none, .heading level (spansOf keys cs)⟩ :: placedOf keys false ps
  | .rule :: ps => ⟨afterGap, none, .rule⟩ :: placedOf keys false ps
  | .code info cs :: ps => ⟨afterGap, none, codeBlock info cs⟩ :: placedOf keys false ps
  | .html cs :: ps => ⟨afterGap, none, .html cs⟩ :: placedOf keys false ps
  | .definition d :: ps =>
    ⟨afterGap, none, .definition (resolved d.label) d.target.destination d.target.title⟩
      :: placedOf keys false ps
  | .quote parts :: ps =>
    ⟨afterGap, none, .quote ((placedOf keys false parts).map Placed.block)⟩
      :: placedOf keys false ps
  | .item bullet parts :: ps =>
    let children := placedOf keys false parts
    placeItem afterGap bullet (.item (isSpread children) (children.map Placed.block))
      (placedOf keys false ps)

def read (cs : List Char) : List Block :=
  let outline := outlineOf cs
  (placedOf (allKeys outline) false outline).map Placed.block

end Mailroom.Markdown
