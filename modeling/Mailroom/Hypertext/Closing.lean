import Mailroom.Hypertext.Growth

/-! Closing tags in content. A tag closes what it names and what is open inside it; formatting that
was closed out of order goes on in a copy behind the element that interrupts it. -/

namespace Mailroom.Hypertext.Growth

/-- An element of one of the given names closed if one is open here, with all that is open in it. -/
def closeOpen (g : Growth) (names : List String) (except : String) : Growth :=
  if g.isOpen names then (g.closeImplied except).closeThrough names else g

/-- A paragraph closed; without one, an empty one is added. -/
def closeOrAddParagraph (g : Growth) : Growth :=
  if g.isParagraphOpen then g.closeParagraph else g.addEmpty ⟨"p", [], false⟩

/-- A list item closed if one is open here. -/
def closeItem (g : Growth) : Growth :=
  if g.isItemOpen then (g.closeImplied "li").closeThrough ["li"] else g

/-- The form closed alone: what is open inside it stays open. -/
def closeForm (g : Growth) : Growth :=
  match g.form with
  | none => g
  | some i =>
    let g := { g with form := none }
    if g.isOpen ["form"] && g.opened.contains i then
      let g := g.closeImplied ""
      { g with opened := g.opened.filter (· != i) }
    else g

/-- What closing an element of any other name does: it is closed unless a special element is open
inside it. -/
def closeOther (g : Growth) (name : String) : Growth :=
  match g.opened.find? fun i => g.name i == name || specialNames.contains (g.name i) with
  | some i =>
    if g.name i == name then
      let g := g.closeImplied name
      { g with opened := (g.opened.dropWhile (· != i)).tail }
    else g
  | none => g

/-- The elements open inside another one, innermost first. -/
def openedInside (g : Growth) (i : Nat) : List Nat := g.opened.takeWhile (· != i)

/-- An element forgotten as formatting. -/
def forget (g : Growth) (i : Nat) : Growth :=
  { g with formatting := g.formatting.filter (· != some i) }

/-- An element closed wherever it stands. -/
def withdraw (g : Growth) (i : Nat) : Growth :=
  { g with opened := g.opened.filter (· != i) }

/-- A copy of an element without its content that takes its place among the open and the formatting
elements. -/
def renew (g : Growth) (i : Nat) : Nat × Growth :=
  let (copy, g) := g.add { element := g.element? i }
  (copy, { g with
    opened := g.opened.map fun j => if j = i then copy else j
    formatting := g.formatting.map fun j => if j = some i then some copy else j })

/-- Formatting elements between a block and the formatting element it interrupts: each is renewed
and takes what comes before it. The fourth and later ones are forgotten. Gives what was moved last
and the copy of the innermost one. -/
def renewBetween (g : Growth) (last : Nat) (mark : Option Nat) (count : Nat) :
    List Nat → Nat × Option Nat × Growth
  | [] => (last, mark, g)
  | i :: rest =>
    let g := if 3 < count then g.forget i else g
    if g.formatting.contains (some i) then
      let (copy, g) := g.renew i
      renewBetween (g.put last ⟨copy, none⟩) copy (mark.or (some copy)) (count + 1) rest
    else renewBetween (g.withdraw i) last mark (count + 1) rest

/-- All children of one cell moved to the end of another. -/
def moveChildren (g : Growth) (source target : Nat) : Growth :=
  (((g.cells[source]?).map Cell.children).getD []).foldl (fun g i => g.put i ⟨target, none⟩) g

/-- One entry of a list replaced by another and put before a third one, or left in its place. -/
def replaceEntry (old new : Option Nat) (mark : Option Nat) (entries : List (Option Nat)) :
    List (Option Nat) :=
  match mark with
  | none => entries.map fun entry => if entry = old then new else entry
  | some m =>
    (entries.filter (· != old)).flatMap fun entry =>
      if entry = some m then [new, entry] else [entry]

/-- A block that interrupts a formatting element moved behind it, with a copy of the formatting
inside it. -/
def interrupt (g : Growth) (formatting block : Nat) : Growth :=
  let outside := ((g.opened.dropWhile (· != formatting)).tail.head?).getD 0
  let between := ((g.openedInside formatting).dropWhile (· != block)).tail
  let (last, mark, g) := g.renewBetween block none 1 between
  let fostered := { g with fosters := true }
  let g := g.put last (fostered.placeIn outside)
  let (copy, g) := g.add { element := g.element? formatting }
  let g := (g.moveChildren block copy).put copy ⟨block, none⟩
  { g with
    formatting := replaceEntry (some formatting) (some copy) mark g.formatting
    opened := (g.opened.filter (· != formatting)).flatMap fun i =>
      if i = block then [copy, i] else [i] }

/-- A formatting element closed, wherever it is open. Fuel bounds how often a copy of it is closed
again. -/
def closeFormattingIn (name : String) : Nat → Growth → Growth
  | 0, g => g
  | fuel + 1, g =>
    match g.recentFormatting.find? fun i => g.name i == name with
    | none => g.closeOther name
    | some i =>
      if !g.opened.contains i then g.forget i
      else if !g.isOpen [name] then g
      else
        match (g.openedInside i).reverse.find? fun j => specialNames.contains (g.name j) with
        | none => ({ g with opened := (g.opened.dropWhile (· != i)).tail }).forget i
        | some block => closeFormattingIn name fuel (g.interrupt i block)

def closeFormatting (g : Growth) (name : String) : Growth :=
  if g.currentName == name && !g.formatting.contains (some g.current) then g.close
  else closeFormattingIn name 8 g

/-- How tokens are taken inside an element. -/
def modeInside (name : String) : Option Mode :=
  if name = "select" then some .select
  else if name = "td" || name = "th" then some .cell
  else if name = "tr" then some .row
  else if tableBodyNames.contains name then some .tableBody
  else if name = "caption" then some .caption
  else if name = "colgroup" then some .columns
  else if name = "table" then some .table
  else if name = "body" || name = "html" || name = "template" then some .body
  else none

/-- The tree with the mode that its open elements ask for. -/
def settled (g : Growth) : Growth :=
  { g with mode := (g.opened.findSome? fun i => modeInside (g.name i)).getD .body }

def closeBounded (g : Growth) (names : List String) : Growth :=
  if g.isOpen names then ((g.closeImplied "").closeThrough names).clearFormatting else g

def closeTemplate (g : Growth) : Growth :=
  if g.opened.any fun i => g.name i == "template" then
    ((g.closeImplied "").closeThrough ["template"]).clearFormatting.settled
  else g

/-- A closing tag in content. -/
def closeInBody (g : Growth) (name : String) : Growth :=
  if name = "body" || name = "html" then
    if g.isOpen ["body"] then { g with mode := .afterBody } else g
  else if name = "form" then g.closeForm
  else if name = "p" then g.closeOrAddParagraph
  else if name = "li" then g.closeItem
  else if name = "dd" || name = "dt" then g.closeOpen [name] name
  else if headingNames.contains name then
    if g.isOpen headingNames then (g.closeImplied "").closeThrough headingNames else g
  else if divisionNames.contains name || ["button", "dialog", "listing", "pre"].contains name then
    g.closeOpen [name] ""
  else if formattingNames.contains name then g.closeFormatting name
  else if ["applet", "marquee", "object"].contains name then g.closeBounded [name]
  else if name = "br" then g.ready.addEmpty ⟨"br", [], false⟩
  else if name = "template" then g.closeTemplate
  else g.closeOther name

end Mailroom.Hypertext.Growth
