import Mailroom.Hypertext.Sorts
import Mailroom.Hypertext.Token

/-! A tree that grows: cells that are elements or texts, each knowing its parent and its children,
the elements that are open, and the formatting elements that will be opened anew. -/

namespace Mailroom.Hypertext

/-- A cell of the tree: an element, or a text. -/
structure Cell where
  element : Option Element := none
  text : List Char := []
  parent : Option Nat := none
  children : List Nat := []
deriving Repr, Inhabited

/-- How the next token is taken. -/
inductive Mode
  | body
  | text
  | table
  | caption
  | columns
  | tableBody
  | row
  | cell
  | select
  | afterBody
deriving DecidableEq, Repr

/-- A tree that grows. The first cell is its root. -/
structure Growth where
  cells : Array Cell
  /-- The open elements, innermost first. -/
  opened : List Nat
  /-- Formatting elements, latest first; a gap stands for a boundary. -/
  formatting : List (Option Nat) := []
  mode : Mode := .body
  /-- The mode to go back to when a raw text is over. -/
  resumed : Mode := .body
  form : Option Nat := none
  /-- Whether a line feed at the front of the next text does not count. -/
  skipsLineFeed : Bool := false
  /-- Whether what is put directly into a table goes before it. -/
  fosters : Bool := false
deriving Repr

namespace Growth

/-- A place in the tree: in a parent, before one of its children or at the end. -/
structure Place where
  parent : Nat
  before : Option Nat := none
deriving Repr

def element? (g : Growth) (i : Nat) : Option Element := (g.cells[i]?).bind Cell.element

/-- The name of a cell's element in hypertext; empty for a text or a foreign element. -/
def name (g : Growth) (i : Nat) : String :=
  match g.element? i with
  | some e => if e.isForeign then "" else e.name
  | none => ""

def parent? (g : Growth) (i : Nat) : Option Nat := (g.cells[i]?).bind Cell.parent

def modifyCell (g : Growth) (i : Nat) (f : Cell → Cell) : Growth :=
  { g with cells := g.cells.modify i f }

/-- The innermost open element. -/
def current (g : Growth) : Nat := g.opened.head?.getD 0

/-- The name of the innermost open element. -/
def currentName (g : Growth) : String := g.name g.current

/-- The tree with one more cell that is nowhere yet, and the cell. -/
def add (g : Growth) (cell : Cell) : Nat × Growth :=
  (g.cells.size, { g with cells := g.cells.push cell })

/-- Children with one more before another, or at the end. -/
def withChild (child : Nat) (before : Option Nat) : List Nat → List Nat
  | [] => [child]
  | other :: rest =>
    if some other = before then child :: other :: rest else other :: withChild child before rest

/-- A cell taken out of its parent. -/
def detach (g : Growth) (i : Nat) : Growth :=
  match g.parent? i with
  | none => g
  | some p =>
    (g.modifyCell p fun c => { c with children := c.children.filter (· != i) }).modifyCell i
      fun c => { c with parent := none }

/-- A cell put in a place, taken out of where it was. -/
def put (g : Growth) (i : Nat) (place : Place) : Growth :=
  ((g.detach i).modifyCell place.parent fun c =>
    { c with children := withChild i place.before c.children }).modifyCell i
      fun c => { c with parent := some place.parent }

/-- The element that was opened just before another one. -/
def openedBefore (i : Nat) : List Nat → Option Nat
  | a :: b :: rest => if a = i then some b else openedBefore i (b :: rest)
  | _ => none

/-- Where something goes that belongs into an element: there, or before the table if it may not
stand in it. -/
def placeIn (g : Growth) (target : Nat) : Place :=
  if g.fosters && tableStructureNames.contains (g.name target) then
    match g.opened.find? fun i => g.name i == "table" with
    | none => ⟨0, none⟩
    | some table =>
      match g.parent? table with
      | some p => ⟨p, some table⟩
      | none => ⟨(openedBefore table g.opened).getD 0, none⟩
  else ⟨target, none⟩

/-- Where the next cell goes. -/
def place (g : Growth) : Place := g.placeIn g.current

def lastBefore (g : Growth) (place : Place) : Option Nat :=
  let children := ((g.cells[place.parent]?).map Cell.children).getD []
  match place.before with
  | none => children.getLast?
  | some i => (children.takeWhile (· != i)).getLast?

/-- The tree with a text; it is joined to a text before it. -/
def addText (g : Growth) (cs : List Char) : Growth :=
  if cs.isEmpty then g
  else
    let place := g.place
    let joined := (g.lastBefore place).filter fun i => (g.element? i).isNone
    match joined with
    | some i => g.modifyCell i fun c => { c with text := c.text ++ cs }
    | none =>
      let (i, g) := g.add { text := cs }
      g.put i place

/-- The tree with an element that is not open. -/
def addElement (g : Growth) (e : Element) : Nat × Growth :=
  let place := g.place
  let (i, g) := g.add { element := some e }
  (i, g.put i place)

def openElement (g : Growth) (e : Element) : Growth :=
  let (i, g) := g.addElement e
  { g with opened := i :: g.opened }

/-- The tree with an element that is closed at once. -/
def addEmpty (g : Growth) (e : Element) : Growth := (g.addElement e).2

/-- The innermost element closed. -/
def close (g : Growth) : Growth := { g with opened := g.opened.tail }

/-- The open elements after closing up to one of the given names. -/
def dropThrough (g : Growth) (names : List String) : List Nat → List Nat
  | [] => []
  | i :: rest => if names.contains (g.name i) then rest else dropThrough g names rest

/-- Elements closed up to one of the given names. -/
def closeThrough (g : Growth) (names : List String) : Growth :=
  { g with opened := g.dropThrough names g.opened }

/-- Elements closed until one of the given names is innermost. -/
def closeTo (g : Growth) (names : List String) : Growth :=
  { g with opened := g.opened.dropWhile fun i => !names.contains (g.name i) && i != 0 }

/-- Whether a cell bounds the search for an open element. -/
def isBoundary (g : Growth) (i : Nat) : Bool :=
  match g.element? i with
  | some e => if e.isForeign then integrationNames.contains e.name else boundaryNames.contains e.name
  | none => false

/-- Whether an element of the given names is open within the bounds. -/
def findsOpen (g : Growth) (names bounds : List String) : List Nat → Bool
  | [] => false
  | i :: rest =>
    names.contains (g.name i)
      || (!g.isBoundary i && !bounds.contains (g.name i) && findsOpen g names bounds rest)

/-- Whether an element of the given names is open here. -/
def isOpen (g : Growth) (names : List String) : Bool := g.findsOpen names [] g.opened

def isParagraphOpen (g : Growth) : Bool := g.findsOpen ["p"] ["button"] g.opened

def isItemOpen (g : Growth) : Bool := g.findsOpen ["li"] ["ol", "ul"] g.opened

/-- Whether an element of the given names is open within the innermost table. -/
def isOpenInTable (g : Growth) (names : List String) : List Nat → Bool
  | [] => false
  | i :: rest =>
    if names.contains (g.name i) then true
    else if ["html", "table", "template"].contains (g.name i) then false
    else isOpenInTable g names rest

def hasTablePart (g : Growth) (names : List String) : Bool := g.isOpenInTable names g.opened

/-- The innermost elements closed that need no tag for it, except those of a name. -/
def closeImplied (g : Growth) (except : String) : Growth :=
  { g with opened := g.opened.dropWhile fun i =>
      impliedNames.contains (g.name i) && g.name i != except }

def closeParagraph (g : Growth) : Growth :=
  if g.isParagraphOpen then (g.closeImplied "p").closeThrough ["p"] else g

/-- Formatting elements back to the last boundary. -/
def recentFormatting (g : Growth) : List Nat :=
  (g.formatting.takeWhile Option.isSome).filterMap fun i => i

/-- The formatting elements without the earliest of three like a new one. -/
def withoutThird (g : Growth) (e : Element) : List (Option Nat) :=
  let alike := g.recentFormatting.filter fun i => g.element? i == some e
  match alike.drop 2 with
  | i :: rest => g.formatting.filter (· != some (rest.getLast?.getD i))
  | [] => g.formatting

/-- The tree with an open element that is opened anew where its content goes on. -/
def openFormatting (g : Growth) (e : Element) : Growth :=
  let formatting := g.withoutThird e
  let g := g.openElement e
  { g with formatting := some g.current :: formatting }

/-- The formatting elements that are not open, opened anew, the earliest first. -/
def reopen (g : Growth) : List Nat → Growth
  | [] => g
  | i :: rest =>
    match g.element? i with
    | none => reopen g rest
    | some e =>
      let g := g.openElement e
      let formatting := g.formatting.map fun entry =>
        if entry = some i then some g.current else entry
      reopen { g with formatting } rest

/-- The tree ready for content: formatting elements are opened anew. -/
def ready (g : Growth) : Growth :=
  g.reopen (g.recentFormatting.takeWhile fun i => !g.opened.contains i).reverse

/-- Formatting elements forgotten back to the last boundary. -/
def clearFormatting (g : Growth) : Growth :=
  { g with formatting := (g.formatting.dropWhile Option.isSome).tail }

end Growth

end Mailroom.Hypertext
