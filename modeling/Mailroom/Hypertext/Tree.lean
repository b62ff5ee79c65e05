import Mailroom.Hypertext.Tables

/-! Trees of hypertext: the tree that all tokens of a text grow together. Every text has one: what
is out of place is moved, ignored or closed. -/

namespace Mailroom.Hypertext

/-- A node: an element with its children, or a text. -/
inductive Node
  | element (element : Element) (children : List Node)
  | text (chars : List Char)
deriving Repr, Inhabited

namespace Growth

def inMode (again : Growth → Token → Growth) (g : Growth) (t : Token) : Growth :=
  match g.mode with
  | .body => g.inBody t
  | .text =>
    match t with
    | .text cs => g.addText cs
    | _ => { g.close with mode := g.resumed }
  | .table => inTable again g t
  | .caption => inCaption again g t
  | .columns => inColumns again g t
  | .tableBody => inTableBody again g t
  | .row => inRow again g t
  | .cell => inCell again g t
  | .select => inSelect again g t
  | .afterBody => if closesOneOf ["html"] t then g else again { g with mode := .body } t

/-- A token taken. Fuel bounds how often it is taken again in another mode. -/
def step : Nat → Growth → Token → Growth
  | 0, g, _ => g
  | fuel + 1, g, t =>
    if g.takesForeign t then g.inForeign (inMode (step fuel)) t else inMode (step fuel) g t

/-- A token without the line feed in front that an opening tag before it swallows. -/
def withoutLineFeed : Token → Token
  | .text ('\n' :: cs) => .text cs
  | t => t

/-- The tree with one more token. A token is taken again less often than two times for each open
element and mode. -/
def grow (g : Growth) (t : Token) : Growth :=
  let t := if g.skipsLineFeed then withoutLineFeed t else t
  { g with skipsLineFeed := false }.step (2 * g.opened.length + 8) t

/-- The node of a cell; what is inside a template is not part of the tree. Fuel bounds the depth. -/
def nodeOf (g : Growth) : Nat → Nat → List Node
  | 0, _ => []
  | fuel + 1, i =>
    match g.cells[i]? with
    | none => []
    | some cell =>
      match cell.element with
      | none => [.text cell.text]
      | some e =>
        if e.name = "template" && !e.isForeign then [.element e []]
        else [.element e (cell.children.flatMap fun j => nodeOf g fuel j)]

end Growth

/-- The element put around a text before it is read. A raw text that is left open takes in its
closing tag, so its name can be seen. -/
def wrapperName : String := "x-turndown"

/-- The tree before its first token: a document, its body, and the wrapper in it. -/
def seed : Growth where
  cells := #[
    { element := some ⟨"html", [], false⟩, children := [1] },
    { element := some ⟨"body", [], false⟩, parent := some 0, children := [2] },
    { element := some ⟨wrapperName, [], false⟩, parent := some 1 }]
  opened := [2, 1, 0]

def nodesOf (cs : List Char) : List Node :=
  let closed := cs ++ ("</" ++ wrapperName ++ ">").toList
  let g := (tokensOf closed).foldl Growth.grow seed
  match g.nodeOf (g.cells.size + 1) 2 with
  | .element _ children :: _ => children
  | _ => []

end Mailroom.Hypertext
