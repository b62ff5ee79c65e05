import Mailroom.Hypertext.Tree

/-! White space of a tree as it is shown: a run of it is one space, and none stands at the start or
the end of a line. Preformatted text is left as it is. -/

namespace Mailroom.Hypertext

/-- Elements that stand on lines of their own. -/
def blockNames : List String :=
  ["address", "article", "aside", "audio", "blockquote", "body", "canvas", "center", "dd", "dir",
    "div", "dl", "dt", "fieldset", "figcaption", "figure", "footer", "form", "frameset", "h1", "h2",
    "h3", "h4", "h5", "h6", "header", "hgroup", "hr", "html", "isindex", "li", "main", "menu",
    "nav", "noframes", "noscript", "ol", "output", "p", "pre", "section", "table", "tbody", "td",
    "tfoot", "th", "thead", "tr", "ul"]

/-- Elements that are shown though they hold nothing. -/
def voidNames : List String :=
  ["area", "base", "br", "col", "command", "embed", "hr", "img", "input", "keygen", "link", "meta",
    "param", "source", "track", "wbr"]

def Element.isOneOf (e : Element) (names : List String) : Bool :=
  !e.isForeign && names.contains e.name

/-- Whether an element stands on lines of its own. -/
def Element.isBlock (e : Element) : Bool := e.isOneOf blockNames

/-- Whether an element is shown though it holds nothing. -/
def Element.isVoid (e : Element) : Bool := e.isOneOf voidNames

def Element.endsLine (e : Element) : Bool := e.isBlock || e.isOneOf ["br"]

/-- The white space that runs together. -/
def isSpacing (c : Char) : Bool := c == ' ' || c == '\r' || c == '\n' || c == '\t'

/-- The characters with each run of white space as one space, given whether one came before. -/
def singled : Bool → List Char → List Char
  | _, [] => []
  | afterSpace, c :: cs =>
    if isSpacing c then
      if afterSpace then singled true cs else ' ' :: singled true cs
    else c :: singled false cs

/-- What stands before a text on its line. -/
structure Line where
  /-- Whether the text before ends with a space; nothing if no text is before. -/
  before : Option Bool := none
  /-- Whether a space is kept though no text is before. -/
  keepsSpace : Bool := false

/-- The line after an element begins or ends. -/
def Line.past (line : Line) (e : Element) : Line :=
  if e.endsLine then {}
  else if e.isVoid then { before := none, keepsSpace := true }
  else if line.before.isSome then { line with keepsSpace := false }
  else line

def Line.text (line : Line) (cs : List Char) : List Char :=
  let drops := line.before.getD true && !line.keepsSpace
  singled drops cs

mutual

/-- A node on a line with its white space run together, and the line after it. -/
def Node.joined (line : Line) : Node → Line × List Node
  | .text cs =>
    let cs := line.text cs
    if cs.isEmpty then (line, [])
    else ({ line with before := some (cs.getLast? == some ' ') }, [.text cs])
  | .element e children =>
    if e.isOneOf ["pre"] then (line.past e, [.element e children])
    else
      let (line, children) := joinedAll (line.past e) children
      (line.past e, [.element e children])

/-- Nodes on a line with their white space run together, and the line after them. -/
def joinedAll (line : Line) : List Node → Line × List Node
  | [] => (line, [])
  | n :: ns =>
    let (line, first) := n.joined line
    let (line, rest) := joinedAll line ns
    (line, first ++ rest)

end

/-- What comes after a text on its line. -/
inductive Ahead
  | nothing
  | lineEnd
  | more
deriving DecidableEq, Repr

/-- What comes after a text before an element. -/
def Ahead.before (ahead : Ahead) (e : Element) : Ahead :=
  if e.endsLine then .lineEnd else if e.isVoid then .more else ahead

def withoutLastSpace (cs : List Char) : List Char :=
  if cs.getLast? = some ' ' then cs.dropLast else cs

/-- A text without the space at the end of its line; nothing if it is the last one and holds
nothing else. -/
def Ahead.text (ahead : Ahead) (cs : List Char) : List Node :=
  match ahead with
  | .more => [.text cs]
  | .lineEnd => [.text (withoutLastSpace cs)]
  | .nothing => if (withoutLastSpace cs).isEmpty then [] else [.text (withoutLastSpace cs)]

mutual

/-- A node without spaces at the ends of lines, and what comes after a text before it. -/
def Node.trimmed (ahead : Ahead) : Node → Ahead × List Node
  | .text cs => (.more, ahead.text cs)
  | .element e children =>
    if e.isOneOf ["pre"] then (ahead.before e, [.element e children])
    else
      let (ahead, children) := trimmedAll (ahead.before e) children
      (ahead.before e, [.element e children])

/-- Nodes without spaces at the ends of lines, and what comes after a text before them. -/
def trimmedAll (ahead : Ahead) : List Node → Ahead × List Node
  | [] => (ahead, [])
  | n :: ns =>
    let (ahead, rest) := trimmedAll ahead ns
    let (ahead, first) := n.trimmed ahead
    (ahead, first ++ rest)

end

def spaced (nodes : List Node) : List Node :=
  (trimmedAll .nothing (joinedAll {} nodes).2).2

end Mailroom.Hypertext
