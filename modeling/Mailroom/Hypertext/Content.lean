import Mailroom.Hypertext.Closing

/-! Content: what texts and opening tags do inside a body, and inside an embedded language. -/

namespace Mailroom.Hypertext.Growth

def textInBody (g : Growth) (cs : List Char) : Growth :=
  let cs := cs.filter (· != '\x00')
  if cs.isEmpty then g else g.ready.addText cs

def openRaw (g : Growth) (e : Element) : Growth :=
  { g.openElement e with mode := .text, resumed := g.mode }

/-- Whether an element bounds the search for an item that an opening tag closes. -/
def stopsItems (name : String) : Bool :=
  specialNames.contains name && name ∉ ["address", "div", "p"]

def closeItemBefore (g : Growth) (names : List String) : Growth :=
  match g.opened.find? fun i => names.contains (g.name i) || stopsItems (g.name i) with
  | some i =>
    let name := g.name i
    if names.contains name then (g.closeImplied name).closeThrough [name] else g
  | none => g

/-- A link ends the link before it, wherever that is open. -/
def closeLinkBefore (g : Growth) : Growth :=
  match g.recentFormatting.find? fun i => g.name i == "a" with
  | some i => ((g.closeFormatting "a").forget i).withdraw i
  | none => g

def openBounded (g : Growth) (e : Element) : Growth :=
  let g := g.openElement e
  { g with formatting := none :: g.formatting }

/-- The innermost element closed if it has one of the given names. -/
def closeIf (g : Growth) (names : List String) : Growth :=
  if names.contains g.currentName then g.close else g

def inTemplate (g : Growth) : Bool := g.opened.any fun i => g.name i == "template"

/-- The tree with a form, unless one is open. -/
def openForm (g : Growth) (e : Element) : Growth :=
  if g.form.isSome && !g.inTemplate then g
  else
    let g := g.closeParagraph.openElement e
    if g.inTemplate then g else { g with form := some g.current }

/-- The tree with an element of an embedded language. -/
def openForeign (g : Growth) (e : Element) (isEmpty : Bool) : Growth :=
  let e := { e with isForeign := true }
  if isEmpty then g.addEmpty e else g.openElement e

def openRawInBody (g : Growth) (e : Element) : Growth :=
  if e.name = "textarea" then { g.openRaw e with skipsLineFeed := true }
  else if e.name = "xmp" then g.closeParagraph.ready.openRaw e
  else g.openRaw e

def openBlockInBody (g : Growth) (e : Element) : Growth :=
  if headingNames.contains e.name then (g.closeParagraph.closeIf headingNames).openElement e
  else if e.name = "pre" || e.name = "listing" then
    { g.closeParagraph.openElement e with skipsLineFeed := true }
  else if e.name = "li" then (g.closeItemBefore ["li"]).closeParagraph.openElement e
  else if e.name = "dd" || e.name = "dt" then
    (g.closeItemBefore ["dd", "dt"]).closeParagraph.openElement e
  else if e.name = "hr" then g.closeParagraph.addEmpty e
  else if e.name = "table" then { g.openElement e with mode := .table }
  else g.closeParagraph.openElement e

def openTextInBody (g : Growth) (e : Element) (isEmpty : Bool) : Growth :=
  if e.name = "a" then g.closeLinkBefore.ready.openFormatting e
  else if e.name = "nobr" then
    let g := g.ready
    let g := if g.isOpen ["nobr"] then (g.closeFormatting "nobr").ready else g
    g.openFormatting e
  else if formattingNames.contains e.name then g.ready.openFormatting e
  else if e.name = "button" then (g.closeOpen ["button"] "").ready.openElement e
  else if ["applet", "marquee", "object"].contains e.name then g.ready.openBounded e
  else if e.name = "select" then { g.ready.openElement e with mode := .select }
  else if e.name = "optgroup" || e.name = "option" then
    (g.closeIf ["option"]).ready.openElement e
  else if e.name = "rb" || e.name = "rtc" then
    (if g.isOpen ["ruby"] then g.closeImplied "" else g).openElement e
  else if e.name = "rp" || e.name = "rt" then
    (if g.isOpen ["ruby"] then g.closeImplied "rtc" else g).openElement e
  else if e.name = "svg" || e.name = "math" then g.ready.openForeign e isEmpty
  else g.ready.openElement e

/-- Elements without content before which formatting is not opened anew. -/
def plainEmptyNames : List String :=
  ["base", "basefont", "bgsound", "link", "meta", "param", "source", "track"]

/-- Tags that open nothing in content. -/
def ignoredNames : List String :=
  tablePartNames ++ ["frame", "frameset", "head", "body", "html"]

def openInBody (g : Growth) (e : Element) (isEmpty : Bool) : Growth :=
  let e := if e.name = "image" then { e with name := "img" } else e
  let sets := headingNames ++ divisionNames
    ++ ["dialog", "pre", "listing", "li", "dd", "dt", "hr", "table", "plaintext"]
  if ignoredNames.contains e.name then g
  else if e.name = "template" then g.openBounded e
  else if rawNames.contains e.name || semiRawNames.contains e.name then g.openRawInBody e
  else if e.name = "form" then g.openForm e
  else if sets.contains e.name then g.openBlockInBody e
  else if plainEmptyNames.contains e.name then g.addEmpty e
  else if emptyNames.contains e.name then g.ready.addEmpty e
  else g.openTextInBody e isEmpty

def inBody (g : Growth) : Token → Growth
  | .text cs => g.textInBody cs
  | .opening e isEmpty => g.openInBody e isEmpty
  | .closing name => g.closeInBody name

/-- Whether an element belongs to an embedded language. -/
def isForeign (g : Growth) (i : Nat) : Bool :=
  match g.element? i with
  | some e => e.isForeign
  | none => false

/-- Whether an element of an embedded language holds hypertext. -/
def isIntegration (g : Growth) (i : Nat) : Bool :=
  match g.element? i with
  | some e => e.isForeign && integrationNames.contains e.name
  | none => false

/-- Whether a token is taken by the rules of an embedded language. -/
def takesForeign (g : Growth) (t : Token) : Bool :=
  g.isForeign g.current &&
    match t with
    | .closing _ => true
    | _ => !g.isIntegration g.current

/-- Whether an opening tag ends an embedded language. -/
def breaksOut (e : Element) : Bool :=
  breakoutNames.contains e.name ||
    (e.name == "font" && e.attributes.any fun a => ["color", "face", "size"].contains a.1)

/-- The embedded language ended. -/
def breakOut (g : Growth) : Growth :=
  { g with opened := g.opened.dropWhile fun i => g.isForeign i && !g.isIntegration i }

/-- The open elements after closing a foreign one by name, if hypertext does not come before it. -/
def closedForeign? (g : Growth) (name : String) : List Nat → Option (List Nat)
  | [] => none
  | i :: rest =>
    if !g.isForeign i then none
    else if ((g.element? i).map Element.name) == some name then some rest
    else closedForeign? g name rest

/-- A token in an embedded language; the second argument takes it again as hypertext. -/
def inForeign (g : Growth) (asHypertext : Growth → Token → Growth) : Token → Growth
  | .text cs => g.addText cs
  | .opening e isEmpty =>
    if breaksOut e then asHypertext g.breakOut (.opening e isEmpty) else g.openForeign e isEmpty
  | .closing name =>
    if name = "br" || name = "p" then asHypertext g.breakOut (.closing name)
    else
      match g.closedForeign? name g.opened with
      | some opened => { g with opened }
      | none => asHypertext g (.closing name)

end Mailroom.Hypertext.Growth
