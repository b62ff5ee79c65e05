import Mailroom.Hypertext.Content

/-! Tables: the parts of a table open what they need around them, and content that may stand in
none of them goes before the table. Each function takes a token in one mode and hands those it
does not settle to another function that takes the token again. -/

namespace Mailroom.Hypertext.Growth

/-- A token in content that goes before the table if it may not stand in it. -/
def fostered (g : Growth) (t : Token) : Growth :=
  { ({ g with fosters := true } : Growth).inBody t with fosters := false }

/-- A text in a table: blanks stand where they are, and everything else goes before the table. -/
def textInTable (g : Growth) (cs : List Char) : Growth :=
  let cs := cs.filter (· != '\x00')
  if tableStructureNames.contains g.currentName && cs.all isTagSpace then g.addText cs
  else g.fostered (.text cs)

/-- An opened element with a mode for what comes inside it. -/
def openPart (g : Growth) (name : String) (attributes : List (String × String)) (mode : Mode) :
    Growth :=
  { g.openElement ⟨name, attributes, false⟩ with mode }

/-- Elements closed until a table is innermost. -/
def toTable (g : Growth) : Growth := g.closeTo ["table", "template"]

/-- Elements closed until a body of a table is innermost. -/
def toTableBody (g : Growth) : Growth := g.closeTo ("template" :: tableBodyNames)

/-- Elements closed until a row is innermost. -/
def toRow (g : Growth) : Growth := g.closeTo ["tr", "template"]

/-- The table closed if one is open here. -/
def closeTable (g : Growth) : Growth :=
  if g.hasTablePart ["table"] then (g.closeThrough ["table"]).settled else g

def openInTable (again : Growth → Token → Growth) (g : Growth) (e : Element) (isEmpty : Bool) :
    Growth :=
  let t := Token.opening e isEmpty
  if e.name = "caption" then
    let g := g.toTable
    { ({ g with formatting := none :: g.formatting } : Growth).openElement e with mode := .caption }
  else if e.name = "colgroup" then g.toTable.openPart e.name e.attributes .columns
  else if e.name = "col" then again (g.toTable.openPart "colgroup" [] .columns) t
  else if tableBodyNames.contains e.name then g.toTable.openPart e.name e.attributes .tableBody
  else if ["td", "th", "tr"].contains e.name then
    again (g.toTable.openPart "tbody" [] .tableBody) t
  else if e.name = "table" then
    if g.hasTablePart ["table"] then again g.closeTable t else g
  else if ["style", "script", "template"].contains e.name then g.inBody t
  else if e.name = "input" && (e.attribute? "type").map Text.lowerAscii == some "hidden" then
    g.addEmpty e
  else if e.name = "form" then
    if g.form.isSome || g.inTemplate then g
    else
      let (i, g) := g.addElement e
      { g with form := some i }
  else g.fostered t

def inTable (again : Growth → Token → Growth) (g : Growth) : Token → Growth
  | .text cs => g.textInTable cs
  | .opening e isEmpty => openInTable again g e isEmpty
  | .closing name =>
    if name = "table" then g.closeTable
    else if tablePartNames.contains name || name = "body" || name = "html" then g
    else if name = "template" then g.closeTemplate
    else g.fostered (.closing name)

def closeCaption (g : Growth) : Growth :=
  { ((g.closeImplied "").closeThrough ["caption"]).clearFormatting with mode := .table }

/-- Whether a token is an opening tag of one of the given names, or the closing tag of a table. -/
def endsPart (names : List String) : Token → Bool
  | .opening e _ => names.contains e.name
  | .closing name => name == "table"
  | .text _ => false

def closesOneOf (names : List String) : Token → Bool
  | .closing name => names.contains name
  | _ => false

def inCaption (again : Growth → Token → Growth) (g : Growth) (t : Token) : Growth :=
  if closesOneOf ["caption"] t then
    if g.hasTablePart ["caption"] then g.closeCaption else g
  else if endsPart tablePartNames t then
    if g.hasTablePart ["caption"] then again g.closeCaption t else g
  else if closesOneOf ("body" :: "html" :: tablePartNames) t then g
  else g.inBody t

def afterColumns (again : Growth → Token → Growth) (g : Growth) (t : Token) : Growth :=
  if g.currentName = "colgroup" then again { g.close with mode := .table } t else g

def inColumns (again : Growth → Token → Growth) (g : Growth) : Token → Growth
  | .text cs =>
    let g := g.addText (cs.takeWhile isTagSpace)
    let rest := cs.dropWhile isTagSpace
    if rest.isEmpty then g else afterColumns again g (.text rest)
  | .opening e isEmpty =>
    if e.name = "col" then g.addEmpty e
    else if e.name = "template" then g.inBody (.opening e isEmpty)
    else afterColumns again g (.opening e isEmpty)
  | .closing name =>
    if name = "colgroup" then
      if g.currentName = "colgroup" then { g.close with mode := .table } else g
    else if name = "col" then g
    else if name = "template" then g.closeTemplate
    else afterColumns again g (.closing name)

def inTableBody (again : Growth → Token → Growth) (g : Growth) (t : Token) : Growth :=
  match t with
  | .opening e isEmpty =>
    if e.name = "tr" then g.toTableBody.openPart "tr" e.attributes .row
    else if e.name = "td" || e.name = "th" then again (g.toTableBody.openPart "tr" [] .row) t
    else if tablePartNames.contains e.name then leave
    else inTable again g (.opening e isEmpty)
  | .closing name =>
    if tableBodyNames.contains name then
      if g.hasTablePart [name] then { g.toTableBody.close with mode := .table } else g
    else if name = "table" then leave
    else if tablePartNames.contains name || name = "body" || name = "html" then g
    else inTable again g t
  | .text cs => inTable again g (.text cs)
where
  /-- The body of the table closed, and the token taken again. -/
  leave : Growth :=
    if g.hasTablePart tableBodyNames then again { g.toTableBody.close with mode := .table } t else g

def inRow (again : Growth → Token → Growth) (g : Growth) (t : Token) : Growth :=
  match t with
  | .opening e isEmpty =>
    if e.name = "td" || e.name = "th" then
      let g := g.toRow.openPart e.name e.attributes .cell
      { g with formatting := none :: g.formatting }
    else if tablePartNames.contains e.name then leave
    else inTable again g (.opening e isEmpty)
  | .closing name =>
    if name = "tr" then
      if g.hasTablePart ["tr"] then left else g
    else if name = "table" then leave
    else if tableBodyNames.contains name then
      if g.hasTablePart [name] then leave else g
    else if tablePartNames.contains name || name = "body" || name = "html" then g
    else inTable again g t
  | .text cs => inTable again g (.text cs)
where
  /-- The row closed. -/
  left : Growth := { g.toRow.close with mode := .tableBody }
  /-- The row closed, and the token taken again. -/
  leave : Growth := if g.hasTablePart ["tr"] then again left t else g

def closeCell (g : Growth) : Growth :=
  { ((g.closeImplied "").closeThrough ["td", "th"]).clearFormatting with mode := .row }

def inCell (again : Growth → Token → Growth) (g : Growth) (t : Token) : Growth :=
  match t with
  | .opening e isEmpty =>
    if tablePartNames.contains e.name then
      if g.hasTablePart ["td", "th"] then again g.closeCell t else g
    else g.inBody (.opening e isEmpty)
  | .closing name =>
    if name = "td" || name = "th" then
      if g.hasTablePart [name] then
        { ((g.closeImplied "").closeThrough [name]).clearFormatting with mode := .row }
      else g
    else if ["body", "caption", "col", "colgroup", "html"].contains name then g
    else if name = "table" || name = "tr" || tableBodyNames.contains name then
      if g.hasTablePart [name] then again g.closeCell t else g
    else g.inBody t
  | .text cs => g.inBody (.text cs)

def closeSelect (g : Growth) : Growth := (g.closeThrough ["select"]).settled

/-- An opening tag in a choice. -/
def openInSelect (again : Growth → Token → Growth) (g : Growth) (e : Element) (isEmpty : Bool) :
    Growth :=
  let t := Token.opening e isEmpty
  if e.name = "option" then (g.closeIf ["option"]).openElement e
  else if e.name = "optgroup" then
    ((g.closeIf ["option"]).closeIf ["optgroup"]).openElement e
  else if e.name = "select" then g.closeSelect
  else if ["input", "keygen", "textarea"].contains e.name then again g.closeSelect t
  else if e.name = "script" || e.name = "template" then g.inBody t
  else if ("table" :: tablePartNames).contains e.name && g.hasTablePart ["table"] then
    again g.closeSelect t
  else g

def inSelect (again : Growth → Token → Growth) (g : Growth) : Token → Growth
  | .text cs => g.addText (cs.filter (· != '\x00'))
  | .opening e isEmpty => openInSelect again g e isEmpty
  | .closing name =>
    if name = "option" then g.closeIf ["option"]
    else if name = "optgroup" then
      let beforeIt := (g.opened.tail.head?).map g.name
      let g := if beforeIt == some "optgroup" then g.closeIf ["option"] else g
      g.closeIf ["optgroup"]
    else if name = "select" then g.closeSelect
    else if name = "template" then g.closeTemplate
    else if ("table" :: tablePartNames).contains name && g.hasTablePart ["table"] then
      if g.hasTablePart [name] then again g.closeSelect (.closing name) else g
    else g

end Mailroom.Hypertext.Growth
