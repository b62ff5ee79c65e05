import Mailroom.Markdown.Target

/-! What stands between angle brackets: tags and other markup of hypertext, which Markdown leaves as
it is, and addresses that link to themselves. Each function gives what follows, or nothing if the
bracket opens none of them. -/

namespace Mailroom.Markdown

/-- A letter, a digit or a hyphen. -/
def isNameChar (c : Char) : Bool := c.isAlphanum || c == '-'

/-- What follows the first occurrence of a part. -/
def afterPart (part : List Char) : List Char → Option (List Char)
  | [] => none
  | c :: cs => (Text.after? part (c :: cs)).or (afterPart part cs)

/-- Whether a tag may go on with the rest: at its end or at a gap. -/
def endsWord (cs : List Char) : Bool :=
  cs.head?.any fun c => c == '/' || c == '>' || isGap c

/-- What follows the value of an attribute. -/
def afterValue : List Char → Option (List Char)
  | [] => none
  | '"' :: cs => (afterPart ['"'] cs).filter endsWord
  | '\'' :: cs => (afterPart ['\''] cs).filter endsWord
  | c :: cs =>
    if ['<', '=', '>', '\x60'].contains c then none
    else
      let rest := cs.dropWhile fun c =>
        !(['/', '>', '"', '\'', '<', '=', '\x60'].contains c || isGap c)
      if endsWord rest then some rest else none

/-- Whether a character begins the name of an attribute. -/
def startsAttribute (c : Char) : Bool := c.isAlpha || c == ':' || c == '_'

/-- Whether a character goes on with the name of an attribute. -/
def inAttribute (c : Char) : Bool := startsAttribute c || isNameChar c || c == '.'

/-- What follows the attributes of a tag and its end. Fuel is the number of characters. -/
def afterAttributes : Nat → List Char → Option (List Char)
  | 0, _ => none
  | fuel + 1, cs =>
    match cs.dropWhile isGap with
    | '/' :: '>' :: rest => some rest
    | '>' :: rest => some rest
    | c :: cs =>
      if startsAttribute c then
        let rest := cs.dropWhile inAttribute
        match rest.dropWhile isGap with
        | '=' :: rest => (afterValue (rest.dropWhile isGap)).bind (afterAttributes fuel)
        | _ => afterAttributes fuel rest
      else none
    | [] => none

/-- What follows an opening tag behind its bracket. -/
def afterOpeningTag (cs : List Char) : Option (List Char) :=
  match cs with
  | c :: cs =>
    let rest := cs.dropWhile isNameChar
    if c.isAlpha && endsWord rest then afterAttributes (rest.length + 1) rest else none
  | [] => none

/-- What follows a closing tag behind its slash. -/
def afterClosingTag (cs : List Char) : Option (List Char) :=
  match cs with
  | c :: cs =>
    if c.isAlpha then
      match (cs.dropWhile isNameChar).dropWhile isGap with
      | '>' :: rest => some rest
      | _ => none
    else none
  | [] => none

/-- What follows markup behind its bracket. -/
def afterMarkup : List Char → Option (List Char)
  | '!' :: '-' :: '-' :: cs => afterPart "-->".toList ('-' :: '-' :: cs)
  | '!' :: '[' :: cs =>
    (Text.after? "CDATA[".toList cs).bind (afterPart "]]>".toList)
  | '!' :: c :: cs => if c.isAlpha then afterPart ['>'] cs else none
  | '?' :: cs => afterPart "?>".toList cs
  | '/' :: cs => afterClosingTag cs
  | cs => afterOpeningTag cs

/-- Whether a character may stand in a scheme. -/
def inScheme (c : Char) : Bool := c.isAlphanum || c == '+' || c == '-' || c == '.'

def schemedAddress? (cs : List Char) : Read :=
  let scheme := cs.takeWhile inScheme
  if cs.head?.any Char.isAlpha && 2 ≤ scheme.length && scheme.length ≤ 32 then
    match cs.dropWhile inScheme with
    | ':' :: rest =>
      let isInside (c : Char) : Bool := !(c == '>' || c == '<' || c == ' ' || isControl c)
      match rest.dropWhile isInside with
      | '>' :: after => some (scheme ++ ':' :: rest.takeWhile isInside, after)
      | _ => none
    | _ => none
  else none

/-- Whether a character may stand before the at sign of a mail address. -/
def inMailName (c : Char) : Bool :=
  c.isAlphanum || "!#$%&'*+-./=?^_\x60\x7b|\x7d~".toList.contains c

/-- Whether some text is a part of the name of a host. -/
def isHostPart (cs : List Char) : Bool :=
  cs.all isNameChar && cs.length ≤ 63 && cs.head?.any (· != '-') && cs.getLast?.any (· != '-')

def mailAddress? (cs : List Char) : Read :=
  let name := cs.takeWhile inMailName
  match cs.dropWhile inMailName with
  | '@' :: rest =>
    let host := rest.takeWhile (· != '>')
    match rest.dropWhile (· != '>') with
    | '>' :: after =>
      if !name.isEmpty && (Text.pieces '.' host).all isHostPart then
        some (name ++ '@' :: host, after)
      else none
    | _ => none
  | _ => none

/-- Elements whose content is not read as Markdown, up to their closing tag. -/
def verbatimNames : List String := ["pre", "script", "style", "textarea"]

/-- Elements that begin a block of hypertext. -/
def htmlBlockNames : List String :=
  ["address", "article", "aside", "base", "basefont", "blockquote", "body", "caption", "center",
    "col", "colgroup", "dd", "details", "dialog", "dir", "div", "dl", "dt", "fieldset",
    "figcaption", "figure", "footer", "form", "frame", "frameset", "h1", "h2", "h3", "h4", "h5",
    "h6", "head", "header", "hr", "html", "iframe", "legend", "li", "link", "main", "menu",
    "menuitem", "nav", "noframes", "ol", "optgroup", "option", "p", "param", "search", "section",
    "summary", "table", "tbody", "td", "tfoot", "th", "thead", "title", "tr", "track", "ul"]

/-- What ends a block of hypertext. -/
inductive HtmlEnd
  | blankLine
  /-- A line that holds one of some parts, in letters of either case. -/
  | line (parts : List String)
deriving DecidableEq, Repr

/-- What ends the block that a tag begins, given what follows its bracket or its slash. -/
def tagBlockEnd? (interrupts isClosing : Bool) (cs : List Char) : Option HtmlEnd :=
  let name := Text.lowerAscii (String.ofList (cs.takeWhile isNameChar))
  let rest := cs.dropWhile isNameChar
  if !cs.head?.any Char.isAlpha || !(rest.isEmpty || endsWord rest) then none
  else if !isClosing && rest.head? != some '/' && verbatimNames.contains name then
    some (.line (verbatimNames.map fun name => "</" ++ name ++ ">"))
  else if htmlBlockNames.contains name then
    if rest.head? = some '/' then
      if rest.tail.head? = some '>' then some .blankLine else none
    else some .blankLine
  else if interrupts then none
  else
    let after := if isClosing then afterClosingTag cs else afterOpeningTag cs
    if after.any fun rest => rest.all isSpace then some .blankLine else none

/-- What ends the block of hypertext that a line begins behind its bracket. -/
def htmlBlockEnd? (interrupts : Bool) : List Char → Option HtmlEnd
  | '!' :: '-' :: '-' :: _ => some (.line ["-->"])
  | '!' :: '[' :: cs =>
    if (Text.after? "CDATA[".toList cs).isSome then some (.line ["]]>"]) else none
  | '!' :: c :: _ => if c.isAlpha then some (.line [">"]) else none
  | '?' :: _ => some (.line ["?>"])
  | '/' :: cs => tagBlockEnd? interrupts true cs
  | cs => tagBlockEnd? interrupts false cs

/-- Whether a line is the last one of a block of hypertext that does not end with a blank line. -/
def HtmlEnd.isIn (ending : HtmlEnd) (line : List Char) : Bool :=
  match ending with
  | .blankLine => false
  | .line parts =>
    parts.any fun part => Text.occurs part.toList (line.map Char.toLower)

end Mailroom.Markdown
