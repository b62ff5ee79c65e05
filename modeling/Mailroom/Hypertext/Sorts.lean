/-! Sorts of elements: which of them stand for themselves, which end others, and which bound the
search for an open one. -/

namespace Mailroom.Hypertext

/-- Elements without content. -/
def emptyNames : List String :=
  ["area", "base", "basefont", "bgsound", "br", "col", "embed", "frame", "hr", "img", "input",
    "keygen", "link", "meta", "param", "source", "track", "wbr"]

def headingNames : List String := ["h1", "h2", "h3", "h4", "h5", "h6"]

/-- Elements that set off their content and end a paragraph before them. -/
def divisionNames : List String :=
  ["address", "article", "aside", "blockquote", "center", "details", "dir", "div", "dl",
    "fieldset", "figcaption", "figure", "footer", "header", "hgroup", "main", "menu", "nav", "ol",
    "p", "section", "summary", "ul"]

/-- Elements that form text and are opened anew where their content goes on. -/
def formattingNames : List String :=
  ["a", "b", "big", "code", "em", "font", "i", "nobr", "s", "small", "strike", "strong", "tt", "u"]

/-- Elements that the closing tag of another element does not reach over. -/
def specialNames : List String :=
  divisionNames ++ headingNames ++ emptyNames ++
    ["applet", "body", "button", "caption", "colgroup", "dd", "dt", "form", "frameset", "head",
      "html", "iframe", "li", "listing", "marquee", "noembed", "noframes", "noscript", "object",
      "plaintext", "pre", "script", "select", "style", "table", "tbody", "td", "template",
      "textarea", "tfoot", "th", "thead", "title", "tr", "xmp"]

/-- Elements that bound the search for an open element. -/
def boundaryNames : List String :=
  ["applet", "caption", "html", "table", "td", "th", "marquee", "object", "template"]

/-- Elements that are closed without a tag where that is needed. -/
def impliedNames : List String :=
  ["dd", "dt", "li", "optgroup", "option", "p", "rb", "rp", "rt", "rtc"]

def tableBodyNames : List String := ["tbody", "tfoot", "thead"]

/-- Elements directly in which no text of a table may stand. -/
def tableStructureNames : List String := ["table", "tbody", "tfoot", "thead", "tr"]

def tablePartNames : List String :=
  ["caption", "col", "colgroup", "tbody", "td", "tfoot", "th", "thead", "tr"]

/-- Elements that end an embedded language. -/
def breakoutNames : List String :=
  ["b", "big", "blockquote", "body", "br", "center", "code", "dd", "div", "dl", "dt", "em", "embed",
    "h1", "h2", "h3", "h4", "h5", "h6", "head", "hr", "i", "img", "li", "listing", "menu", "meta",
    "nobr", "ol", "p", "pre", "ruby", "s", "small", "span", "strong", "strike", "sub", "sup",
    "table", "tt", "u", "ul", "var"]

/-- Elements of an embedded language that hold hypertext again. -/
def integrationNames : List String :=
  ["foreignobject", "desc", "title", "mi", "mo", "mn", "ms", "mtext", "annotation-xml"]

end Mailroom.Hypertext
