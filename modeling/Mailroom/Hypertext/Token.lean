import Mailroom.Hypertext.Reference

/-! Tokens of hypertext: texts, opening and closing tags, and the start of the next line that some
tags swallow. Comments, declarations and instructions leave no token, and neither does a tag that
is cut off by the end. -/

namespace Mailroom.Hypertext

/-- An element: a name in small letters and attributes, each once. -/
structure Element where
  name : String
  attributes : List (String × String) := []
  /-- Whether it belongs to an embedded language of drawings or formulas. -/
  isForeign : Bool := false
deriving DecidableEq, Repr, Inhabited

def Element.attribute? (e : Element) (name : String) : Option String := e.attributes.lookup name

/-- A token. -/
inductive Token
  | text (chars : List Char)
  | opening (element : Element) (isEmpty : Bool)
  | closing (name : String)
deriving DecidableEq, Repr

def isTagSpace (c : Char) : Bool :=
  c == ' ' || c == '\t' || c == '\n' || c == '\x0c' || c == '\r'

def withLineFeeds : List Char → List Char
  | '\r' :: '\n' :: cs => '\n' :: withLineFeeds cs
  | '\r' :: cs => '\n' :: withLineFeeds cs
  | c :: cs => c :: withLineFeeds cs
  | [] => []

/-- What follows the first character of a kind. -/
def afterFirst (isEnd : Char → Bool) (cs : List Char) : List Char :=
  (cs.dropWhile fun c => !isEnd c).tail

def afterComment : List Char → List Char
  | '-' :: '-' :: '>' :: cs => cs
  | '-' :: '-' :: '!' :: '>' :: cs => cs
  | _ :: cs => afterComment cs
  | [] => []

/-- What follows a comment whose opening is over; it may end at once. -/
def afterOpenedComment : List Char → List Char
  | '>' :: cs => cs
  | '-' :: '>' :: cs => cs
  | cs => afterComment cs

/-- Small letters for the capitals of ASCII. -/
def lowered (cs : List Char) : String := Text.lowerAscii (String.ofList cs)

/-- A value and what follows it; one without quotes ends at white space or with the tag. -/
def valueOf : List Char → List Char × List Char
  | '"' :: cs => (cs.takeWhile (· != '"'), afterFirst (· == '"') cs)
  | '\'' :: cs => (cs.takeWhile (· != '\''), afterFirst (· == '\'') cs)
  | cs =>
    let isEnd (c : Char) : Bool := isTagSpace c || c == '>'
    (cs.takeWhile fun c => !isEnd c, cs.dropWhile fun c => !isEnd c)

/-- The name of an attribute and what follows it; an equals sign in front belongs to it. -/
def attributeName : List Char → List Char × List Char
  | [] => ([], [])
  | c :: cs =>
    let isEnd (c : Char) : Bool := isTagSpace c || c == '>' || c == '/' || c == '='
    (c :: cs.takeWhile fun c => !isEnd c, cs.dropWhile fun c => !isEnd c)

/-- Attributes with one more, unless its name is taken. -/
def addAttribute (attributes : List (String × String)) (name value : List Char) :
    List (String × String) :=
  let name := lowered name
  if (attributes.lookup name).isSome then attributes
  else attributes ++ [(name, String.ofList (resolved true value))]

/-- The attributes up to the end of a tag, whether a slash stands before that end, and what
follows; nothing if there is no end. -/
def tagRest (attributes : List (String × String)) :
    Nat → List Char → Option (List (String × String) × Bool × List Char)
  | 0, _ => none
  | fuel + 1, cs =>
    match cs.dropWhile isTagSpace with
    | [] => none
    | '>' :: rest => some (attributes, false, rest)
    | '/' :: '>' :: rest => some (attributes, true, rest)
    | '/' :: rest => tagRest attributes fuel rest
    | cs =>
      let (name, rest) := attributeName cs
      match rest.dropWhile isTagSpace with
      | '=' :: rest =>
        let rest := rest.dropWhile isTagSpace
        if rest.head? = some '>' then tagRest (addAttribute attributes name []) fuel rest
        else
          let (value, rest) := valueOf rest
          tagRest (addAttribute attributes name value) fuel rest
      | _ => tagRest (addAttribute attributes name []) fuel rest

/-- The name of a tag, its attributes, whether a slash stands before its end, and what follows. -/
def tag? (cs : List Char) : Option (Element × Bool × List Char) :=
  let isEnd (c : Char) : Bool := isTagSpace c || c == '>' || c == '/'
  let name := lowered (cs.takeWhile fun c => !isEnd c)
  (tagRest [] (cs.length + 1) (cs.dropWhile fun c => !isEnd c)).map
    fun (attributes, isEmpty, rest) => (⟨name, attributes, false⟩, isEmpty, rest)

/-- Elements whose content is text without tags. -/
def rawNames : List String := ["style", "xmp", "iframe", "noembed", "noframes", "noscript", "script"]

/-- Elements whose content is text without tags but with references. -/
def semiRawNames : List String := ["title", "textarea"]

/-- Whether a closing tag of that name stands in front. -/
def closesHere (name : String) : List Char → Bool
  | '<' :: '/' :: cs =>
    lowered (cs.take name.length) == name &&
      match cs.drop name.length with
      | c :: _ => isTagSpace c || c == '/' || c == '>'
      | [] => false
  | _ => false

/-- The text up to the closing tag of that name, and the rest from there. -/
def rawText (name : String) : List Char → List Char × List Char
  | [] => ([], [])
  | c :: cs =>
    if closesHere name (c :: cs) then ([], c :: cs)
    else
      let (text, rest) := rawText name cs
      (c :: text, rest)

/-- What follows an opening tag without being read as tags: a token, and the rest. -/
def rawContent (name : String) (cs : List Char) : List Token × List Char :=
  if rawNames.contains name then
    let (text, rest) := rawText name cs
    ([.text text], rest)
  else if semiRawNames.contains name then
    let (text, rest) := rawText name cs
    ([.text (resolved false text)], rest)
  else if name = "plaintext" then ([.text cs], [])
  else ([], cs)

def startsWithLetter (cs : List Char) : Bool := (cs.head?.map Char.isAlpha).getD false

/-- The tokens at a less-than sign, given what follows it, and the rest; nothing if the sign
stands for itself. -/
def markup? (cs : List Char) : Option (List Token × List Char) :=
  match cs with
  | '!' :: '-' :: '-' :: rest => some ([], afterOpenedComment rest)
  | '!' :: rest => some ([], afterFirst (· == '>') rest)
  | '?' :: rest => some ([], afterFirst (· == '>') rest)
  | '/' :: rest =>
    if startsWithLetter rest then
      match tag? rest with
      | some (e, _, rest) => some ([.closing e.name], rest)
      | none => some ([], [])
    else if rest.isEmpty then none
    else some ([], afterFirst (· == '>') rest)
  | cs =>
    if startsWithLetter cs then
      match tag? cs with
      | some (e, isEmpty, rest) =>
        let (content, rest) := rawContent e.name rest
        some (.opening e isEmpty :: content, rest)
      | none => some ([], [])
    else none

/-- Text in front of tokens, joined with theirs. -/
def addText (cs : List Char) : List Token → List Token
  | .text others :: rest => .text (cs ++ others) :: rest
  | tokens => if cs.isEmpty then tokens else .text cs :: tokens

/-- The tokens of some characters. Fuel is their number. -/
def tokens : Nat → List Char → List Token
  | 0, _ => []
  | _ + 1, [] => []
  | fuel + 1, '<' :: cs =>
    match markup? cs with
    | some (found, rest) => found ++ tokens fuel rest
    | none => addText ['<'] (tokens fuel cs)
  | fuel + 1, c :: cs =>
    let text := (c :: cs).takeWhile (· != '<')
    addText (resolved false text) (tokens fuel ((c :: cs).dropWhile (· != '<')))

def tokensOf (cs : List Char) : List Token :=
  let cs := withLineFeeds cs
  tokens (cs.length + 1) cs

end Mailroom.Hypertext
