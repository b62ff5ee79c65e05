import Mailroom.Markdown.Mark

/-! Guarding text: characters that would mean something where they stand are escaped, and only
those. -/

namespace Mailroom.Markdown

/-- What a text stands in. -/
inductive Place
  | phrasing
  | heading
  | label
  | reference
  | address
  /-- A destination between angle brackets. -/
  | enclosed
  /-- A destination without brackets. -/
  | bare
  | title
  | language
  | extra
deriving DecidableEq, Repr

/-- A character that means something at some places. -/
structure Danger where
  char : Char
  /-- Whether it depends on what stands before it. -/
  looksBack : Bool := false
  /-- Whether it depends on what stands behind it. -/
  looksAhead : Bool := false
  /-- Whether it means something between the characters before it, last first, and those behind. -/
  fits : List Char → List Char → Bool := fun _ _ => true
  /-- The places; none stands for all. -/
  places : List Place := []
  /-- The places where it means nothing all the same. -/
  exceptions : List Place := []

/-- A line end. -/
def isBreak (c : Char) : Bool := c == '\n' || c == '\r'

/-- Whether a line begins behind the characters. -/
def atLineStart (before : List Char) : Bool :=
  (before.dropWhile fun c => c == '\t' || c == ' ').head?.any isBreak

/-- Whether a line begins before the number that ends the characters. -/
def afterNumber (before : List Char) : Bool :=
  before.head?.any Char.isDigit && atLineStart (before.dropWhile Char.isDigit)

/-- Whether the characters begin with one of a kind. -/
def beginsWith (isFit : Char → Bool) (cs : List Char) : Bool := cs.head?.any isFit

/-- Whether the characters begin with one of a kind or are over. -/
def beginsWithOrEnds (isFit : Char → Bool) (cs : List Char) : Bool := cs.head?.all isFit

/-- Whether an underscore between the characters is inside a word. -/
def isInsideWord (before after : List Char) : Bool :=
  besideOf before.head? == .letter && besideOf after.head? == .letter

/-- The places in which spans mean nothing. -/
def spanless : List Place := [.address, .enclosed, .bare, .reference, .title]

def atStart (char : Char) : Danger :=
  { char, looksBack := true, fits := fun before _ => atLineStart before }

def atStartBefore (char : Char) (isFit : List Char → Bool) : Danger :=
  { char, looksBack := true, looksAhead := true
    fits := fun before after => atLineStart before && isFit after }

/-- A danger in running text. -/
def inPhrasing (char : Char) : Danger := { char, places := [.phrasing], exceptions := spanless }

/-- A danger wherever it stands in some places. -/
def inPlaces (char : Char) (places : List Place) : Danger := { char, places }

/-- Blanks beside a line end in running text. -/
def blankDangers (char : Char) : List Danger :=
  [{ char, looksAhead := true, fits := fun _ after => beginsWith isBreak after
     places := [.phrasing] },
    { char, looksBack := true, fits := fun before _ => before.head?.any isBreak
      places := [.phrasing] },
    inPlaces char [.language]]

/-- A character of a kind that begins markup behind an angle bracket. -/
def beginsMarkup (c : Char) : Bool := c == '!' || c == '/' || c == '?' || c.isAlpha

/-- A line end or a space. -/
def isGapChar (c : Char) : Bool := c == ' ' || c == '\t' || isBreak c

def dangers : List Danger :=
  blankDangers '\t' ++ blankDangers ' ' ++
    [inPlaces '\r' [.language, .extra, .enclosed, .heading],
      inPlaces '\n' [.language, .extra, .enclosed, .heading],
      { char := '!', looksAhead := true, fits := fun _ after => beginsWith (· == '[') after
        places := [.phrasing], exceptions := spanless },
      inPlaces '"' [.title],
      atStart '#',
      { char := '#', looksAhead := true, fits := fun _ after => beginsWithOrEnds isBreak after
        places := [.heading] },
      { char := '&', looksAhead := true
        fits := fun _ after => beginsWith (fun c => c == '#' || c.isAlpha) after
        places := [.phrasing] },
      inPlaces '(' [.bare],
      { char := '(', looksBack := true, fits := fun before _ => before.head? == some ']'
        places := [.phrasing], exceptions := spanless },
      { char := ')', looksBack := true, fits := fun before _ => afterNumber before },
      inPlaces ')' [.bare],
      atStartBefore '*' (beginsWith fun c => isGapChar c || c == '*'),
      inPhrasing '*',
      atStartBefore '+' (beginsWith isGapChar),
      atStartBefore '-' (beginsWith fun c => isGapChar c || c == '-'),
      { char := '.', looksBack := true, looksAhead := true
        fits := fun before after => afterNumber before && beginsWithOrEnds isGapChar after },
      atStartBefore '<' (beginsWith beginsMarkup),
      { char := '<', looksAhead := true, fits := fun _ after => beginsWith beginsMarkup after
        places := [.phrasing], exceptions := spanless },
      inPlaces '<' [.enclosed],
      atStart '=',
      atStart '>',
      inPlaces '>' [.enclosed],
      atStart '[',
      inPhrasing '[',
      inPlaces '[' [.label, .reference],
      { char := '\\', looksAhead := true, fits := fun _ after => beginsWith isBreak after
        places := [.phrasing] },
      inPlaces ']' [.label, .reference],
      atStart '_',
      { char := '_', fits := fun before after => !isInsideWord before after
        places := [.phrasing], exceptions := spanless },
      atStart '\x60',
      inPlaces '\x60' [.language, .extra],
      inPhrasing '\x60',
      atStart '~']

/-- Whether a danger matters in some places, of which one is inside the other. -/
def Danger.isIn (d : Danger) (places : List Place) : Bool :=
  (d.places.isEmpty || d.places.any places.contains) && !d.exceptions.any places.contains

/-- What makes a character dangerous: whether all that does depends on what is before it, and
whether all that does depends on what is behind it. -/
structure Hit where
  looksBack : Bool
  looksAhead : Bool
deriving DecidableEq, Repr

/-- What makes a character dangerous in some places. -/
def hit? (places : List Place) (before : List Char) (c : Char) (after : List Char) : Option Hit :=
  match dangers.filter fun d => d.char == c && d.isIn places && d.fits before after with
  | [] => none
  | found => some ⟨found.all Danger.looksBack, found.all Danger.looksAhead⟩

/-- What makes the characters dangerous, one by one. -/
def hits (places : List Place) (before : List Char) : List Char → List (Option Hit)
  | [] => []
  | c :: cs => hit? places before c cs :: hits places (c :: before) cs

/-- Whether a character is dangerous by itself. -/
def isSure (h : Option Hit) : Bool := h.any fun h => !h.looksBack && !h.looksAhead

/-- A character written by its number. -/
def numbered (c : Char) : List Char :=
  "&#x".toList ++ (Nat.toDigits 16 c.toNat).map Char.toUpper ++ [';']

/-- A dangerous character made safe. -/
def guarded (unescaped : List Char) (c : Char) : List Char :=
  if Text.isAsciiPunctuation c && !unescaped.contains c then ['\\', c] else numbered c

/-- Whether a character is made safe, given its neighbours: one that depends on a neighbour is safe
if that neighbour is made safe anyway. -/
def isGuarded (before here after : Option Hit) : Bool :=
  match here with
  | none => false
  | some h => !((h.looksAhead && isSure after) || (h.looksBack && isSure before))

/-- The characters of a text made safe, given what made the character before dangerous, what makes
the rest so, and what follows the text. -/
def guardAll (unescaped after : List Char) (last : Option Hit) :
    List (Option Hit) → List Char → List Char
  | h :: hs, c :: cs =>
    let next := if cs.isEmpty then none else hs.head?.join
    let nextIsGuarded := !cs.isEmpty &&
      isGuarded h (hs.head?.join) (if cs.tail.isEmpty then none else hs.tail.head?.join)
    let here :=
      if isGuarded last h next then guarded unescaped c
      else if c = '\\' && (nextIsGuarded || (cs ++ after).head?.any Text.isAsciiPunctuation) then
        ['\\', '\\']
      else [c]
    here ++ guardAll unescaped after h hs cs
  | _, cs => cs

/-- A text made safe between others in some places; characters of the first list are not escaped but
written by their numbers. -/
def guardText (unescaped : List Char) (places : List Place) (before after cs : List Char) :
    List Char :=
  let found := hits places [] (before ++ cs ++ after)
  guardAll unescaped after ((found.take before.length).getLast?.join) (found.drop before.length) cs

/-- A text made safe between others in some places. -/
def safe (places : List Place) (before after cs : List Char) : List Char :=
  guardText [] places before after cs

end Mailroom.Markdown
