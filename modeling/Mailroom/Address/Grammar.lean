import Mailroom.Address.Contact
import Mailroom.Text.Blank

/-! The grammar of address headers. Rules choose the first alternative that fits and never come
back to a choice that was made. Each rule gives the meaning of what it reads: comments and quotes
are left out, a gap between words is one blank. The strict form is tried by itself first; the lax
form also knows older spellings, such as empty list items, routes and single control characters.
Characters beyond ASCII count as letters. -/

namespace Mailroom.Address

open Mailroom.Text

/-- A rule takes characters from the front, or does not fit. -/
abbrev Rule (α : Type) := StateT (List Char) Option α

/-- One character of a class. -/
def one (p : Char → Bool) : Rule Char := fun cs =>
  match cs with
  | c :: rest => if p c then some (c, rest) else none
  | [] => none

/-- One given character. -/
def lit (c : Char) : Rule (List Char) := do
  let c ← one (· == c)
  return [c]

/-- Nothing, if the rule does not fit. -/
def maybe (r : Rule (List Char)) : Rule (List Char) := r <|> pure []

/-- The rule as often as it fits; fuel bounds the times. -/
def repeatedly {α : Type} (r : Rule α) : Nat → Rule (List α)
  | 0 => return []
  | fuel + 1 =>
    (do
      let a ← r
      let rest ← repeatedly r fuel
      return a :: rest) <|> pure []

/-- The rule as often as it fits. A rule that fits takes a character, so there are no more times
than characters. -/
def many {α : Type} (r : Rule α) : Rule (List α) := fun cs => repeatedly r cs.length cs

/-- The rule once or more. -/
def some1 {α : Type} (r : Rule α) : Rule (List α) := do
  let a ← r
  let rest ← many r
  return a :: rest

/-- The meanings of many one after the other. -/
def manyText (r : Rule (List Char)) : Rule (List Char) := do return (← many r).flatten

/-- Characters beyond ASCII. -/
def isWide (c : Char) : Bool := 128 ≤ c.toNat

/-- A character whose code lies within some bounds, or beyond ASCII. -/
def within (bounds : List (Nat × Nat)) (c : Char) : Bool :=
  bounds.any (fun b => b.1 ≤ c.toNat && c.toNat ≤ b.2) || isWide c

def isVisible (c : Char) : Bool := within [(0x21, 0x7E)] c

/-- A blank or a tab. -/
def isSpace (c : Char) : Bool := c = ' ' || c = '\t'

/-- Control characters that older headers may hold. -/
def isOldControl (c : Char) : Bool :=
  let n := c.toNat
  (1 ≤ n && n ≤ 8) || n = 11 || n = 12 || (14 ≤ n && n ≤ 31) || n = 127

/-- Letters of words that need no quotes. -/
def isAtomLetter (c : Char) : Bool :=
  c.isAlphanum || "!#$%&'*+-/=?^_\x60\x7b|\x7d~".toList.contains c || isWide c

/-- Which spellings are read. -/
structure Dialect where
  /-- Whether older spellings are read. -/
  lax : Bool

variable (d : Dialect)

/-- A rule of the lax form. -/
def older {α : Type} (r : Rule α) : Rule α := if d.lax then r else failure

def lineEnd : Rule (List Char) := do
  let _ ← lit '\r'
  lit '\n'

/-- A character behind a backslash; the backslash has no meaning. -/
def quotedPair : Rule (List Char) := do
  let _ ← lit '\\'
  let c ← one fun c => isVisible c || isSpace c
    || (d.lax && (c.toNat = 0 || isOldControl c || c = '\n' || c = '\r'))
  return [c]

/-- Blanks, at most one line end among them that more blanks follow. In the lax form a line end
may stand before every blank. -/
def blanks : Rule (List Char) :=
  older d (do
    let _ ← some1 (do
      let _ ← maybe lineEnd
      one isSpace)
    return [' ']) <|>
  (do
    let _ ← maybe (do
      let _ ← many (one isSpace)
      lineEnd)
    let _ ← some1 (one isSpace)
    return [' '])

/-- A comment in round brackets; comments nest. Fuel bounds the depth. -/
def comment : Nat → Rule (List Char)
  | 0 => failure
  | fuel + 1 => do
    let _ ← lit '('
    let _ ← many (do
      let _ ← maybe (blanks d)
      (do
        let _ ← one fun c => within [(33, 39), (42, 91), (93, 126)] c || (d.lax && isOldControl c)
        return []) <|> quotedPair d <|> comment fuel)
    let _ ← maybe (blanks d)
    let _ ← lit ')'
    return [' ']

/-- Blanks and comments: one blank in meaning. -/
def gap : Rule (List Char) := fun cs =>
  ((do
    let _ ← some1 (do
      let _ ← maybe (blanks d)
      comment d cs.length)
    let _ ← maybe (blanks d)
    return [' ']) <|> blanks d) cs

/-- A gap without meaning, if there is one. -/
def silent : Rule Unit := do
  let _ ← maybe (gap d)
  return ()

/-- A word without quotes. -/
def atom : Rule (List Char) := do
  let before ← maybe (gap d)
  let letters ← some1 (one isAtomLetter)
  let after ← maybe (gap d)
  return before ++ letters ++ after

/-- Words without quotes between points. -/
def dotAtom : Rule (List Char) := do
  silent d
  let first ← some1 (one isAtomLetter)
  let rest ← manyText (do
    let point ← lit '.'
    return point ++ (← some1 (one isAtomLetter)))
  silent d
  return first ++ rest

def quotedString : Rule (List Char) := do
  silent d
  let _ ← lit '"'
  let content ← manyText (do
    let before ← maybe (blanks d)
    let c ← (do
      let c ← one fun c => within [(33, 33), (35, 91), (93, 126)] c || (d.lax && isOldControl c)
      return [c]) <|> quotedPair d
    return before ++ c)
  let _ ← maybe (blanks d)
  let _ ← lit '"'
  silent d
  return content

/-- A word, in quotes or not. -/
def word : Rule (List Char) := atom d <|> quotedString d

/-- One word or more; in the lax form points and gaps may stand between them. -/
def phrase : Rule (List Char) :=
  older d (do
    let first ← word d
    let rest ← manyText (word d <|> lit '.' <|> gap d)
    return first ++ rest) <|>
  (do return (← some1 (word d)).flatten)

/-- Runs of blanks, tabs and line ends as single blanks. -/
def collapse : List Char → List Char
  | [] => []
  | '\r' :: '\n' :: rest => ' ' :: collapse rest
  | '\t' :: rest => ' ' :: collapse rest
  | c :: rest => c :: collapse rest

/-- Every run of blanks made into one. -/
def singleBlanks : List Char → List Char
  | ' ' :: rest =>
    match singleBlanks rest with
    | ' ' :: more => ' ' :: more
    | more => ' ' :: more
  | c :: rest => c :: singleBlanks rest
  | [] => []

/-- The name in front of an address or of a group. -/
def displayName : Rule (List Char) := do
  let words ← phrase d
  return trimRight (trimLeft (singleBlanks (collapse words)))

/-- The part of an address before the sign. -/
def localPart : Rule (List Char) :=
  older d (do
    let first ← word d
    let rest ← manyText (do
      let point ← lit '.'
      return point ++ (← word d))
    return first ++ rest) <|> dotAtom d <|> quotedString d

/-- A domain in square brackets. -/
def domainLiteral : Rule (List Char) := do
  silent d
  let opening ← lit '['
  let content ← manyText (do
    let _ ← maybe (blanks d)
    (do
      let c ← one fun c => within [(33, 90), (94, 126)] c || (d.lax && isOldControl c)
      return [c]) <|> older d (quotedPair d))
  let _ ← maybe (blanks d)
  let closing ← lit ']'
  silent d
  return opening ++ content ++ closing

/-- The part of an address after the sign; it has no blanks in meaning. -/
def domain : Rule (List Char) := do
  let cs ← older d (do
    let first ← atom d
    let rest ← manyText (do
      let point ← lit '.'
      return point ++ (← atom d))
    return first ++ rest) <|> dotAtom d <|> domainLiteral d
  return cs.filter fun c => !isBlank c

/-- An address without a name. -/
def address : Rule (List Char) := do
  let before ← localPart d
  let sign ← lit '@'
  let after ← domain d
  return before ++ sign ++ after

/-- Domains that older headers route an address through. -/
def route : Rule (List Char) := do
  let _ ← many (gap d <|> lit ',')
  let _ ← lit '@'
  let _ ← domain d
  let _ ← many (do
    let _ ← lit ','
    silent d
    maybe (do
      let _ ← lit '@'
      domain d))
  lit ':'

def angleAddress : Rule (List Char) :=
  (do
    silent d
    let _ ← lit '<'
    let cs ← address d
    let _ ← lit '>'
    silent d
    return cs) <|>
  older d (do
    silent d
    let _ ← lit '<'
    let _ ← route d
    let cs ← address d
    let _ ← lit '>'
    silent d
    return cs)

def nameOf (cs : List Char) : Option String :=
  if cs.isEmpty then none else some (String.ofList cs)

/-- An address with or without a name. -/
def mailbox : Rule Contact :=
  (do
    let name ← maybe (displayName d)
    let cs ← angleAddress d
    return ⟨nameOf name, String.ofList cs⟩) <|>
  (do return ⟨none, String.ofList (← address d)⟩)

/-- Items between commas. The lax form may begin with empty items, and go on with them. -/
def listOf {α : Type} (item : Rule α) : Rule (List α) :=
  (do
    let first ← item
    let rest ← many (do
      let _ ← lit ','
      item)
    return first :: rest) <|>
  older d (do
    let _ ← many (do
      silent d
      lit ',')
    let first ← item
    let rest ← many (do
      let _ ← lit ','
      (do
        let a ← item
        let _ ← gap d
        return [a]) <|> pure [])
    return first :: rest.flatten)

/-- One entry of a header: a contact, or the members of a group. -/
inductive Entry
  | single (contact : Contact)
  | group (members : List Contact)
deriving Repr

def Entry.contacts : Entry → List Contact
  | single c => [c]
  | group members => members

/-- A named group of contacts. -/
def group : Rule Entry := do
  let _ ← displayName d
  let _ ← lit ':'
  let members ←
    listOf d (mailbox d) <|>
    (do
      let _ ← gap d
      return []) <|>
    older d (do
      let _ ← some1 (do
        silent d
        lit ',')
      silent d
      return []) <|>
    pure []
  let _ ← lit ';'
  silent d
  return .group members

/-- A contact or a group. -/
def entry : Rule Entry := (do return .single (← mailbox d)) <|> group d

def recipients : Rule (List Entry) := listOf d (entry d)

/-- The entries of a header of senders: contacts only, or anything. -/
def senders : Rule (List Entry) :=
  (do return (← listOf d (mailbox d)).map .single) <|> recipients d

/-- What a whole text means by a rule: by its strict form, or else by its lax one. -/
def whole {α : Type} (r : Dialect → Rule α) (s : String) : Option α :=
  match r ⟨false⟩ s.toList with
  | some (a, []) => some a
  | _ =>
    match r ⟨true⟩ s.toList with
    | some (a, []) => some a
    | _ => none

/-- The first sender of a header; of a group, its first member. -/
def sender? (header : String) : Option Contact :=
  if isBlankText header then none
  else (whole senders header).bind fun entries => entries.head?.bind fun e => e.contacts.head?

/-- The recipients of a header, groups taken apart; none if the header cannot be read. -/
def recipientsOf (header : String) : List Contact :=
  if isBlankText header then []
  else ((whole recipients header).getD []).flatMap Entry.contacts

end Mailroom.Address
