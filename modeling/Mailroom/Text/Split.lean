/-! Cutting texts apart at a separator and replacing parts of them. -/

namespace Mailroom.Text

/-- The pieces between the separators; one more than there are separators. -/
def pieces (separator : Char) : List Char → List (List Char)
  | [] => [[]]
  | c :: rest =>
    if c = separator then [] :: pieces separator rest
    else match pieces separator rest with
      | [] => [[c]]
      | piece :: more => (c :: piece) :: more

/-- The text cut at every separator. -/
def split (separator : Char) (s : String) : List String :=
  (pieces separator s.toList).map String.ofList

/-- The rest of `cs` after `start`, if `cs` begins with it. -/
def after? (start : List Char) (cs : List Char) : Option (List Char) :=
  if start.isPrefixOf cs then some (cs.drop start.length) else none

/-- Whether `part` occurs in the list. -/
def occurs (part : List Char) : List Char → Bool
  | [] => part.isEmpty
  | c :: rest => part.isPrefixOf (c :: rest) || occurs part rest

/-- Whether `part` occurs in the text. -/
def contains (s part : String) : Bool :=
  occurs part.toList s.toList

/-- Whether the text begins with `start`. -/
def startsWith (s start : String) : Bool :=
  start.toList.isPrefixOf s.toList

/-- ASCII letters in lower case, everything else as it is. -/
def lowerAscii (s : String) : String :=
  String.ofList (s.toList.map Char.toLower)

theorem pieces_ne_nil (separator : Char) (cs : List Char) : pieces separator cs ≠ [] := by
  cases cs with
  | nil => simp [pieces]
  | cons c rest =>
    by_cases h : c = separator
    · simp [pieces, h]
    · simp only [pieces, h, if_false]
      split <;> simp

end Mailroom.Text
