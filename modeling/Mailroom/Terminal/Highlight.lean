import Mailroom.Terminal.Paint
import Mailroom.Text.Blank

/-! Highlighting of documents: the key at the front of a line is dimmed, and a dash before it is
cyan. Keys of other characters than letters, digits, underscores and blanks stay as they are. -/

namespace Mailroom.Terminal

/-- A letter, a digit or an underscore, in ASCII. -/
def isWordChar (c : Char) : Bool := c.isAlphanum || c == '_'

def highlightLine (line : List Char) : List Char :=
  let indent := line.takeWhile Text.isBlank
  let (dash, rest) := match line.dropWhile Text.isBlank with
    | '-' :: ' ' :: rest => (cyan.chars ['-', ' '], rest)
    | rest => ([], rest)
  let isKeyChar (c : Char) : Bool := isWordChar c || c == ' '
  match rest.takeWhile isKeyChar, rest.dropWhile isKeyChar with
  | c :: key, ':' :: after =>
    if isWordChar c then indent ++ dash ++ dim.chars (c :: key) ++ dim.chars [':'] ++ after
    else line
  | _, _ => line

def highlight (document : String) : String :=
  String.ofList (['\n'].intercalate ((Text.pieces '\n' document.toList).map highlightLine))

end Mailroom.Terminal
