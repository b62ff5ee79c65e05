/-! Blanks: the characters that trimming removes and that stand between words. The class is the
one of the space separators, the line ends, the tab family and the byte order mark; a zero-width
space and the next-line control are not in it. -/

namespace Mailroom.Text

/-- The characters that count as white space. -/
def isBlank (c : Char) : Bool :=
  let n := c.toNat
  (0x09 ≤ n && n ≤ 0x0D) || n == 0x20 || n == 0xA0 || n == 0x1680 || (0x2000 ≤ n && n ≤ 0x200A)
    || n == 0x2028 || n == 0x2029 || n == 0x202F || n == 0x205F || n == 0x3000 || n == 0xFEFF

def trimLeft (cs : List Char) : List Char :=
  cs.dropWhile isBlank

def trimRight (cs : List Char) : List Char :=
  (cs.reverse.dropWhile isBlank).reverse

/-- The text without blanks at either end. -/
def trim (s : String) : String :=
  String.ofList (trimRight (trimLeft s.toList))

/-- Whether the text holds a blank anywhere. -/
def hasBlank (s : String) : Bool :=
  s.toList.any isBlank

/-- The first run of non-blank characters, empty if there is none. -/
def firstWord (s : String) : String :=
  String.ofList ((trimLeft s.toList).takeWhile fun c => !isBlank c)

/-- Whether nothing is left of the text once it is trimmed. -/
def isBlankText (s : String) : Bool :=
  s.toList.all isBlank

end Mailroom.Text
