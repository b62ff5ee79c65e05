import Mailroom.Hypertext.Markdown
import Mailroom.Markdown.Reading
import Mailroom.Markdown.Writing

/-! Hypertext rendered as text to read: it becomes Markdown, which is read and written again so that
it has one form. -/

namespace Mailroom.Hypertext

open Mailroom.Text

/-- A character with blanks and joiners that take no room, and the space that does not break, as
spaces. -/
def spaceFor (c : Char) : Char :=
  if ['\u00A0', '\u200B', '\u200C', '\u200D', '\uFEFF'].contains c then ' ' else c

/-- The start of what stands for an image, with its bracket escaped. -/
def escapedImage : List Char := '\\' :: "[image:".toList

/-- The characters with the bracket of each image not escaped. Fuel is their number. -/
def withImages : Nat → List Char → List Char
  | 0, cs => cs
  | _ + 1, [] => []
  | fuel + 1, c :: cs =>
    match after? escapedImage (c :: cs) with
    | some rest => escapedImage.tail ++ withImages fuel rest
    | none => c :: withImages fuel cs

/-- Hypertext as text to read. -/
def rendered (s : String) : String :=
  let plain := (markdown s.toList).map spaceFor
  let tidy := Markdown.write (Markdown.read plain)
  trim (String.ofList (withImages tidy.length tidy))

end Mailroom.Hypertext
