import Mailroom.Hypertext.Rendered
import Mailroom.Message.Basic

/-! The text of a message: the plain body if there is one, else the hypertext body rendered. -/

namespace Mailroom

/-- A body as text to read, given its type. -/
def renderedBody (body mediaType : String) : String :=
  if mediaType = "text/html" then Hypertext.rendered body else Text.trim body

namespace Message

def text (m : Message) : String :=
  if m.plainBody.isEmpty then renderedBody m.htmlBody "text/html"
  else renderedBody m.plainBody "text/plain"

end Message

end Mailroom
